import BigBrainOS.Terminal.Editing
import BigBrainOS.Process.Boot

/-!
# Readers on all terminals

The system of the kernel and the calls of `terminal_read` on its terminals, with
the keys, the ticks of the clock and the statements of the calls in any order.
After Enter a call carries the line through its statements, and only a
`clear_buffer` that meets the line in front of the copy takes it away.
-/

namespace BigBrainOS
set_option autoImplicit false

/-! ## The system -/

/-- The kernel, and the last call of `terminal_read` on each terminal. -/
structure LineRun where
  kernel : Kernel
  reader : Term → Option (ReadCall × ReadStage)

inductive LineOp where
  | call (op : Op)
  /-- The running process calls `terminal_read`. -/
  | read (c : ReadCall)
  /-- The next statement of its call. -/
  | next

/-- The process on terminal `t` is not inside a `terminal_read`. -/
def LineRun.Idle (q : LineRun) (t : Term) : Prop :=
  match q.reader t with
  | some (_, .returned _ _) => True
  | some _ => False
  | none => True

def LineRun.call (q : LineRun) (env : Env) (op : Op) : LineRun := { q with kernel := op.run env q.kernel }

def LineRun.read (q : LineRun) (c : ReadCall) : LineRun :=
  { q with reader := Function.update q.reader q.kernel.currProcess (some (c, .reset)) }

def LineRun.next (q : LineRun) : LineRun :=
  match q.reader q.kernel.currProcess with
  | none => q
  | some (c, stage) =>
    let (stage', s') := stage.run c q.kernel
    ⟨s', Function.update q.reader q.kernel.currProcess (some (c, stage'))⟩

/-- Keys and ticks arrive at any time; a process makes one call at a time. -/
def lineCalls (env : Env) : TransitionSystem LineRun LineOp where
  ok q op :=
    match op with
    | .call (.key _) => True
    | .call (.tick _ _) => True
    | .call _ => q.Idle q.kernel.currProcess
    | .read _ => q.Idle q.kernel.currProcess
    | .next => True
  next q op :=
    match op with
    | .call op => q.call env op
    | .read c => q.read c
    | .next => q.next

/-- After `entry`, before the first call. -/
def LineRun.Start (q : LineRun) : Prop := (∃ m, q.kernel = entry m) ∧ ∀ t, q.reader t = none

/-! ### What is claimed -/

/-- The caller's buffer starts with the line, cut to `nbytes - 1` characters, and a line feed. -/
def Delivers (nbytes : Int) (buf : Bytes) (line : List UInt8) : Prop :=
  let text := line.take (nbytes.toNat - 1)
  (List.range (text.length + 1)).map buf = text ++ [0x0A]

/-- The process on `t` stays in its call, and Enter is not pressed on `t`. -/
def SameCall (t : Term) (q : LineRun) (op : LineOp) : Prop :=
  match op with
  | .call (.key scancode) => scancode = enterScancode → q.kernel.currTer ≠ t
  | .read _ => q.kernel.currProcess ≠ t
  | _ => True

/-- The call stands in front of the statement `clear_buffer()`. -/
def ReadStage.atClear : ReadStage → Bool
  | .clear _ => true
  | _ => false

/-- The call has not copied its line yet. -/
def ReadStage.beforeCopy : ReadStage → Bool
  | .wait => true
  | .copy => true
  | _ => false

/-- The next statement is a `clear_buffer` that erases the line of `t` before it is copied. -/
def LineRun.erases (t : Term) (q : LineRun) (op : LineOp) : Bool :=
  match op with
  | .next => (q.reader q.kernel.currProcess).any (fun r => r.2.atClear) && decide (q.kernel.currTer = t) &&
      (q.reader t).any fun r => r.2.beforeCopy
  | _ => false

/-- A step of the run erases the line of `t` before it is copied. -/
def erasedDuring (env : Env) (t : Term) : LineRun → List LineOp → Bool
  | _, [] => false
  | q, op :: ops => q.erases t op || erasedDuring env t ((lineCalls env).next q op) ops

/-- 1 if the step is a statement of the call on `t`. -/
def LineRun.own (t : Term) (q : LineRun) (op : LineOp) : Nat :=
  match op with
  | .next => if q.kernel.currProcess = t then 1 else 0
  | _ => 0

/-- The number of statements of its call that the process on `t` runs. -/
def ownSteps (env : Env) (t : Term) : LineRun → List LineOp → Nat
  | _, [] => 0
  | q, op :: ops => q.own t op + ownSteps env t ((lineCalls env).next q op) ops

/-! ## Ending a line -/

/-- The loop that ends the line puts the line feed at the first zero. -/
theorem endLine_eq {b : Bytes} {z : Nat} (zero : b z = 0) :
    ∀ n i, (∀ k, i ≤ k → k < z → b k ≠ 0) → i ≤ z → z < i + n → endLine n i b = Function.update b z 0x0A := by
  intro n
  induction n with
  | zero => intro i _ low high; omega
  | succ n ih =>
    intro i nonzero low high
    by_cases here : i = z
    · rw [endLine, if_pos (by rw [here]; exact zero), here]
    · rw [endLine, if_neg (nonzero i (Nat.le_refl i) (by omega))]
      exact ih (i + 1) (fun k from_ => nonzero k (by omega)) (by omega) (by omega)

/-- What it means that a buffer starts with a list. -/
theorem map_range_eq_iff {buf : Bytes} {l : List UInt8} {n : Nat} (length : l.length = n) :
    (List.range n).map buf = l ↔ ∀ i < n, buf i = l.getD i 0 := by
  constructor
  · intro same i inside
    have at_i := congrArg (fun l => l.getD i 0) same
    simpa [List.getD_eq_getElem?_getD, List.getElem?_range inside] using at_i
  · intro same
    apply List.ext_getElem (by simp [length])
    intro i _ inside
    have at_i := same i (by omega)
    simpa [List.getD_eq_getElem?_getD, inside] using at_i

/-- What it means that a buffer delivers a line, byte by byte. -/
theorem delivers_iff {nbytes : Int} {buf : Bytes} {line : List UInt8} :
    Delivers nbytes buf line ↔ (∀ i < min (nbytes.toNat - 1) line.length, buf i = line.getD i 0) ∧
      buf (min (nbytes.toNat - 1) line.length) = 0x0A := by
  unfold Delivers
  dsimp only
  rw [map_range_eq_iff (by simp), List.length_take]
  generalize cut : min (nbytes.toNat - 1) line.length = n
  have text : ∀ i < n, (line.take (nbytes.toNat - 1) ++ [0x0A]).getD i 0 = line.getD i 0 := by
    intro i inside
    rw [List.getD_eq_getElem?_getD, List.getElem?_append_left (by rw [List.length_take]; omega),
      List.getElem?_take_of_lt (by omega), List.getD_eq_getElem?_getD]
  have feed : (line.take (nbytes.toNat - 1) ++ [0x0A]).getD n 0 = 0x0A := by
    rw [List.getD_eq_getElem?_getD, List.getElem?_append_right (by rw [List.length_take]; omega), List.length_take, cut,
      Nat.sub_self]
    rfl
  constructor
  · intro all
    refine ⟨fun i inside => ?_, ?_⟩
    · rw [all i (by omega), text i inside]
    · rw [all n (by omega), feed]
  · rintro ⟨before, last⟩ i inside
    by_cases end_ : i = n
    · rw [end_, last, feed]
    · rw [before i (by omega), text i (by omega)]

/-- A buffer delivers one line only, up to the cut. -/
theorem Delivers.unique {nbytes : Int} {buf : Bytes} {line : List UInt8} (delivers : Delivers nbytes buf line)
    (empty : Delivers nbytes buf []) (text : ∀ b ∈ line, IsText b) : line.take (nbytes.toNat - 1) = [] := by
  obtain ⟨before, -⟩ := delivers_iff.1 delivers
  obtain ⟨-, feed⟩ := delivers_iff.1 empty
  rw [List.length_nil, Nat.min_zero] at feed
  by_contra nonempty
  have some_ : 0 < min (nbytes.toNat - 1) line.length := by
    rw [← List.length_take]
    exact List.length_pos_iff.2 nonempty
  have inside : 0 < line.length := by omega
  have first := before 0 some_
  rw [feed, List.getD_eq_getElem?_getD, List.getElem?_eq_getElem inside, Option.getD_some] at first
  exact (text _ (List.getElem_mem inside)).2 first.symm

/-! ## What a call carries -/

/-- The first `BUF_SIZE` bytes are the line and zeros. -/
def HoldsLine (typed : Bytes) (line : List UInt8) : Prop := ∀ i < bufSize, typed i = line.getD i 0

/-- A line that fits the buffer and has no zero in it. -/
structure IsLine (line : List UInt8) : Prop where
  short : line.length < bufSize
  text : ∀ b ∈ line, IsText b

/-- After Enter the call has the line `line` in its hands, and the terminal counts `written` bytes. -/
def Carries (c : ReadCall) (line : List UInt8) (written : Nat) (t : TerminalState) : ReadStage → Prop
  | .reset => False
  | .wait => t.bufferUpdated = true ∧ t.writtenBytes = written ∧ HoldsLine t.typed line
  | .copy => t.writtenBytes = written ∧ HoldsLine t.typed line
  | .finish finalBuf => t.writtenBytes = written ∧ ∀ i < c.count, finalBuf i = line.getD i 0
  | .clear finalBuf => t.writtenBytes = written ∧ Delivers c.nbytes finalBuf line
  | .deliver finalBuf => t.writtenBytes = written ∧ Delivers c.nbytes finalBuf line
  | .ret buf => t.writtenBytes = written ∧ Delivers c.nbytes buf line
  | .returned buf value => value = written ∧ Delivers c.nbytes buf line

/-- The statements that are left of a call after Enter. -/
def ReadStage.left : ReadStage → Nat
  | .reset => 7
  | .wait => 6
  | .copy => 5
  | .finish _ => 4
  | .clear _ => 3
  | .deliver _ => 2
  | .ret _ => 1
  | .returned _ _ => 0

section Carry
variable {c : ReadCall} {line : List UInt8} {written : Nat} {t t' : TerminalState} {stage : ReadStage}

theorem ReadCall.count_eq (c : ReadCall) : c.count = min c.nbytes.toNat bufSize ∧ 1 ≤ c.count := by
  have positive := c.positive
  simp only [ReadCall.count, clampRead, bufSize]
  split <;> omega

/-- Only the completed line of the terminal matters. -/
theorem Carries.congr (carries : Carries c line written t stage) (typed : t'.typed = t.typed)
    (updated : t'.bufferUpdated = t.bufferUpdated) (bytes : t'.writtenBytes = t.writtenBytes) :
    Carries c line written t' stage := by
  cases stage with
  | reset => exact carries
  | wait => exact ⟨updated.trans carries.1, bytes.trans carries.2.1, by rw [typed]; exact carries.2.2⟩
  | copy => exact ⟨bytes.trans carries.1, by rw [typed]; exact carries.2⟩
  | finish => exact ⟨bytes.trans carries.1, carries.2⟩
  | clear => exact ⟨bytes.trans carries.1, carries.2⟩
  | deliver => exact ⟨bytes.trans carries.1, carries.2⟩
  | ret => exact ⟨bytes.trans carries.1, carries.2⟩
  | returned => exact carries

/-- The copied line, ended. -/
theorem endLine_delivers (isLine : IsLine line) {finalBuf : Bytes} (copied : ∀ i < c.count, finalBuf i = line.getD i 0) :
    Delivers c.nbytes (endLine c.count 0 (Function.update finalBuf (c.count - 1) 0)) line := by
  obtain ⟨count, positive⟩ := c.count_eq
  have short := isLine.short
  simp only [bufSize] at count short
  generalize cut : min (c.nbytes.toNat - 1) line.length = z
  have zero : Function.update finalBuf (c.count - 1) 0 z = 0 := by
    by_cases last : z = c.count - 1
    · rw [last, Function.update_self]
    · rw [Function.update_of_ne last, copied z (by omega), List.getD_eq_getElem?_getD, List.getElem?_eq_none (by omega)]
      rfl
  have text : ∀ k < z, Function.update finalBuf (c.count - 1) 0 k = line.getD k 0 ∧ line.getD k 0 ≠ 0 := by
    intro k below
    have inside : k < line.length := by omega
    rw [Function.update_of_ne (by omega), copied k (by omega), List.getD_eq_getElem?_getD,
      List.getElem?_eq_getElem inside, Option.getD_some]
    exact ⟨rfl, (isLine.text _ (List.getElem_mem inside)).1⟩
  rw [endLine_eq zero c.count 0 (fun k _ below => by rw [(text k below).1]; exact (text k below).2) (Nat.zero_le z)
    (by omega), delivers_iff, cut]
  refine ⟨fun i below => ?_, Function.update_self _ _ _⟩
  rw [Function.update_of_ne (by omega), (text i below).1]

/-- The copy to the caller's buffer. -/
theorem Delivers.memcpy {finalBuf : Bytes} (delivers : Delivers c.nbytes finalBuf line) (isLine : IsLine line) :
    Delivers c.nbytes (memcpy c.buf finalBuf c.count) line := by
  obtain ⟨count, positive⟩ := c.count_eq
  have short := isLine.short
  simp only [bufSize] at count short
  obtain ⟨before, feed⟩ := delivers_iff.1 delivers
  refine delivers_iff.2 ⟨fun i below => ?_, ?_⟩
  · rw [BigBrainOS.memcpy, if_pos (by omega)]
    exact before i below
  · rw [BigBrainOS.memcpy, if_pos (by omega)]
    exact feed

/-- `clear_buffer` leaves the count alone. -/
theorem clearBuffer_writtenBytes (s : Kernel) (u : Term) :
    ((clearBuffer s).terminals u).writtenBytes = (s.terminals u).writtenBytes := by
  revert u
  apply s.setTerminal_forall (P := fun u t => t.writtenBytes = (s.terminals u).writtenBytes)
  · rfl
  · exact fun _ _ => rfl

/-- **Own step.** A statement of the call itself keeps what it carries and leaves one statement less. -/
theorem Carries.own {s : Kernel} (carries : Carries c line written (s.terminals s.currProcess) stage) (isLine : IsLine line) :
    Carries c line written ((stage.run c s).2.terminals s.currProcess) (stage.run c s).1 ∧
      (stage.run c s).1.left = stage.left - 1 := by
  cases stage with
  | reset => exact carries.elim
  | wait =>
    simp only [ReadStage.run, carries.1, if_true]
    exact ⟨carries.2, rfl⟩
  | copy =>
    refine ⟨⟨carries.1, fun i inside => ?_⟩, rfl⟩
    obtain ⟨count, -⟩ := c.count_eq
    rw [BigBrainOS.memcpy, if_pos inside]
    exact carries.2 i (by omega)
  | finish => exact ⟨⟨carries.1, endLine_delivers isLine carries.2⟩, rfl⟩
  | clear =>
    refine ⟨⟨?_, carries.2⟩, rfl⟩
    exact (clearBuffer_writtenBytes s s.currProcess).trans carries.1
  | deliver => exact ⟨⟨carries.1, carries.2.memcpy isLine⟩, rfl⟩
  | ret => exact ⟨⟨by rw [← carries.1], carries.2⟩, rfl⟩
  | returned => exact ⟨carries, rfl⟩

/-- A `clear_buffer` on the terminal before the copy leaves the call an empty line. -/
theorem Carries.cleared (carries : Carries c line written t stage) :
    Carries c (if stage.beforeCopy then [] else line) written
      { t with typed := fun i => if i < bufSize then 0 else t.typed i } stage := by
  have empty : HoldsLine (fun i => if i < bufSize then 0 else t.typed i) [] := by
    intro i inside
    dsimp only
    rw [if_pos inside]
    rfl
  cases stage with
  | reset => exact carries
  | wait => exact ⟨carries.1, carries.2.1, empty⟩
  | copy => exact ⟨carries.1, empty⟩
  | finish => exact carries
  | clear => exact carries
  | deliver => exact carries
  | ret => exact carries
  | returned => exact carries

end Carry

/-! ## Steps -/

section Steps
variable {env : Env} {q : LineRun} {t : Term}

/-- A call of the kernel edits the line of `t` unless it is Enter on `t`. -/
theorem Op.run_edited (env : Env) (op : Op) (s : Kernel)
    (noEnter : ∀ scancode, op = .key scancode → scancode = enterScancode → s.currTer ≠ t) :
    Edited (s.terminals t) ((op.run env s).terminals t) := by
  have kept := SameLines.kept s
  cases op with
  | execute fr exc command => exact .of_same ((kept.executeCall env fr exc command (.refl s)).line t)
  | halt fr status => exact .of_same ((kept.sysHalt env fr status (.refl s)).line t)
  | tick r fr => exact .of_same ((SameLines.tick env r fr s).line t)
  | putc c => exact .of_same ((SameLines.of_output (putc_output c s)).line t)
  | key scancode =>
    by_cases enter : scancode = enterScancode
    · have other := noEnter scancode rfl enter
      show Edited _ ((kbHandler scancode s).terminals t)
      rw [enter, kbHandler_enter]
      have same := (enterKey_lines s).line t
      rw [Kernel.setTerminal_of_ne _ _ (Ne.symm other)] at same
      exact .of_same same
    · exact kbHandler_edited enter s t

/-- Enter on `t` completes its line. -/
theorem enter_line (env : Env) (s : Kernel) :
    SameLine (submitLine (s.terminals s.currTer)) ((Op.run env (.key enterScancode) s).terminals s.currTer) := by
  have same := (enterKey_lines s).line s.currTer
  rw [Kernel.setTerminal_self] at same
  show SameLine _ ((kbHandler enterScancode s).terminals s.currTer)
  rw [kbHandler_enter]
  exact same

theorem Op.run_editable (env : Env) (op : Op) (s : Kernel) (editable : Editable (s.terminals t)) :
    Editable ((op.run env s).terminals t) := by
  by_cases enter : op = .key enterScancode ∧ s.currTer = t
  · obtain ⟨rfl, rfl⟩ := enter
    exact (Edited.of_same (enter_line env s)).editable editable.submitLine
  · apply (Op.run_edited env op s ?_).editable editable
    rintro scancode rfl rfl shown
    exact enter ⟨rfl, shown⟩

/-- A statement of a call on another terminal touches the line of `t` only to clear it. -/
theorem ReadStage.run_other (stage : ReadStage) (c : ReadCall) {s : Kernel} (other : s.currProcess ≠ t) :
    (stage.run c s).2.terminals t = if stage.atClear ∧ s.currTer = t
      then { s.terminals t with typed := fun i => if i < bufSize then 0 else (s.terminals t).typed i } else s.terminals t := by
  cases stage with
  | reset =>
    rw [if_neg (by rintro ⟨h, -⟩; cases h)]
    show (resetUpdated s).terminals t = _
    exact Kernel.setTerminal_of_ne _ _ (Ne.symm other)
  | wait =>
    rw [if_neg (by rintro ⟨h, -⟩; cases h)]
    simp only [ReadStage.run]
    split <;> rfl
  | clear =>
    show (clearBuffer s).terminals t = _
    unfold clearBuffer
    by_cases shown : s.currTer = t
    · rw [if_pos ⟨rfl, shown⟩, shown, Kernel.setTerminal_self]
    · rw [if_neg fun h => shown h.2, Kernel.setTerminal_of_ne _ _ (Ne.symm shown)]
  | _ =>
    rw [if_neg (by rintro ⟨h, -⟩; cases h)]
    rfl

theorem Editable.setTerminal {s : Kernel} {u : Term} {f : TerminalState → TerminalState}
    (editable : Editable (s.terminals t)) (keeps : ∀ x, Editable x → Editable (f x)) :
    Editable ((s.setTerminal u f).terminals t) := by
  by_cases own : t = u
  · rw [← own, Kernel.setTerminal_self]
    exact keeps _ editable
  · rw [Kernel.setTerminal_of_ne _ _ own]
    exact editable

/-- The statements of a call leave the line in the making alone. -/
theorem Editable.read {s : Kernel} (editable : Editable (s.terminals t)) (stage : ReadStage) (c : ReadCall) :
    Editable ((stage.run c s).2.terminals t) := by
  cases stage with
  | reset =>
    show Editable ((resetUpdated s).terminals t)
    apply editable.setTerminal
    exact fun x e => ⟨e.short, e.text, e.history, e.ended⟩
  | wait =>
    simp only [ReadStage.run]
    split <;> exact editable
  | clear =>
    show Editable ((clearBuffer s).terminals t)
    apply editable.setTerminal
    exact fun x e => ⟨e.short, e.text, e.history, e.ended⟩
  | _ => exact editable

/-- In every run the lines in the making stay lines. -/
theorem editable_of_reach (reach : (lineCalls env).Reach LineRun.Start q) (t : Term) : Editable (q.kernel.terminals t) := by
  refine reach.invariant (P := fun q => Editable (q.kernel.terminals t)) ?_ ?_
  · rintro q ⟨⟨m, start⟩, -⟩
    rw [start]
    have fresh : Editable initTerminal :=
      ⟨by decide, fun i below => absurd below (Nat.not_lt_zero i), fun i _ => show (0 : UInt8) ≠ 0x0A by decide, rfl⟩
    exact fresh
  · intro q op editable _
    cases op with
    | call op => exact Op.run_editable env op q.kernel editable
    | read c => exact editable
    | next =>
      show Editable (q.next.kernel.terminals t)
      unfold LineRun.next
      split
      · exact editable
      · exact editable.read _ _

/-- A reader in front of its own `clear_buffer` has copied its line. -/
theorem LineRun.own_not_erases (own : q.kernel.currProcess = t) : q.erases t .next = false := by
  subst own
  simp only [LineRun.erases]
  cases q.reader q.kernel.currProcess with
  | none => rfl
  | some r =>
    obtain ⟨c, stage⟩ := r
    cases stage <;> simp [ReadStage.atClear, ReadStage.beforeCopy]

/-- **Step lemma.** While its process stays in the call and Enter is not pressed again, the
call keeps its line unless another reader's `clear_buffer` erases it before the copy. -/
theorem Carries.step (env : Env) {c : ReadCall} {line : List UInt8} {written : Nat} {stage : ReadStage} {op : LineOp}
    (carries : Carries c line written (q.kernel.terminals t) stage) (reader : q.reader t = some (c, stage))
    (isLine : IsLine line) (same : SameCall t q op) :
    ∃ stage', ((lineCalls env).next q op).reader t = some (c, stage') ∧
      Carries c (if q.erases t op then [] else line) written (((lineCalls env).next q op).kernel.terminals t) stage' ∧
      stage'.left = stage.left - q.own t op := by
  cases op with
  | call op =>
    refine ⟨stage, reader, ?_, rfl⟩
    have edited : Edited (q.kernel.terminals t) ((op.run env q.kernel).terminals t) := by
      apply Op.run_edited
      rintro scancode rfl enter
      exact same enter
    exact carries.congr edited.typed edited.bufferUpdated edited.writtenBytes
  | read c' =>
    refine ⟨stage, ?_, carries, rfl⟩
    exact (Function.update_of_ne (Ne.symm same) _ _).trans reader
  | next =>
    show ∃ stage', q.next.reader t = some (c, stage') ∧ Carries c _ written (q.next.kernel.terminals t) stage' ∧ _
    by_cases own : q.kernel.currProcess = t
    · have kept := LineRun.own_not_erases own
      subst own
      obtain ⟨carries', left⟩ := carries.own isLine
      simp only [LineRun.next, reader, kept, LineRun.own, if_true]
      exact ⟨_, Function.update_self _ _ _, carries', left⟩
    · simp only [LineRun.next, LineRun.own, if_neg own]
      cases running : q.reader q.kernel.currProcess with
      | none =>
        have kept : q.erases t .next = false := by simp [LineRun.erases, running]
        rw [kept]
        exact ⟨stage, reader, carries, rfl⟩
      | some r =>
        obtain ⟨c', stage'⟩ := r
        have erases : q.erases t .next = true ↔ (stage'.atClear = true ∧ q.kernel.currTer = t) ∧ stage.beforeCopy = true := by
          simp [LineRun.erases, running, reader]
        refine ⟨stage, (Function.update_of_ne (Ne.symm own) _ _).trans reader, ?_, rfl⟩
        dsimp only
        rw [stage'.run_other c' own]
        by_cases clears : stage'.atClear = true ∧ q.kernel.currTer = t
        · rw [if_pos clears]
          have cleared := carries.cleared
          have same : (q.erases t .next = true) ↔ stage.beforeCopy = true := erases.trans (and_iff_right clears)
          simp only [same]
          exact cleared
        · rw [if_neg clears, if_neg fun h => clears (erases.1 h).1]
          exact carries

/-- An empty line is a line. -/
theorem IsLine.nil : IsLine [] := ⟨by decide, fun b member => by cases member⟩

/-- **Run lemma.** -/
theorem Carries.run {c : ReadCall} {written : Nat} {ops : List LineOp} :
    ∀ {q : LineRun} {line : List UInt8} {stage : ReadStage}, Carries c line written (q.kernel.terminals t) stage →
      q.reader t = some (c, stage) → IsLine line → ((lineCalls env).restrict (SameCall t)).Allowed q ops →
      ∃ stage', ((lineCalls env).exec q ops).reader t = some (c, stage') ∧
        Carries c (if erasedDuring env t q ops then [] else line) written
          (((lineCalls env).exec q ops).kernel.terminals t) stage' ∧
        stage'.left = stage.left - ownSteps env t q ops := by
  induction ops with
  | nil =>
    intro q line stage carries reader _ _
    exact ⟨stage, reader, carries, rfl⟩
  | cons op ops ih =>
    intro q line stage carries reader isLine allowed
    obtain ⟨stage₁, reader₁, carries₁, left₁⟩ := carries.step env reader isLine allowed.1.2
    have isLine₁ : IsLine (if q.erases t op then [] else line) := by
      split
      · exact .nil
      · exact isLine
    obtain ⟨stage', reader', carries', left'⟩ := ih carries₁ reader₁ isLine₁ allowed.2
    refine ⟨stage', reader', ?_, ?_⟩
    · rw [erasedDuring]
      cases erased : q.erases t op
      · rw [erased] at carries'
        exact carries'
      · rw [erased] at carries'
        simp only [if_true, ite_self] at carries'
        exact carries'
    · rw [left', left₁, ownSteps]
      omega

/-- The terminal that a waiting call finds after Enter. -/
theorem enterKey_typed (s : Kernel) :
    ((enterKey s).terminals s.currTer).bufferUpdated = true ∧
      ((enterKey s).terminals s.currTer).writtenBytes = (s.terminals s.currTer).lineText.length + 1 ∧
      HoldsLine ((enterKey s).terminals s.currTer).typed (s.terminals s.currTer).lineText := by
  have same := (enterKey_lines s).line s.currTer
  rw [Kernel.setTerminal_self] at same
  refine ⟨same.bufferUpdated, same.writtenBytes.trans ?_, fun i inside => ?_⟩
  · show (s.terminals s.currTer).bufLen + 1 = _
    rw [TerminalState.lineText, List.length_map, List.length_range]
  · refine (congrFun same.typed i).trans ?_
    exact submitLine_typed _ inside

/-- What Enter leaves a waiting call with. -/
theorem enter_carries (env : Env) (c : ReadCall) (shown : q.kernel.currTer = t) :
    Carries c (q.kernel.terminals t).lineText ((q.kernel.terminals t).lineText.length + 1)
      (((lineCalls env).next q (.call (.key enterScancode))).kernel.terminals t) .wait := by
  subst shown
  show Carries c _ _ ((kbHandler enterScancode q.kernel).terminals q.kernel.currTer) .wait
  rw [kbHandler_enter]
  exact enterKey_typed q.kernel

/-- The line that Enter completes. -/
theorem Editable.isLine {t : TerminalState} (editable : Editable t) : IsLine t.lineText := by
  refine ⟨?_, fun b member => ?_⟩
  · rw [TerminalState.lineText, List.length_map, List.length_range]
    exact editable.short
  · obtain ⟨i, inside, rfl⟩ := List.mem_map.1 member
    exact editable.text i (List.mem_range.1 inside)

end Steps

end BigBrainOS
