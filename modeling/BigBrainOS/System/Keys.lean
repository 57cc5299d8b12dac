import BigBrainOS.System.Effects
import BigBrainOS.Display.Masking

/-!
# The modifiers of the keyboard along whole runs

Shift, control and alt are switches that some scan codes turn on and others turn
off, and caps lock is one that its code toggles. No step of the kernel but the
keyboard handler touches them, so what a key types is decided by the keys alone, also
when keys come in the middle of a launch or a halt, or for another terminal than the
one that runs.
-/

namespace BigBrainOS
set_option autoImplicit false

/-! ## Switches -/

section Switches
variable {α : Type} [DecidableEq α]

/-- A switch that the elements of `down` turn on and those of `up` turn off. -/
def latch (down up : List α) (on : Bool) (c : α) : Bool :=
  if c ∈ down then true else if c ∈ up then false else on

/-- Behind `codes` the switch is on: nothing turned it off since it was on at the start, or since the
last time that it was turned on. -/
def Held (down up : List α) (start : Bool) (codes : List α) : Prop :=
  (start = true ∧ ∀ c ∈ codes, c ∉ up) ∨
    ∃ before c after, codes = before ++ c :: after ∧ c ∈ down ∧ ∀ d ∈ after, d ∉ up

theorem latch_true {down up : List α} {on : Bool} {c : α} :
    latch down up on c = true ↔ c ∈ down ∨ on = true ∧ c ∉ up := by
  unfold latch
  split
  · next pressed => exact iff_of_true rfl (Or.inl pressed)
  split
  · next other released => exact iff_of_false Bool.false_ne_true (by tauto)
  · next other kept => tauto

/-- One more code in front. -/
theorem held_cons {down up : List α} {on : Bool} {c : α} {codes : List α} :
    Held down up (latch down up on c) codes ↔ Held down up on (c :: codes) := by
  constructor
  · rintro (⟨started, kept⟩ | ⟨before, d, after, rfl, pressed, kept⟩)
    · rcases latch_true.1 started with pressed | ⟨started, here⟩
      · exact Or.inr ⟨[], c, codes, rfl, pressed, kept⟩
      · exact Or.inl ⟨started, List.forall_mem_cons.2 ⟨here, kept⟩⟩
    · exact Or.inr ⟨c :: before, d, after, rfl, pressed, kept⟩
  · rintro (⟨started, kept⟩ | ⟨before, d, after, split, pressed, kept⟩)
    · obtain ⟨here, rest⟩ := List.forall_mem_cons.1 kept
      exact Or.inl ⟨latch_true.2 (Or.inr ⟨started, here⟩), rest⟩
    · cases before with
      | nil =>
        obtain ⟨rfl, rfl⟩ := List.cons.inj split
        exact Or.inl ⟨latch_true.2 (Or.inl pressed), kept⟩
      | cons b before =>
        obtain ⟨rfl, rfl⟩ := List.cons.inj split
        exact Or.inr ⟨before, d, after, rfl, pressed, kept⟩

/-- **What a switch is after many codes.** -/
theorem latch_foldl (down up : List α) (codes : List α) (on : Bool) :
    codes.foldl (latch down up) on = true ↔ Held down up on codes := by
  induction codes generalizing on with
  | nil =>
    constructor
    · exact fun started => Or.inl ⟨started, fun c none => absurd none List.not_mem_nil⟩
    · rintro (⟨started, -⟩ | ⟨before, c, after, split, -⟩)
      · exact started
      · exact absurd split.symm (List.append_ne_nil_of_right_ne_nil before (List.cons_ne_nil c after))
  | cons c codes ih =>
    rw [List.foldl_cons, ih]
    exact held_cons

/-- A switch that one code toggles. -/
def toggle (code : α) (on : Bool) (c : α) : Bool := if c = code then !on else on

theorem toggle_foldl (code : α) (codes : List α) (on : Bool) :
    codes.foldl (toggle code) on = (on ^^ decide (codes.count code % 2 = 1)) := by
  induction codes generalizing on with
  | nil => simp only [List.foldl_nil, List.count_nil, Nat.zero_mod, Nat.zero_ne_one, decide_false, Bool.xor_false]
  | cons c codes ih =>
    rw [List.foldl_cons, ih, toggle]
    by_cases same : c = code
    · rw [if_pos same, same, List.count_cons_self]
      by_cases odd : codes.count code % 2 = 1
      · have even : ¬ (codes.count code + 1) % 2 = 1 := by omega
        rw [decide_eq_true odd, decide_eq_false even, Bool.xor_true, Bool.xor_false, Bool.not_not]
      · have next : (codes.count code + 1) % 2 = 1 := by omega
        rw [decide_eq_false odd, decide_eq_true next, Bool.xor_true, Bool.xor_false]
    · rw [if_neg same, List.count_cons_of_ne same]

end Switches

/-! ## The modifiers -/

structure Modifiers where
  shift : Bool
  control : Bool
  alt : Bool
  caps : Bool

def Kernel.modifiers (s : Kernel) : Modifiers := ⟨s.shiftPressed, s.controlPressed, s.altPressed, s.capsLockOn⟩

/-- The two shift keys are one switch, and only the left control and alt keys count. -/
def Modifiers.key (m : Modifiers) (scancode : UInt8) : Modifiers where
  shift := latch [0x2A, 0x36] [0xAA, 0xB6] m.shift scancode
  control := latch [0x1D] [0x9D] m.control scancode
  alt := latch [0x38] [0xB8] m.alt scancode
  caps := toggle 0x3A m.caps scancode

section Parts
variable {s s' : Kernel} {m : Modifiers}

theorem Output.modifiers (output : Output s s') : s'.modifiers = s.modifiers := by
  obtain ⟨ts, x, y, c, mem, rfl, -⟩ := output
  rfl

theorem OwnRecords.modifiers {addr : Nat} (own : OwnRecords addr s s') : s'.modifiers = s.modifiers := by
  obtain ⟨ps, ts, f, reg, flags, rfl, -⟩ := own
  rfl

/-- Every statement of `sys_execute` and `sys_halt`. -/
theorem modifiers_kept (m : Modifiers) : Kept fun s => s.modifiers = m where
  launch {l stmt s s'} same run := by
    cases stmt with
    | copy k =>
      obtain ⟨mem, rfl⟩ := writeByte_stored run
      exact same
    | printf =>
      obtain rfl := Option.some.inj run
      exact (puts_output _ _).modifiers.trans same
    | parPidRoot =>
      obtain rfl := Option.some.inj run
      split <;> exact same
    | _ =>
      obtain rfl := Option.some.inj run
      exact same
  halt {s} h stmt same := by
    cases stmt with
    | printf => exact (puts_output _ _).modifiers.trans same
    | close i =>
      obtain ⟨f, a, ps, closed, -⟩ := close_reprogrammed h i s
      rw [closed]
      exact same
    | _ => exact same
  enable pid same := same
  stored same stored := by
    obtain ⟨mem, rfl⟩ := stored
    exact same
  puts text same := (puts_output text _).modifiers.trans same

/-! ## Keys -/

theorem modifierKey_modifiers {scancode : UInt8} (modified : modifierKey scancode s = some s') :
    s'.modifiers = s.modifiers.key scancode := by
  unfold modifierKey at modified
  split at modified
  · next shift =>
    obtain rfl := Option.some.inj modified
    rcases shift with rfl | rfl <;> rfl
  split at modified
  · next shift =>
    obtain rfl := Option.some.inj modified
    rcases shift with rfl | rfl <;> rfl
  split at modified
  · next control => obtain rfl := Option.some.inj modified; rw [control]; rfl
  split at modified
  · next control => obtain rfl := Option.some.inj modified; rw [control]; rfl
  split at modified
  · next alt => obtain rfl := Option.some.inj modified; rw [alt]; rfl
  split at modified
  · next alt => obtain rfl := Option.some.inj modified; rw [alt]; rfl
  split at modified
  · next caps => obtain rfl := Option.some.inj modified; rw [caps]; rfl
  · cases modified

/-- Any other key leaves the switches as they are. -/
theorem modifierKey_none {scancode : UInt8} (other : modifierKey scancode s = none) (m : Modifiers) : m.key scancode = m := by
  unfold modifierKey at other
  (repeat' split at other) <;> try cases other
  next shift shift' control control' alt alt' caps =>
    simp only [not_or] at shift shift'
    simp only [Modifiers.key, latch, toggle, List.mem_cons, List.not_mem_nil, or_false, shift, shift', control, control', alt,
      alt', caps, if_false]

theorem backspace_modifiers (s : Kernel) : (backspace s).modifiers = s.modifiers := by
  unfold backspace
  split
  · rfl
  · exact (screenBackspace_output s).modifiers

theorem upArrow_modifiers (s : Kernel) : (upArrow s).modifiers = s.modifiers := by
  apply upArrow_rule (P := fun t => t.modifiers = s.modifiers) (Q := fun t => t.modifiers = s.modifiers) rfl
  · exact fun t same => (backspace_modifiers t).trans same
  · exact fun t same => (puts_output _ _).modifiers.trans same

theorem characterKey_modifiers (c : UInt8) (s : Kernel) : (characterKey c s).modifiers = s.modifiers := by
  unfold characterKey
  split
  · exact backspace_modifiers s
  split
  · exact (putc_output _ _).modifiers
  split
  · rfl
  · unfold printChar
    split
    · rfl
    · exact (putc_output _ _).modifiers

theorem switchTerminal_modifiers (n : Term) (s : Kernel) : (switchTerminal n s).modifiers = s.modifiers := by
  unfold switchTerminal
  split <;> rfl

theorem keyDown_modifiers (scancode : UInt8) (s : Kernel) : (keyDown scancode s).modifiers = s.modifiers := by
  unfold keyDown
  split
  · exact (controlL_output s).modifiers
  split
  · exact switchTerminal_modifiers 0 s
  split
  · exact switchTerminal_modifiers 1 s
  split
  · exact switchTerminal_modifiers 2 s
  · exact characterKey_modifiers _ s

/-- `KB_handler` works the switches and does nothing else to them. -/
theorem kbHandler_modifiers (scancode : UInt8) (s : Kernel) : (kbHandler scancode s).modifiers = s.modifiers.key scancode := by
  have arrow : (if scancode = 0x48 then upArrow s else s).modifiers = s.modifiers := by
    split
    · exact upArrow_modifiers s
    · rfl
  unfold kbHandler
  dsimp only
  generalize (if scancode = 0x48 then upArrow s else s) = s₁ at arrow ⊢
  rw [← arrow]
  split
  · next s' modified => exact modifierKey_modifiers modified
  · next other =>
    rw [modifierKey_none other]
    split
    · exact keyDown_modifiers scancode s₁
    · rfl

/-! ## The other interrupts and calls -/

theorem switchTo_modifiers (next : Term) (pid vidId : Int) (r : Regs) (s : Kernel) :
    (switchTo next pid vidId r s).2.modifiers = s.modifiers := by
  unfold switchTo
  split <;> rfl

theorem tick_modifiers (env : Env) (r : Regs) (fr : ExecFrame) (s : Kernel) :
    (switchRunningProcess env r fr s).2.modifiers = s.modifiers := by
  apply switchRunningProcess_rule (P := fun t => t.modifiers = s.modifiers) r rfl
  case mask =>
    intro t next same
    obtain ⟨on, mask, masked⟩ := maskKeyboard_quiet next t
    rw [masked]
    exact same
  case prepare =>
    intro t next vidId _ same
    unfold prepareTerminal
    dsimp only
    split <;> exact same
  case launch => exact fun t same => (modifiers_kept s.modifiers).sysExecute env fr (shellCommand env) same
  case switch => exact fun t next pid vidId _ same => (switchTo_modifiers next pid vidId r t).trans same

theorem sysVidmap_modifiers (tableAddr : Nat) (screenStart : BitVec 32) (s : Kernel) :
    (sysVidmap tableAddr screenStart s).2.modifiers = s.modifiers := by
  have stores : ∀ {n : Nat} {s₁ s₂ : Kernel}, s₁.storeBytes screenStart.toNat mb132.toNat n = some s₂ →
      s₂.modifiers = s₁.modifiers := by
    intro n
    induction n with
    | zero => intro s₁ s₂ stored; cases stored; rfl
    | succ n ih =>
      intro s₁ s₂ stored
      obtain ⟨s₃, first, last⟩ := Option.bind_eq_some_iff.1 stored
      exact (modifiers_kept s₁.modifiers).stored (ih first) (writeByte_stored last)
  unfold sysVidmap
  split
  · rfl
  split
  · rfl
  dsimp only
  split
  · rfl
  · next stored => exact (stores stored).trans rfl

/-! ## Files and devices -/

theorem Reprogrammed.modifiers (reprogrammed : Reprogrammed s s') : s'.modifiers = s.modifiers := by
  obtain ⟨f, reg, ps, rfl, -⟩ := reprogrammed
  rfl

theorem openHandler_modifiers (fot : Fot) (s : Kernel) : (openHandler fot s).modifiers = s.modifiers := by
  unfold openHandler rtcOpen
  split
  · dsimp only
    split
    · rfl
    · exact (rtcSetFrequency_reprogrammed _ _).modifiers.trans rfl
  · rfl

theorem sysOpen_modifiers (img : Image) (r : Regs) (filename : Bytes) (s : Kernel) :
    (sysOpen img r filename s).2.modifiers = s.modifiers := by
  cases found : img.readDentryByName filename with
  | none => rw [sysOpen_absent found]
  | some file =>
  cases free : getNewFd (s.currPcb r) with
  | none => rw [sysOpen_full free]
  | some fd =>
    simp only [sysOpen, found, free]
    exact (openHandler_modifiers _ _).trans rfl

theorem sysClose_modifiers (r : Regs) (fd : Fd) (s : Kernel) : (sysClose r fd s).2.modifiers = s.modifiers := by
  unfold sysClose
  dsimp only
  split
  · rfl
  split
  · rfl
  · exact (closeFile_reprogrammed _ _).modifiers.trans rfl

theorem readCall_modifiers (img : Image) (r : Regs) (fd : Fd) (buf : Option Bytes) (nbytes : Int) (s : Kernel) :
    (readCall img r fd buf nbytes s).modifiers = s.modifiers := by
  unfold readCall
  split
  · unfold fileRead
    dsimp only
    split <;> rfl
  · unfold dirRead
    dsimp only
    split
    · rfl
    split <;> rfl
  · rfl

theorem sysWriteCall_modifiers (r : Regs) (fd : Fd) (buf : Option Bytes) (nbytes : Int) (s : Kernel) :
    (sysWriteCall r fd buf nbytes s).2.modifiers = s.modifiers := by
  rcases sysWriteCall_cases r fd buf nbytes s with output | ⟨freq, same⟩
  · exact output.modifiers
  · exact (congrArg Kernel.modifiers same).trans (rtcWrite_own freq nbytes s).modifiers

end Parts

/-! ## All runs -/

/-- A step of the kernel, or a single statement of a `sys_execute` or `sys_halt` that
interrupts separate from the other statements of its call. -/
inductive SplitOp where
  | whole (op : SystemOp)
  | launch (l : Launch) (stmt : LaunchStmt)
  | halt (h : Halt) (stmt : HaltStmt)

def SplitOp.run (env : Env) (tableAddr : Nat) (op : SplitOp) (s : Kernel) : Kernel :=
  match op with
  | .whole op => op.run env tableAddr s
  | .launch l stmt => (stmt.run l s).getD s
  | .halt h stmt => stmt.run h s

/-- Steps and statements in any order: a key may come at any time, on whatever
terminal, and no step waits for another. -/
def splitCalls (env : Env) (tableAddr : Nat) : TransitionSystem Kernel SplitOp where
  ok _ _ := True
  next s op := op.run env tableAddr s

/-- The scan code that a step handles. -/
def SplitOp.scancode (op : SplitOp) : Option UInt8 :=
  match op with
  | .whole (.machine (.call (.key scancode))) => some scancode
  | _ => none

/-- The scan codes that a run handles. -/
def scancodesOf (ops : List SplitOp) : List UInt8 := ops.filterMap SplitOp.scancode

section Runs
variable {env : Env} {tableAddr : Nat} {s : Kernel}

/-- **Step lemma.** -/
theorem SplitOp.run_modifiers (op : SplitOp) (s : Kernel) :
    (op.run env tableAddr s).modifiers = op.scancode.elim s.modifiers s.modifiers.key := by
  cases op with
  | launch l stmt =>
    show ((stmt.run l s).getD s).modifiers = s.modifiers
    cases run : stmt.run l s with
    | none => rfl
    | some s' => exact (modifiers_kept s.modifiers).launch rfl run
  | halt h stmt => exact (modifiers_kept s.modifiers).halt h stmt rfl
  | whole op =>
    cases op with
    | machine op =>
      cases op with
      | call op =>
        cases op with
        | execute fr exc command => exact (modifiers_kept s.modifiers).executeCall env fr exc command rfl
        | halt fr status => exact (modifiers_kept s.modifiers).sysHalt env fr status rfl
        | tick r fr => exact tick_modifiers env r fr s
        | putc c => exact (putc_output c s).modifiers
        | key scancode => exact kbHandler_modifiers scancode s
      | vidmap screenStart => exact sysVidmap_modifiers tableAddr screenStart s
      | pageFault exc => exact (modifiers_kept s.modifiers).pfHandler env exc rfl
    | open_ r filename => exact sysOpen_modifiers env.img r filename s
    | close r fd => exact sysClose_modifiers r fd s
    | read r fd buf nbytes => exact readCall_modifiers env.img r fd buf nbytes s
    | write r fd buf nbytes => exact sysWriteCall_modifiers r fd buf nbytes s
    | wait stmt => exact (waitStmt_own stmt s).modifiers
    | clock => exact (rtHandler_own 0 s).modifiers
    | exception exc text => exact (modifiers_kept s.modifiers).sysHalt env exc haltStatusExc (puts_output _ s).modifiers
    | store lin b =>
      show (s.userStore lin.toNat b).modifiers = _
      unfold Kernel.userStore
      split <;> rfl

/-- **Run lemma.** -/
theorem splitCalls_modifiers (ops : List SplitOp) (s : Kernel) :
    ((splitCalls env tableAddr).exec s ops).modifiers = (scancodesOf ops).foldl Modifiers.key s.modifiers := by
  induction ops generalizing s with
  | nil => rfl
  | cons op ops ih =>
    have step : (op.run env tableAddr s).modifiers = op.scancode.elim s.modifiers s.modifiers.key := op.run_modifiers s
    refine (ih (op.run env tableAddr s)).trans ?_
    rw [step, scancodesOf, scancodesOf, List.filterMap_cons]
    cases op.scancode with
    | none => rfl
    | some scancode => rfl

theorem foldl_key (codes : List UInt8) (m : Modifiers) : codes.foldl Modifiers.key m =
    ⟨codes.foldl (latch [0x2A, 0x36] [0xAA, 0xB6]) m.shift, codes.foldl (latch [0x1D] [0x9D]) m.control,
      codes.foldl (latch [0x38] [0xB8]) m.alt, codes.foldl (toggle 0x3A) m.caps⟩ := by
  induction codes generalizing m with
  | nil => rfl
  | cons c codes ih => exact ih (m.key c)

/-- **The keys alone decide the modifiers.** From any state and whatever steps are taken, Shift is on
exactly if since the last press of a shift key no shift key was released, Ctrl and Alt likewise, and Caps
Lock is on exactly if its key came an odd number of times, both counted from what they were at the start. -/
theorem keys_decide_modifiers (env : Env) (tableAddr : Nat) (s : Kernel) (ops : List SplitOp) :
    let s' := (splitCalls env tableAddr).exec s ops
    (s'.shiftPressed = true ↔ Held [0x2A, 0x36] [0xAA, 0xB6] s.shiftPressed (scancodesOf ops)) ∧
      (s'.controlPressed = true ↔ Held [0x1D] [0x9D] s.controlPressed (scancodesOf ops)) ∧
      (s'.altPressed = true ↔ Held [0x38] [0xB8] s.altPressed (scancodesOf ops)) ∧
      s'.capsLockOn = (s.capsLockOn ^^ decide ((scancodesOf ops).count 0x3A % 2 = 1)) := by
  intro s'
  have run : s'.modifiers = _ := splitCalls_modifiers ops s
  rw [foldl_key] at run
  have shift : s'.shiftPressed = _ := congrArg Modifiers.shift run
  have control : s'.controlPressed = _ := congrArg Modifiers.control run
  have alt : s'.altPressed = _ := congrArg Modifiers.alt run
  have caps : s'.capsLockOn = _ := congrArg Modifiers.caps run
  rw [shift, control, alt, caps]
  exact ⟨latch_foldl _ _ _ _, latch_foldl _ _ _ _, latch_foldl _ _ _ _, toggle_foldl _ _ _⟩

end Runs

end BigBrainOS
