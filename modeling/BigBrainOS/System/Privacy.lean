import BigBrainOS.System.Runs
import BigBrainOS.Process.Loader

/-!
# What a process keeps to itself

Two runs with the same steps, from states that differ in the frame of one process
only. Nothing that the kernel does depends on these bytes, as long as it gets the same
names, commands and buffers: the calls return the same values and fill the same
buffers, and the states go on differing in that frame only.
-/

namespace BigBrainOS
set_option autoImplicit false

theorem Screen.Same.backspace {a b : Screen} (same : a.Same b) : a.backspace.Same b.backspace := by
  obtain ⟨v, x, y⟩ := a
  obtain ⟨w, x', y'⟩ := b
  obtain ⟨video, column, row⟩ := same
  dsimp only at video column row
  subst column row
  unfold Screen.backspace
  split <;> exact ⟨video.setCell _ _ _ _, rfl, rfl⟩

/-! ## Alike but for a frame -/

instance (q : Int) (a : Nat) : Decidable (InFrame q a) := inferInstanceAs (Decidable (_ ∧ _))

namespace Kernel
variable (s : Kernel)

def withMemory (m : Nat → UInt8) : Kernel := { s with phys := m }

end Kernel

/-- `t` is `s` but for the frame of `q`. -/
structure Alike (q : Int) (s t : Kernel) : Prop where
  paged : Paged s
  rest : t = s.withMemory t.phys
  memory : ∀ a, ¬ InFrame q a → t.phys a = s.phys a

/-- What a function does is not decided by memory, and it stores nothing. -/
def IgnoresMemory (f : Kernel → Kernel) : Prop := ∀ s m, f (s.withMemory m) = (f s).withMemory m

theorem IgnoresMemory.phys {f : Kernel → Kernel} (ignores : IgnoresMemory f) (s : Kernel) : (f s).phys = s.phys := by
  have same : f s = (f s).withMemory s.phys := ignores s s.phys
  rw [same]
  rfl

theorem IgnoresMemory.comp {f g : Kernel → Kernel} (hg : IgnoresMemory g) (hf : IgnoresMemory f) :
    IgnoresMemory fun s => g (f s) := by
  intro s m
  show g (f _) = _
  rw [hf, hg]

/-- A case distinction that memory does not decide. -/
theorem IgnoresMemory.ite {c : Kernel → Prop} [∀ s, Decidable (c s)] {f g : Kernel → Kernel}
    (same : ∀ s m, c (s.withMemory m) ↔ c s) (hf : IgnoresMemory f) (hg : IgnoresMemory g) :
    IgnoresMemory fun s => if c s then f s else g s := by
  intro s m
  dsimp only
  by_cases chosen : c s
  · rw [if_pos chosen, if_pos ((same s m).2 chosen)]
    exact hf s m
  · rw [if_neg chosen, if_neg fun h => chosen ((same s m).1 h)]
    exact hg s m

/-! ## What ignores memory -/

/-- A call whose answer and whose effect are not decided by memory. -/
def AnswersAlike {α : Type} (f : Kernel → α × Kernel) : Prop :=
  ∀ s m, f (s.withMemory m) = ((f s).1, (f s).2.withMemory m)

section Ignore
variable (r : Regs) (fd : Fd) (img : Image)

theorem setCursor_ignores : IgnoresMemory setCursor := by
  apply IgnoresMemory.comp (g := fun s => if s.onScreen = true then updateCursor s.screenX s.screenY s else s)
    (f := fun s => s.setTerminal s.currProcess fun t => { t with screenXSave := s.screenX, screenYSave := s.screenY })
  · exact .ite (fun _ _ => Iff.rfl) (fun _ _ => rfl) (fun _ _ => rfl)
  · exact fun _ _ => rfl

theorem maskKeyboard_ignores (next : Term) : IgnoresMemory (maskKeyboard next) :=
  .ite (fun _ _ => Iff.rfl) (fun _ _ => rfl) (fun _ _ => rfl)

theorem rtcOpen_ignores : IgnoresMemory rtcOpen :=
  .ite (fun _ _ => Iff.rfl) (fun _ _ => rfl) (fun _ _ => rfl)

theorem openHandler_ignores (fot : Fot) : IgnoresMemory (openHandler fot) :=
  .ite (c := fun _ => fot = .rtcFot) (fun _ _ => Iff.rfl) rtcOpen_ignores (fun _ _ => rfl)

theorem updateDivisors_ignores : IgnoresMemory updateDivisors := by
  intro s m
  apply List.foldl_hom fun s : Kernel => s.withMemory m
  intro s i
  have asks : (s.withMemory m).usedPids i = s.usedPids i ∧ (s.withMemory m).pcb i = s.pcb i := ⟨rfl, rfl⟩
  rw [asks.1, asks.2]
  split
  · simp only [Kernel.setPcb, Kernel.withMemory]
  · rfl

theorem rtcClose_ignores : IgnoresMemory rtcClose := by
  apply updateDivisors_ignores.comp (f := fun s => rtcSetFrequency (maxRequestedFreq s) { s with higherFreq := maxRequestedFreq s })
  exact fun _ _ => rfl

theorem closeFile_ignores (fot : Option Fot) : IgnoresMemory (closeFile fot) := by
  unfold closeFile
  split
  · exact rtcClose_ignores
  · exact fun _ _ => rfl

theorem modifierKey_alike (scancode : UInt8) (s : Kernel) (m : Nat → UInt8) :
    modifierKey scancode (s.withMemory m) = (modifierKey scancode s).map fun s => s.withMemory m := by
  unfold modifierKey
  split_ifs <;> rfl

theorem sysOpen_alike (filename : Bytes) : AnswersAlike (sysOpen img r filename) := by
  intro s m
  have own : (s.withMemory m).currPcb r = s.currPcb r := rfl
  cases found : img.readDentryByName filename with
  | none => simp only [sysOpen, found]
  | some file =>
    cases free : getNewFd (s.currPcb r) with
    | none => simp only [sysOpen, found, own, free]
    | some fd =>
      simp only [sysOpen, found, own, free]
      have opened := (openHandler_ignores (openFot filename file)).comp (f := fun s =>
        (resetStdio r (s.setFd r fd fun e => { e with enabled := true })).setFd r fd fun _ =>
          ⟨some (openFot filename file), file.inodeNum, 0, true, file.fileType = 2⟩) fun _ _ => rfl
      exact congrArg (Prod.mk _) (opened s m)

theorem sysClose_alike : AnswersAlike (sysClose r fd) := by
  intro s m
  have own : (s.withMemory m).currPcb r = s.currPcb r := rfl
  simp only [sysClose, own]
  split
  · rfl
  · split
    · rfl
    · next fot _ => 
      have closed := (closeFile_ignores (some fot)).comp (f := fun s => s.setFd r fd fun e => { e with enabled := false })
        fun _ _ => rfl
      exact congrArg (Prod.mk _) (closed s m)

theorem fileRead_alike (buf : Bytes) (nbytes : Int) (s : Kernel) (m : Nat → UInt8) :
    fileRead img r fd buf nbytes (s.withMemory m) = 
      ((fileRead img r fd buf nbytes s).1, (fileRead img r fd buf nbytes s).2.1, 
        (fileRead img r fd buf nbytes s).2.2.withMemory m) := by
  have own : (s.withMemory m).currPcb r = s.currPcb r := rfl
  simp only [fileRead, own]
  split <;> rfl

theorem dirRead_alike (buf : Bytes) (s : Kernel) (m : Nat → UInt8) :
    dirRead img r fd buf (s.withMemory m) = 
      ((dirRead img r fd buf s).1, (dirRead img r fd buf s).2.1, (dirRead img r fd buf s).2.2.withMemory m) := by
  have own : (s.withMemory m).currPcb r = s.currPcb r := rfl
  simp only [dirRead, own]
  split
  · rfl
  · split <;> rfl

theorem rtcWrite_alike (word : Option (BitVec 32)) (nbytes : Int) : AnswersAlike (rtcWrite word nbytes) := by
  intro s m
  cases word with
  | none => rfl
  | some freq =>
    have pid : (s.withMemory m).currPid (s.withMemory m).currProcess = s.currPid s.currProcess := rfl
    simp only [rtcWrite, pid]
    split
    · rfl
    split
    · rfl
    split
    · rfl
    split
    · rfl
    · generalize getPcbByPid (s.currPid s.currProcess) = addr
      have asked : IgnoresMemory fun s => s.setPcb addr fun pcb => { pcb with progFreq := freq.toNat } := fun _ _ => rfl
      have divided : IgnoresMemory fun s => if freq.toNat > s.higherFreq then updateDivisors { s with higherFreq := freq.toNat }
          else s.setPcb addr fun pcb => { pcb with divisor := s.higherFreq / freq.toNat } :=
        .ite (fun _ _ => Iff.rfl) (updateDivisors_ignores.comp fun _ _ => rfl) fun _ _ => rfl
      have programmed : IgnoresMemory fun s => rtcSetFrequency s.higherFreq s := fun _ _ => rfl
      exact congrArg (Prod.mk 0) ((programmed.comp (divided.comp asked)) s m)

theorem switchTo_alike (next : Term) (pid vidId : Int) : AnswersAlike (switchTo next pid vidId r) := by
  intro s m
  have own : (s.withMemory m).currPid (s.withMemory m).currProcess = s.currPid s.currProcess := rfl
  unfold switchTo
  rw [own]
  split <;> rfl

theorem waitStmt_ignores (stmt : WaitStmt) : IgnoresMemory stmt.run := by
  intro s m
  cases stmt <;> rfl

end Ignore

namespace Alike
variable {q : Int} {s t : Kernel}

/-- Both states with their own bytes. -/
theorem of_memory (paged : Paged s) {m m' : Nat → UInt8} (memory : ∀ a, ¬ InFrame q a → m' a = m a)
    (rest : t = s.withMemory t.phys) : Alike q (s.withMemory m) (t.withMemory m') := by
  refine ⟨paged.of_same rfl rfl rfl, ?_, memory⟩
  rw [rest]
  rfl

/-- A function that ignores memory. -/
theorem quiet (alike : Alike q s t) {f : Kernel → Kernel} (ignores : IgnoresMemory f) (paged : Paged (f s)) :
    Alike q (f s) (f t) := by
  have changed : f t = (f s).withMemory t.phys := (congrArg f alike.rest).trans (ignores s t.phys)
  refine ⟨paged, ?_, fun a outside => ?_⟩
  · rw [changed]
    rfl
  · rw [changed, ignores.phys]
    exact alike.memory a outside

/-- What memory does not decide is the same. -/
theorem congr {α : Type} (alike : Alike q s t) {f : Kernel → α} (ignores : ∀ s m, f (s.withMemory m) = f s) : f t = f s :=
  (congrArg f alike.rest).trans (ignores s t.phys)

/-- A call. -/
theorem call {α : Type} (alike : Alike q s t) {f : Kernel → α × Kernel} (same : AnswersAlike f) (paged : Paged (f s).2) :
    (f t).1 = (f s).1 ∧ Alike q (f s).2 (f t).2 := by
  constructor
  · apply alike.congr (f := fun s => (f s).1)
    intro s m
    rw [same]
  · apply alike.quiet (f := fun s => (f s).2) _ paged
    intro s m
    dsimp only
    rw [same]

/-- One that keeps the page tables as well. -/
theorem globals (alike : Alike q s t) {f : Kernel → Kernel} (ignores : IgnoresMemory f)
    (directory : (f s).pageDirectory = s.pageDirectory) (table : (f s).pageTable = s.pageTable)
    (vidmem : (f s).vidmemPageTable = s.vidmemPageTable) : Alike q (f s) (f t) :=
  alike.quiet ignores (alike.paged.of_same directory table vidmem)

theorem setPcb (alike : Alike q s t) (addr : Nat) (f : Pcb → Pcb) : Alike q (s.setPcb addr f) (t.setPcb addr f) :=
  alike.globals (f := fun s => s.setPcb addr f) (fun _ _ => rfl) rfl rfl rfl

theorem setTerminal (alike : Alike q s t) (n : Term) (f : TerminalState → TerminalState) :
    Alike q (s.setTerminal n f) (t.setTerminal n f) :=
  alike.globals (f := fun s => s.setTerminal n f) (fun _ _ => rfl) rfl rfl rfl

/-- A byte stored at the same address. -/
theorem stored (alike : Alike q s t) (a : Nat) (b : UInt8) :
    Alike q (s.withMemory (Function.update s.phys a b)) (t.withMemory (Function.update t.phys a b)) := by
  apply of_memory alike.paged _ alike.rest
  intro a' outside
  simp only [Function.update_apply]
  split
  · rfl
  · exact alike.memory a' outside

/-- A case distinction that memory does not decide. -/
theorem ite (alike : Alike q s t) {c : Kernel → Prop} [∀ s, Decidable (c s)] (same : ∀ s m, c (s.withMemory m) = c s)
    {s₁ s₂ t₁ t₂ : Kernel} (first : c s → Alike q s₁ t₁) (second : ¬ c s → Alike q s₂ t₂) :
    Alike q (if c s then s₁ else s₂) (if c t then t₁ else t₂) := by
  have equal : c t = c s := alike.congr same
  simp only [equal]
  split
  · next chosen => exact first chosen
  · next other => exact second other

/-! ### Drawing -/

theorem setFrame (alike : Alike q s t) (n : Nat) {v w : Bytes} (same : SamePage v w) :
    Alike q (s.setFrame n v) (t.setFrame n w) := by
  apply of_memory alike.paged _ alike.rest
  intro a outside
  split
  · exact (same _ (Nat.mod_lt _ (by decide))).symm
  · exact alike.memory a outside

theorem setScreen (alike : Alike q s t) {a b : Screen} (same : a.Same b) : Alike q (s.setScreen a) (t.setScreen b) := by
  have drawn := alike.setFrame s.videoFrame same.video
  have moved := drawn.globals (f := fun s => { s with screenX := a.x, screenY := a.y }) (fun _ _ => rfl) rfl rfl rfl
  have frames : t.videoFrame = s.videoFrame := alike.congr fun _ _ => rfl
  simp only [Kernel.setScreen, frames, ← same.x, ← same.y]
  exact moved

theorem setCursor (alike : Alike q s t) : Alike q (setCursor s) (setCursor t) :=
  alike.quiet setCursor_ignores ((setCursor_drew s).paged alike.paged)

variable (valid : ValidPid q)
include valid

/-- No byte of the frame is on a screen. -/
theorem frame (alike : Alike q s t) {n : Nat} (low : n ≤ videoPage + 3) : SamePage (s.frame n) (t.frame n) := by
  intro k inside
  symm
  apply alike.memory
  intro own
  have high := own.high valid
  simp only [eightMB, videoPage, pageSize] at high low inside
  omega

theorem videoFrame (alike : Alike q s t) : SamePage (s.frame s.videoFrame) (t.frame t.videoFrame) := by
  have frames : t.videoFrame = s.videoFrame := alike.congr fun _ _ => rfl
  rw [frames]
  exact alike.frame valid alike.paged.videoFrame

theorem screen (alike : Alike q s t) : s.screen.Same t.screen := by
  refine ⟨alike.videoFrame valid, ?_, ?_⟩
  · exact (alike.congr (f := fun s => s.screenX) fun _ _ => rfl).symm
  · exact (alike.congr (f := fun s => s.screenY) fun _ _ => rfl).symm

theorem putc (alike : Alike q s t) (c : UInt8) : Alike q (putc c s) (putc c t) :=
  (alike.setScreen ((alike.screen valid).putc c)).setCursor

theorem puts (alike : Alike q s t) (text : List UInt8) : Alike q (puts text s) (puts text t) := by
  induction text generalizing s t with
  | nil => exact alike
  | cons c text ih => exact ih (alike.putc valid c)

theorem screenBackspace (alike : Alike q s t) : Alike q (screenBackspace s) (screenBackspace t) := by
  have drawn := alike.setScreen (alike.screen valid).backspace
  apply alike.ite (c := fun s => s.screenX = 0 ∧ s.screenY = 0) (fun _ _ => rfl)
  · exact fun _ => alike
  · intro _
    apply drawn.ite (c := fun s => s.onScreen = true) (fun _ _ => rfl)
    · exact fun _ => drawn.setCursor
    · exact fun _ => drawn

theorem clear (alike : Alike q s t) : Alike q (clear s) (clear t) := by
  have cleared : SamePage (Screen.clear (s.frame s.videoFrame)) (Screen.clear (t.frame t.videoFrame)) := by
    unfold Screen.clear
    refine List.foldl_rel (alike.videoFrame valid) ?_
    exact fun i _ v w same => (same.update _ _).update _ _
  have frames : t.videoFrame = s.videoFrame := alike.congr fun _ _ => rfl
  have drawn := alike.setFrame s.videoFrame cleared
  unfold BigBrainOS.clear
  rw [frames] at drawn ⊢
  exact drawn

omit valid in
theorem resetCursor (alike : Alike q s t) : Alike q (resetCursor s) (resetCursor t) :=
  alike.globals (f := BigBrainOS.resetCursor) (fun _ _ => rfl) rfl rfl rfl

theorem retypeBuffer (alike : Alike q s t) : Alike q (retypeBuffer s) (retypeBuffer t) := by
  have text : (t.terminals t.currTer) = s.terminals s.currTer := alike.congr (f := fun s => s.terminals s.currTer) fun _ _ => rfl
  unfold BigBrainOS.retypeBuffer
  rw [text]
  exact alike.puts valid _

theorem controlL (alike : Alike q s t) : Alike q (controlL s) (controlL t) :=
  ((alike.clear valid).resetCursor.setCursor).retypeBuffer valid

/-! ### Keys -/

theorem backspace (alike : Alike q s t) : Alike q (backspace s) (backspace t) := by
  apply alike.ite (c := fun s => (s.terminals s.currTer).bufLen = 0) (fun _ _ => rfl)
  · exact fun _ => alike
  · intro _
    have erased := alike.screenBackspace valid
    have shown : t.currTer = s.currTer := alike.congr fun _ _ => rfl
    rw [shown]
    exact erased.setTerminal _ _

theorem upArrow (alike : Alike q s t) : Alike q (upArrow s) (upArrow t) := by
  have line : (t.terminals t.currTer).bufLen = (s.terminals s.currTer).bufLen :=
    alike.congr (f := fun s => (s.terminals s.currTer).bufLen) fun _ _ => rfl
  have erased : ∀ l : List Nat, Alike q (l.foldl (fun s _ => BigBrainOS.backspace s) s)
      (l.foldl (fun s _ => BigBrainOS.backspace s) t) := fun l =>
    List.foldl_rel alike fun _ _ _ _ alike => alike.backspace valid
  have copied := (erased (List.range (s.terminals s.currTer).bufLen)).globals (f := fun s => s.setTerminal s.currTer fun t =>
    { t with
      typing := fun i => if i < bufSize then t.history i else t.typing i
      bufLen := strlen t.history bufSize }) (fun _ _ => rfl) rfl rfl rfl
  unfold BigBrainOS.upArrow
  rw [line]
  exact copied.retypeBuffer valid

theorem characterKey (alike : Alike q s t) (c : UInt8) : Alike q (characterKey c s) (characterKey c t) := by
  have typed : ∀ (f : TerminalState → TerminalState) (c : UInt8),
      Alike q (BigBrainOS.putc c (s.setTerminal s.currTer f)) (BigBrainOS.putc c (t.setTerminal t.currTer f)) := by
    intro f c
    have edited := alike.globals (f := fun s => s.setTerminal s.currTer f) (fun _ _ => rfl) rfl rfl rfl
    exact edited.putc valid c
  unfold BigBrainOS.characterKey
  split
  · exact alike.backspace valid
  split
  · exact typed _ _
  split
  · exact alike
  · apply alike.ite (c := fun s => (s.terminals s.currTer).bufLen ≥ bufSize - 1) (fun _ _ => rfl)
    · exact fun _ => alike
    · exact fun _ => typed _ _

/-- A page is copied from a video frame. -/
theorem copyPage (alike : Alike q s t) (dest : Nat) {src : Nat} (above : videoPage ≤ src) (below : src ≤ videoPage + 3) :
    Alike q (copyPage dest src s) (copyPage dest src t) := by
  have pages : t.pageTable = s.pageTable := alike.congr fun _ _ => rfl
  unfold BigBrainOS.copyPage
  rw [pages]
  exact alike.setFrame _ (alike.frame valid (alike.paged.video src above below).2)

theorem switchTerminal (alike : Alike q s t) (n : Term) : Alike q (switchTerminal n s) (switchTerminal n t) := by
  have shown : t.currTer = s.currTer := alike.congr fun _ _ => rfl
  have last : n.val ≤ 2 := Nat.lt_succ_iff.1 n.isLt
  have above : videoPage ≤ videoPage + (n.val + 1) := Nat.le_add_right _ _
  have below : videoPage + (n.val + 1) ≤ videoPage + 3 := by omega
  have swapped := (alike.copyPage valid (videoPage + (s.currTer + 1)) (Nat.le_refl _) (by omega)).copyPage valid videoPage
    above below
  have changed := swapped.quiet (f := changeVidmem s.currTer.val) (fun _ _ => rfl)
    (swapped.paged.changeVidmem (by omega) (term_le_two s.currTer))
  have chosen := changed.globals (f := fun s => updateCursor (s.terminals n).screenXSave (s.terminals n).screenYSave
    { s with currTer := n }) (fun _ _ => rfl) rfl rfl rfl
  apply alike.ite (c := fun s => s.currTer ≠ n) (fun _ _ => rfl)
  · intro _
    rw [shown]
    exact chosen
  · exact fun _ => alike

theorem kbHandler (alike : Alike q s t) (scancode : UInt8) : Alike q (kbHandler scancode s) (kbHandler scancode t) := by
  have arrow : Alike q (if scancode = 0x48 then BigBrainOS.upArrow s else s) (if scancode = 0x48 then BigBrainOS.upArrow t else t) := by
    split
    · exact alike.upArrow valid
    · exact alike
  unfold BigBrainOS.kbHandler
  dsimp only
  generalize (if scancode = 0x48 then BigBrainOS.upArrow s else s) = s₁ at arrow ⊢
  generalize (if scancode = 0x48 then BigBrainOS.upArrow t else t) = t₁ at arrow ⊢
  have modifiers := (congrArg (modifierKey scancode) arrow.rest).trans (modifierKey_alike scancode s₁ t₁.phys)
  cases modified : modifierKey scancode s₁ with
  | some s₂ =>
    rw [modified] at modifiers
    rw [modifiers]
    obtain ⟨shift, control, alt, caps, rfl⟩ := modifierKey_some modified
    exact ⟨arrow.paged.of_same rfl rfl rfl, rfl, arrow.memory⟩
  | none =>
    rw [modified] at modifiers
    rw [modifiers]
    dsimp only [Option.map_none]
    split
    · apply arrow.ite (c := fun s => s.controlPressed = true ∧ scancode = 0x26) (fun _ _ => rfl)
      · exact fun _ => arrow.controlL valid
      intro _
      apply arrow.ite (c := fun s => s.altPressed = true ∧ scancode = 0x3B) (fun _ _ => rfl)
      · exact fun _ => arrow.switchTerminal valid 0
      intro _
      apply arrow.ite (c := fun s => s.altPressed = true ∧ scancode = 0x3C) (fun _ _ => rfl)
      · exact fun _ => arrow.switchTerminal valid 1
      intro _
      apply arrow.ite (c := fun s => s.altPressed = true ∧ scancode = 0x3D) (fun _ _ => rfl)
      · exact fun _ => arrow.switchTerminal valid 2
      · intro _
        have code : getCharacterCode scancode t₁ = getCharacterCode scancode s₁ := arrow.congr fun _ _ => rfl
        rw [code]
        exact arrow.characterKey valid _
    · exact arrow

/-- `terminal_write` prints the same bytes. -/
theorem terminalWrite (alike : Alike q s t) (buf : Option Bytes) (nbytes : Int) :
    (terminalWrite buf nbytes t).1 = (terminalWrite buf nbytes s).1 ∧
      Alike q (terminalWrite buf nbytes s).2 (terminalWrite buf nbytes t).2 := by
  unfold BigBrainOS.terminalWrite
  split
  · exact ⟨rfl, alike⟩
  · split
    · exact ⟨rfl, alike.puts valid _⟩
    · refine ⟨rfl, List.foldl_rel alike fun i _ s t alike => ?_⟩
      split
      · exact alike.putc valid _
      · exact alike

/-! ### Stores of the loader and of programs -/

omit valid in
theorem writeByte (alike : Alike q s t) (lin : Nat) (b : UInt8) :
    Option.Rel (Alike q) (s.writeByte lin b) (t.writeByte lin b) := by
  have place : t.translate lin = s.translate lin := alike.congr (f := fun s => s.translate lin) fun _ _ => rfl
  unfold Kernel.writeByte
  rw [place]
  cases s.translate lin with
  | none => exact .none
  | some a => exact .some (alike.stored a b)

omit valid in
theorem storeBytes (alike : Alike q s t) (lin w n : Nat) : Option.Rel (Alike q) (s.storeBytes lin w n) (t.storeBytes lin w n) := by
  induction n with
  | zero => exact .some alike
  | succ n ih =>
    unfold Kernel.storeBytes
    generalize s.storeBytes lin w n = first at ih ⊢
    generalize t.storeBytes lin w n = first' at ih ⊢
    cases ih with
    | none => exact .none
    | some before => exact before.writeByte _ _

omit valid in
theorem userStore (alike : Alike q s t) (lin : Nat) (b : UInt8) : Alike q (s.userStore lin b) (t.userStore lin b) := by
  have place : t.userTranslate lin = s.userTranslate lin := alike.congr (f := fun s => s.userTranslate lin) fun _ _ => rfl
  unfold Kernel.userStore
  rw [place]
  split
  · exact alike
  · exact alike.stored _ b

omit valid in
theorem sysVidmap (alike : Alike q s t) (tableAddr : Nat) (screenStart : BitVec 32) :
    (sysVidmap tableAddr screenStart t).1 = (sysVidmap tableAddr screenStart s).1 ∧
      Alike q (sysVidmap tableAddr screenStart s).2 (sysVidmap tableAddr screenStart t).2 := by
  have mapped := alike.quiet (f := getVidmem tableAddr) (fun _ _ => rfl) (alike.paged.getVidmem tableAddr)
  unfold BigBrainOS.sysVidmap
  split
  · exact ⟨rfl, alike⟩
  split
  · exact ⟨rfl, alike⟩
  · have stored := mapped.storeBytes screenStart.toNat mb132.toNat 4
    dsimp only
    generalize (BigBrainOS.getVidmem tableAddr s).storeBytes screenStart.toNat mb132.toNat 4 = out at stored ⊢
    generalize (BigBrainOS.getVidmem tableAddr t).storeBytes screenStart.toNat mb132.toNat 4 = out' at stored ⊢
    cases stored with
    | none => exact ⟨rfl, mapped⟩
    | some stored => exact ⟨rfl, stored⟩

/-! ### Processes -/

theorem launchStmt (alike : Alike q s t) (l : Launch) (stmt : LaunchStmt) :
    Option.Rel (Alike q) (stmt.run l s) (stmt.run l t) := by
  have turn : t.currProcess = s.currProcess := alike.congr fun _ _ => rfl
  -- a statement that does not fault, as a function of the kernel
  have plain : ∀ {f : Kernel → Kernel}, (∀ s, stmt.run l s = some (f s)) → IgnoresMemory f →
      (f s).pageDirectory = s.pageDirectory → (f s).pageTable = s.pageTable → (f s).vidmemPageTable = s.vidmemPageTable →
        Option.Rel (Alike q) (stmt.run l s) (stmt.run l t) := by
    intro f run ignores directory table vidmem
    rw [run, run]
    exact .some (alike.globals ignores directory table vidmem)
  cases stmt with
  | copy k => exact alike.writeByte _ _
  | enableProgramPage =>
    exact .some (alike.quiet (f := BigBrainOS.enableProgramPage l.newPid) (fun _ _ => rfl) (alike.paged.enableProgramPage _))
  | printf =>
    simp only [LaunchStmt.run, turn]
    exact .some (alike.puts valid _)
  | parPidRoot =>
    simp only [LaunchStmt.run]
    split
    · exact .some (alike.setPcb _ _)
    · exact .some alike
  | _ => exact plain (fun _ => rfl) (fun _ _ => rfl) rfl rfl rfl

/-- How two launches go on. -/
inductive Loaded (q : Int) : Except Kernel Kernel → Except Kernel Kernel → Prop where
  | error {s t : Kernel} : Alike q s t → Loaded q (.error s) (.error t)
  | ok {s t : Kernel} : Alike q s t → Loaded q (.ok s) (.ok t)

theorem runLaunch (alike : Alike q s t) (l : Launch) (stmts : List LaunchStmt) :
    Loaded q (runLaunch l stmts s) (runLaunch l stmts t) := by
  induction stmts generalizing s t with
  | nil => exact .ok alike
  | cons stmt stmts ih =>
    have first := alike.launchStmt valid l stmt
    unfold BigBrainOS.runLaunch
    generalize stmt.run l s = out at first ⊢
    generalize stmt.run l t = out' at first ⊢
    cases first with
    | none => exact .error alike
    | some first => exact ih first

/-- How two calls of `sys_execute` end. Where a program is shorter than its header, the
frame decides at which address it is entered. -/
inductive Executed (q : Int) : ExecOutcome × Kernel → ExecOutcome × Kernel → Prop where
  | failed {s t : Kernel} : Alike q s t → Executed q (.failed, s) (.failed, t)
  | fault {s t : Kernel} : Alike q s t → Executed q (.fault, s) (.fault, t)
  | launched {s t : Kernel} (newPid : Int) (eip eip' : Nat) : Alike q s t →
      Executed q (.launched newPid eip, s) (.launched newPid eip', t)

omit valid in
theorem Executed.alike {out out' : ExecOutcome × Kernel} (executed : Executed q out out') : Alike q out.2 out'.2 := by
  cases executed <;> assumption

theorem enterProgram (alike : Alike q s t) (l : Launch) : Executed q (enterProgram l s) (enterProgram l t) := by
  have entered := alike.runLaunch valid l (createStmts ++ enterStmts)
  unfold BigBrainOS.enterProgram
  generalize BigBrainOS.runLaunch l (createStmts ++ enterStmts) s = out at entered ⊢
  generalize BigBrainOS.runLaunch l (createStmts ++ enterStmts) t = out' at entered ⊢
  cases entered with
  | error alike => exact .fault alike
  | ok alike => exact .launched _ _ _ alike

theorem loadProgram (alike : Alike q s t) (l : Launch) : Executed q (loadProgram l s) (loadProgram l t) := by
  have loaded := alike.runLaunch valid l (loadStmts l)
  unfold BigBrainOS.loadProgram
  generalize BigBrainOS.runLaunch l (loadStmts l) s = out at loaded ⊢
  generalize BigBrainOS.runLaunch l (loadStmts l) t = out' at loaded ⊢
  cases loaded with
  | error alike => exact .fault alike
  | ok alike => exact alike.enterProgram valid l

theorem sysExecute (alike : Alike q s t) (env : Env) (fr : ExecFrame) (command : Bytes) :
    Executed q (sysExecute env fr command s) (sysExecute env fr command t) := by
  have pids : getNewPid t = getNewPid s := alike.congr fun _ _ => rfl
  cases check : checkExecutable env.img fr (parse fr command) with
  | none =>
    rw [sysExecute_notExecutable check, sysExecute_notExecutable check]
    exact .failed alike
  | some inode =>
    cases alloc : getNewPid s with
    | none =>
      simp only [BigBrainOS.sysExecute, check, pids, alloc]
      exact .failed (alike.puts valid _)
    | some newPid =>
      obtain ⟨l, rfl, accepted⟩ := accepted_of_check check alloc
      have accepted' : Accepted env fr command t inode l := { accepted with alloc := pids.trans alloc }
      rw [accepted.sysExecute_eq, accepted'.sysExecute_eq]
      exact alike.loadProgram valid l

theorem haltStmt (alike : Alike q s t) (h : Halt) (stmt : HaltStmt) : Alike q (stmt.run h s) (stmt.run h t) := by
  cases stmt with
  | printf => exact alike.puts valid _
  | enableProgramPage =>
    exact alike.quiet (f := (HaltStmt.enableProgramPage).run h) (fun _ _ => rfl) (alike.paged.enableProgramPage _)
  | close i =>
    have entry : (t.pcbs h.addr).fdt i = (s.pcbs h.addr).fdt i := alike.congr (f := fun s => (s.pcbs h.addr).fdt i) fun _ _ => rfl
    simp only [HaltStmt.run, entry]
    split
    · obtain ⟨f, reg, ps, same, -⟩ := closeFile_reprogrammed ((s.pcbs h.addr).fdt i).fotPtr s
      apply alike.quiet (closeFile_ignores _)
      rw [same]
      exact alike.paged.of_same rfl rfl rfl
    · exact alike
  | ss0 => exact alike.globals (f := HaltStmt.ss0.run h) (fun _ _ => rfl) rfl rfl rfl
  | esp0 => exact alike.globals (f := HaltStmt.esp0.run h) (fun _ _ => rfl) rfl rfl rfl
  | usedPids => exact alike.globals (f := HaltStmt.usedPids.run h) (fun _ _ => rfl) rfl rfl rfl
  | progCurrPid => exact alike.globals (f := HaltStmt.progCurrPid.run h) (fun _ _ => rfl) rfl rfl rfl
  | progParPid => exact alike.globals (f := HaltStmt.progParPid.run h) (fun _ _ => rfl) rfl rfl rfl
  | clearPcb => exact alike.globals (f := HaltStmt.clearPcb.run h) (fun _ _ => rfl) rfl rfl rfl

theorem runHalt (alike : Alike q s t) (h : Halt) (stmts : List HaltStmt) : Alike q (runHalt h stmts s) (runHalt h stmts t) :=
  List.foldl_rel alike fun stmt _ _ _ alike => alike.haltStmt valid h stmt

theorem sysHalt (alike : Alike q s t) (env : Env) (fr : ExecFrame) (status : UInt8) :
    Alike q (sysHalt env fr status s).2 (sysHalt env fr status t).2 := by
  have pid : t.currPid t.currProcess = s.currPid s.currProcess :=
    alike.congr (f := fun s => s.currPid s.currProcess) fun _ _ => rfl
  have blocks : t.pcbs = s.pcbs := alike.congr fun _ _ => rfl
  unfold BigBrainOS.sysHalt
  rw [pid, blocks]
  split
  · exact alike
  dsimp only
  generalize Halt.mk _ _ = h
  have released := alike.runHalt valid h releaseStmts
  have returned : ∀ {s t : Kernel}, Alike q s t → Alike q (returnToParent h status s).2 (returnToParent h status t).2 :=
    fun alike => (alike.runHalt valid h [.progCurrPid, .progParPid]).runHalt valid h [.clearPcb]
  generalize BigBrainOS.runHalt h releaseStmts s = s₁ at released ⊢
  generalize BigBrainOS.runHalt h releaseStmts t = t₁ at released ⊢
  unfold BigBrainOS.finishHalt
  split
  · have shell := (released.puts valid exitedRootMessage).sysExecute valid env fr (shellCommand env)
    generalize BigBrainOS.sysExecute env fr (shellCommand env) (BigBrainOS.puts exitedRootMessage s₁) = out at shell ⊢
    generalize BigBrainOS.sysExecute env fr (shellCommand env) (BigBrainOS.puts exitedRootMessage t₁) = out' at shell ⊢
    cases shell with
    | failed alike => exact returned alike
    | fault alike => exact alike
    | launched _ _ _ alike => exact alike
  · exact returned released

theorem blueScreen (alike : Alike q s t) (env : Env) (exc : ExecFrame) (text : String) :
    Alike q (blueScreen env exc text s).2 (blueScreen env exc text t).2 :=
  (alike.puts valid _).sysHalt valid env exc _

/-- The child is entered, the caller gets `ERROR`, or it is halted. -/
theorem executeCall (alike : Alike q s t) (env : Env) (fr exc : ExecFrame) (command : Bytes) :
    Executed q (executeCall env fr exc command s) (executeCall env fr exc command t) := by
  have executed := alike.sysExecute valid env fr command
  unfold BigBrainOS.executeCall
  generalize BigBrainOS.sysExecute env fr command s = out at executed ⊢
  generalize BigBrainOS.sysExecute env fr command t = out' at executed ⊢
  cases executed with
  | failed alike => exact .failed alike
  | fault alike => exact .fault (alike.blueScreen valid env exc "Page Fault")
  | launched _ _ _ alike => exact .launched _ _ _ alike

omit valid in
/-- A tick between two processes. -/
theorem tick (alike : Alike q s t) (consistent : Consistent s) (env : Env) (r : Regs) (fr : ExecFrame) :
    Alike q (switchRunningProcess env r fr s).2 (switchRunningProcess env r fr t).2 := by
  obtain ⟨⟨F, tree⟩, -⟩ := consistent
  have turn : t.currProcess = s.currProcess := alike.congr fun _ _ => rfl
  have shown : t.currTer = s.currTer := alike.congr fun _ _ => rfl
  have next : t.currPid (s.currProcess + 1) = s.currPid (s.currProcess + 1) :=
    alike.congr (f := fun u => u.currPid (s.currProcess + 1)) fun _ _ => rfl
  have range := Paged.vidId_range (s.currProcess + 1) s.currTer
  obtain ⟨on, mask, quiet⟩ := maskKeyboard_quiet (s.currProcess + 1) s
  have masked := alike.quiet (maskKeyboard_ignores (s.currProcess + 1)) (by rw [quiet]; exact alike.paged.of_same rfl rfl rfl)
  simp only [switchRunningProcess, turn, shown, next, if_neg (tree.currPid_ne (s.currProcess + 1))]
  refine (masked.call (switchTo_alike r _ _ _) ?_).2
  exact masked.paged.switchTo _ _ range.1 range.2 r

end Alike

/-! ## The steps of the system -/

/-- What a step tells the process that takes it: the value that a call returns, and the
buffer that it fills. A launch, a halt and a call that waits tell it nothing yet. -/
def SystemOp.answer (env : Env) (tableAddr : Nat) (op : SystemOp) (s : Kernel) : Option Int × Option Bytes :=
  match op with
  | .open_ r filename => (some (sysOpen env.img r filename s).1, none)
  | .close r fd => ((sysClose r fd s).1, none)
  | .read r fd (some buf) nbytes =>
    match sysRead r fd false s with
    | .call (some .fileFot) =>
      let (value, buf', _) := fileRead env.img r fd buf nbytes s
      (some value, some buf')
    | .call (some .dirFot) =>
      let (value, buf', _) := dirRead env.img r fd buf s
      (some value, some buf')
    | .call _ => (none, some buf)
    | .ret value => (some value, some buf)
  | .write r fd buf nbytes => (some (sysWriteCall r fd buf nbytes s).1, none)
  | .machine (.vidmap screenStart) => ((sysVidmap tableAddr screenStart s).1, none)
  | .machine (.call (.execute fr exc command)) =>
    match executeCall env fr exc command s with
    | (.failed, _) => (some error, none)
    | _ => (none, none)
  | _ => (none, none)

theorem OwnRecords.paged {addr : Nat} {s s' : Kernel} (own : OwnRecords addr s s') (paged : Paged s) : Paged s' := by
  obtain ⟨ps, ts, f, reg, flags, rfl, -⟩ := own
  exact paged.of_same rfl rfl rfl

namespace Alike
variable {q : Int} {s t : Kernel} {env : Env} {tableAddr : Nat} (valid : ValidPid q)
include valid

omit valid in
theorem read (alike : Alike q s t) {r : Regs} (block : getCurrPcb r.esp = getPcbByPid s.running) (fd : Fd)
    (buf : Option Bytes) (nbytes : Int) :
    (SystemOp.read r fd buf nbytes).answer env tableAddr t = (SystemOp.read r fd buf nbytes).answer env tableAddr s ∧
      Alike q (readCall env.img r fd buf nbytes s) (readCall env.img r fd buf nbytes t) := by
  have dispatch : ∀ s m b, sysRead r fd b (s.withMemory m) = sysRead r fd b s := fun _ _ _ => rfl
  constructor
  · apply alike.congr
    intro s m
    cases buf with
    | none => rfl
    | some b =>
      simp only [SystemOp.answer, dispatch]
      split
      · rw [fileRead_alike]
      · rw [dirRead_alike]
      · rfl
      · rfl
  · apply alike.quiet (f := readCall env.img r fd buf nbytes)
    · intro s m
      unfold readCall
      rw [dispatch]
      split
      · rw [fileRead_alike]
      · rw [dirRead_alike]
      · rfl
    · exact (readCall_own block env.img fd buf nbytes).paged alike.paged

theorem write (alike : Alike q s t) (r : Regs) (fd : Fd) (buf : Option Bytes) (nbytes : Int) :
    (sysWriteCall r fd buf nbytes t).1 = (sysWriteCall r fd buf nbytes s).1 ∧
      Alike q (sysWriteCall r fd buf nbytes s).2 (sysWriteCall r fd buf nbytes t).2 := by
  have dispatch : sysWrite r fd buf.isNone t = sysWrite r fd buf.isNone s := alike.congr fun _ _ => rfl
  unfold sysWriteCall
  rw [dispatch]
  split
  · exact ⟨rfl, alike⟩
  · exact alike.call (rtcWrite_alike _ nbytes) ((rtcWrite_own _ nbytes s).paged alike.paged)
  · exact alike.terminalWrite valid buf nbytes
  · exact ⟨rfl, alike⟩

/-- **Step lemma.** The same step answers the same, and leaves states that are alike. -/
theorem step (alike : Alike q s t) (consistent : Consistent s) {op : SystemOp} (allowed : op.Allowed s) :
    op.answer env tableAddr t = op.answer env tableAddr s ∧ Alike q (op.run env tableAddr s) (op.run env tableAddr t) := by
  obtain ⟨-, -, onStack⟩ := consistent.running
  cases op with
  | machine op =>
    cases op with
    | vidmap screenStart =>
      obtain ⟨answer, after⟩ := alike.sysVidmap tableAddr screenStart
      exact ⟨congrArg (fun value => (value, none)) answer, after⟩
    | pageFault exc => exact ⟨rfl, alike.blueScreen valid env exc "Page Fault"⟩
    | call op =>
      cases op with
      | execute fr exc command =>
        have executed := alike.executeCall valid env fr exc command
        refine ⟨?_, executed.alike⟩
        simp only [SystemOp.answer]
        generalize BigBrainOS.executeCall env fr exc command s = out at executed ⊢
        generalize BigBrainOS.executeCall env fr exc command t = out' at executed ⊢
        cases executed <;> rfl
      | halt fr status => exact ⟨rfl, alike.sysHalt valid env fr status⟩
      | tick r fr => exact ⟨rfl, alike.tick consistent env r fr⟩
      | putc c => exact ⟨rfl, alike.putc valid c⟩
      | key scancode => exact ⟨rfl, alike.kbHandler valid scancode⟩
  | open_ r filename =>
    obtain ⟨answer, after⟩ := alike.call (sysOpen_alike r env.img filename)
      ((sysOpen_own (onStack r.esp allowed) env.img filename).paged alike.paged)
    exact ⟨congrArg (fun value => (some value, none)) answer, after⟩
  | close r fd =>
    obtain ⟨answer, after⟩ := alike.call (sysClose_alike r fd) ((sysClose_own (onStack r.esp allowed) fd).paged alike.paged)
    exact ⟨congrArg (fun value => (value, none)) answer, after⟩
  | read r fd buf nbytes => exact alike.read (onStack r.esp allowed) fd buf nbytes
  | write r fd buf nbytes =>
    obtain ⟨answer, after⟩ := alike.write valid r fd buf nbytes
    exact ⟨congrArg (fun value => (some value, none)) answer, after⟩
  | wait stmt => exact ⟨rfl, alike.quiet (waitStmt_ignores stmt) ((waitStmt_own stmt s).paged alike.paged)⟩
  | clock => exact ⟨rfl, alike.globals (f := rtHandler) (fun _ _ => rfl) rfl rfl rfl⟩
  | exception exc text => exact ⟨rfl, alike.blueScreen valid env exc text⟩
  | store lin x => exact ⟨rfl, alike.userStore lin.toNat x⟩

omit valid in
/-- Memory does not decide which steps can be taken. -/
theorem allowed (alike : Alike q s t) {op : SystemOp} (allowed : op.Allowed s) : op.Allowed t := by
  have same : op.Allowed t = op.Allowed s := by
    apply alike.congr
    intro s m
    cases op with
    | machine op =>
      cases op with
      | call op => cases op <;> rfl
      | _ => rfl
    | _ => rfl
  rwa [same]

end Alike

/-- **Run lemma.** -/
theorem Alike.run {env : Env} {tableAddr : Nat} {q : Int} (loadable : ShellLoadable env) (valid : ValidPid q)
    {ops : List SystemOp} : ∀ {s t : Kernel}, SystemInv s → Alike q s t → (systemCalls env tableAddr).Allowed s ops →
      Alike q ((systemCalls env tableAddr).exec s ops) ((systemCalls env tableAddr).exec t ops) := by
  induction ops with
  | nil => exact fun _ alike _ => alike
  | cons op ops ih =>
    intro s t inv alike ⟨allowed, rest⟩
    exact ih (inv.step loadable tableAddr allowed) (alike.step valid inv.consistent allowed).2 rest

end BigBrainOS
