import BigBrainOS.System.Effects

/-!
# A process that does not run is left alone

The frame and the control block of a live process, followed through the steps of
the other processes. A step stores to the frame of the process that runs, to that
of a process it launches, and to the video frames; and it writes the blocks of
these two processes, besides the divisors that the RTC gives to all.
-/

namespace BigBrainOS
set_option autoImplicit false

/-! ## The page tables -/

/-- What the page tables of every state have in common. -/
structure Paged (s : Kernel) : Prop where
  behind : VideoBehind s
  /-- Programs have access through two directory entries only. -/
  users : ∀ i, i ≠ userProgramPdIdx → i ≠ userProgramPdIdx + 1 → (s.pageDirectory i).userSupervisor = false
  /-- The four pages of the screens map the four video frames. -/
  video : ∀ i, videoPage ≤ i → i ≤ videoPage + 3 → videoPage ≤ (s.pageTable i).address ∧ (s.pageTable i).address ≤ videoPage + 3
  /-- So does the page behind the program page, once it is present. -/
  screen : (s.vidmemPageTable 0).present = true → videoPage ≤ (s.vidmemPageTable 0).address

namespace Paged
variable {s s' : Kernel}

theorem of_same (paged : Paged s) (directory : s'.pageDirectory = s.pageDirectory) (table : s'.pageTable = s.pageTable)
    (vidmem : s'.vidmemPageTable = s.vidmemPageTable) : Paged s' := by
  refine ⟨paged.behind.of_same directory vidmem, ?_, ?_, ?_⟩
  · rw [directory]; exact paged.users
  · rw [table]; exact paged.video
  · rw [vidmem]; exact paged.screen

theorem enableProgramPage (paged : Paged s) (pid : Int) : Paged (enableProgramPage pid s) := by
  refine ⟨paged.behind.enableProgramPage pid, fun i program behind => ?_, paged.video, paged.screen⟩
  simp only [BigBrainOS.enableProgramPage, Function.update_of_ne program]
  exact paged.users i program behind

/-- The screen of a terminal, or the displayed one. -/
theorem changeVidmem (paged : Paged s) {n : Int} (low : -1 ≤ n) (high : n ≤ 2) : Paged (changeVidmem n s) := by
  refine ⟨paged.behind.changeVidmem high, paged.users, fun i above below => ?_, fun _ => ?_⟩
  · simp only [BigBrainOS.changeVidmem, Function.update_apply]
    split
    · simp only [videoPage]
      omega
    · exact paged.video i above below
  · simp only [BigBrainOS.changeVidmem, Function.update_self, videoPage]
    omega

theorem getVidmem (paged : Paged s) (tableAddr : Nat) : Paged (getVidmem tableAddr s) := by
  refine ⟨paged.behind.getVidmem tableAddr, fun i program behind => ?_, paged.video, fun _ => ?_⟩
  · simp only [BigBrainOS.getVidmem, Function.update_of_ne behind]
    exact paged.users i program behind
  · simp only [BigBrainOS.getVidmem, Function.update_self]
    exact Nat.le_refl _

/-- The argument that the scheduler gives `change_vidmem`. -/
theorem vidId_range (next shown : Term) :
    -1 ≤ (if next = shown then mainVid else (next.val : Int)) ∧ (if next = shown then mainVid else (next.val : Int)) ≤ 2 := by
  split
  · decide
  · exact ⟨by omega, term_le_two next⟩

theorem switchTo (paged : Paged s) (next : Term) (pid : Int) {vidId : Int} (low : -1 ≤ vidId) (high : vidId ≤ 2) (r : Regs) :
    Paged (switchTo next pid vidId r s).2 := by
  unfold BigBrainOS.switchTo
  split
  · exact paged
  · have saved : Paged (s.setPcb (getPcbByPid (s.currPid s.currProcess)) fun pcb => { pcb with regs := r }) :=
      paged.of_same rfl rfl rfl
    exact ((saved.enableProgramPage pid).changeVidmem low high).of_same rfl rfl rfl

theorem prepareTerminal (paged : Paged s) (next : Term) {vidId : Int} (low : -1 ≤ vidId) (high : vidId ≤ 2) (r : Regs) :
    Paged (prepareTerminal next vidId r s) := by
  have changed := paged.changeVidmem low high
  unfold BigBrainOS.prepareTerminal
  dsimp only
  split <;> exact changed.of_same rfl rfl rfl

theorem switchTerminal (paged : Paged s) (n : Term) : Paged (switchTerminal n s) := by
  unfold BigBrainOS.switchTerminal
  split
  · have swapped : Paged (swapVidMem s.currTer n s) := paged.of_same rfl rfl rfl
    have changed := swapped.changeVidmem (by omega) (term_le_two s.currTer)
    exact changed.of_same rfl rfl rfl
  · exact paged

theorem entry (m : Machine) : Paged (entry m) := by
  refine ⟨⟨rfl, Nat.zero_le _, fun _ _ => rfl⟩, fun i _ _ => ?_, fun i above below => ⟨above, below⟩, fun h => by cases h⟩
  show (initPageDirectory m.pageTableAddr i).userSupervisor = false
  unfold initPageDirectory
  split
  · rfl
  · split <;> rfl

end Paged

/-! ## Frames -/

/-- A physical address in the frame of a process. -/
def InFrame (p : Int) (a : Nat) : Prop := programFrame p * pageSize ≤ a ∧ a < programFrame p * pageSize + fourMB

section Frames
variable {p q : Int} {a : Nat}

theorem InFrame.high (valid : ValidPid p) (inside : InFrame p a) : eightMB ≤ a := by
  obtain ⟨low, high⟩ := valid
  simp only [InFrame, programFrame, fourMB, pageSize] at inside
  simp only [eightMB]
  omega

theorem InFrame.unique (hp : ValidPid p) (hq : ValidPid q) (inside : InFrame p a) (inside' : InFrame q a) : p = q := by
  obtain ⟨lp, up⟩ := hp
  obtain ⟨lq, uq⟩ := hq
  simp only [InFrame, programFrame, fourMB, pageSize] at inside inside'
  omega

variable {s : Kernel} {lin : Nat}

/-- A physical address in a video frame. -/
def InVideo (a : Nat) : Prop := videoPage ≤ a / pageSize ∧ a / pageSize ≤ videoPage + 3

theorem InVideo.low (inside : InVideo a) : a < fourMB := by
  simp only [InVideo, videoPage, pageSize] at inside
  simp only [fourMB]
  omega

/-- An address of the 4 MB behind the program page leads to a video frame. -/
theorem Paged.translate_behind (paged : Paged s) (low : 0x8400000 ≤ lin) (high : lin < 0x8800000)
    (address : s.translate lin = some a) : InVideo a := by
  have index : lin / fourMB = userProgramPdIdx + 1 := by simp only [fourMB, userProgramPdIdx]; omega
  have frame := paged.behind.frame
  simp only [Kernel.translate, index, paged.behind.small, Bool.false_eq_true, if_false] at address
  rw [if_neg (show ¬ userProgramPdIdx + 1 = 0 by decide)] at address
  split at address
  · cases address
  split at address
  · cases address
  · next present =>
    have first : lin / pageSize % 1024 = 0 := by
      by_contra other
      exact present (paged.behind.single _ other)
    rw [first] at present address
    have above := paged.screen (by simpa using present)
    rw [Option.some.injEq] at address
    rw [← address]
    simp only [InVideo, videoPage, pageSize] at frame above ⊢
    omega

/-- One of the program page leads to the mapped frame. -/
theorem Paged.translate_cases (paged : Paged s) (maps : s.MapsProgram p) (low : 0x8000000 ≤ lin) (high : lin < 0x8800000)
    (address : s.translate lin = some a) : InFrame p a ∨ InVideo a := by
  by_cases program : lin < 0x8400000
  · rw [translate_program maps low program, Option.some.injEq] at address
    left
    rw [← address]
    simp only [InFrame, fourMB]
    omega
  · right
    exact paged.translate_behind (Nat.le_of_not_lt program) high address

/-- So does a store in user mode, whatever its address. -/
theorem Paged.userTranslate_cases (paged : Paged s) (maps : s.MapsProgram p) (address : s.userTranslate lin = some a) :
    InFrame p a ∨ InVideo a := by
  have allowed : (s.pageDirectory (lin / fourMB)).userSupervisor = true ∧ s.translate lin = some a := by
    unfold Kernel.userTranslate at address
    dsimp only at address
    generalize table : (if lin / fourMB = 0 then s.pageTable else s.vidmemPageTable) = pages at address
    split at address
    · next entry =>
      simp only [Bool.and_eq_true] at entry
      refine ⟨entry.1.2, ?_⟩
      simp only [Kernel.translate, entry.1.1, Bool.true_eq_false, if_false, table]
      split at address
      · next large => rw [if_pos large]; exact address
      · next small =>
        rw [if_neg small]
        split at address
        · next page =>
          simp only [Bool.and_eq_true] at page
          rw [if_neg (by rw [page.1.1]; decide)]
          exact address
        · cases address
    · cases address
  have index : lin / fourMB = userProgramPdIdx ∨ lin / fourMB = userProgramPdIdx + 1 := by
    by_contra neither
    rw [not_or] at neither
    rw [paged.users _ neither.1 neither.2] at allowed
    cases allowed.1
  simp only [fourMB, userProgramPdIdx] at index
  exact paged.translate_cases maps (by omega) (by omega) allowed.2

end Frames

/-! ## Drawing -/

/-- `s'` is `s` after screen output, which stays below 4 MB. -/
structure Drew (s s' : Kernel) : Prop where
  output : Output s s'
  high : ∀ a, fourMB ≤ a → s'.phys a = s.phys a

namespace Drew
variable {s s' s'' : Kernel}

theorem refl (s : Kernel) : Drew s s := ⟨.refl s, fun _ _ => rfl⟩

theorem trans (h : Drew s s') (h' : Drew s' s'') : Drew s s'' :=
  ⟨h.output.trans h'.output, fun a above => (h'.high a above).trans (h.high a above)⟩

theorem paged (h : Drew s s') (paged : Paged s) : Paged s' := by
  obtain ⟨ts, x, y, c, m, rfl, -⟩ := h.output
  exact paged.of_same rfl rfl rfl

end Drew

section Drawing
variable {s : Kernel}

/-- A frame of the screen lies below 4 MB. -/
theorem setFrame_high {n : Nat} (low : n ≤ videoPage + 3) (v : Bytes) {a : Nat} (above : fourMB ≤ a) :
    (s.setFrame n v).phys a = s.phys a := by
  have other : a / pageSize ≠ n := by
    simp only [videoPage, fourMB, pageSize] at low above ⊢
    omega
  simp only [Kernel.setFrame, if_neg other]

theorem Paged.videoFrame (paged : Paged s) : s.videoFrame ≤ videoPage + 3 :=
  (paged.video videoPage (Nat.le_refl _) (by decide)).2

theorem setScreen_drew (paged : Paged s) (scr : Screen) : Drew s (s.setScreen scr) :=
  ⟨setScreen_output s scr, fun _ above => setFrame_high paged.videoFrame _ above⟩

theorem setCursor_drew (s : Kernel) : Drew s (setCursor s) := by
  refine ⟨setCursor_output s, fun a _ => ?_⟩
  rw [(setCursor_fields s).1]

theorem putc_drew (paged : Paged s) (c : UInt8) : Drew s (putc c s) :=
  (setScreen_drew paged _).trans (setCursor_drew _)

theorem puts_drew (paged : Paged s) (text : List UInt8) : Drew s (puts text s) := by
  induction text generalizing s with
  | nil => exact .refl s
  | cons c text ih =>
    have first := putc_drew paged c
    exact first.trans (ih (first.paged paged))

theorem screenBackspace_drew (paged : Paged s) : Drew s (screenBackspace s) := by
  have stored := setScreen_drew paged s.screen.backspace
  unfold screenBackspace
  split
  · exact .refl s
  · dsimp only
    split
    · exact stored.trans (setCursor_drew _)
    · exact stored

theorem controlL_drew (paged : Paged s) : Drew s (controlL s) := by
  have cleared : Drew s (clear s) := ⟨clear_output s, fun _ above => setFrame_high paged.videoFrame _ above⟩
  have reset : Drew (clear s) (resetCursor (clear s)) := ⟨resetCursor_output _, fun _ _ => rfl⟩
  have moved := (cleared.trans reset).trans (setCursor_drew _)
  exact moved.trans (puts_drew (moved.paged paged) _)

/-- `terminal_write` prints some of the bytes. -/
theorem terminalWrite_drew (paged : Paged s) (buf : Option Bytes) (nbytes : Int) : Drew s (terminalWrite buf nbytes s).2 := by
  have printed : ∀ (is : List Nat) (b : Bytes) {s : Kernel}, Paged s →
      Drew s (is.foldl (fun s i => if b i ≠ 0 then putc (b i) s else s) s) := by
    intro is b
    induction is with
    | nil => exact fun _ => .refl _
    | cons i is ih =>
      intro s paged
      have first : Drew s (if b i ≠ 0 then putc (b i) s else s) := by
        split
        · exact putc_drew paged _
        · exact .refl s
      exact first.trans (ih (first.paged paged))
  unfold terminalWrite
  split
  · exact .refl s
  · split
    · exact puts_drew paged _
    · exact printed _ _ paged

end Drawing

/-! ## What is left alone -/

/-- Process `q` is live, with the block `b` up to its divisor and the memory `m` in its frame. -/
structure LeftAlone (q : Int) (b : Pcb) (m : Nat → UInt8) (s : Kernel) : Prop where
  paged : Paged s
  used : s.usedPids q = true
  block : SameButDivisor b (s.pcb q)
  memory : ∀ a, InFrame q a → s.phys a = m a

namespace LeftAlone
variable {q : Int} {b : Pcb} {m : Nat → UInt8} {s s' : Kernel}

/-- A step that keeps pid table and tables, of the blocks at most divisors, and stores elsewhere. -/
theorem of_parts (alone : LeftAlone q b m s) (paged : Paged s') (used : s'.usedPids q = s.usedPids q)
    (block : SameButDivisor (s.pcb q) (s'.pcb q)) (memory : ∀ a, InFrame q a → s'.phys a = s.phys a) : LeftAlone q b m s' :=
  ⟨paged, used.trans alone.used, alone.block.trans block, fun a inside => (memory a inside).trans (alone.memory a inside)⟩

/-- A change of the page tables. -/
theorem of_tables (alone : LeftAlone q b m s) (paged : Paged s') (used : s'.usedPids = s.usedPids) (pcbs : s'.pcbs = s.pcbs)
    (phys : s'.phys = s.phys) : LeftAlone q b m s' := by
  refine alone.of_parts paged ?_ ?_ ?_
  · rw [used]
  · rw [Kernel.pcb, Kernel.pcb, pcbs]; exact .refl _
  · exact fun a _ => congrFun phys a

/-- A change of other globals. -/
theorem of_globals (alone : LeftAlone q b m s) (directory : s'.pageDirectory = s.pageDirectory)
    (table : s'.pageTable = s.pageTable) (vidmem : s'.vidmemPageTable = s.vidmemPageTable)
    (used : s'.usedPids = s.usedPids) (pcbs : s'.pcbs = s.pcbs) (phys : s'.phys = s.phys) : LeftAlone q b m s' :=
  alone.of_tables (alone.paged.of_same directory table vidmem) used pcbs phys

theorem setTerminal (alone : LeftAlone q b m s) (t : Term) (f : TerminalState → TerminalState) :
    LeftAlone q b m (s.setTerminal t f) :=
  alone.of_globals rfl rfl rfl rfl rfl rfl

/-- An update of another block. -/
theorem setPcb (alone : LeftAlone q b m s) {addr : Nat} (other : getPcbByPid q ≠ addr) (f : Pcb → Pcb) :
    LeftAlone q b m (s.setPcb addr f) := by
  refine alone.of_parts ?_ rfl ?_ fun _ _ => rfl
  · exact alone.paged.of_same rfl rfl rfl
  · rw [Kernel.pcb, Kernel.pcb, Kernel.setPcb_pcbs_of_ne _ _ other]
    exact .refl _

theorem reprogrammed (alone : LeftAlone q b m s) (h : Reprogrammed s s') : LeftAlone q b m s' := by
  obtain ⟨f, reg, ps, rfl, same⟩ := h
  refine alone.of_parts ?_ rfl (same _) fun _ _ => rfl
  exact alone.paged.of_same rfl rfl rfl

/-- A call on another block. -/
theorem ownRecords (alone : LeftAlone q b m s) {addr : Nat} (other : getPcbByPid q ≠ addr) (h : OwnRecords addr s s') :
    LeftAlone q b m s' := by
  obtain ⟨ps, ts, f, reg, flags, rfl, -, same, -⟩ := h
  refine alone.of_parts ?_ rfl (same _ other) fun _ _ => rfl
  exact alone.paged.of_same rfl rfl rfl

/-- A byte stored outside the frame. -/
theorem stored (alone : LeftAlone q b m s) {a : Nat} (outside : ¬ InFrame q a) (x : UInt8) :
    LeftAlone q b m { s with phys := Function.update s.phys a x } := by
  refine alone.of_parts ?_ rfl (.refl _) fun a' inside => ?_
  · exact alone.paged.of_same rfl rfl rfl
  · exact Function.update_of_ne (by rintro rfl; exact outside inside) _ _

variable (valid : ValidPid q)
include valid

theorem drew (alone : LeftAlone q b m s) (drew : Drew s s') : LeftAlone q b m s' := by
  have paged := drew.paged alone.paged
  have high := drew.high
  obtain ⟨ts, x, y, c, m', rfl, -⟩ := drew.output
  refine alone.of_parts paged rfl (.refl _) fun a inside => high a ?_
  have above := inside.high valid
  simp only [eightMB, fourMB] at above ⊢
  omega

/-- What another process can reach lies outside the frame. -/
theorem outside_of_reach {p : Int} (other : p ≠ q) (validP : ValidPid p) {a : Nat} (reach : InFrame p a ∨ InVideo a) :
    ¬ InFrame q a := by
  intro inside
  rcases reach with frame | video
  · exact other (frame.unique validP valid inside)
  · have low := video.low
    have high := inside.high valid
    simp only [eightMB, fourMB] at high low
    omega

/-! ### Keys -/

theorem switchTerminal (alone : LeftAlone q b m s) (n : Term) : LeftAlone q b m (switchTerminal n s) := by
  have copied : ∀ {s : Kernel} (dest src : Nat), LeftAlone q b m s → videoPage ≤ dest → dest ≤ videoPage + 3 →
      LeftAlone q b m (copyPage dest src s) := by
    intro s dest src alone low below
    have frame := (alone.paged.video dest low below).2
    refine alone.of_parts ?_ rfl (.refl _) fun a inside => setFrame_high frame _ ?_
    · exact alone.paged.of_same rfl rfl rfl
    · have above := inside.high valid
      simp only [eightMB, fourMB] at above ⊢
      omega
  unfold BigBrainOS.switchTerminal switchTer swapVidMem
  split
  · have buffer : ∀ t : Term, videoPage ≤ videoPage + (t.val + 1) ∧ videoPage + (t.val + 1) ≤ videoPage + 3 := by decide
    have out := copied (videoPage + (s.currTer.val + 1)) videoPage alone (buffer _).1 (buffer _).2
    have swapped := copied videoPage (videoPage + (n.val + 1)) out (Nat.le_refl _) (by decide)
    have tables := swapped.of_tables (swapped.paged.changeVidmem (by omega) (term_le_two s.currTer)) rfl rfl rfl
    exact tables.of_globals rfl rfl rfl rfl rfl rfl
  · exact alone

theorem backspace (alone : LeftAlone q b m s) : LeftAlone q b m (backspace s) := by
  have erased := alone.drew valid (screenBackspace_drew alone.paged)
  unfold BigBrainOS.backspace
  split
  · exact alone
  · exact erased.of_globals rfl rfl rfl rfl rfl rfl

theorem upArrow (alone : LeftAlone q b m s) : LeftAlone q b m (upArrow s) := by
  apply upArrow_rule (P := LeftAlone q b m) (Q := LeftAlone q b m) alone
  · exact fun _ alone => alone.backspace valid
  · intro s alone
    have copied := alone.setTerminal s.currTer fun t =>
      { t with
        typing := fun i => if i < bufSize then t.history i else t.typing i
        bufLen := strlen t.history bufSize }
    exact copied.drew valid (puts_drew copied.paged _)

theorem characterKey (alone : LeftAlone q b m s) (c : UInt8) : LeftAlone q b m (characterKey c s) := by
  have typed : ∀ (f : TerminalState → TerminalState) (c : UInt8), LeftAlone q b m (putc c (s.setTerminal s.currTer f)) := by
    intro f c
    have edited := alone.setTerminal s.currTer f
    exact edited.drew valid (putc_drew edited.paged c)
  unfold BigBrainOS.characterKey
  split
  · exact alone.backspace valid
  split
  · exact typed _ _
  split
  · exact alone
  · unfold printChar
    split
    · exact alone
    · exact typed _ _

theorem kbHandler (alone : LeftAlone q b m s) (scancode : UInt8) : LeftAlone q b m (kbHandler scancode s) := by
  apply kbHandler_rule (P := LeftAlone q b m) (Q := LeftAlone q b m) scancode
  case arrow =>
    split
    · exact alone.upArrow valid
    · exact alone
  case still => exact fun _ alone => alone
  case modifiers => exact fun _ _ _ _ _ alone => alone.of_globals rfl rfl rfl rfl rfl rfl
  case clear => exact fun _ alone => alone.drew valid (controlL_drew alone.paged)
  case switch => exact fun _ n _ _ alone => alone.switchTerminal valid n
  case character => exact fun _ _ alone => alone.characterKey valid _

/-! ### `sys_execute` and `sys_halt` -/

/-- The statements of a launch, besides the loader's stores. -/
theorem launchStmt (alone : LeftAlone q b m s) {l : Launch} (other : l.newPid ≠ q) (validNew : ValidPid l.newPid)
    {stmt : LaunchStmt} (noCopy : ∀ k, stmt ≠ .copy k) (run : stmt.run l s = some s') : LeftAlone q b m s' := by
  have block : getPcbByPid q ≠ getPcbByPid l.newPid := getPcbByPid_ne validNew other.symm
  cases stmt with
  | copy k => exact absurd rfl (noCopy k)
  | enableProgramPage =>
    obtain rfl := Option.some.inj run
    exact alone.of_tables (alone.paged.enableProgramPage _) rfl rfl rfl
  | printf => obtain rfl := Option.some.inj run; exact alone.drew valid (puts_drew alone.paged _)
  | usedPids =>
    obtain rfl := Option.some.inj run
    refine alone.of_parts ?_ (Function.update_of_ne other.symm _ _) (.refl _) fun _ _ => rfl
    exact alone.paged.of_same rfl rfl rfl
  | parPidRoot =>
    obtain rfl := Option.some.inj run
    split
    · exact alone.setPcb block _
    · exact alone
  | readEip | ss0 | esp0 | progCurrPid | progParPid | iret =>
    obtain rfl := Option.some.inj run
    exact alone.of_globals rfl rfl rfl rfl rfl rfl
  | _ => obtain rfl := Option.some.inj run; exact alone.setPcb block _

/-- The loader stores to the frame of the new process. -/
theorem copies {l : Launch} (other : l.newPid ≠ q) (validNew : ValidPid l.newPid) : ∀ (ks : List Nat) {s s' : Kernel},
    LeftAlone q b m s → s.MapsProgram l.newPid → (∀ k ∈ ks, k < fourMB) →
      runLaunch l (ks.map .copy) s = .ok s' ∨ runLaunch l (ks.map .copy) s = .error s' → LeftAlone q b m s' := by
  intro ks
  induction ks with
  | nil =>
    rintro s s' alone - - (run | run)
    · cases run; exact alone
    · cases run
  | cons k ks ih =>
    intro s s' alone maps near run
    have inside := near k List.mem_cons_self
    simp only [List.map_cons, runLaunch, LaunchStmt.run, Kernel.writeByte] at run
    cases address : s.translate (progLoadAddr + k) with
    | none =>
      simp only [address, Option.map_none] at run
      rcases run with run | run
      · cases run
      · cases run; exact alone
    | some a =>
      have reach := alone.paged.translate_cases maps (by simp only [progLoadAddr]; omega)
        (by simp only [progLoadAddr, fourMB] at inside ⊢; omega) address
      simp only [address, Option.map_some] at run
      apply ih (alone.stored (outside_of_reach valid other validNew reach) _) maps _ run
      exact fun j later => near j (List.mem_cons_of_mem k later)

theorem runLaunch_rest {l : Launch} (other : l.newPid ≠ q) (validNew : ValidPid l.newPid) :
    ∀ (stmts : List LaunchStmt) {s s' : Kernel}, LeftAlone q b m s → (∀ stmt ∈ stmts, ∀ k, stmt ≠ .copy k) →
      runLaunch l stmts s = .ok s' → LeftAlone q b m s' := by
  intro stmts
  induction stmts with
  | nil => intro s s' alone _ run; cases run; exact alone
  | cons stmt stmts ih =>
    intro s s' alone noCopy run
    simp only [runLaunch] at run
    split at run
    · cases run
    · next s₁ ran =>
      apply ih (alone.launchStmt valid other validNew (noCopy stmt List.mem_cons_self) ran) _ run
      exact fun later member => noCopy later (List.mem_cons_of_mem stmt member)

/-- A launch is one of a process that is not live yet. -/
theorem sysExecute (alone : LeftAlone q b m s) (env : Env) (fr : ExecFrame) (command : Bytes) :
    LeftAlone q b m (sysExecute env fr command s).2 := by
  unfold BigBrainOS.sysExecute
  dsimp only
  cases check : checkExecutable env.img fr (parse fr command) with
  | none => exact alone
  | some inode =>
    cases alloc : getNewPid s with
    | none =>
      dsimp only
      generalize maxProcessesMessage = text
      exact alone.drew valid (puts_drew alone.paged text)
    | some newPid =>
      obtain ⟨validNew, free, -⟩ := getNewPid_eq_some.1 alloc
      have other : newPid ≠ q := by
        rintro rfl
        rw [alone.used] at free
        cases free
      have enabled : LeftAlone q b m (enableProgramPage newPid s) :=
        alone.of_tables (alone.paged.enableProgramPage newPid) rfl rfl rfl
      have maps := enableProgramPage_maps newPid s
      simp only [Image.readData_eq (checkExecutable_valid check)]
      generalize launch : Launch.mk newPid _ (parse fr command).haveArgs (parse fr command).arguments fr.regs = l
      have length : l.program.length ≤ fourMB := by
        rw [← launch]
        exact List.length_take_le _ _
      obtain rfl : l.newPid = newPid := by rw [← launch]
      have near : ∀ k ∈ List.range l.program.length, k < fourMB := fun k member =>
        Nat.lt_of_lt_of_le (List.mem_range.1 member) length
      have loads : ∀ s', _ → LeftAlone q b m s' := fun s' =>
        copies valid other validNew (List.range l.program.length) enabled maps near
      have list : runLaunch l (loadStmts l) s =
        runLaunch l ((List.range l.program.length).map .copy) (enableProgramPage l.newPid s) := rfl
      rw [list]
      cases loaded : runLaunch l ((List.range l.program.length).map .copy) (enableProgramPage l.newPid s) with
      | error s₁ => exact loads s₁ (Or.inr loaded)
      | ok s₁ =>
        have ready := loads s₁ (Or.inl loaded)
        obtain ⟨s', eip, run, enters⟩ := enterProgram_ok l s₁
        simp only [enters]
        apply runLaunch_rest valid other validNew _ ready _ run
        simp [createStmts, enterStmts]

theorem haltStmt (alone : LeftAlone q b m s) {h : Halt} (pid : h.pid ≠ q) (addr : getPcbByPid q ≠ h.addr) (stmt : HaltStmt) :
    LeftAlone q b m (stmt.run h s) := by
  cases stmt with
  | usedPids =>
    refine alone.of_parts ?_ (Function.update_of_ne pid.symm _ _) (.refl _) fun _ _ => rfl
    exact alone.paged.of_same rfl rfl rfl
  | printf => exact alone.drew valid (puts_drew alone.paged _)
  | enableProgramPage => exact alone.of_tables (alone.paged.enableProgramPage _) rfl rfl rfl
  | close i => exact alone.reprogrammed (close_reprogrammed h i s)
  | clearPcb => exact alone.setPcb addr fun _ => .zero
  | _ => exact alone.of_globals rfl rfl rfl rfl rfl rfl

theorem runHalt (alone : LeftAlone q b m s) {h : Halt} (pid : h.pid ≠ q) (addr : getPcbByPid q ≠ h.addr)
    (stmts : List HaltStmt) : LeftAlone q b m (runHalt h stmts s) := by
  induction stmts generalizing s with
  | nil => exact alone
  | cons stmt stmts ih => exact ih (alone.haltStmt valid pid addr stmt)

/-- A process halts itself. -/
theorem sysHalt (alone : LeftAlone q b m s) {F : Forest Term Int} (tree : Tree s.view F) (other : s.running ≠ q) (env : Env)
    (fr : ExecFrame) (status : UInt8) : LeftAlone q b m (sysHalt env fr status s).2 := by
  have validRunning : ValidPid (s.currPid s.currProcess) := by
    rw [tree.currPid_eq]
    exact tree.cur_valid _
  have own : (s.pcbs (getPcbByPid (s.currPid s.currProcess))).pid = s.currPid s.currProcess := by
    rw [tree.currPid_eq]
    exact tree.pid _ (F.cur_live _)
  have addr : getPcbByPid q ≠ getPcbByPid (s.currPid s.currProcess) := getPcbByPid_ne validRunning other.symm
  unfold BigBrainOS.sysHalt
  split
  · exact alone
  dsimp only
  rw [own]
  generalize halts : Halt.mk _ (s.currPid s.currProcess) = h
  have pid : h.pid ≠ q := by rw [← halts]; exact other
  have block : getPcbByPid q ≠ h.addr := by rw [← halts]; exact addr
  have released := alone.runHalt valid pid block releaseStmts
  have returned : ∀ {s₁}, LeftAlone q b m s₁ → LeftAlone q b m (returnToParent h status s₁).2 := fun alone =>
    (alone.runHalt valid pid block [.progCurrPid, .progParPid]).runHalt valid pid block [.clearPcb]
  unfold BigBrainOS.finishHalt
  split
  · have shell := (released.drew valid (puts_drew released.paged exitedRootMessage)).sysExecute valid env fr (shellCommand env)
    split
    · next eq => rw [eq] at shell; exact shell
    · next eq => rw [eq] at shell; exact shell
    · next eq => rw [eq] at shell; exact returned shell
  · exact returned released

/-- An exception prints a message and halts the process. -/
theorem blueScreen (alone : LeftAlone q b m s) {F : Forest Term Int} (tree : Tree s.view F) (other : s.running ≠ q)
    (env : Env) (exc : ExecFrame) (text : String) : LeftAlone q b m (blueScreen env exc text s).2 := by
  have printed := puts_drew alone.paged (message "! ERROR " ++ [0xAF] ++ message (" " ++ text ++ " !\n"))
  apply (alone.drew valid printed).sysHalt valid (F := F)
  · rw [printed.output.view]
    exact tree
  · rwa [show Kernel.running _ = s.running from congrArg (fun v : ProcView => v.curr v.currProcess) printed.output.view]

/-! ### Clock ticks -/

omit valid in
/-- A tick between two processes saves the registers of the running one. -/
theorem tick (alone : LeftAlone q b m s) {F : Forest Term Int} (tree : Tree s.view F) (other : s.running ≠ q) (env : Env)
    (r : Regs) (fr : ExecFrame) : LeftAlone q b m (switchRunningProcess env r fr s).2 := by
  have validRunning : ValidPid (s.currPid s.currProcess) := by
    rw [tree.currPid_eq]
    exact tree.cur_valid _
  have addr : getPcbByPid q ≠ getPcbByPid (s.currPid s.currProcess) := getPcbByPid_ne validRunning other.symm
  obtain ⟨on, mask, masked⟩ := maskKeyboard_quiet (s.currProcess + 1) s
  have running : ¬ ({ s with onScreen := on, masterMask := mask } : Kernel).currPid s.currProcess = -1 := tree.currPid_ne _
  have range := Paged.vidId_range (s.currProcess + 1) s.currTer
  simp only [switchRunningProcess, if_neg (tree.currPid_ne (s.currProcess + 1)), masked, switchTo, if_neg running]
  have quiet : LeftAlone q b m { s with onScreen := on, masterMask := mask } := alone.of_globals rfl rfl rfl rfl rfl rfl
  have saved := quiet.setPcb addr fun pcb => { pcb with regs := r }
  have mapped := saved.of_tables (saved.paged.enableProgramPage (s.currPid (s.currProcess + 1))) rfl rfl rfl
  have shown := mapped.of_tables (mapped.paged.changeVidmem range.1 range.2) rfl rfl rfl
  exact shown.of_globals rfl rfl rfl rfl rfl rfl

/-! ### Stores through pointers -/

theorem storeBytes (alone : LeftAlone q b m s) {p : Int} (validP : ValidPid p) (other : p ≠ q) (maps : s.MapsProgram p)
    {lin w : Nat} (low : 0x8000000 ≤ lin) : ∀ {n : Nat} {s' : Kernel}, lin + n ≤ 0x8800000 →
      s.storeBytes lin w n = some s' → LeftAlone q b m s' := by
  intro n
  induction n with
  | zero =>
    intro s' _ stored
    obtain rfl := Option.some.inj stored
    exact alone
  | succ n ih =>
    intro s' room stored
    obtain ⟨s₁, first, last⟩ := Option.bind_eq_some_iff.1 stored
    have before := ih (by omega) first
    obtain ⟨a, address, rfl⟩ := Option.map_eq_some_iff.1 last
    have maps₁ := (storeBytes_stored first).mapsProgram maps
    have reach := before.paged.translate_cases maps₁ (by omega) (by omega) address
    exact before.stored (outside_of_reach valid other validP reach) _

theorem sysVidmap (alone : LeftAlone q b m s) {p : Int} (validP : ValidPid p) (other : p ≠ q) (maps : s.MapsProgram p)
    (tableAddr : Nat) (screenStart : BitVec 32) : LeftAlone q b m (sysVidmap tableAddr screenStart s).2 := by
  by_cases taken : InProgramPage screenStart
  · obtain ⟨nonzero, low, high⟩ := taken
    have mapped : LeftAlone q b m (getVidmem tableAddr s) := alone.of_tables (alone.paged.getVidmem tableAddr) rfl rfl rfl
    have unsigned : (screenStart.toNat : Int) = screenStart.toInt := by
      rw [BitVec.toInt_eq_toNat_cond] at low ⊢
      split
      · rfl
      · next large =>
        rw [if_neg large] at low
        have bound := screenStart.isLt
        simp only [mb128] at low
        omega
    simp only [mb128, mb132] at low high
    rw [BigBrainOS.sysVidmap, if_neg nonzero, if_neg (by simp only [mb128, mb132]; omega)]
    dsimp only
    split
    · exact mapped
    · next stored =>
      have maps' : (getVidmem tableAddr s).MapsProgram p := maps
      exact mapped.storeBytes valid validP other maps' (by omega) (by omega) stored
  · rw [sysVidmap_refused taken]
    exact alone

theorem userStore (alone : LeftAlone q b m s) {p : Int} (validP : ValidPid p) (other : p ≠ q) (maps : s.MapsProgram p)
    (lin : Nat) (x : UInt8) : LeftAlone q b m (s.userStore lin x) := by
  unfold Kernel.userStore
  split
  · exact alone
  · next a address =>
    exact alone.stored (outside_of_reach valid other validP (alone.paged.userTranslate_cases maps address)) x

/-! ### All steps -/

theorem machineOp (alone : LeftAlone q b m s) (consistent : Consistent s) (other : s.running ≠ q) (env : Env)
    (tableAddr : Nat) (op : MachineOp) : LeftAlone q b m (op.run env tableAddr s) := by
  obtain ⟨validRunning, -, -⟩ := consistent.running
  obtain ⟨⟨F, tree⟩, placed⟩ := consistent
  have maps : s.MapsProgram s.running := placed.page
  cases op with
  | vidmap screenStart => exact alone.sysVidmap valid validRunning other maps tableAddr screenStart
  | pageFault exc => exact alone.blueScreen valid tree other env exc "Page Fault"
  | call op =>
    cases op with
    | execute fr exc command =>
      have executed := alone.sysExecute valid env fr command
      have view := sysExecute_view env fr command s
      simp only [MachineOp.run, Op.run, executeCall]
      generalize BigBrainOS.sysExecute env fr command s = out at executed view
      obtain ⟨outcome, s'⟩ := out
      cases outcome with
      | failed => exact executed
      | launched n eip => exact executed
      | fault =>
        -- the handler halts the caller
        obtain ⟨n, -, view⟩ := view
        have same : s'.running = s.running := congrArg (fun v : ProcView => v.curr v.currProcess) view
        have tree' : Tree s'.view F := by
          rw [view]
          exact tree.enable n
        exact executed.blueScreen valid tree' (by rw [same]; exact other) env exc "Page Fault"
    | halt fr status => exact alone.sysHalt valid tree other env fr status
    | tick r fr => exact alone.tick tree other env r fr
    | putc c => exact alone.drew valid (putc_drew alone.paged c)
    | key scancode => exact alone.kbHandler valid scancode

/-- **Step lemma.** A step of another process leaves the process alone. -/
theorem step (alone : LeftAlone q b m s) (consistent : Consistent s) (other : s.running ≠ q) {env : Env} {tableAddr : Nat}
    {op : SystemOp} (allowed : op.Allowed s) : LeftAlone q b m (op.run env tableAddr s) := by
  obtain ⟨validRunning, -, onStack⟩ := consistent.running
  have addr : getPcbByPid q ≠ getPcbByPid s.running := getPcbByPid_ne validRunning other.symm
  cases op with
  | machine op => exact alone.machineOp valid consistent other env tableAddr op
  | open_ r filename => exact alone.ownRecords addr (sysOpen_own (onStack r.esp allowed) env.img filename)
  | close r fd => exact alone.ownRecords addr (sysClose_own (onStack r.esp allowed) fd)
  | read r fd buf nbytes => exact alone.ownRecords addr (readCall_own (onStack r.esp allowed) env.img fd buf nbytes)
  | wait stmt => exact alone.ownRecords addr (waitStmt_own stmt s)
  | clock => exact alone.ownRecords addr (rtHandler_own _ s)
  | exception exc text =>
    obtain ⟨⟨F, tree⟩, -⟩ := consistent
    exact alone.blueScreen valid tree other env exc text
  | store lin x => exact alone.userStore valid validRunning other consistent.2.page lin.toNat x
  | write r fd buf nbytes =>
    show LeftAlone q b m (sysWriteCall r fd buf nbytes s).2
    unfold sysWriteCall
    split
    · exact alone
    · exact alone.ownRecords addr (rtcWrite_own _ nbytes s)
    · exact alone.drew valid (terminalWrite_drew alone.paged buf nbytes)
    · exact alone

end LeftAlone

end BigBrainOS
