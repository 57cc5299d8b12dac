import BigBrainOS.Kernel.Files
import BigBrainOS.Kernel.Terminal
import BigBrainOS.Process.Boot
import BigBrainOS.Theory.Reach

/-!
# The descriptor table of a process

The table of a process as a state machine: `sys_open`, `sys_close` and
`sys_read` on its kernel stack, between any steps that leave its table alone.
`sys_open` writes the two standard entries again on every call, which changes
nothing because they never leave the state that `sys_execute` gave them.
-/

namespace BigBrainOS
set_option autoImplicit false

/-! ## The steps -/

/-- The stores of `rtc_read` and `terminal_read`, which wait with interrupts on. -/
inductive WaitStmt where
  /-- `pcb->count = pcb->divisor`. -/
  | restoreCount
  /-- `rtc_interrupt_flags[curr_process] = 0`. -/
  | resetFlag
  /-- `pcb->count--`. -/
  | decrement
  /-- `terminals[curr_process].buffer_updated = 0`. -/
  | resetUpdated
  /-- `clear_buffer()`. -/
  | clearBuffer
  deriving DecidableEq, Repr

def WaitStmt.run (stmt : WaitStmt) (s : Kernel) : Kernel :=
  let addr := getPcbByPid (s.currPid s.currProcess)
  match stmt with
  | .restoreCount => s.setPcb addr fun pcb => { pcb with count := pcb.divisor }
  | .resetFlag => { s with rtcInterruptFlags := Function.update s.rtcInterruptFlags s.currProcess false }
  | .decrement => s.setPcb addr fun pcb => { pcb with count := (pcb.count + (2 ^ 32 - 1)) % 2 ^ 32 }
  | .resetUpdated => BigBrainOS.resetUpdated s
  | .clearBuffer => BigBrainOS.clearBuffer s

/-- A step of a process or around it. -/
inductive FdStep where
  | open_ (r : Regs) (filename : Bytes)
  | close (r : Regs) (fd : Fd)
  /-- A read, complete unless its handler waits; `none` is the null pointer. -/
  | read (r : Regs) (fd : Fd) (buf : Option Bytes) (nbytes : Int)
  /-- A store of a handler that waits. -/
  | wait (stmt : WaitStmt)
  /-- Interrupts and other processes. -/
  | elsewhere (s' : Kernel)

/-- The effect of `sys_read` up to its return, or to the wait of its handler. -/
def readCall (img : Image) (r : Regs) (fd : Fd) (buf : Option Bytes) (nbytes : Int) (s : Kernel) : Kernel :=
  match buf, sysRead r fd buf.isNone s with
  | some b, .call (some .fileFot) => (fileRead img r fd b nbytes s).2.2
  | some b, .call (some .dirFot) => (dirRead img r fd b s).2.2
  | _, _ => s

def FdStep.run (img : Image) (step : FdStep) (s : Kernel) : Kernel :=
  match step with
  | .open_ r filename => (sysOpen img r filename s).2
  | .close r fd => (sysClose r fd s).2
  | .read r fd buf nbytes => readCall img r fd buf nbytes s
  | .wait stmt => stmt.run s
  | .elsewhere s' => s'

/-- The calls of process `p` are made on its kernel stack, and nothing else writes its table. -/
def FdStep.Allowed (p : Int) (step : FdStep) (s : Kernel) : Prop :=
  match step with
  | .open_ r _ => OnStack (kernelStackTop p) r.esp
  | .close r _ => OnStack (kernelStackTop p) r.esp
  | .read r _ _ _ => OnStack (kernelStackTop p) r.esp
  | .wait _ => True
  | .elsewhere s' => (s'.pcb p).fdt = (s.pcb p).fdt

/-- The descriptor calls of process `p`. -/
def descriptorCalls (img : Image) (p : Int) : TransitionSystem Kernel FdStep where
  ok s step := step.Allowed p s
  next s step := step.run img s

/-! ## What the calls do to the table -/

/-- The standard entries. -/
def stdinEntry : FdtEntry := ⟨some .stdinFot, 0, 0, true, false⟩
def stdoutEntry : FdtEntry := ⟨some .stdoutFot, 0, 0, true, false⟩

/-- The standard entries are as `sys_execute` made them, and an enabled entry has handlers. -/
structure TableInv (fdt : Fd → FdtEntry) : Prop where
  stdin : fdt 0 = stdinEntry
  stdout : fdt 1 = stdoutEntry
  handlers : ∀ fd, (fdt fd).enabled = true → (fdt fd).fotPtr.isSome = true

theorem TableInv.initFdt : TableInv initFdt where
  stdin := rfl
  stdout := rfl
  handlers := by decide

section Effects
variable {s : Kernel} {r : Regs} {p : Int}

/-- RTC bookkeeping leaves every table alone. -/
theorem Reprogrammed.fdt {s s' : Kernel} (h : Reprogrammed s s') (a : Nat) : (s'.pcbs a).fdt = (s.pcbs a).fdt := by
  obtain ⟨f, reg, ps, rfl, same⟩ := h
  obtain ⟨d, e⟩ := same a
  show (ps a).fdt = _
  rw [e]

theorem WaitStmt.run_fdt (stmt : WaitStmt) (s : Kernel) (a : Nat) : ((stmt.run s).pcbs a).fdt = (s.pcbs a).fdt := by
  cases stmt with
  | restoreCount => unfold run; apply setPcb_fdt; exact fun _ => rfl
  | decrement => unfold run; apply setPcb_fdt; exact fun _ => rfl
  | resetFlag => rfl
  | resetUpdated => rfl
  | clearBuffer => rfl

theorem currPcb_eq (valid : ValidPid p) (stack : OnStack (kernelStackTop p) r.esp) (s : Kernel) :
    s.currPcb r = s.pcb p := s.currPcb_eq (getCurrPcb_of_onStack valid stack)

/-- The entry that `sys_open` makes. -/
def openEntry (filename : Bytes) (file : DirEntry) : FdtEntry :=
  ⟨some (openFot filename file), file.inodeNum, 0, true, decide (file.fileType = 2)⟩

/-- `sys_open` with a name and a free descriptor: the standard entries are
written again, and the free one is filled. -/
theorem sysOpen_found {img : Image} {filename : Bytes} {file : DirEntry} {fd : Fd} (inv : TableInv (s.currPcb r).fdt)
    (found : img.readDentryByName filename = some file) (free : getNewFd (s.currPcb r) = some fd) :
    ∃ s' : Kernel, sysOpen img r filename s = ((fd.val : Int), s') ∧
      (s'.currPcb r).fdt = Function.update (s.currPcb r).fdt fd (openEntry filename file) := by
  obtain ⟨low, -, -⟩ := getNewFd_eq_some.1 free
  have first : (0 : Fd) ≠ fd := by rintro rfl; simp at low
  have second : (1 : Fd) ≠ fd := by rintro rfl; simp at low
  simp only [sysOpen, found, free]
  refine ⟨_, rfl, ?_⟩
  rw [Kernel.currPcb, openHandler_fdt, ← Kernel.currPcb, setFd_fdt, resetStdio, setFd_fdt, setFd_fdt, setFd_fdt]
  funext j
  by_cases same : j = fd
  · rw [same, Function.update_self, Function.update_self]
    rfl
  · rw [Function.update_of_ne same, Function.update_of_ne same]
    by_cases isStdout : j = 1
    · rw [isStdout, Function.update_self, inv.stdout]; rfl
    · rw [Function.update_of_ne isStdout]
      by_cases isStdin : j = 0
      · rw [isStdin, Function.update_self, inv.stdin]; rfl
      · rw [Function.update_of_ne isStdin, Function.update_of_ne same]

theorem sysOpen_absent {img : Image} {filename : Bytes} (absent : img.readDentryByName filename = none) :
    sysOpen img r filename s = (error, s) := by
  simp only [sysOpen, absent]

theorem sysOpen_full {img : Image} {filename : Bytes} (full : getNewFd (s.currPcb r) = none) :
    sysOpen img r filename s = (error, s) := by
  unfold sysOpen
  split
  · rfl
  · simp only [full]

/-- All that `sys_open` can do on such a table: it fails and changes nothing, or
it fills the entry of the descriptor that it returns. -/
theorem TableInv.sysOpen_cases (inv : TableInv (s.currPcb r).fdt) (img : Image) (filename : Bytes) :
    ((img.readDentryByName filename = none ∨ getNewFd (s.currPcb r) = none) ∧ sysOpen img r filename s = (error, s)) ∨
      ∃ file fd s', img.readDentryByName filename = some file ∧ getNewFd (s.currPcb r) = some fd ∧
        sysOpen img r filename s = ((fd.val : Int), s') ∧
        (s'.currPcb r).fdt = Function.update (s.currPcb r).fdt fd (openEntry filename file) := by
  cases found : img.readDentryByName filename with
  | none => exact Or.inl ⟨Or.inl rfl, sysOpen_absent found⟩
  | some file =>
    cases free : getNewFd (s.currPcb r) with
    | none => exact Or.inl ⟨Or.inr rfl, sysOpen_full free⟩
    | some fd =>
      obtain ⟨s', opened, table⟩ := sysOpen_found inv found free
      exact Or.inr ⟨file, fd, s', rfl, rfl, opened, table⟩

/-- `sys_close` of an open descriptor disables it. -/
theorem sysClose_open {fd : Fd} (inv : TableInv (s.currPcb r).fdt) (low : 2 ≤ fd.val)
    (enabled : ((s.currPcb r).fdt fd).enabled = true) :
    ∃ s' : Kernel, sysClose r fd s = (some 0, s') ∧
      (s'.currPcb r).fdt = Function.update (s.currPcb r).fdt fd { (s.currPcb r).fdt fd with enabled := false } := by
  obtain ⟨fot, table⟩ := Option.isSome_iff_exists.1 (inv.handlers fd enabled)
  have valid : ¬ (fd.val < 2 ∨ ((s.currPcb r).fdt fd).enabled = false) := by simp [enabled]; omega
  refine ⟨closeFile (some fot) (s.setFd r fd fun e => { e with enabled := false }), ?_, ?_⟩
  · simp only [sysClose, if_neg valid, table]
  · rw [Kernel.currPcb, (closeFile_reprogrammed _ _).fdt, ← Kernel.currPcb, setFd_fdt]

theorem sysClose_refused {fd : Fd} (refused : ¬ (2 ≤ fd.val ∧ ((s.currPcb r).fdt fd).enabled = true)) :
    sysClose r fd s = (some error, s) := by
  have invalid : fd.val < 2 ∨ ((s.currPcb r).fdt fd).enabled = false := by
    by_contra neither
    rw [not_or, Bool.not_eq_false] at neither
    exact refused ⟨by omega, neither.2⟩
  simp only [sysClose, if_pos invalid]

/-- The operation table that a read is handed to is the descriptor's. -/
theorem sysRead_call {fd : Fd} {bufIsNull : Bool} {fot : Option Fot} (dispatch : sysRead r fd bufIsNull s = .call fot) :
    ((s.currPcb r).fdt fd).fotPtr = fot := by
  unfold sysRead at dispatch
  dsimp only at dispatch
  split at dispatch
  · cases dispatch
  · split at dispatch
    · exact Dispatch.call.inj dispatch
    · cases dispatch

/-- `s'` is `s` with the position of one descriptor moved. -/
def Moved (r : Regs) (fd : Fd) (s s' : Kernel) : Prop :=
  ∃ position, (s'.currPcb r).fdt =
    Function.update (s.currPcb r).fdt fd { (s.currPcb r).fdt fd with filePosition := position }

theorem fileRead_moved (img : Image) (r : Regs) (fd : Fd) (buf : Bytes) (nbytes : Int) (s : Kernel) :
    Moved r fd s (fileRead img r fd buf nbytes s).2.2 := by
  unfold fileRead
  dsimp only
  split
  · exact ⟨_, setFd_fdt s r fd fun e => { e with filePosition := (e.filePosition + (2 ^ 32 - 1)) % 2 ^ 32 }⟩
  · next bytes _ =>
    exact ⟨_, setFd_fdt s r fd fun e => { e with filePosition := (e.filePosition + bytes.length) % 2 ^ 32 }⟩

theorem dirRead_moved (img : Image) (r : Regs) (fd : Fd) (buf : Bytes) (s : Kernel) :
    Moved r fd s (dirRead img r fd buf s).2.2 := by
  have still : Moved r fd s s := ⟨_, (Function.update_eq_self fd (s.currPcb r).fdt).symm⟩
  unfold dirRead
  dsimp only
  split
  · exact still
  · split
    · exact still
    · exact ⟨_, setFd_fdt s r fd fun e => { e with filePosition := (e.filePosition + 1) % 2 ^ 32 }⟩

/-- A read moves the position of its own descriptor at most, and only of a file or directory. -/
theorem readCall_fdt (img : Image) (r : Regs) (fd : Fd) (buf : Option Bytes) (nbytes : Int) (s : Kernel) :
    readCall img r fd buf nbytes s = s ∨
      (((s.currPcb r).fdt fd).fotPtr = some .fileFot ∨ ((s.currPcb r).fdt fd).fotPtr = some .dirFot) ∧
        Moved r fd s (readCall img r fd buf nbytes s) := by
  unfold readCall
  split
  · next dispatch => exact Or.inr ⟨Or.inl (sysRead_call dispatch), fileRead_moved img r fd _ nbytes s⟩
  · next dispatch => exact Or.inr ⟨Or.inr (sysRead_call dispatch), dirRead_moved img r fd _ s⟩
  · exact Or.inl rfl

end Effects

/-! ## The invariant of all runs -/

namespace TableInv
variable {fdt : Fd → FdtEntry}

/-- An entry from 2 on overwritten with one that has handlers. -/
theorem update (inv : TableInv fdt) {fd : Fd} (low : 2 ≤ fd.val) {e : FdtEntry}
    (handlers : e.enabled = true → e.fotPtr.isSome = true) : TableInv (Function.update fdt fd e) where
  stdin := by
    rw [Function.update_of_ne (by rintro rfl; simp at low)]
    exact inv.stdin
  stdout := by
    rw [Function.update_of_ne (by rintro rfl; simp at low)]
    exact inv.stdout
  handlers j := by
    by_cases same : j = fd
    · rw [same, Function.update_self]; exact handlers
    · rw [Function.update_of_ne same]; exact inv.handlers j

/-- The descriptors of files and directories are none of the standard ones. -/
theorem file_low (inv : TableInv fdt) {fd : Fd} (file : (fdt fd).fotPtr = some .fileFot ∨ (fdt fd).fotPtr = some .dirFot) :
    2 ≤ fd.val := by
  by_contra low
  have standard : fd.val = 0 ∨ fd.val = 1 := by omega
  rcases standard with first | second
  · rw [show fd = 0 from Fin.ext first, inv.stdin] at file
    simp [stdinEntry] at file
  · rw [show fd = 1 from Fin.ext second, inv.stdout] at file
    simp [stdoutEntry] at file

end TableInv

/-- **Step rule.** A property of the table is kept by every step if it is kept
when an entry is filled, when one is disabled, and by a read. -/
theorem FdStep.keeps {img : Image} {p : Int} {P : (Fd → FdtEntry) → Prop} (valid : ValidPid p) {s : Kernel} {step : FdStep}
    (inv : TableInv (s.pcb p).fdt) (allowed : step.Allowed p s) (holds : P (s.pcb p).fdt)
    (opens : ∀ (fd : Fd) filename file, 2 ≤ fd.val → P (Function.update (s.pcb p).fdt fd (openEntry filename file)))
    (closes : ∀ fd : Fd, 2 ≤ fd.val → P (Function.update (s.pcb p).fdt fd { (s.pcb p).fdt fd with enabled := false }))
    (reads : ∀ r fd buf nbytes, OnStack (kernelStackTop p) r.esp → P ((readCall img r fd buf nbytes s).pcb p).fdt) :
    P ((step.run img s).pcb p).fdt := by
  cases step with
  | open_ r filename =>
    have own := currPcb_eq valid allowed
    rw [← own] at inv holds opens ⊢
    show P ((sysOpen img r filename s).2.currPcb r).fdt
    rcases inv.sysOpen_cases img filename with ⟨-, failed⟩ | ⟨file, fd, s', -, free, opened, table⟩
    · rw [failed]
      exact holds
    · rw [opened, table]
      exact opens fd filename file (getNewFd_eq_some.1 free).1
  | close r fd =>
    have own := currPcb_eq valid allowed
    rw [← own] at inv holds closes ⊢
    show P ((sysClose r fd s).2.currPcb r).fdt
    by_cases isOpen : 2 ≤ fd.val ∧ ((s.currPcb r).fdt fd).enabled = true
    · obtain ⟨s', closed, table⟩ := sysClose_open inv isOpen.1 isOpen.2
      rw [closed, table]
      exact closes fd isOpen.1
    · rw [sysClose_refused isOpen]
      exact holds
  | read r fd buf nbytes => exact reads r fd buf nbytes allowed
  | wait stmt =>
    have same : ((stmt.run s).pcb p).fdt = (s.pcb p).fdt := stmt.run_fdt s _
    rw [show (FdStep.wait stmt).run img s = stmt.run s from rfl, same]
    exact holds
  | elsewhere s' =>
    have same : (s'.pcb p).fdt = (s.pcb p).fdt := allowed
    rw [show (FdStep.elsewhere s').run img s = s' from rfl, same]
    exact holds

/-- **Step lemma.** Every step keeps the standard entries. -/
theorem TableInv.step {img : Image} {p : Int} (valid : ValidPid p) {s : Kernel} {step : FdStep}
    (inv : TableInv (s.pcb p).fdt) (allowed : step.Allowed p s) : TableInv ((step.run img s).pcb p).fdt := by
  apply FdStep.keeps valid inv allowed inv
  · intro fd filename file low
    exact inv.update low fun _ => rfl
  · intro fd low
    exact inv.update low fun enabled => by cases enabled
  · intro r fd buf nbytes stack
    rw [← currPcb_eq valid stack] at inv ⊢
    rcases readCall_fdt img r fd buf nbytes s with same | ⟨file, position, moved⟩
    · rw [same]
      exact inv
    · rw [moved]
      exact inv.update (inv.file_low file) (inv.handlers fd)

/-- The state in which `sys_execute` leaves a process that it started. -/
def JustStarted (env : Env) (p : Int) (s : Kernel) : Prop :=
  ∃ fr command s₀ eip, sysExecute env fr command s₀ = (.launched p eip, s)

/-- What the descriptor calls of process `p` do in state `s`. -/
structure TableMachine (img : Image) (p : Int) (s : Kernel) : Prop where
  /-- The standard entries stay enabled and bound, at position 0. -/
  standard : (s.pcb p).fdt 0 = stdinEntry ∧ (s.pcb p).fdt 1 = stdoutEntry
  /-- A name that is found gets the least free descriptor, and only its entry changes. -/
  opens : ∀ (r : Regs) (filename : Bytes) (file : DirEntry) (fd : Fd), OnStack (kernelStackTop p) r.esp →
    img.readDentryByName filename = some file → 2 ≤ fd.val → ((s.pcb p).fdt fd).enabled = false →
    (∀ j : Fd, 2 ≤ j.val → j < fd → ((s.pcb p).fdt j).enabled = true) →
    ∃ s' : Kernel, sysOpen img r filename s = ((fd.val : Int), s') ∧
      (s'.pcb p).fdt = Function.update (s.pcb p).fdt fd (openEntry filename file)
  /-- It fails exactly when the name is absent or no descriptor is free, and then changes nothing. -/
  openFails : ∀ (r : Regs) (filename : Bytes), OnStack (kernelStackTop p) r.esp →
    ((sysOpen img r filename s).1 = error ↔
      img.readDentryByName filename = none ∨ ∀ j : Fd, 2 ≤ j.val → ((s.pcb p).fdt j).enabled = true) ∧
    ((sysOpen img r filename s).1 = error → (sysOpen img r filename s).2 = s)
  /-- A close succeeds exactly for an open descriptor from 2 on, which it disables. -/
  closes : ∀ (r : Regs) (fd : Fd), OnStack (kernelStackTop p) r.esp →
    ((sysClose r fd s).1 = some 0 ↔ 2 ≤ fd.val ∧ ((s.pcb p).fdt fd).enabled = true) ∧
    ((sysClose r fd s).1 = some 0 → ((sysClose r fd s).2.pcb p).fdt =
      Function.update (s.pcb p).fdt fd { (s.pcb p).fdt fd with enabled := false }) ∧
    ((sysClose r fd s).1 ≠ some 0 → sysClose r fd s = (some error, s))
  /-- A descriptor that is handed out differs from every one that is open. -/
  distinct : ∀ (r : Regs) (filename : Bytes) (fd j : Fd), OnStack (kernelStackTop p) r.esp →
    (sysOpen img r filename s).1 = fd.val → ((s.pcb p).fdt j).enabled = true → j ≠ fd

/-- The invariant decides what every call does. -/
theorem TableInv.machine {img : Image} {p : Int} (valid : ValidPid p) {s : Kernel} (inv : TableInv (s.pcb p).fdt) :
    TableMachine img p s where
  standard := ⟨inv.stdin, inv.stdout⟩
  opens r filename file fd stack found low free earlier := by
    have own := currPcb_eq valid stack
    have alloc : getNewFd (s.currPcb r) = some fd := by
      rw [getNewFd_eq_some, own]
      exact ⟨low, free, earlier⟩
    obtain ⟨s', opened, table⟩ := sysOpen_found (by rw [own]; exact inv) found alloc
    rw [own, own] at table
    exact ⟨s', opened, table⟩
  openFails r filename stack := by
    have own := currPcb_eq valid stack
    have full : getNewFd (s.currPcb r) = none ↔ ∀ j : Fd, 2 ≤ j.val → ((s.pcb p).fdt j).enabled = true := by
      rw [getNewFd_eq_none, own]
    have inv' : TableInv (s.currPcb r).fdt := by rw [own]; exact inv
    rcases inv'.sysOpen_cases img filename with ⟨cause, failed⟩ | ⟨file, fd, s', found, free, opened, -⟩
    · rw [failed]
      exact ⟨⟨fun _ => cause.imp id full.1, fun _ => rfl⟩, fun _ => rfl⟩
    · have succeeds : (fd.val : Int) ≠ error := by simp only [error]; omega
      rw [opened, found, ← full, free]
      exact ⟨⟨fun fails => absurd fails succeeds, fun cause => by rcases cause with h | h <;> cases h⟩,
        fun fails => absurd fails succeeds⟩
  closes r fd stack := by
    have own := currPcb_eq valid stack
    by_cases isOpen : 2 ≤ fd.val ∧ ((s.pcb p).fdt fd).enabled = true
    · have inv' : TableInv (s.currPcb r).fdt := by rw [own]; exact inv
      have enabled : ((s.currPcb r).fdt fd).enabled = true := by rw [own]; exact isOpen.2
      obtain ⟨s', closed, table⟩ := sysClose_open inv' isOpen.1 enabled
      rw [own, own] at table
      rw [closed]
      exact ⟨⟨fun _ => isOpen, fun _ => rfl⟩, fun _ => table, fun fails => absurd rfl fails⟩
    · have refused : sysClose r fd s = (some error, s) := sysClose_refused (by rw [own]; exact isOpen)
      have fails : (some error : Option Int) ≠ some 0 := by decide
      rw [refused]
      exact ⟨⟨fun h => absurd h fails, fun h => absurd h isOpen⟩, fun h => absurd h fails, fun _ => rfl⟩
  distinct r filename fd j stack opened isOpen same := by
    have own := currPcb_eq valid stack
    subst same
    have succeeds : ((j.val : Nat) : Int) ≠ error := by simp only [error]; omega
    have inv' : TableInv (s.currPcb r).fdt := by rw [own]; exact inv
    rcases inv'.sysOpen_cases img filename with ⟨-, failed⟩ | ⟨file, fd, s', -, free, result, -⟩
    · rw [failed] at opened
      exact succeeds opened.symm
    · obtain ⟨-, closed, -⟩ := getNewFd_eq_some.1 free
      rw [result] at opened
      have same : fd = j := Fin.ext (by simpa using opened)
      rw [same, own, isOpen] at closed
      cases closed

/-- The first table is the one that `sys_execute` fills in. -/
theorem JustStarted.table {env : Env} {p : Int} {s : Kernel} (started : JustStarted env p s) :
    ValidPid p ∧ (s.pcb p).fdt = initFdt := by
  obtain ⟨fr, command, s₀, eip, launched⟩ := started
  obtain ⟨l, s₁, pcb, -, -, -, -, alloc, clock⟩ := sysExecute_block launched
  have block : s.pcb p = { l.newPcb s₁ pcb with regs := ⟨userEsp, userEsp⟩ } :=
    (congrFun (congrArg ClockView.pcbs clock) _).trans (Function.update_self _ _ _)
  exact ⟨(getNewPid_eq_some.1 alloc).1, by rw [block]; rfl⟩

/-- **The descriptor table is a state machine.** In every state that the calls of
a process lead to, each call does to the table what the machine says. -/
theorem tableMachine_of_reach {env : Env} {p : Int} {s : Kernel}
    (reach : (descriptorCalls env.img p).Reach (JustStarted env p) s) : TableMachine env.img p s := by
  have inv : ValidPid p ∧ TableInv (s.pcb p).fdt := by
    refine reach.invariant (P := fun s => ValidPid p ∧ TableInv (s.pcb p).fdt) ?_ ?_
    · intro s₀ started
      obtain ⟨valid, table⟩ := started.table
      exact ⟨valid, by rw [table]; exact .initFdt⟩
    · intro s₀ step inv allowed
      exact ⟨inv.1, inv.2.step inv.1 allowed⟩
  exact inv.2.machine inv.1

/-- A state reached by a program that opens a file: the process that `shell`
becomes after boot. -/
theorem tableMachine_shell :
    ∃ s, (descriptorCalls shellEnv.img 3).Reach (JustStarted shellEnv 3) s ∧ TableMachine shellEnv.img 3 s := by
  obtain ⟨eip, s, launched, -⟩ := sysExecute_shell shellEnv_loadable (.blank ⟨kernelStackTop 2, 0⟩)
    booted_afterBoot.getNewPid
  have start : (descriptorCalls shellEnv.img 3).Reach (JustStarted shellEnv 3) s := .base ⟨_, _, _, _, launched⟩
  have stack : OnStack (kernelStackTop 3) (kernelStackTop 3) := ⟨Nat.le_refl _, by omega⟩
  have opened := start.step (FdStep.open_ ⟨kernelStackTop 3, 0⟩ (literal "shell" fun _ => 0)) stack
  exact ⟨_, opened, tableMachine_of_reach opened⟩

end BigBrainOS
