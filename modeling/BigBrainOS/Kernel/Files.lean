import BigBrainOS.Kernel.Execute

/-!
# Descriptor system calls

`sys_open`, `sys_read`, `sys_write` and `sys_close` on descriptors of the table,
with the file handlers of `file_system.c`. The calling process is found through
the stack pointer, as `get_curr_pcb` finds it. A call either returns at once or
goes on to the handler of the descriptor's operation table.
-/

namespace BigBrainOS
set_option autoImplicit false

/-- The index of a descriptor in the table. -/
abbrev Fd := Fin fdtMaxEntries

/-- The block of the process whose kernel stack is in use. -/
def Kernel.currPcb (s : Kernel) (r : Regs) : Pcb := s.pcbs (getCurrPcb r.esp)

/-- The block that a call finds is that of the process whose stack it runs on. -/
theorem Kernel.currPcb_eq (s : Kernel) {r : Regs} {pid : Int} (block : getCurrPcb r.esp = getPcbByPid pid) :
    s.currPcb r = s.pcb pid := by
  rw [Kernel.currPcb, block]
  rfl

/-- Overwrite one descriptor of the calling process. -/
def Kernel.setFd (s : Kernel) (r : Regs) (fd : Fd) (f : FdtEntry → FdtEntry) : Kernel :=
  s.setPcb (getCurrPcb r.esp) fun pcb => { pcb with fdt := Function.update pcb.fdt fd (f (pcb.fdt fd)) }

/-- `get_new_fd`; `none` for `ERROR`. -/
def getNewFd (pcb : Pcb) : Option Fd :=
  (List.finRange fdtMaxEntries).find? fun i => decide (2 ≤ i.val) && !(pcb.fdt i).enabled

/-- `isRTC` of `sys_open`. The name is known to have at most 32 bytes. -/
def isRtc (filename : Bytes) : Bool :=
  strncmp filename (literal "rtc" fun _ => 0) (strlen filename (fileNameSize + 1)) = 0

/-- The operation table that `sys_open` chooses. -/
def openFot (filename : Bytes) (file : DirEntry) : Fot :=
  if file.fileType = 1 then .dirFot else if isRtc filename then .rtcFot else .fileFot

/-- The loop "For testing, stdin and stdout". -/
def resetStdio (r : Regs) (s : Kernel) : Kernel :=
  (s.setFd r 0 fun _ => ⟨some .stdinFot, 0, 0, true, false⟩).setFd r 1 fun _ => ⟨some .stdoutFot, 0, 0, true, false⟩

/-- `fot_ptr->open(filename)`; every handler returns 0. -/
def openHandler (fot : Fot) (s : Kernel) : Kernel := if fot = .rtcFot then rtcOpen s else s

/-- `sys_open`: the value returned and the new state. -/
def sysOpen (img : Image) (r : Regs) (filename : Bytes) (s : Kernel) : Int × Kernel :=
  match img.readDentryByName filename with
  | none => (error, s)
  | some file =>
    match getNewFd (s.currPcb r) with
    | none => (error, s)
    | some fd =>
      let s := s.setFd r fd fun e => { e with enabled := true }
      let s := resetStdio r s
      let fot := openFot filename file
      let s := s.setFd r fd fun _ => ⟨some fot, file.inodeNum, 0, true, file.fileType = 2⟩
      (fd.val, openHandler fot s)

/-- A descriptor call up to its handler. -/
inductive Dispatch where
  | ret (value : Int)
  | call (fot : Option Fot)
  deriving DecidableEq, Repr

/-- `sys_read`, up to the call of the handler. -/
def sysRead (r : Regs) (fd : Fd) (bufIsNull : Bool) (s : Kernel) : Dispatch :=
  if bufIsNull then .ret error
  else
    let e := (s.currPcb r).fdt fd
    if e.enabled then .call e.fotPtr else .ret error

/-- `sys_write`, up to the call of the handler. -/
def sysWrite (r : Regs) (fd : Fd) (bufIsNull : Bool) (s : Kernel) : Dispatch :=
  if bufIsNull then .ret error
  else
    let e := (s.currPcb r).fdt fd
    if e.enabled then .call e.fotPtr else .ret error

/-- `file_read`: the value returned, the buffer and the new state. -/
def fileRead (img : Image) (r : Regs) (fd : Fd) (buf : Bytes) (nbytes : Int) (s : Kernel) : Int × Bytes × Kernel :=
  let e := (s.currPcb r).fdt fd
  match img.readData e.inodeIdx e.filePosition (nbytes % 2 ^ 32).toNat with
  | none => (error, buf, s.setFd r fd fun e => { e with filePosition := (e.filePosition + (2 ^ 32 - 1)) % 2 ^ 32 })
  | some bytes =>
    (bytes.length, store buf bytes,
      s.setFd r fd fun e => { e with filePosition := (e.filePosition + bytes.length) % 2 ^ 32 })

/-- A word of 32 bits as an `int32_t`. -/
def signed (n : Nat) : Int := if n < 2 ^ 31 then n else (n : Int) - 2 ^ 32

/-- `dir_read`: the value returned, the buffer and the new state. The length is
taken from a copy of the name that a zero terminates. -/
def dirRead (img : Image) (r : Regs) (fd : Fd) (buf : Bytes) (s : Kernel) : Int × Bytes × Kernel :=
  let dirPos := ((s.currPcb r).fdt fd).filePosition
  if signed dirPos ≥ img.numDirEntries then (0, buf, s)
  else
    match img.readDentryByIndex dirPos with
    | none => (error, buf, s)
    | some currDir =>
      let fileNameBuf := Function.update (strncpy (fun _ => 0) currDir.fileName fileNameSize) fileNameSize 0
      (strlen fileNameBuf (fileNameSize + 1), strncpy buf currDir.fileName fileNameSize,
        s.setFd r fd fun e => { e with filePosition := (e.filePosition + 1) % 2 ^ 32 })

/-- `sys_close`: the value returned and the new state. Every `close` handler
returns 0; `none` is the page fault of a call through a null operation table. -/
def sysClose (r : Regs) (fd : Fd) (s : Kernel) : Option Int × Kernel :=
  let e := (s.currPcb r).fdt fd
  if fd.val < 2 ∨ e.enabled = false then (some error, s)
  else
    let s := s.setFd r fd fun e => { e with enabled := false }
    match e.fotPtr with
    | none => (none, s)
    | some fot => (some 0, closeFile (some fot) s)

/-! ## Descriptors after an update -/

/-- Overwriting a descriptor of the calling process. -/
theorem setFd_fdt (s : Kernel) (r : Regs) (fd : Fd) (f : FdtEntry → FdtEntry) :
    ((s.setFd r fd f).currPcb r).fdt = Function.update (s.currPcb r).fdt fd (f ((s.currPcb r).fdt fd)) := by
  rw [Kernel.currPcb, Kernel.setFd, Kernel.setPcb_pcbs_self]
  rfl

@[simp] theorem setFd_fdt_self (s : Kernel) (r : Regs) (fd : Fd) (f : FdtEntry → FdtEntry) :
    ((s.setFd r fd f).currPcb r).fdt fd = f ((s.currPcb r).fdt fd) := by
  rw [setFd_fdt, Function.update_self]

theorem setFd_fdt_of_ne (s : Kernel) (r : Regs) {fd fd' : Fd} (f : FdtEntry → FdtEntry) (other : fd' ≠ fd) :
    ((s.setFd r fd f).currPcb r).fdt fd' = (s.currPcb r).fdt fd' := by
  rw [setFd_fdt, Function.update_of_ne other]

theorem setPcb_fdt (s : Kernel) (addr : Nat) {f : Pcb → Pcb} (keeps : ∀ pcb, (f pcb).fdt = pcb.fdt) (a : Nat) :
    ((s.setPcb addr f).pcbs a).fdt = (s.pcbs a).fdt := by
  revert a
  apply s.setPcb_forall (P := fun a pcb => pcb.fdt = (s.pcbs a).fdt)
  · exact keeps _
  · exact fun _ _ => rfl

theorem rtcOpen_fdt (s : Kernel) (a : Nat) : ((rtcOpen s).pcbs a).fdt = (s.pcbs a).fdt := by
  unfold rtcOpen
  dsimp only
  split
  · rfl
  · simp only [rtcSetFrequency]
    apply setPcb_fdt
    exact fun _ => rfl

/-- The handlers' `open` leaves the descriptors alone. -/
theorem openHandler_fdt (fot : Fot) (s : Kernel) (a : Nat) : ((openHandler fot s).pcbs a).fdt = (s.pcbs a).fdt := by
  unfold openHandler
  split
  · exact rtcOpen_fdt s a
  · rfl

/-- `get_new_fd` finds the least descriptor from 2 on that is not enabled. -/
theorem getNewFd_eq_some {pcb : Pcb} {fd : Fd} :
    getNewFd pcb = some fd ↔ 2 ≤ fd.val ∧ (pcb.fdt fd).enabled = false ∧
      ∀ j : Fd, 2 ≤ j.val → j < fd → (pcb.fdt j).enabled = true := by
  unfold getNewFd
  rw [List.find?_eq_some_iff_getElem]
  simp only [Bool.and_eq_true, decide_eq_true_eq, Bool.not_eq_true', List.length_finRange, List.getElem_finRange]
  constructor
  · rintro ⟨⟨low, free⟩, i, inside, at_i, earlier⟩
    refine ⟨low, free, fun j from_ before => ?_⟩
    have at_j := earlier j.val (by rw [← at_i] at before; exact before)
    simpa [from_] using at_j
  · rintro ⟨low, free, earlier⟩
    refine ⟨⟨low, free⟩, fd.val, fd.isLt, rfl, fun j before => ?_⟩
    by_cases from_ : 2 ≤ j
    · have at_j := earlier ⟨j, by omega⟩ from_ before
      simp [at_j]
    · simp [from_]

theorem getNewFd_eq_none {pcb : Pcb} : getNewFd pcb = none ↔ ∀ j : Fd, 2 ≤ j.val → (pcb.fdt j).enabled = true := by
  unfold getNewFd
  rw [List.find?_eq_none]
  constructor
  · intro none j low
    simpa [low] using none j (List.mem_finRange j)
  · intro all j _
    by_cases low : 2 ≤ j.val
    · simp [all j low]
    · simp [low]

end BigBrainOS
