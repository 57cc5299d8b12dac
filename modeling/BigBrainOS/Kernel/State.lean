import Mathlib

/-!
# The kernel's globals

One record holds the globals of the C files: the process table of
`system_calls.c` and `pcb.c`, the terminals and modifier keys of `keyboard.c`,
the cursor of `lib.c`, the page tables of `paging.c`, the TSS, the RTC variables
and the interrupt masks. Process control blocks are kept by address, as
`get_pcb_by_pid` and `get_curr_pcb` hand out addresses; process ids are integers
with `-1` for none, as `prog_curr_pid` uses them.
-/

namespace BigBrainOS
set_option autoImplicit false

/-! ## Constants of the headers -/

abbrev error : Int := -1
abbrev maxProcesses : Nat := 6
abbrev fdtMaxEntries : Nat := 8
abbrev numTerminals : Nat := 3
abbrev bufSize : Nat := 128
abbrev eightMB : Nat := 0x800000
abbrev eightKB : Nat := 0x2000
abbrev fourMB : Nat := 0x400000
abbrev pageSize : Nat := 4096
abbrev pcb8KBMask : Nat := 0x007FE000
abbrev kernelDs : Nat := 0x0018
/-- `USER_ESP`: four bytes below the top of the program page. -/
abbrev userEsp : Nat := 0x8000000 + 0x400000 - 4
/-- `VIDEO >> ALIGN_SIZE`, the page of the text screen. -/
abbrev videoPage : Nat := 0xB8
/-- `USER_PROGRAM_PD_IDX`. -/
abbrev userProgramPdIdx : Nat := 32

/-- A terminal number: `curr_process` and `curr_ter` only ever hold 0, 1 and 2. -/
abbrev Term := Fin numTerminals

instance : NeZero numTerminals := ⟨by decide⟩
instance : NeZero fdtMaxEntries := ⟨by decide⟩

/-! ## Process control blocks -/

/-- The file operation tables of `pcb.c`. -/
inductive Fot where
  | rtcFot
  | fileFot
  | dirFot
  | stdinFot
  | stdoutFot
  deriving DecidableEq, Repr

/-- `fdt_entry_t`; `fotPtr` is `none` for the null pointer. -/
structure FdtEntry where
  fotPtr : Option Fot
  inodeIdx : Nat
  filePosition : Nat
  enabled : Bool
  isDataFile : Bool
  deriving DecidableEq, Repr

/-- An entry with all its bytes zero. -/
def FdtEntry.zero : FdtEntry := ⟨none, 0, 0, false, false⟩

/-- The stack registers, as inline assembly reads and writes them. -/
structure Regs where
  esp : Nat
  ebp : Nat
  deriving DecidableEq, Repr

/-- `pcb_t`. `parPcbPtr` is the address of the parent's block. -/
structure Pcb where
  pid : Int
  parPid : Int
  parPcbPtr : Nat
  fdt : Fin fdtMaxEntries → FdtEntry
  args : Nat → UInt8
  argLen : Int
  /-- `par_esp` and `par_ebp`. -/
  parRegs : Regs
  /-- `esp` and `ebp`, saved by the scheduler. -/
  regs : Regs
  progFreq : Nat
  count : Nat
  divisor : Nat

/-- `(const pcb_t){0}`. -/
def Pcb.zero : Pcb where
  pid := 0
  parPid := 0
  parPcbPtr := 0
  fdt _ := .zero
  args _ := 0
  argLen := 0
  parRegs := ⟨0, 0⟩
  regs := ⟨0, 0⟩
  progFreq := 0
  count := 0
  divisor := 0

/-- `get_pcb_by_pid`, the address it returns (`NULL` for pid `-1`). -/
def getPcbByPid (pid : Int) : Nat :=
  if pid = -1 then 0 else ((eightMB : Int) - (pid + 1) * eightKB).toNat

/-- `get_curr_pcb`: the stack pointer rounded down to its 8 KB block. -/
def getCurrPcb (esp : Nat) : Nat := esp &&& pcb8KBMask

/-- The stack top that `tss.esp0` is given for a pid. -/
def kernelStackTop (pid : Int) : Nat := ((eightMB : Int) - 4 - pid * eightKB).toNat

/-- `esp` lies on the kernel stack whose top is `top`, above the 296 bytes of
the process control block at its bottom. -/
def OnStack (top esp : Nat) : Prop := esp ≤ top ∧ top ≤ esp + 7892

/-! ## Terminals -/

/-- `terminal_state_t`. -/
structure TerminalState where
  typing : Nat → UInt8
  typed : Nat → UInt8
  bufferUpdated : Bool
  writtenBytes : Nat
  bufLen : Nat
  screenXSave : Int
  screenYSave : Int
  progParPid : Int
  progCurrPid : Int
  history : Nat → UInt8

/-! ## Paging and TSS -/

/-- The bits of `page_dir_entry_t` that the kernel sets. -/
structure PageDirEntry where
  present : Bool
  readWrite : Bool
  userSupervisor : Bool
  pageSize : Bool
  address : Nat
  deriving DecidableEq, Repr

/-- The bits of `page_table_entry_t` that the kernel sets. -/
structure PageTableEntry where
  present : Bool
  readWrite : Bool
  userSupervisor : Bool
  address : Nat
  deriving DecidableEq, Repr

/-- The fields of `tss` that change while the kernel runs. -/
structure Tss where
  ss0 : Nat
  esp0 : Nat
  deriving DecidableEq, Repr

/-! ## The kernel -/

structure Kernel where
  usedPids : Int → Bool
  /-- The process control blocks by address. -/
  pcbs : Nat → Pcb
  terminals : Term → TerminalState
  currTer : Term
  currProcess : Term
  onScreen : Bool
  screenX : Int
  screenY : Int
  /-- The position last sent to the VGA cursor registers. -/
  vgaCursor : Nat
  pageDirectory : Nat → PageDirEntry
  pageTable : Nat → PageTableEntry
  vidmemPageTable : Nat → PageTableEntry
  /-- Physical memory, the video frames and the program frames included. -/
  phys : Nat → UInt8
  tss : Tss
  higherFreq : Nat
  /-- Register A of the RTC; its low four bits are the rate. -/
  rtcRegA : UInt8
  rtcInterruptFlags : Term → Bool
  masterMask : UInt8
  slaveMask : UInt8
  shiftPressed : Bool
  controlPressed : Bool
  capsLockOn : Bool
  altPressed : Bool

namespace Kernel

/-- The control block of a pid. -/
def pcb (s : Kernel) (pid : Int) : Pcb := s.pcbs (getPcbByPid pid)

/-- Overwrite the control block at an address. -/
def setPcb (s : Kernel) (addr : Nat) (f : Pcb → Pcb) : Kernel :=
  { s with pcbs := Function.update s.pcbs addr (f (s.pcbs addr)) }

/-- Overwrite fields of one terminal. -/
def setTerminal (s : Kernel) (t : Term) (f : TerminalState → TerminalState) : Kernel :=
  { s with terminals := Function.update s.terminals t (f (s.terminals t)) }

/-- The pid that runs on a terminal. -/
def currPid (s : Kernel) (t : Term) : Int := (s.terminals t).progCurrPid

end Kernel

/-! ## Addresses of blocks and stacks -/

section Addresses
variable {p q : Int} {esp : Nat}

/-- The pids that `used_pids` has a slot for. -/
def ValidPid (p : Int) : Prop := 0 ≤ p ∧ p < 6

/-- Different pids have different control blocks. -/
theorem getPcbByPid_inj (valid : ValidPid p) (same : getPcbByPid q = getPcbByPid p) : q = p := by
  obtain ⟨low, high⟩ := valid
  simp only [getPcbByPid, eightMB, eightKB] at same
  split at same <;> split at same <;> omega

theorem getPcbByPid_ne (valid : ValidPid p) (different : q ≠ p) : getPcbByPid q ≠ getPcbByPid p :=
  fun same => different (getPcbByPid_inj valid same)

theorem and_shiftLeft_mask (x m k : Nat) : x &&& (m <<< k) = ((x >>> k) &&& m) <<< k := by
  apply Nat.eq_of_testBit_eq
  intro i
  by_cases h : k ≤ i
  · simp [Nat.testBit_shiftRight, h, Nat.add_sub_cancel' h]
  · simp [h]

theorem and_pcb8KBMask (esp : Nat) : esp &&& pcb8KBMask = esp / 8192 % 1024 * 8192 := by
  rw [show pcb8KBMask = (2 ^ 10 - 1) <<< 13 from rfl, and_shiftLeft_mask, Nat.and_two_pow_sub_one_eq_mod,
    Nat.shiftRight_eq_div_pow, Nat.shiftLeft_eq]

/-- On the kernel stack of a pid, `get_curr_pcb` finds that pid's block. -/
theorem getCurrPcb_of_onStack (valid : ValidPid p) (stack : OnStack (kernelStackTop p) esp) :
    getCurrPcb esp = getPcbByPid p := by
  obtain ⟨low, high⟩ := valid
  obtain ⟨below, above⟩ := stack
  simp only [kernelStackTop, eightMB, eightKB] at below above
  simp only [getCurrPcb, getPcbByPid, eightMB, eightKB]
  rw [and_pcb8KBMask, if_neg (by omega)]
  omega

end Addresses

/-! ## Updates of one block or one terminal -/

namespace Kernel
variable (s : Kernel)

@[simp] theorem setPcb_pcbs_self (addr : Nat) (f : Pcb → Pcb) : (s.setPcb addr f).pcbs addr = f (s.pcbs addr) :=
  Function.update_self _ _ _

theorem setPcb_pcbs_of_ne {addr a : Nat} (f : Pcb → Pcb) (different : a ≠ addr) :
    (s.setPcb addr f).pcbs a = s.pcbs a :=
  Function.update_of_ne different _ _

@[simp] theorem setTerminal_self (t : Term) (f : TerminalState → TerminalState) :
    (s.setTerminal t f).terminals t = f (s.terminals t) :=
  Function.update_self _ _ _

theorem setTerminal_of_ne {t u : Term} (f : TerminalState → TerminalState) (different : u ≠ t) :
    (s.setTerminal t f).terminals u = s.terminals u :=
  Function.update_of_ne different _ _

/-- What holds of a block that is updated and of every other one holds of all. -/
theorem setPcb_forall {P : Nat → Pcb → Prop} {addr : Nat} {f : Pcb → Pcb} (own : P addr (f (s.pcbs addr)))
    (others : ∀ a, a ≠ addr → P a (s.pcbs a)) : ∀ a, P a ((s.setPcb addr f).pcbs a) :=
  (Function.forall_update_iff s.pcbs P).2 ⟨own, others⟩

/-- The same for the terminals. -/
theorem setTerminal_forall {P : Term → TerminalState → Prop} {t : Term} {f : TerminalState → TerminalState}
    (own : P t (f (s.terminals t))) (others : ∀ u, u ≠ t → P u (s.terminals u)) :
    ∀ u, P u ((s.setTerminal t f).terminals u) :=
  (Function.forall_update_iff s.terminals P).2 ⟨own, others⟩

end Kernel

end BigBrainOS
