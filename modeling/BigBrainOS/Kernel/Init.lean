import BigBrainOS.Kernel.Pit

/-!
# The globals when interrupts are first enabled

`entry` of `kernel.c` clears the screen, sets up the TSS, the terminals, the interrupt masks, the
RTC, the page tables and the pid table, and then waits for the first clock tick
with no process running.
-/

namespace BigBrainOS
set_option autoImplicit false

abbrev rtcIrqNum : Nat := 8

/-- What the machine and the linker bring: the contents of memory, the control
blocks included, register A of the RTC and the address of `page_table`. -/
structure Machine where
  phys : Nat → UInt8
  pcbs : Nat → Pcb
  rtcRegA : UInt8
  pageTableAddr : Nat

/-- The state of a terminal after `init_idt`. -/
def initTerminal : TerminalState where
  typing _ := 0
  typed _ := 0
  bufferUpdated := false
  writtenBytes := 0
  bufLen := 0
  screenXSave := 0
  screenYSave := 0
  progParPid := -1
  progCurrPid := -1
  history _ := 0

/-- `page_directory` after `init_paging`. -/
def initPageDirectory (pageTableAddr i : Nat) : PageDirEntry :=
  if i = 0 then ⟨true, true, false, false, pageTableAddr / pageSize⟩
  else if i = 1 then ⟨true, true, false, true, fourMB / pageSize⟩
  else ⟨false, true, false, false, 0⟩

/-- `page_table` after `init_paging`: the screen and the three buffers behind it. -/
def initPageTable (i : Nat) : PageTableEntry := ⟨decide (videoPage ≤ i ∧ i ≤ videoPage + 3), true, false, i⟩

/-- The kernel at the `sti` of `entry`. -/
def entry (m : Machine) : Kernel :=
  clear <| enableIrq ptIrqNum <| enableIrq kbIrqNum <| enableIrq rtcIrqNum <| rtcSetFrequency rtcStartFreq
    { usedPids := fun _ => false
      pcbs := m.pcbs
      terminals := fun _ => initTerminal
      currTer := 0
      currProcess := 2
      onScreen := false
      screenX := 0
      screenY := 0
      vgaCursor := 0
      pageDirectory := initPageDirectory m.pageTableAddr
      pageTable := initPageTable
      vidmemPageTable := fun _ => ⟨false, false, false, 0⟩
      phys := m.phys
      tss := ⟨kernelDs, 0x800000⟩
      higherFreq := rtcStartFreq
      rtcRegA := m.rtcRegA
      rtcInterruptFlags := fun _ => false
      masterMask := 0xFB
      slaveMask := 0xFF
      shiftPressed := false
      controlPressed := false
      capsLockOn := false
      altPressed := false }

/-- The machine's start: interrupts have just been enabled. -/
def AtEntry (s : Kernel) : Prop := ∃ m, s = entry m

end BigBrainOS
