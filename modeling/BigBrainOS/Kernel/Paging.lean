import BigBrainOS.Kernel.State

/-!
# Paging

The functions of `paging.c` that run after boot, and the translation of a
linear address through the two levels. The page directory has a page table
behind two of its entries only: `page_table` at entry 0, and `vidmem_page_table`
at the entry after the program page once `get_vidmem` has run.
-/

namespace BigBrainOS
set_option autoImplicit false

/-- The 20-bit `address` field that `enable_program_page` computes for a pid. -/
def programFrame (processNum : Int) : Nat := ((processNum + 2) * fourMB / pageSize % 2 ^ 20).toNat

/-- `enable_program_page`. -/
def enableProgramPage (processNum : Int) (s : Kernel) : Kernel :=
  let entry : PageDirEntry :=
    { s.pageDirectory userProgramPdIdx with
      present := true
      pageSize := true
      userSupervisor := true
      address := programFrame processNum }
  { s with pageDirectory := Function.update s.pageDirectory userProgramPdIdx entry }

/-- `change_vidmem`: the argument is a terminal, or `MAIN_VID = -1`. -/
def changeVidmem (processNum : Int) (s : Kernel) : Kernel :=
  let vidBuffer := ((videoPage : Int) + 1 + processNum).toNat
  { s with
    pageTable := Function.update s.pageTable videoPage { s.pageTable videoPage with address := vidBuffer }
    vidmemPageTable := Function.update s.vidmemPageTable 0 { s.vidmemPageTable 0 with address := vidBuffer } }

/-- `get_vidmem`, without the pointer it returns; `tableAddr` is the address of `vidmem_page_table`. -/
def getVidmem (tableAddr : Nat) (s : Kernel) : Kernel :=
  let entry : PageDirEntry :=
    { s.pageDirectory (userProgramPdIdx + 1) with
      present := true
      userSupervisor := true
      address := tableAddr / pageSize % 2 ^ 20 }
  { s with
    vidmemPageTable := Function.update s.vidmemPageTable 0 ⟨true, true, true, videoPage⟩
    pageDirectory := Function.update s.pageDirectory (userProgramPdIdx + 1) entry }

namespace Kernel

/-- The physical address behind a linear one, `none` if the access faults. -/
def translate (s : Kernel) (lin : Nat) : Option Nat :=
  let pde := s.pageDirectory (lin / fourMB)
  if pde.present = false then none
  else if pde.pageSize then some (pde.address * pageSize + lin % fourMB)
  else
    let table := if lin / fourMB = 0 then s.pageTable else s.vidmemPageTable
    let pte := table (lin / pageSize % 1024)
    if pte.present = false then none else some (pte.address * pageSize + lin % pageSize)

/-- A byte store to a linear address; `none` is a page fault. -/
def writeByte (s : Kernel) (lin : Nat) (b : UInt8) : Option Kernel :=
  (s.translate lin).map fun a => { s with phys := Function.update s.phys a b }

/-- A byte read from a linear address; a page that is not present reads as 0. -/
def readByte (s : Kernel) (lin : Nat) : UInt8 := ((s.translate lin).map s.phys).getD 0

/-- The program page maps the 4 MB frame of `pid` for user mode. -/
def MapsProgram (s : Kernel) (pid : Int) : Prop :=
  let pde := s.pageDirectory userProgramPdIdx
  pde.present = true ∧ pde.pageSize = true ∧ pde.userSupervisor = true ∧ pde.address = programFrame pid

end Kernel

/-- `enable_program_page(pid)` makes the program page map `pid`. -/
theorem enableProgramPage_maps (pid : Int) (s : Kernel) : (enableProgramPage pid s).MapsProgram pid := by
  simp [Kernel.MapsProgram, enableProgramPage]

/-- The frame tells the pids apart. -/
theorem programFrame_inj {p q : Int} (hp : ValidPid p) (hq : ValidPid q) (same : programFrame p = programFrame q) :
    p = q := by
  obtain ⟨lp, up⟩ := hp
  obtain ⟨lq, uq⟩ := hq
  simp only [programFrame, fourMB, pageSize] at same
  omega

/-- The program page maps one process at a time. -/
theorem Kernel.MapsProgram.unique {s : Kernel} {p q : Int} (hp : ValidPid p) (hq : ValidPid q) (maps : s.MapsProgram p)
    (maps' : s.MapsProgram q) : p = q :=
  programFrame_inj hp hq (maps.2.2.2.symm.trans maps'.2.2.2)

/-- A linear address of the program page goes to the same offset of the mapped frame. -/
theorem translate_program {s : Kernel} {pid : Int} {lin : Nat} (maps : s.MapsProgram pid)
    (low : 0x8000000 ≤ lin) (high : lin < 0x8400000) :
    s.translate lin = some (programFrame pid * pageSize + (lin - 0x8000000)) := by
  obtain ⟨present, large, -, address⟩ := maps
  have index : lin / fourMB = userProgramPdIdx := by simp only [fourMB, userProgramPdIdx]; omega
  have offset : lin % fourMB = lin - 0x8000000 := by simp only [fourMB]; omega
  simp [Kernel.translate, index, present, large, address, offset]

end BigBrainOS
