import BigBrainOS.Process.Boot
import BigBrainOS.Files.Lookup
import BigBrainOS.Files.Slice

/-!
# The failing exits of `sys_execute` and its loader

A call that returns `ERROR` has only written to the screen: the one failing exit
behind `enable_program_page` is dead, since the inode was read before. A call that
goes on copies the file to `PROG_LOAD_ADDR` and may ask for 4 MB there, although
the page ends earlier.
-/

namespace BigBrainOS
set_option autoImplicit false

/-! ## Failing -/

/-- The processes, their page and their stack are those of `s`. -/
structure SameProcesses (s s' : Kernel) : Prop where
  usedPids : s'.usedPids = s.usedPids
  pcbs : s'.pcbs = s.pcbs
  progCurrPid : ∀ t, (s'.terminals t).progCurrPid = (s.terminals t).progCurrPid
  progParPid : ∀ t, (s'.terminals t).progParPid = (s.terminals t).progParPid
  pageDirectory : s'.pageDirectory = s.pageDirectory
  tss : s'.tss = s.tss

/-- Screen output leaves the processes alone. -/
theorem Output.sameProcesses {s s' : Kernel} (h : Output s s') : SameProcesses s s' := by
  obtain ⟨ts, x, y, c, m, rfl, same⟩ := h
  refine ⟨rfl, rfl, fun t => ?_, fun t => ?_, rfl, rfl⟩
  · obtain ⟨x', y', cursor⟩ := same t
    show (ts t).progCurrPid = _
    rw [cursor]
  · obtain ⟨x', y', cursor⟩ := same t
    show (ts t).progParPid = _
    rw [cursor]

/-- **A failed `sys_execute` is atomic.** The state is the one before, up to the
message that all pids are taken, and the load of a file that passed the check
never returns `ERROR`. -/
theorem sysExecute_atomic (env : Env) (fr : ExecFrame) (command : Bytes) (s : Kernel) :
    (∀ s', sysExecute env fr command s = (.failed, s') →
      (s' = s ∨ s' = puts maxProcessesMessage s) ∧ SameProcesses s s') ∧
      ∀ inode, checkExecutable env.img fr (parse fr command) = some inode → env.img.readData inode 0 fourMB ≠ none := by
  constructor
  · intro s' failed
    have executed := sysExecute_executed env fr command s
    generalize sysExecute env fr command s = out at failed executed
    cases executed with
    | notExecutable =>
      obtain ⟨-, same⟩ := Prod.mk.inj failed
      exact ⟨Or.inl same.symm, by rw [← same]; exact (Output.refl s).sameProcesses⟩
    | full =>
      obtain ⟨-, same⟩ := Prod.mk.inj failed
      exact ⟨Or.inr same.symm, by rw [← same]; exact (puts_output _ s).sameProcesses⟩
    | fault => cases congrArg Prod.fst failed
    | launched => cases congrArg Prod.fst failed
  · intro inode check
    rw [Image.readData_eq (checkExecutable_valid check)]
    exact Option.some_ne_none _

/-- The name of no file. -/
theorem sysExecute_atomic_absent :
    ∃ s', sysExecute ⟨shellImage, fun _ => 0⟩ (.blank ⟨kernelStackTop 2, 0⟩) (literal "none" fun _ => 0) booted = (.failed, s') ∧
      SameProcesses booted s' := by
  have absent : checkExecutable shellImage (.blank ⟨kernelStackTop 2, 0⟩)
      (parse (.blank ⟨kernelStackTop 2, 0⟩) (literal "none" fun _ => 0)) = none := by decide +kernel
  have failed := @sysExecute_notExecutable ⟨shellImage, fun _ => 0⟩ _ _ absent booted
  exact ⟨booted, failed, ((sysExecute_atomic _ _ _ _).1 _ failed).2⟩

/-! ## Loading -/

/-- `sys_execute` has accepted a command: it found the file at `inode`, allocated
a pid and goes on with the locals `l`. -/
structure Accepted (env : Env) (fr : ExecFrame) (command : Bytes) (s : Kernel) (inode : Nat) (l : Launch) : Prop where
  check : checkExecutable env.img fr (parse fr command) = some inode
  alloc : getNewPid s = some l.newPid
  program : env.img.readData inode 0 fourMB = some l.program
  haveArgs : l.haveArgs = (parse fr command).haveArgs
  arguments : l.arguments = (parse fr command).arguments
  regs : l.regs = fr.regs

/-- The load and, unless it faults, the launch. -/
def loadProgram (l : Launch) (s : Kernel) : ExecOutcome × Kernel :=
  match runLaunch l (loadStmts l) s with
  | .error s' => (.fault, s')
  | .ok s' => enterProgram l s'

/-- The address that a statement stores a byte of the program to. -/
def LaunchStmt.target : LaunchStmt → Option Nat
  | .copy k => some (progLoadAddr + k)
  | _ => none

/-- The addresses that the load writes, in order. -/
def loadTargets (l : Launch) : List Nat := (loadStmts l).filterMap LaunchStmt.target

section Load
variable {env : Env} {fr : ExecFrame} {command : Bytes} {s : Kernel} {inode : Nat} {l : Launch}

/-- Once a command is accepted, the call is the load and the launch. -/
theorem Accepted.sysExecute_eq (accepted : Accepted env fr command s inode l) :
    sysExecute env fr command s = loadProgram l s := by
  obtain ⟨check, alloc, program, haveArgs, arguments, regs⟩ := accepted
  have locals : Launch.mk l.newPid l.program (parse fr command).haveArgs (parse fr command).arguments fr.regs = l := by
    rw [← haveArgs, ← arguments, ← regs]
  cases run : runLaunch l (loadStmts l) s with
  | error s' => simp only [sysExecute, check, alloc, program, locals, loadProgram, run]
  | ok s' => simp only [sysExecute, check, alloc, program, locals, loadProgram, run]

/-- Every command that is not refused is accepted in this sense. -/
theorem accepted_of_check {newPid : Int} (check : checkExecutable env.img fr (parse fr command) = some inode)
    (alloc : getNewPid s = some newPid) : ∃ l, l.newPid = newPid ∧ Accepted env fr command s inode l :=
  ⟨⟨newPid, _, _, _, _⟩, rfl, check, alloc, Image.readData_eq (checkExecutable_valid check) 0 fourMB, rfl, rfl, rfl⟩

theorem Accepted.length (accepted : Accepted env fr command s inode l) :
    l.program.length = min fourMB (env.img.lengthInBytes inode) := by
  have program := accepted.program
  rw [Image.readData_eq (checkExecutable_valid accepted.check), Option.some.injEq] at program
  rw [← program, List.drop_zero, List.length_take, Image.fileContent_length]

theorem mem_loadTargets {a : Nat} : a ∈ loadTargets l ↔ ∃ k < l.program.length, progLoadAddr + k = a := by
  simp only [loadTargets, loadStmts, List.mem_filterMap, List.mem_cons, List.mem_map, List.mem_range]
  constructor
  · rintro ⟨stmt, rfl | ⟨k, inside, rfl⟩, target⟩
    · cases target
    · exact ⟨k, inside, Option.some.inj target⟩
  · rintro ⟨k, inside, rfl⟩
    exact ⟨.copy k, Or.inr ⟨k, inside, rfl⟩, rfl⟩

/-- **The loader and the program page.** The load stays in the 4 MB page of the
new process exactly if the file is no longer than what lies between the load
address and the end of the page. -/
theorem load_inside_iff (accepted : Accepted env fr command s inode l) :
    (∀ a ∈ loadTargets l, 0x8000000 ≤ a ∧ a < 0x8400000) ↔ env.img.lengthInBytes inode ≤ programRoom := by
  have length := accepted.length
  simp only [fourMB] at length
  simp only [programRoom]
  constructor
  · intro inside
    by_contra long
    have last := inside (progLoadAddr + 0x3B8000) (mem_loadTargets.2 ⟨0x3B8000, by omega, rfl⟩)
    simp only [progLoadAddr] at last
    omega
  · intro fits a member
    obtain ⟨k, below, rfl⟩ := mem_loadTargets.1 member
    simp only [progLoadAddr]
    omega

end Load

/-- The shell of 28 bytes is loaded inside its page. -/
theorem load_inside_shell : ∃ inode l, Accepted shellEnv (.blank ⟨kernelStackTop 2, 0⟩) (shellCommand shellEnv) booted inode l ∧
    ∀ a ∈ loadTargets l, 0x8000000 ≤ a ∧ a < 0x8400000 := by
  obtain ⟨inode, check, -, room⟩ := checkExecutable_shell shellEnv_loadable (.blank ⟨kernelStackTop 2, 0⟩)
  obtain ⟨l, -, accepted⟩ := accepted_of_check check booted_afterBoot.getNewPid
  exact ⟨inode, l, accepted, (load_inside_iff accepted).2 room⟩

/-- The file system of the shell, its file one byte longer than the room in the page. -/
def wideImage : Image where
  byte a := if a = 4096 then 0x01 else if a = 4097 then 0x80 else if a = 4098 then 0x3B else shellImage.byte a

/-- Behind the length of the inode there are zeros. -/
theorem wideImage_zero {a : Nat} (low : 4098 < a) (high : a < 8192) : wideImage.byte a = 0 := by
  simp only [wideImage, shellImage]
  split_ifs <;> first | omega | rfl

theorem wideImage_sound : wideImage.Sound where
  lengths := by decide +kernel
  blocks inode valid k within := by
    have one : wideImage.numInodes = 1 := by decide +kernel
    have first : inode = 0 := by omega
    subst first
    have length : wideImage.lengthInBytes 0 = 0x3B8001 := by decide +kernel
    have index : wideImage.dataBlockIndex 0 (k / blockSizeBytes) = 0 := by
      simp only [Image.dataBlockIndex, Image.inodeAddr, blockSizeBytes, word]
      rw [wideImage_zero, wideImage_zero, wideImage_zero, wideImage_zero]
      · rfl
      all_goals omega
    rw [index]
    decide +kernel

/-- Its last byte goes to the first address behind the page. -/
theorem load_leaves_page : wideImage.Sound ∧
    ∃ inode l, Accepted ⟨wideImage, fun _ => 0⟩ (.blank ⟨kernelStackTop 2, 0⟩) (literal "shell" fun _ => 0) booted inode l ∧
      ¬ ∀ a ∈ loadTargets l, 0x8000000 ≤ a ∧ a < 0x8400000 := by
  have length : wideImage.lengthInBytes 0 = 0x3B8001 := by decide +kernel
  have check : checkExecutable wideImage (.blank ⟨kernelStackTop 2, 0⟩)
      (parse (.blank ⟨kernelStackTop 2, 0⟩) (literal "shell" fun _ => 0)) = some 0 := by decide +kernel
  obtain ⟨l, -, accepted⟩ := @accepted_of_check ⟨wideImage, fun _ => 0⟩ _ _ _ _ _ check booted_afterBoot.getNewPid
  refine ⟨wideImage_sound, 0, l, accepted, fun inside => ?_⟩
  have all := accepted.length
  rw [show (Env.mk wideImage fun _ => 0).img.lengthInBytes 0 = _ from length] at all
  have last := inside 0x8400000 (mem_loadTargets.2 ⟨0x3B8000, by rw [all]; decide, rfl⟩)
  exact absurd last.2 (Nat.lt_irrefl _)

end BigBrainOS
