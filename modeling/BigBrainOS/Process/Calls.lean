import BigBrainOS.Process.View

/-!
# What each call does to the process view

One inversion lemma for `sys_execute` and one for `sys_halt` say everything
these calls can do; the scheduler and the keyboard follow. A base shell that is
present in the file system and fits its page is always launched.
-/

namespace BigBrainOS
set_option autoImplicit false

/-! ## `sys_execute` -/

/-- The bytes from `PROG_LOAD_ADDR` to the end of the program page. -/
abbrev programRoom : Nat := 0x3B8000

/-- The ways `sys_execute` can go. -/
inductive Executed (env : Env) (fr : ExecFrame) (command : Bytes) (s : Kernel) : ExecOutcome × Kernel → Prop where
  /-- The file is missing or no program. -/
  | notExecutable : checkExecutable env.img fr (parse fr command) = none → Executed env fr command s (.failed, s)
  /-- All pids are in use. -/
  | full : getNewPid s = none → Executed env fr command s (.failed, puts maxProcessesMessage s)
  /-- The program does not fit its page. -/
  | fault {inode : Nat} {newPid : Int} {s' : Kernel} :
      checkExecutable env.img fr (parse fr command) = some inode → programRoom < env.img.lengthInBytes inode →
      getNewPid s = some newPid → Stored (enableProgramPage newPid s) s' → Executed env fr command s (.fault, s')
  | launched {l : Launch} {s₁ s' : Kernel} {eip : Nat} :
      (checkExecutable env.img fr (parse fr command)).isSome → getNewPid s = some l.newPid → l.regs = fr.regs →
      Stored (enableProgramPage l.newPid s) s₁ → runLaunch l (createStmts ++ enterStmts) s₁ = .ok s' →
      Executed env fr command s (.launched l.newPid eip, s')

/-- A file that passes the executable check has a valid inode. -/
theorem checkExecutable_valid {img : Image} {fr : ExecFrame} {cmd : Command} {inode : Nat}
    (h : checkExecutable img fr cmd = some inode) : inode < img.numInodes := by
  unfold checkExecutable at h
  cases found : img.readDentryByName cmd.executableName with
  | none => simp [found] at h
  | some exe =>
    by_contra invalid
    have unreadable : img.readData exe.inodeNum 0 4 = none ∨ exe.inodeNum ≠ inode := by
      by_cases same : exe.inodeNum = inode
      · exact Or.inl (Image.readData_none (by omega) 0 4)
      · exact Or.inr same
    rcases unreadable with unreadable | other
    · simp [found, unreadable] at h
    · cases read : img.readData exe.inodeNum 0 4 with
      | none => simp [found, read] at h
      | some bytes =>
        simp only [found, read, Option.ite_none_right_eq_some, Option.some.injEq] at h
        exact other h.2

/-- After the loader, the launch runs to the `iret`. -/
theorem enterProgram_ok (l : Launch) (s : Kernel) :
    ∃ s' eip, runLaunch l (createStmts ++ enterStmts) s = .ok s' ∧ enterProgram l s = (.launched l.newPid eip, s') := by
  obtain ⟨s₁, created, -, -⟩ := runLaunch_create l s enterStmts
  obtain ⟨s', entered, -, -⟩ := runLaunch_enter l s₁
  have run : runLaunch l (createStmts ++ enterStmts) s = .ok s' := created.trans entered
  refine ⟨s', s.readWord (progLoadAddr + progEntryOffset), run, ?_⟩
  simp only [enterProgram, run]

theorem sysExecute_executed (env : Env) (fr : ExecFrame) (command : Bytes) (s : Kernel) :
    Executed env fr command s (sysExecute env fr command s) := by
  unfold sysExecute
  dsimp only
  cases check : checkExecutable env.img fr (parse fr command) with
  | none => exact .notExecutable check
  | some inode =>
    cases alloc : getNewPid s with
    | none => exact .full alloc
    | some newPid =>
      have read := Image.readData_eq (checkExecutable_valid check) 0 fourMB
      simp only [read]
      generalize launch : Launch.mk newPid _ _ _ fr.regs = l
      have pid : l.newPid = newPid := by rw [← launch]
      have regs : l.regs = fr.regs := by rw [← launch]
      have length : l.program.length ≤ env.img.lengthInBytes inode := by
        rw [← launch, ← Image.fileContent_length]
        exact List.length_take_le' _ _
      subst pid
      obtain ⟨s₁, stored, outcome⟩ :=
        runLaunch_copies l (List.range l.program.length) (enableProgramPage l.newPid s)
      rcases outcome with fault | loaded
      · have stops : runLaunch l (loadStmts l) s = .error s₁ := fault
        have large : programRoom < env.img.lengthInBytes inode := by
          by_contra fits
          obtain ⟨s₂, -, loaded⟩ := runLaunch_copies_ok l (List.range l.program.length) _ l.newPid
            (enableProgramPage_maps l.newPid s) fun k hk => by
              rw [List.mem_range] at hk
              simp only [progLoadAddr, programRoom] at fits ⊢
              omega
          rw [fault] at loaded
          cases loaded
        simp only [stops]
        exact .fault check large alloc stored
      · have loads : runLaunch l (loadStmts l) s = .ok s₁ := loaded
        simp only [loads]
        obtain ⟨s', eip, run, enters⟩ := enterProgram_ok l s₁
        rw [enters]
        exact .launched (by rw [check]; rfl) alloc regs stored run

theorem sysExecute_notExecutable {env : Env} {fr : ExecFrame} {command : Bytes}
    (missing : checkExecutable env.img fr (parse fr command) = none) (s : Kernel) :
    sysExecute env fr command s = (.failed, s) := by
  simp only [sysExecute, missing]

/-- What a complete launch does to the view and to the clock bookkeeping. -/
theorem launched_effect {l : Launch} {s s₁ s' : Kernel} (stored : Stored (enableProgramPage l.newPid s) s₁)
    (run : runLaunch l (createStmts ++ enterStmts) s₁ = .ok s') :
    s'.view = s.view.launch l.newPid l.regs ∧
      ∃ pcb, pcb.progFreq = 0 ∧ s'.clock = s.clock.create l.newPid pcb := by
  obtain ⟨s₂, created, view, clock⟩ := runLaunch_create l s₁ enterStmts
  obtain ⟨s₃, entered, view', clock'⟩ := runLaunch_enter l s₂
  have same : s₃ = s' := by rw [created, entered] at run; exact Except.ok.inj run
  subst same
  refine ⟨?_, ?_⟩
  · rw [view', view, stored.view, Kernel.enableProgramPage_view]; rfl
  · have blocks : s₂.pcbs = _ := congrArg ClockView.pcbs clock
    refine ⟨{ s₂.pcbs (getPcbByPid l.newPid) with regs := ⟨userEsp, userEsp⟩ }, ?_, ?_⟩
    · rw [blocks]
      simp [ClockView.create, Launch.newPcb]
    · generalize ({ s₂.pcbs (getPcbByPid l.newPid) with regs := ⟨userEsp, userEsp⟩ } : Pcb) = entry at clock'
      rw [clock', blocks, clock, stored.clock]
      simp only [ClockView.create, Function.update_idem]
      rfl

/-- The control block that a launch leaves behind. -/
theorem sysExecute_block {env : Env} {fr : ExecFrame} {command : Bytes} {s s' : Kernel} {newPid : Int} {eip : Nat}
    (launched : sysExecute env fr command s = (.launched newPid eip, s')) :
    ∃ (l : Launch) (s₁ : Kernel) (pcb : Pcb), l.newPid = newPid ∧ l.haveArgs = (parse fr command).haveArgs ∧
      l.arguments = (parse fr command).arguments ∧ l.regs = fr.regs ∧ getNewPid s = some newPid ∧
      s'.clock = s.clock.create newPid { l.newPcb s₁ pcb with regs := ⟨userEsp, userEsp⟩ } := by
  unfold sysExecute at launched
  dsimp only at launched
  cases check : checkExecutable env.img fr (parse fr command) with
  | none => simp [check] at launched
  | some inode =>
    cases alloc : getNewPid s with
    | none => simp [check, alloc] at launched
    | some p =>
      simp only [check, alloc, Image.readData_eq (checkExecutable_valid check)] at launched
      generalize launch : Launch.mk p _ (parse fr command).haveArgs (parse fr command).arguments fr.regs = l at launched
      have pid : l.newPid = p := by rw [← launch]
      obtain ⟨s₁, stored, outcome⟩ := runLaunch_copies l (List.range l.program.length) (enableProgramPage l.newPid s)
      rcases outcome with fault | loaded
      · have stops : runLaunch l (loadStmts l) s = .error s₁ := fault
        simp [stops] at launched
      · have loads : runLaunch l (loadStmts l) s = .ok s₁ := loaded
        obtain ⟨s₂, created, -, clock⟩ := runLaunch_create l s₁ enterStmts
        obtain ⟨s₃, entered, -, clock'⟩ := runLaunch_enter l s₂
        simp only [loads, enterProgram, created, entered, Prod.mk.injEq, ExecOutcome.launched.injEq] at launched
        obtain ⟨⟨same, -⟩, rfl⟩ := launched
        have filled : s₂.pcbs (getPcbByPid l.newPid) = l.newPcb s₁ (s₁.pcbs (getPcbByPid l.newPid)) :=
          (congrFun (congrArg ClockView.pcbs clock) _).trans (Function.update_self _ _ _)
        have blocks : s₂.pcbs = _ := congrArg ClockView.pcbs clock
        refine ⟨l, s₁, s₁.pcbs (getPcbByPid l.newPid), same, by rw [← launch], by rw [← launch], by rw [← launch],
          by rw [← pid, same], ?_⟩
        rw [clock', filled, blocks, clock, stored.clock, ← same]
        simp only [ClockView.create, Function.update_idem]
        rfl

/-- `sys_execute` on the process view. -/
theorem sysExecute_view (env : Env) (fr : ExecFrame) (command : Bytes) (s : Kernel) :
    match sysExecute env fr command s with
    | (.failed, s') => s'.view = s.view
    | (.fault, s') => ∃ newPid, getNewPid s = some newPid ∧ s'.view = s.view.enable newPid
    | (.launched newPid _, s') => getNewPid s = some newPid ∧ s'.view = s.view.launch newPid fr.regs := by
  generalize outcome : sysExecute env fr command s = out
  have executed := sysExecute_executed env fr command s
  rw [outcome] at executed
  cases executed with
  | notExecutable => rfl
  | full => exact puts_view _ _
  | fault _ _ alloc stored => exact ⟨_, alloc, by rw [stored.view, Kernel.enableProgramPage_view]⟩
  | launched _ alloc regs stored run => exact ⟨alloc, by rw [← regs]; exact (launched_effect stored run).1⟩

/-! ### The base shell -/

/-- The program `shell` is in the file system, has the ELF magic and fits its page. -/
def ShellLoadable (env : Env) : Prop :=
  ∃ exe, env.img.readDentryByName (literal "shell" fun _ => 0) = some exe ∧
    exe.inodeNum < env.img.numInodes ∧ (env.img.fileContent exe.inodeNum).take 4 = elfMagic ∧
    env.img.lengthInBytes exe.inodeNum ≤ programRoom

theorem parseName_below (command : Bytes) {k : Nat} :
    ∀ n i (name : Bytes), k < i → (parseName command n i name).1 k = name k := by
  intro n
  induction n with
  | zero => intro i name _; rfl
  | succ n ih =>
    intro i name below
    unfold parseName
    split
    · rfl
    · split
      · rfl
      · rw [ih (i + 1) _ (by omega), Function.update_of_ne (by omega), Function.update_of_ne (by omega)]

/-- The parser copies the bytes before the first blank or line feed. -/
theorem parseName_copies (command : Bytes) {m k : Nat} :
    ∀ n i (name : Bytes), (∀ j, i ≤ j → j < m → command j ≠ 0x20 ∧ command j ≠ 0x0A) → m ≤ i + n → i ≤ k → k < m →
      (parseName command n i name).1 k = command k := by
  intro n
  induction n with
  | zero => intro i name _ room low high; omega
  | succ n ih =>
    intro i name plain room low high
    obtain ⟨noBlank, noLine⟩ := plain i (Nat.le_refl i) (by omega)
    rw [parseName, if_neg noBlank, if_neg noLine]
    by_cases first : k = i
    · subst first
      rw [parseName_below command n (k + 1) _ (by omega), Function.update_of_ne (by omega), Function.update_self]
    · exact ih (i + 1) _ (fun j hj => plain j (by omega)) (by omega) (by omega) high

/-- Whatever the stack and the linker left around it, the name parsed is `shell`. -/
theorem parse_shellCommand (env : Env) (fr : ExecFrame) :
    SameString (parse fr (shellCommand env)).executableName (literal "shell" fun _ => 0) := by
  have command : ∀ k ≤ 5, shellCommand env k = literal "shell" (fun _ => 0) k :=
    fun k hk => literal_congr "shell" _ _ hk
  have plain : ∀ j < 6, literal "shell" (fun _ => 0) j ≠ 0x20 ∧ literal "shell" (fun _ => 0) j ≠ 0x0A := by decide
  have copied : ∀ k ≤ 5, (parse fr (shellCommand env)).executableName k = literal "shell" (fun _ => 0) k := by
    intro k hk
    have name : (parse fr (shellCommand env)).executableName =
        (parseName (shellCommand env) maxCmdLen 0 fr.executableName).1 := by
      unfold parse; dsimp only; split <;> rfl
    rw [name, parseName_copies (shellCommand env) maxCmdLen 0 fr.executableName (m := 6) ?_ (by decide)
      (Nat.zero_le k) (by omega), command k hk]
    intro j _ hj
    rw [command j (by omega)]
    exact plain j hj
  exact ⟨5, (copied 5 (Nat.le_refl 5)).trans (by decide), copied⟩

/-- A file that begins with the magic number passes the executable check, whatever was in `buf_elf`. -/
theorem checkExecutable_found {img : Image} {cmd : Command} {exe : DirEntry}
    (found : img.readDentryByName cmd.executableName = some exe) (valid : exe.inodeNum < img.numInodes)
    (magic : (img.fileContent exe.inodeNum).take 4 = elfMagic) (fr : ExecFrame) :
    checkExecutable img fr cmd = some exe.inodeNum := by
  have check : (List.range 4).all (fun i => store fr.bufElf elfMagic i == elfMagic.getD i 0) = true := by
    rfl
  simp only [checkExecutable, found, Image.readData_eq valid, List.drop_zero, magic, check, if_true]

/-- A loadable shell passes the executable check. -/
theorem checkExecutable_shell {env : Env} (loadable : ShellLoadable env) (fr : ExecFrame) :
    ∃ inode, checkExecutable env.img fr (parse fr (shellCommand env)) = some inode ∧
      0 < env.img.lengthInBytes inode ∧ env.img.lengthInBytes inode ≤ programRoom := by
  obtain ⟨exe, found, valid, magic, room⟩ := loadable
  have nonempty : 0 < env.img.lengthInBytes exe.inodeNum := by
    have length := congrArg List.length magic
    rw [List.length_take, Image.fileContent_length, show elfMagic.length = 4 from rfl] at length
    omega
  refine ⟨exe.inodeNum, checkExecutable_found ?_ valid magic fr, nonempty, room⟩
  rw [env.img.readDentryByName_congr (parse_shellCommand env fr), found]

/-- A program that fits its page is launched under the pid that `get_new_pid` finds. -/
theorem sysExecute_launches {env : Env} {fr : ExecFrame} {command : Bytes} {s : Kernel} {inode : Nat} {newPid : Int}
    (check : checkExecutable env.img fr (parse fr command) = some inode)
    (room : env.img.lengthInBytes inode ≤ programRoom) (alloc : getNewPid s = some newPid) :
    ∃ eip s', sysExecute env fr command s = (.launched newPid eip, s') ∧ s'.view = s.view.launch newPid fr.regs := by
  have effect := sysExecute_view env fr command s
  have executed := sysExecute_executed env fr command s
  generalize outcome : sysExecute env fr command s = out at effect executed
  cases executed with
  | notExecutable missing => rw [check] at missing; cases missing
  | full none => rw [alloc] at none; cases none
  | fault found large => rw [check, Option.some.injEq] at found; subst found; omega
  | launched _ found =>
    rw [alloc, Option.some.injEq] at found
    subst found
    exact ⟨_, _, rfl, effect.2⟩

/-- So is a base shell. -/
theorem sysExecute_shell {env : Env} (loadable : ShellLoadable env) (fr : ExecFrame) {s : Kernel} {newPid : Int}
    (alloc : getNewPid s = some newPid) :
    ∃ eip s', sysExecute env fr (shellCommand env) s = (.launched newPid eip, s') ∧
      s'.view = s.view.launch newPid fr.regs := by
  obtain ⟨inode, check, -, room⟩ := checkExecutable_shell loadable fr
  exact sysExecute_launches check room alloc

/-- The environment whose file system holds the shell only. -/
@[irreducible] def shellEnv : Env := ⟨shellImage, fun _ => 0⟩

theorem shellEnv_loadable : ShellLoadable shellEnv := by
  unfold shellEnv
  refine ⟨shellImage.dirEntry 0, ?_, by decide, by decide, by decide⟩
  have short : ¬ strlen (literal "shell" fun _ => 0) (fileNameSize + 1) > fileNameSize := by decide
  have first : shellImage.searchName (literal "shell" fun _ => 0) shellImage.numDirEntries.toNat 0 = 0 := by decide
  have one : ¬ shellImage.numDirEntries = (0 : Nat) := by decide
  simp only [Image.readDentryByName, if_neg short, first, if_neg one]

/-! ## `sys_halt` -/

theorem runHalt_append (h : Halt) (a b : List HaltStmt) (s : Kernel) :
    runHalt h (a ++ b) s = runHalt h b (runHalt h a s) := List.foldl_append

theorem close_reprogrammed (h : Halt) (i : Fin fdtMaxEntries) (s : Kernel) :
    Reprogrammed s ((HaltStmt.close i).run h s) := by
  simp only [HaltStmt.run]
  split
  · exact closeFile_reprogrammed _ s
  · exact Reprogrammed.refl s

theorem closes_reprogrammed (h : Halt) (is : List (Fin fdtMaxEntries)) (s : Kernel) :
    Reprogrammed s (runHalt h (is.map .close) s) := by
  induction is generalizing s with
  | nil => exact Reprogrammed.refl s
  | cons i is ih => exact (close_reprogrammed h i s).trans (ih _)

/-- From the store of `tss.esp0` on, `releaseStmts` act on the view as `ProcView.release`. -/
theorem runHalt_release_tail (h : Halt) (s : Kernel) :
    (runHalt h releaseStmts.tail s).view = s.view.release h.addr h.pid := by
  have list : releaseStmts.tail = [.esp0, .usedPids, .printf, .enableProgramPage] ++
    (List.finRange fdtMaxEntries).map .close := rfl
  rw [list, runHalt_append, (closes_reprogrammed h _ _).view]
  have printed := puts_clock (haltingMessage h.pid)
    { s with
      tss := { s.tss with esp0 := kernelStackTop (s.pcbs h.addr).parPid }
      usedPids := Function.update s.usedPids h.pid false }
  have blocks := congrArg ClockView.pcbs printed
  simp only [Kernel.clock] at blocks
  simp only [runHalt, List.foldl_cons, List.foldl_nil, HaltStmt.run, blocks, Kernel.enableProgramPage_view, puts_view]
  rfl

theorem runHalt_release (h : Halt) (s : Kernel) : (runHalt h releaseStmts s).view = s.view.release h.addr h.pid := by
  have list : releaseStmts = [.ss0] ++ releaseStmts.tail := rfl
  have first : (runHalt h [.ss0] s).view = s.view := rfl
  rw [list, runHalt_append, runHalt_release_tail, first]

/-- The end of `sys_halt` acts on the view as `ProcView.return_`. -/
theorem returnToParent_view (h : Halt) (status : UInt8) (s : Kernel) :
    ∃ s', returnToParent h status s = (.toParent (s.pcbs h.addr).parRegs status, s') ∧
      s'.view = s.view.return_ h.addr := by
  refine ⟨_, rfl, ?_⟩
  simp only [runHalt, List.foldl_cons, List.foldl_nil, HaltStmt.run]
  rw [Kernel.setPcb_view, Kernel.setTerminal_view, Kernel.setTerminal_view]
  ext1
  case curr =>
    simp only [ProcView.return_]
    funext t
    by_cases running : t = s.currProcess
    · subst running; simp [Kernel.setTerminal, Kernel.view, Pcb.links]
    · simp [Kernel.setTerminal, Kernel.view, running]
  case par =>
    simp only [ProcView.return_]
    funext t
    by_cases running : t = s.currProcess
    · subst running; simp [Kernel.setTerminal, Kernel.view, Pcb.links]
    · simp [Kernel.setTerminal, Kernel.view, running]
  all_goals rfl

/-- `get_new_pid` finds the lowest free pid. -/
theorem getNewPid_eq_some {s : Kernel} {p : Int} :
    getNewPid s = some p ↔ ValidPid p ∧ s.usedPids p = false ∧ ∀ q, 0 ≤ q → q < p → s.usedPids q = true := by
  simp only [getNewPid, Option.map_eq_some_iff, ValidPid]
  constructor
  · rintro ⟨i, found, rfl⟩
    have free := List.find?_some found
    have member := List.mem_of_find?_eq_some found
    obtain ⟨-, n, below, at_n, earlier⟩ := List.find?_eq_some_iff_getElem.1 found
    simp only [List.getElem_range] at at_n earlier
    subst at_n
    simp only [List.mem_range, maxProcesses] at member
    refine ⟨⟨by simp, by simp only [Int.ofNat_eq_natCast]; omega⟩, by simpa using free, ?_⟩
    intro q low high
    have before := earlier q.toNat (by simp only [Int.ofNat_eq_natCast] at high; omega)
    rw [Int.toNat_of_nonneg low] at before
    simpa using before
  · rintro ⟨⟨low, high⟩, free, earlier⟩
    refine ⟨p.toNat, ?_, Int.toNat_of_nonneg low⟩
    rw [List.find?_eq_some_iff_getElem]
    refine ⟨by simpa [Int.toNat_of_nonneg low] using free, p.toNat, ?_, List.getElem_range _, ?_⟩
    · simp only [List.length_range, maxProcesses]; omega
    · intro j hj
      simp only [List.getElem_range]
      simp [earlier j (by omega) (by omega)]

theorem getNewPid_congr {s s' : Kernel} (same : s'.usedPids = s.usedPids) : getNewPid s' = getNewPid s := by
  simp only [getNewPid, same]

section Halting
variable {env : Env} {s : Kernel} {p : Int}

/-- The halt of a child: its parent becomes current and only its pid is freed. -/
theorem sysHalt_child (env : Env) (fr : ExecFrame) (status : UInt8) (running : s.currPid s.currProcess = p) (child : 3 ≤ p)
    (own : (s.pcb p).pid = p) :
    ∃ s', sysHalt env fr status s = (.toParent (s.pcb p).parRegs status, s') ∧
      s'.view = (s.view.release (getPcbByPid p) p).return_ (getPcbByPid p) := by
  have own' : (s.pcbs (getPcbByPid p)).pid = p := own
  have release := runHalt_release ⟨getPcbByPid p, p⟩ s
  obtain ⟨s', returned, view⟩ := returnToParent_view ⟨getPcbByPid p, p⟩ status (runHalt ⟨getPcbByPid p, p⟩ releaseStmts s)
  have regs : ((runHalt ⟨getPcbByPid p, p⟩ releaseStmts s).pcbs (getPcbByPid p)).parRegs = (s.pcb p).parRegs :=
    congrArg (fun v : ProcView => (v.pcb (getPcbByPid p)).parRegs) release
  refine ⟨s', ?_, by rw [view, release]⟩
  simp only [sysHalt, finishHalt, running, own', if_neg (show p ≠ -1 by omega), if_neg (show ¬ p < 3 by omega),
    returned, regs]

/-- The halt of a base shell whose pid is the lowest that is free then: it is
started again under that pid. -/
theorem sysHalt_root (loadable : ShellLoadable env) (fr : ExecFrame) (status : UInt8)
    (running : s.currPid s.currProcess = p) (low : 0 ≤ p) (root : p < 3) (own : (s.pcb p).pid = p)
    (others : ∀ q, 0 ≤ q → q < p → s.usedPids q = true) :
    ∃ s', sysHalt env fr status s = (.restarted p, s') ∧
      s'.view = (s.view.release (getPcbByPid p) p).launch p fr.regs := by
  have own' : (s.pcbs (getPcbByPid p)).pid = p := own
  have release : (puts exitedRootMessage (runHalt ⟨getPcbByPid p, p⟩ releaseStmts s)).view =
      s.view.release (getPcbByPid p) p := by rw [puts_view]; exact runHalt_release ⟨getPcbByPid p, p⟩ s
  simp only [sysHalt, finishHalt, running, own', if_neg (show p ≠ -1 by omega), if_pos root]
  generalize puts exitedRootMessage (runHalt ⟨getPcbByPid p, p⟩ releaseStmts s) = released at release ⊢
  have used : released.usedPids = Function.update s.usedPids p false := congrArg ProcView.usedPids release
  have alloc : getNewPid released = some p := by
    rw [getNewPid_eq_some, used]
    refine ⟨⟨low, by omega⟩, Function.update_self _ _ _, fun q hq below => ?_⟩
    rw [Function.update_of_ne (by omega)]
    exact others q hq below
  obtain ⟨eip, s', launched, view⟩ := sysExecute_shell loadable fr alloc
  rw [launched]
  exact ⟨s', rfl, by rw [view, release]⟩

end Halting

/-! ## The scheduler -/

/-- The end of `switch_running_process` acts on the view as `ProcView.switch`. -/
theorem switchTo_view (vidId : Int) (r : Regs) {s : Kernel} (running : s.currPid s.currProcess ≠ -1) :
    ∃ s', switchTo (s.currProcess + 1) (s.currPid (s.currProcess + 1)) vidId r s =
        (.resumed (s'.pcb (s'.currPid s'.currProcess)).regs, s') ∧ s'.view = s.view.switch r := by
  simp only [switchTo, if_neg running]
  refine ⟨_, rfl, ?_⟩
  have paged := Kernel.enableProgramPage_view (s.setPcb (getPcbByPid (s.currPid s.currProcess))
    fun pcb => { pcb with regs := r }) (s.currPid (s.currProcess + 1))
  rw [Kernel.setPcb_view] at paged
  exact congrArg (fun v : ProcView => { v with
    esp0 := kernelStackTop (s.currPid (s.currProcess + 1)), currProcess := s.currProcess + 1 }) paged

/-- A switch between two terminals that both have a process. -/
theorem switchRunningProcess_switch (env : Env) (r : Regs) (fr : ExecFrame) {s : Kernel}
    (running : s.currPid s.currProcess ≠ -1) (started : s.currPid (s.currProcess + 1) ≠ -1) :
    ∃ s', switchRunningProcess env r fr s = (.resumed (s'.pcb (s'.currPid s'.currProcess)).regs, s') ∧
      s'.view = s.view.switch r := by
  simp only [switchRunningProcess, if_neg started]
  have masked := Kernel.maskKeyboard_view s (s.currProcess + 1)
  generalize maskKeyboard (s.currProcess + 1) s = m at masked
  have currPid : ∀ t, m.currPid t = s.currPid t := fun t => congrArg (fun v : ProcView => v.curr t) masked
  have currProcess : m.currProcess = s.currProcess := congrArg ProcView.currProcess masked
  rw [← currProcess, ← currPid, ← masked]
  exact switchTo_view _ r (by rw [currProcess, currPid]; exact running)

theorem prepareTerminal_view (vidId : Int) (r : Regs) (s : Kernel) :
    (prepareTerminal (s.currProcess + 1) vidId r s).view = s.view.bootSave r := by
  unfold prepareTerminal ProcView.bootSave
  rw [(resetCursor_output _).view]
  dsimp only
  by_cases first : s.currProcess + 1 ≠ 0
  · have saved := Kernel.setPcb_view (changeVidmem vidId s) (getPcbByPid s.currProcess.val) fun pcb => { pcb with regs := r }
    rw [if_pos first, if_pos (show s.view.currProcess + 1 ≠ 0 from first)]
    exact congrArg (fun v : ProcView => { v with currProcess := s.currProcess + 1 }) saved
  · rw [if_neg first, if_neg (show ¬ s.view.currProcess + 1 ≠ 0 from first)]
    rfl

/-- A tick to such a terminal, up to the launch. -/
theorem bootTick_view (vidId : Int) (r : Regs) (s : Kernel) :
    (prepareTerminal (s.currProcess + 1) vidId r (maskKeyboard (s.currProcess + 1) s)).view = s.view.bootSave r := by
  have masked := Kernel.maskKeyboard_view s (s.currProcess + 1)
  generalize maskKeyboard (s.currProcess + 1) s = m at masked
  have currProcess : m.currProcess = s.currProcess := congrArg ProcView.currProcess masked
  rw [← currProcess, prepareTerminal_view, masked]

/-- A switch to a terminal that has no process yet starts its base shell. -/
theorem switchRunningProcess_boot {env : Env} (loadable : ShellLoadable env) (r : Regs) (fr : ExecFrame) {s : Kernel}
    {newPid : Int} (empty : s.currPid (s.currProcess + 1) = -1) (alloc : getNewPid s = some newPid) :
    ∃ s', switchRunningProcess env r fr s = (.launched newPid, s') ∧
      s'.view = (s.view.bootSave r).launch newPid fr.regs := by
  simp only [switchRunningProcess, if_pos empty]
  have prepared := bootTick_view (if s.currProcess + 1 = s.currTer then mainVid else (s.currProcess + 1).val) r s
  generalize prepareTerminal (s.currProcess + 1) _ r (maskKeyboard (s.currProcess + 1) s) = ready at prepared
  have used : ready.usedPids = s.usedPids := by
    refine (congrArg ProcView.usedPids prepared).trans ?_
    simp only [ProcView.bootSave]
    split <;> rfl
  obtain ⟨eip, s', launched, view⟩ := sysExecute_shell loadable fr ((getNewPid_congr used).trans alloc)
  rw [launched]
  exact ⟨s', rfl, by rw [view, prepared]⟩

/-- Without an executable shell, a switch on a machine without processes starts none. -/
theorem switchRunningProcess_stuck {env : Env}
    (missing : ∀ fr, checkExecutable env.img fr (parse fr (shellCommand env)) = none) (r : Regs) (fr : ExecFrame)
    {s : Kernel} (empty : ∀ t, s.currPid t = -1) :
    ∃ s', switchRunningProcess env r fr s = (.returned, s') ∧ s'.view = s.view.bootSave r := by
  simp only [switchRunningProcess, if_pos (empty _), sysExecute_notExecutable (missing fr)]
  have prepared := bootTick_view (if s.currProcess + 1 = s.currTer then mainVid else (s.currProcess + 1).val) r s
  generalize prepareTerminal (s.currProcess + 1) _ r (maskKeyboard (s.currProcess + 1) s) = ready at prepared
  have none : ready.currPid ready.currProcess = -1 := by
    have curr : ready.currPid = s.currPid := by
      refine (congrArg ProcView.curr prepared).trans ?_
      simp only [ProcView.bootSave]
      split <;> rfl
    rw [curr]
    exact empty _
  exact ⟨ready, by simp only [switchTo, if_pos none], prepared⟩

/-! ## The keyboard -/

/-- `s'` is `s` after a key: the lines and the cursors of the terminals, the
screen, the displayed terminal and the modifier keys may differ. -/
def Typed (s s' : Kernel) : Prop :=
  ∃ ts ct x y c m pt vt shift ctrl caps alt,
    s' = { s with
      terminals := ts, currTer := ct, screenX := x, screenY := y, vgaCursor := c, phys := m, pageTable := pt,
      vidmemPageTable := vt, shiftPressed := shift, controlPressed := ctrl, capsLockOn := caps, altPressed := alt } ∧
    ∀ t, (ts t).progCurrPid = (s.terminals t).progCurrPid ∧ (ts t).progParPid = (s.terminals t).progParPid

namespace Typed
variable {s s' : Kernel}

theorem refl (s : Kernel) : Typed s s := ⟨_, _, _, _, _, _, _, _, _, _, _, _, rfl, fun _ => ⟨rfl, rfl⟩⟩

theorem trans {a b c : Kernel} (h : Typed a b) (h' : Typed b c) : Typed a c := by
  obtain ⟨ts, ct, x, y, v, m, pt, vt, sh, co, ca, al, rfl, same⟩ := h
  obtain ⟨ts', ct', x', y', v', m', pt', vt', sh', co', ca', al', rfl, same'⟩ := h'
  exact ⟨_, _, _, _, _, _, _, _, _, _, _, _, rfl, fun t =>
    ⟨(same' t).1.trans (same t).1, (same' t).2.trans (same t).2⟩⟩

theorem of_output (h : Output s s') : Typed s s' := by
  obtain ⟨ts, x, y, c, m, rfl, same⟩ := h
  refine ⟨_, _, _, _, _, _, _, _, _, _, _, _, rfl, fun t => ?_⟩
  obtain ⟨p, q, e⟩ := same t
  rw [e]
  exact ⟨rfl, rfl⟩

theorem setTerminal (s : Kernel) (t : Term) {f : TerminalState → TerminalState}
    (curr : (f (s.terminals t)).progCurrPid = (s.terminals t).progCurrPid)
    (par : (f (s.terminals t)).progParPid = (s.terminals t).progParPid) : Typed s (s.setTerminal t f) := by
  refine ⟨_, _, _, _, _, _, _, _, _, _, _, _, rfl, ?_⟩
  apply s.setTerminal_forall
    (P := fun u ts => ts.progCurrPid = (s.terminals u).progCurrPid ∧ ts.progParPid = (s.terminals u).progParPid)
  · exact ⟨curr, par⟩
  · exact fun _ _ => ⟨rfl, rfl⟩

theorem view (h : Typed s s') : s'.view = s.view := by
  obtain ⟨ts, ct, x, y, v, m, pt, vt, sh, co, ca, al, rfl, same⟩ := h
  have curr : (fun t => (ts t).progCurrPid) = fun t => (s.terminals t).progCurrPid := funext fun t => (same t).1
  have par : (fun t => (ts t).progParPid) = fun t => (s.terminals t).progParPid := funext fun t => (same t).2
  ext1 <;> first | rfl | exact curr | exact par

theorem clock (h : Typed s s') : s'.clock = s.clock := by
  obtain ⟨ts, ct, x, y, v, m, pt, vt, sh, co, ca, al, rfl, -⟩ := h; rfl

end Typed

theorem backspace_typed (s : Kernel) : Typed s (backspace s) := by
  unfold backspace
  split
  · exact .refl s
  · exact (Typed.of_output (screenBackspace_output s)).trans (.setTerminal _ _ rfl rfl)

theorem printChar_typed (c : UInt8) (s : Kernel) : Typed s (printChar c s) := by
  unfold printChar
  split
  · exact .refl s
  · exact (Typed.setTerminal s _ rfl rfl).trans (.of_output (putc_output _ _))

theorem controlL_typed (s : Kernel) : Typed s (controlL s) := .of_output (controlL_output s)

theorem upArrow_typed (s : Kernel) : Typed s (upArrow s) := by
  apply upArrow_rule (P := Typed s) (Q := Typed s) (.refl s)
  · exact fun s₁ typed => typed.trans (backspace_typed s₁)
  · exact fun s₁ typed => (typed.trans (.setTerminal _ _ rfl rfl)).trans (.of_output (puts_output _ _))

theorem switchTerminal_typed (n : Term) (s : Kernel) : Typed s (switchTerminal n s) := by
  unfold switchTerminal
  split
  · exact ⟨_, _, _, _, _, _, _, _, _, _, _, _, rfl, fun _ => ⟨rfl, rfl⟩⟩
  · exact .refl s

theorem characterKey_typed (c : UInt8) (s : Kernel) : Typed s (characterKey c s) := by
  unfold characterKey
  split
  · exact backspace_typed s
  · split
    · exact (Typed.setTerminal s _ rfl rfl).trans (.of_output (putc_output _ _))
    · split
      · exact .refl s
      · exact printChar_typed c s

/-- **Keys change nothing but the terminals' lines and the screen.** -/
theorem kbHandler_typed (scancode : UInt8) (s : Kernel) : Typed s (kbHandler scancode s) := by
  apply kbHandler_rule (P := Typed s) (Q := Typed s) scancode
  case arrow =>
    split
    · exact upArrow_typed s
    · exact .refl s
  case still => exact fun _ typed => typed
  case modifiers =>
    intro s₁ shift control alt caps typed
    exact typed.trans ⟨_, _, _, _, _, _, _, _, _, _, _, _, rfl, fun _ => ⟨rfl, rfl⟩⟩
  case clear => exact fun s₁ typed => typed.trans (controlL_typed s₁)
  case switch => exact fun s₁ n _ _ typed => typed.trans (switchTerminal_typed n s₁)
  case character => exact fun s₁ _ typed => typed.trans (characterKey_typed _ s₁)

end BigBrainOS
