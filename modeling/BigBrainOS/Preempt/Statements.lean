import BigBrainOS.Process.Context

/-!
# Runs of statements

What a part of the statement lists of `sys_execute` and `sys_halt` has done when it
stops in the middle: which process the program page maps, where a page fault of
the loader can occur, and the view once `prog_curr_pid` is assigned.
-/

namespace BigBrainOS
set_option autoImplicit false

section Launch
variable {l : Launch} {s s' : Kernel} {stmt : LaunchStmt} {past rest : List LaunchStmt}

theorem runLaunch_append (l : Launch) (a b : List LaunchStmt) (s : Kernel) :
    runLaunch l (a ++ b) s = (runLaunch l a s).bind (runLaunch l b) := by
  induction a generalizing s with
  | nil => rfl
  | cons stmt a ih =>
    simp only [List.cons_append, runLaunch]
    split
    · rfl
    · exact ih _

/-- One more statement. -/
theorem runLaunch_concat (ran : runLaunch l past s = .ok s') {k : Kernel} (run : stmt.run l s' = some k) :
    runLaunch l (past ++ [stmt]) s = .ok k := by
  rw [runLaunch_append, ran]
  simp only [Except.bind, runLaunch, run]

theorem LaunchStmt.run_currProcess (run : stmt.run l s = some s') : s'.currProcess = s.currProcess := by
  by_cases print : stmt = .printf
  · subst print
    obtain rfl := Option.some.inj run
    obtain ⟨ts, x, y, c, m, e, -⟩ := puts_output (executingMessage l.newPid s.currProcess) s
    rw [e]
  · exact (Quiet.launchStmt print run).currProcess

/-- Only `enable_program_page` changes the program page. -/
theorem LaunchStmt.run_maps (maps : s.MapsProgram l.newPid) (run : stmt.run l s = some s') : s'.MapsProgram l.newPid := by
  cases stmt with
  | enableProgramPage => obtain rfl := Option.some.inj run; exact enableProgramPage_maps l.newPid s
  | copy k => exact (writeByte_stored run).mapsProgram maps
  | printf =>
    obtain rfl := Option.some.inj run
    obtain ⟨ts, x, y, c, m, e, -⟩ := puts_output (executingMessage l.newPid s.currProcess) s
    rw [e]
    exact maps
  | parPidRoot => obtain rfl := Option.some.inj run; split <;> exact maps
  | _ => obtain rfl := Option.some.inj run; exact maps

theorem runLaunch_maps (maps : s.MapsProgram l.newPid) (run : runLaunch l past s = .ok s') :
    s'.MapsProgram l.newPid := by
  induction past generalizing s with
  | nil => cases run; exact maps
  | cons stmt rest ih =>
    simp only [runLaunch] at run
    split at run
    · cases run
    · next ran => exact ih (LaunchStmt.run_maps maps ran) run

/-- From the second statement on, the program page maps the new process. -/
theorem runLaunch_maps_of_split (split : past ++ stmt :: rest = launchStmts l) (later : stmt ≠ .enableProgramPage)
    (run : runLaunch l past s = .ok s') : s'.MapsProgram l.newPid := by
  cases past with
  | nil => exact absurd (List.cons.inj split).1 later
  | cons first past =>
    have enable : first = .enableProgramPage := (List.cons.inj split).1
    subst enable
    exact runLaunch_maps (enableProgramPage_maps l.newPid s) run

/-- The statements up to the assignment of `prog_curr_pid`. -/
theorem runLaunch_created (run : runLaunch l (loadStmts l ++ createStmts) s = .ok s') :
    s'.view = (s.view.enable l.newPid).create l.newPid l.regs := by
  obtain ⟨s₁, stored, outcome⟩ := runLaunch_copies l (List.range l.program.length) (enableProgramPage l.newPid s)
  have loads : runLaunch l (loadStmts l) s = runLaunch l ((List.range l.program.length).map .copy)
      (enableProgramPage l.newPid s) := rfl
  rw [runLaunch_append, loads] at run
  rcases outcome with fault | loaded
  · rw [fault] at run; cases run
  · obtain ⟨s₂, created, view, -⟩ := runLaunch_create l s₁ []
    rw [loaded] at run
    rw [List.append_nil] at created
    have ok : runLaunch l createStmts s₁ = .ok s' := run
    rw [created] at ok
    obtain rfl : s₂ = s' := Except.ok.inj ok
    rw [view, stored.view, Kernel.enableProgramPage_view]

/-- The assignment of `prog_curr_pid` is where it stands in the list, once. -/
theorem split_progCurrPid (split : past ++ .progCurrPid :: rest = launchStmts l) :
    past ++ [.progCurrPid] = loadStmts l ++ createStmts ∧ rest = enterStmts := by
  have list : launchStmts l = (loadStmts l ++ createStmts.dropLast) ++ .progCurrPid :: enterStmts := by
    simp [launchStmts, createStmts]
  have before : LaunchStmt.progCurrPid ∉ loadStmts l ++ createStmts.dropLast := by
    simp [loadStmts, createStmts]
  have behind : LaunchStmt.progCurrPid ∉ enterStmts := by decide
  rw [list] at split
  obtain ⟨same, -, tail⟩ := (List.append_cons_inj_of_notMem before behind).1 split.symm
  refine ⟨?_, tail.symm⟩
  rw [← same]
  simp [createStmts]

/-- A page fault occurs in the loader, with the new process mapped. -/
theorem launch_fault (split : past ++ stmt :: rest = launchStmts l) (ran : runLaunch l past s = .ok s')
    (fault : stmt.run l s' = none) :
    s'.view = s.view.enable l.newPid ∧ s'.MapsProgram l.newPid ∧
      ∃ k < l.program.length, s'.writeByte (progLoadAddr + k) (l.program.getD k 0) = none := by
  obtain ⟨j, rfl⟩ : ∃ j, stmt = .copy j := by
    cases stmt with
    | copy j => exact ⟨j, rfl⟩
    | _ => cases fault
  have maps := runLaunch_maps_of_split split (by simp) ran
  have member : LaunchStmt.copy j ∈ launchStmts l := by
    rw [← split]; exact List.mem_append_right _ List.mem_cons_self
  have small : j < l.program.length := by
    simpa [launchStmts, loadStmts, createStmts, enterStmts] using member
  refine ⟨?_, maps, j, small, fault⟩
  cases past with
  | nil => cases split
  | cons first past =>
    obtain ⟨rfl, -⟩ := List.cons.inj split
    -- what has run of the loader is a list of copies, since no copy stands behind the loader
    have parts : past ++ LaunchStmt.copy j :: rest =
        (List.range l.program.length).map .copy ++ (createStmts ++ enterStmts) := by
      have tail := (List.cons.inj split).2
      rw [← List.append_assoc]
      exact tail
    obtain ⟨ks, copies⟩ : ∃ ks : List Nat, past = ks.map LaunchStmt.copy := by
      rcases List.append_eq_append_iff.1 parts with ⟨a, loader, -⟩ | ⟨a, -, behind⟩
      · obtain ⟨ks, -, -, same, -⟩ := List.map_eq_append_iff.1 loader
        exact ⟨ks, same.symm⟩
      · have impossible : LaunchStmt.copy j ∈ createStmts ++ enterStmts := by
          rw [behind]; exact List.mem_append_right _ List.mem_cons_self
        simp [createStmts, enterStmts] at impossible
    subst copies
    obtain ⟨s₁, stored, outcome⟩ := runLaunch_copies l ks (enableProgramPage l.newPid s)
    have run : runLaunch l (ks.map .copy) (enableProgramPage l.newPid s) = .ok s' := ran
    rcases outcome with fault | loaded
    · rw [fault] at run; cases run
    · rw [loaded] at run
      obtain rfl := Except.ok.inj run
      rw [stored.view, Kernel.enableProgramPage_view]

/-- A statement behind the assignment of `prog_curr_pid` writes the parent of the
terminal or the saved registers of the new process. -/
theorem LaunchStmt.run_enter (member : stmt ∈ enterStmts) (l : Launch) (s : Kernel) :
    ∃ s' par r, stmt.run l s = some s' ∧ s'.view = { s.view with
      par := par
      pcb := Function.update s.view.pcb (getPcbByPid l.newPid)
        { s.view.pcb (getPcbByPid l.newPid) with regs := r } } := by
  have untouched : Function.update s.view.pcb (getPcbByPid l.newPid) (s.view.pcb (getPcbByPid l.newPid)) = s.view.pcb :=
    Function.update_eq_self _ _
  simp only [enterStmts, List.mem_cons, List.not_mem_nil, or_false] at member
  rcases member with rfl | rfl | rfl | rfl
  · refine ⟨_, Function.update s.view.par s.currProcess (s.pcbs (getPcbByPid l.newPid)).parPid,
      (s.view.pcb (getPcbByPid l.newPid)).regs, rfl, ?_⟩
    rw [Kernel.setTerminal_view]
    refine ProcView.ext rfl untouched.symm ?_ rfl rfl rfl rfl
    exact Function.update_eq_self s.currProcess s.view.curr
  · exact ⟨_, s.view.par, _, rfl, Kernel.setPcb_view _ _ _⟩
  · exact ⟨_, s.view.par, _, rfl, Kernel.setPcb_view _ _ _⟩
  · refine ⟨_, s.view.par, (s.view.pcb (getPcbByPid l.newPid)).regs, rfl, ?_⟩
    exact ProcView.ext rfl untouched.symm rfl rfl rfl rfl rfl

end Launch

section Halt
variable {h : Halt} {s : Kernel} {stmt : HaltStmt} {past todo rest : List HaltStmt}

/-- Before the store of `tss.esp0`, at most that of `tss.ss0` has run. -/
theorem split_esp0 (split : past ++ todo = releaseStmts) (pending : .esp0 ∈ todo) :
    (past = [] ∧ todo = releaseStmts) ∨
      past = [.ss0] ∧ todo = releaseStmts.tail := by
  have list : releaseStmts = .ss0 :: .esp0 :: releaseStmts.tail.tail := rfl
  have behind : HaltStmt.esp0 ∉ releaseStmts.tail.tail := by decide
  match past, split with
  | [], split => exact Or.inl ⟨rfl, split⟩
  | [a], split =>
    rw [list] at split
    obtain ⟨rfl, tail⟩ := List.cons.inj split
    exact Or.inr ⟨rfl, tail⟩
  | a :: b :: past, split =>
    have tail : past ++ todo = releaseStmts.tail.tail := congrArg (fun l => l.tail.tail) split
    exact absurd (tail ▸ List.mem_append_right past pending) behind

/-- The pid is released once. -/
theorem split_usedPids (split : past ++ .usedPids :: rest = releaseStmts.tail) : .usedPids ∉ rest := by
  have once : releaseStmts.tail.Nodup := by decide
  rw [← split, List.nodup_append] at once
  exact (List.nodup_cons.1 once.2.1).1

theorem HaltStmt.run_currProcess (h : Halt) (stmt : HaltStmt) (s : Kernel) :
    (stmt.run h s).currProcess = s.currProcess := by
  by_cases print : stmt = .printf
  · subst print
    obtain ⟨ts, x, y, c, m, e, -⟩ := puts_output (haltingMessage h.pid) s
    rw [show HaltStmt.printf.run h s = puts (haltingMessage h.pid) s from rfl, e]
  · exact (Quiet.haltStmt h print s).currProcess

/-- One more statement. -/
theorem runHalt_concat (h : Halt) (past : List HaltStmt) (stmt : HaltStmt) (s : Kernel) :
    runHalt h (past ++ [stmt]) s = stmt.run h (runHalt h past s) := runHalt_append h past [stmt] s

end Halt

end BigBrainOS
