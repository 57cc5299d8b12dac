import BigBrainOS.Process.System

/-!
# What the calls do to the display

`sys_execute` and `sys_halt` reach the display through `printf` alone: every other
statement of theirs is `Quiet`. A property of the display that quiet statements
and `putc` keep is therefore kept by both calls, however they end.
-/

namespace BigBrainOS
set_option autoImplicit false

/-- The cursor, its saved copies, the running and the displayed terminal and the
video mapping are the same; the bytes of memory may differ. -/
structure Quiet (s s' : Kernel) : Prop where
  screenX : s'.screenX = s.screenX
  screenY : s'.screenY = s.screenY
  xSave : ∀ t, (s'.terminals t).screenXSave = (s.terminals t).screenXSave
  ySave : ∀ t, (s'.terminals t).screenYSave = (s.terminals t).screenYSave
  currProcess : s'.currProcess = s.currProcess
  currTer : s'.currTer = s.currTer
  onScreen : s'.onScreen = s.onScreen
  pageTable : s'.pageTable = s.pageTable

namespace Quiet
variable {s s' : Kernel}

/-- An update of one terminal that keeps its saved cursor. -/
theorem setTerminal (s : Kernel) (t : Term) (f : TerminalState → TerminalState)
    (x : (f (s.terminals t)).screenXSave = (s.terminals t).screenXSave)
    (y : (f (s.terminals t)).screenYSave = (s.terminals t).screenYSave) : Quiet s (s.setTerminal t f) := by
  refine ⟨rfl, rfl, ?_, ?_, rfl, rfl, rfl, rfl⟩
  · apply s.setTerminal_forall (P := fun u ts => ts.screenXSave = (s.terminals u).screenXSave)
    · exact x
    · exact fun _ _ => rfl
  · apply s.setTerminal_forall (P := fun u ts => ts.screenYSave = (s.terminals u).screenYSave)
    · exact y
    · exact fun _ _ => rfl

theorem of_stored (h : Stored s s') : Quiet s s' := by
  obtain ⟨m, rfl⟩ := h
  exact ⟨rfl, rfl, fun _ => rfl, fun _ => rfl, rfl, rfl, rfl, rfl⟩

theorem of_reprogrammed (h : Reprogrammed s s') : Quiet s s' := by
  obtain ⟨f, a, ps, rfl, -⟩ := h
  exact ⟨rfl, rfl, fun _ => rfl, fun _ => rfl, rfl, rfl, rfl, rfl⟩

theorem enableProgramPage (pid : Int) (s : Kernel) : Quiet s (enableProgramPage pid s) :=
  ⟨rfl, rfl, fun _ => rfl, fun _ => rfl, rfl, rfl, rfl, rfl⟩

/-- The statements of `sys_execute` other than the `printf`. -/
theorem launchStmt {l : Launch} {stmt : LaunchStmt} (silent : stmt ≠ .printf) (run : stmt.run l s = some s') :
    Quiet s s' := by
  cases stmt with
  | copy k => exact of_stored (writeByte_stored run)
  | printf => exact absurd rfl silent
  | progCurrPid => obtain rfl := Option.some.inj run; exact setTerminal s _ _ rfl rfl
  | progParPid => obtain rfl := Option.some.inj run; exact setTerminal s _ _ rfl rfl
  | parPidRoot =>
    obtain rfl := Option.some.inj run
    split <;> exact ⟨rfl, rfl, fun _ => rfl, fun _ => rfl, rfl, rfl, rfl, rfl⟩
  | _ => obtain rfl := Option.some.inj run; exact ⟨rfl, rfl, fun _ => rfl, fun _ => rfl, rfl, rfl, rfl, rfl⟩

/-- The statements of `sys_halt` other than the `printf`. -/
theorem haltStmt (h : Halt) {stmt : HaltStmt} (silent : stmt ≠ .printf) (s : Kernel) : Quiet s (stmt.run h s) := by
  cases stmt with
  | printf => exact absurd rfl silent
  | close i => exact of_reprogrammed (close_reprogrammed h i s)
  | progCurrPid => unfold HaltStmt.run; exact setTerminal s s.currProcess _ rfl rfl
  | progParPid => unfold HaltStmt.run; exact setTerminal s s.currProcess _ rfl rfl
  | _ => exact ⟨rfl, rfl, fun _ => rfl, fun _ => rfl, rfl, rfl, rfl, rfl⟩

end Quiet

/-- A property that each statement of `sys_execute` and `sys_halt` keeps. -/
structure Kept (P : Kernel → Prop) : Prop where
  launch : ∀ {l : Launch} {stmt : LaunchStmt} {s s' : Kernel}, P s → stmt.run l s = some s' → P s'
  halt : ∀ {s : Kernel} (h : Halt) (stmt : HaltStmt), P s → P (stmt.run h s)
  enable : ∀ {s : Kernel} (pid : Int), P s → P (enableProgramPage pid s)
  stored : ∀ {s s' : Kernel}, P s → Stored s s' → P s'
  puts : ∀ {s : Kernel} (text : List UInt8), P s → P (puts text s)

namespace Kept
variable {P : Kernel → Prop} {s s' : Kernel} (kept : Kept P)
include kept

theorem runLaunch {l : Launch} {stmts : List LaunchStmt} (start : P s) (run : runLaunch l stmts s = .ok s') : P s' := by
  induction stmts generalizing s with
  | nil => cases run; exact start
  | cons stmt rest ih =>
    simp only [BigBrainOS.runLaunch] at run
    split at run
    · cases run
    · next s₁ ran => exact ih (kept.launch start ran) run

/-- `sys_execute` keeps the property, however it ends. -/
theorem sysExecute (env : Env) (fr : ExecFrame) (command : Bytes) (start : P s) :
    P (sysExecute env fr command s).2 := by
  have executed := sysExecute_executed env fr command s
  generalize BigBrainOS.sysExecute env fr command s = out at executed
  cases executed with
  | notExecutable => exact start
  | full => dsimp only; exact kept.puts maxProcessesMessage start
  | fault _ _ _ stored => exact kept.stored (kept.enable _ start) stored
  | launched _ _ _ stored run => exact kept.runLaunch (kept.stored (kept.enable _ start) stored) run

theorem runHalt (h : Halt) (stmts : List HaltStmt) (start : P s) : P (runHalt h stmts s) := by
  induction stmts generalizing s with
  | nil => exact start
  | cons stmt rest ih => exact ih (kept.halt h stmt start)

theorem finishHalt (env : Env) (fr : ExecFrame) (h : Halt) (status : UInt8) (start : P s) :
    P (finishHalt env fr h status s).2 := by
  have returned : ∀ {s₁}, P s₁ → P (returnToParent h status s₁).2 := fun start₁ =>
    kept.runHalt h [.clearPcb] (kept.runHalt h [.progCurrPid, .progParPid] start₁)
  unfold BigBrainOS.finishHalt
  split
  · have executed := kept.sysExecute env fr (shellCommand env) (kept.puts exitedRootMessage start)
    split
    · next eq => rw [eq] at executed; exact executed
    · next eq => rw [eq] at executed; exact executed
    · next eq => rw [eq] at executed; exact returned executed
  · exact returned start

/-- `sys_halt` keeps the property, however it ends. -/
theorem sysHalt (env : Env) (fr : ExecFrame) (status : UInt8) (start : P s) : P (sysHalt env fr status s).2 := by
  unfold BigBrainOS.sysHalt
  split
  · exact start
  · exact kept.finishHalt env fr _ status (kept.runHalt _ releaseStmts start)

theorem pfHandler (env : Env) (exc : ExecFrame) (start : P s) : P (pfHandler env exc s).2 :=
  kept.sysHalt env exc haltStatusExc (kept.puts _ start)

theorem executeCall (env : Env) (fr exc : ExecFrame) (command : Bytes) (start : P s) :
    P (executeCall env fr exc command s).2 := by
  have executed := kept.sysExecute env fr command start
  unfold BigBrainOS.executeCall
  split
  · next eq => rw [eq] at executed; exact kept.pfHandler env exc executed
  · exact executed

end Kept

/-- A property of the display that output and quiet changes keep. -/
structure Printing (P : Kernel → Prop) : Prop where
  putc : ∀ {s}, P s → ∀ c, P (putc c s)
  quiet : ∀ {s s'}, P s → Quiet s s' → P s'

namespace Printing
variable {P : Kernel → Prop} {s : Kernel} (printing : Printing P)
include printing

theorem puts (text : List UInt8) (start : P s) : P (puts text s) := by
  induction text generalizing s with
  | nil => exact start
  | cons c text ih => exact ih (printing.putc start c)

/-- Every statement is quiet or prints. -/
theorem kept : Kept P where
  launch {l stmt s s'} start run := by
    by_cases print : stmt = .printf
    · subst print
      obtain rfl := Option.some.inj run
      exact printing.puts _ start
    · exact printing.quiet start (.launchStmt print run)
  halt {s} h stmt start := by
    by_cases print : stmt = .printf
    · subst print; exact printing.puts _ start
    · exact printing.quiet start (.haltStmt h print s)
  enable pid start := printing.quiet start (.enableProgramPage pid _)
  stored start stored := printing.quiet start (.of_stored stored)
  puts text start := printing.puts text start

end Printing

end BigBrainOS
