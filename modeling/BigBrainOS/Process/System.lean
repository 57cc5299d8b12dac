import BigBrainOS.Process.Tree

/-!
# Runs of the kernel with atomic calls

The system whose steps are complete calls: `sys_execute`, `sys_halt`, the
scheduler, output by the running process and keys. Every step that is no switch
acts on the process view in one of the four ways of `CallStep`.
-/

namespace BigBrainOS
set_option autoImplicit false

/-- A step of the kernel. The frames and registers are whatever the machine has
at that point. -/
inductive Op where
  | execute (fr exc : ExecFrame) (command : Bytes)
  | halt (fr : ExecFrame) (status : UInt8)
  | tick (r : Regs) (fr : ExecFrame)
  | putc (c : UInt8)
  | key (scancode : UInt8)

/-- The effect of a step. -/
def Op.run (env : Env) (op : Op) (s : Kernel) : Kernel :=
  match op with
  | .execute fr exc command => (executeCall env fr exc command s).2
  | .halt fr status => (sysHalt env fr status s).2
  | .tick r fr => (switchRunningProcess env r fr s).2
  | .putc c => BigBrainOS.putc c s
  | .key scancode => kbHandler scancode s

/-- A system call runs on the stack that `tss.esp0` gave it, and keys arrive
only while the displayed terminal runs. -/
def Op.Allowed (op : Op) (s : Kernel) : Prop :=
  match op with
  | .execute fr _ _ => OnStack s.tss.esp0 fr.regs.esp
  | .key _ => s.currProcess = s.currTer
  | _ => True

/-- The kernel with atomic calls. -/
def atomicCalls (env : Env) : TransitionSystem Kernel Op where
  ok s op := op.Allowed s
  next s op := op.run env s

/-- What a step other than a switch does to the process view. -/
inductive CallStep (v : ProcView) (F : Forest Term Int) : ProcView → Prop where
  | same : CallStep v F v
  | launch {n : Int} {r : Regs} : ValidPid n → n ∉ F.live →
      getCurrPcb r.esp = getPcbByPid (F.cur v.currProcess) → CallStep v F (v.launch n r)
  | halt : 3 ≤ F.cur v.currProcess →
      CallStep v F ((v.release (getPcbByPid (F.cur v.currProcess)) (F.cur v.currProcess)).return_
        (getPcbByPid (F.cur v.currProcess)))
  | restart {r : Regs} : F.cur v.currProcess < 3 →
      CallStep v F ((v.release (getPcbByPid (F.cur v.currProcess)) (F.cur v.currProcess)).launch
        (F.cur v.currProcess) r)

section Calls
variable {env : Env} {s : Kernel} {F : Forest Term Int}

theorem Links.currPid_eq (links : Links s.view F) : s.currPid s.currProcess = F.cur s.currProcess :=
  links.curr s.currProcess

/-- Every terminal has a process. -/
theorem Links.currPid_ne (links : Links s.view F) (t : Term) : s.currPid t ≠ -1 := by
  have low := (links.cur_valid t).1
  have current : s.currPid t = F.cur t := links.curr t
  omega

/-- The pid that `get_new_pid` hands out is outside the tree. -/
theorem Links.newPid_fresh (links : Links s.view F) {n : Int} (alloc : getNewPid s = some n) :
    ValidPid n ∧ n ∉ F.live := by
  obtain ⟨valid, free, -⟩ := getNewPid_eq_some.1 alloc
  refine ⟨valid, fun live => ?_⟩
  have used : s.usedPids n = true := (links.used n).2 live
  rw [free] at used
  cases used

/-- How `sys_halt` ends when the records agree. -/
theorem Links.sysHalt_cases (links : Links s.view F) (loadable : ShellLoadable env) (fr : ExecFrame) (status : UInt8) :
    (∃ s', 3 ≤ F.cur s.currProcess ∧
        sysHalt env fr status s = (.toParent (s.pcb (F.cur s.currProcess)).parRegs status, s') ∧
        s'.view = (s.view.release (getPcbByPid (F.cur s.currProcess)) (F.cur s.currProcess)).return_
          (getPcbByPid (F.cur s.currProcess))) ∨
      ∃ s', F.cur s.currProcess < 3 ∧ sysHalt env fr status s = (.restarted (F.cur s.currProcess), s') ∧
        s'.view = (s.view.release (getPcbByPid (F.cur s.currProcess)) (F.cur s.currProcess)).launch
          (F.cur s.currProcess) fr.regs := by
  have running := links.currPid_eq
  have own : (s.pcb (F.cur s.currProcess)).pid = F.cur s.currProcess := links.pid _ (F.cur_live s.currProcess)
  obtain ⟨nonneg, -⟩ := links.cur_valid s.currProcess
  by_cases child : 3 ≤ F.cur s.currProcess
  · obtain ⟨s', halted, view⟩ := sysHalt_child env fr status running child own
    exact Or.inl ⟨s', child, halted, view⟩
  · have others : ∀ q, 0 ≤ q → q < F.cur s.currProcess → s.usedPids q = true := fun q hq below =>
      (links.used q).2 (links.base_live hq (by omega))
    obtain ⟨s', halted, view⟩ := sysHalt_root loadable fr status running nonneg (by omega) own others
    exact Or.inr ⟨s', by omega, halted, view⟩

theorem Links.halt_step (links : Links s.view F) (loadable : ShellLoadable env) (fr : ExecFrame) (status : UInt8) :
    CallStep s.view F (sysHalt env fr status s).2.view := by
  rcases links.sysHalt_cases loadable fr status with ⟨s', child, halted, view⟩ | ⟨s', root, halted, view⟩
  · rw [halted, view]; exact .halt child
  · rw [halted, view]; exact .restart root

/-- The page fault handler is `sys_halt` after a message. -/
theorem pfHandler_eq (env : Env) (exc : ExecFrame) (s : Kernel) :
    ∃ s₁, Output s s₁ ∧ pfHandler env exc s = sysHalt env exc haltStatusExc s₁ := ⟨_, puts_output _ _, rfl⟩

/-- A page fault of the loader halts the caller, as if the load had not begun. -/
theorem Links.pfHandler_cases {s' : Kernel} (links : Links s.view F) (loadable : ShellLoadable env) (exc : ExecFrame)
    {n : Int} (view : s'.view = s.view.enable n) :
    (∃ s₂, 3 ≤ F.cur s.currProcess ∧
        pfHandler env exc s' = (.toParent (s.pcb (F.cur s.currProcess)).parRegs haltStatusExc, s₂) ∧
        s₂.view = (s.view.release (getPcbByPid (F.cur s.currProcess)) (F.cur s.currProcess)).return_
          (getPcbByPid (F.cur s.currProcess))) ∨
      ∃ s₂, F.cur s.currProcess < 3 ∧ pfHandler env exc s' = (.restarted (F.cur s.currProcess), s₂) ∧
        s₂.view = (s.view.release (getPcbByPid (F.cur s.currProcess)) (F.cur s.currProcess)).launch
          (F.cur s.currProcess) exc.regs := by
  obtain ⟨s₁, printed, handler⟩ := pfHandler_eq env exc s'
  have view₁ : s₁.view = s.view.enable n := printed.view.trans view
  have links₁ : Links s₁.view F := view₁ ▸ links.enable n
  have same : s₁.currProcess = s.currProcess := congrArg ProcView.currProcess view₁
  have regs : (s₁.pcb (F.cur s.currProcess)).parRegs = (s.pcb (F.cur s.currProcess)).parRegs :=
    congrArg (fun v : ProcView => (v.pcb (getPcbByPid (F.cur s.currProcess))).parRegs) view₁
  rw [handler]
  rcases links₁.sysHalt_cases loadable exc haltStatusExc with ⟨s₂, child, halted, view₂⟩ | ⟨s₂, root, halted, view₂⟩
  · rw [same] at child halted view₂
    rw [regs] at halted
    exact Or.inl ⟨s₂, child, halted, by rw [view₂, view₁]; rfl⟩
  · rw [same] at root halted view₂
    exact Or.inr ⟨s₂, root, halted, by rw [view₂, view₁]; rfl⟩

theorem Links.fault_step {s' : Kernel} (links : Links s.view F) (loadable : ShellLoadable env) (exc : ExecFrame) {n : Int}
    (view : s'.view = s.view.enable n) : CallStep s.view F (pfHandler env exc s').2.view := by
  rcases links.pfHandler_cases loadable exc view with ⟨s₂, child, halted, view₂⟩ | ⟨s₂, root, halted, view₂⟩
  · rw [halted, view₂]; exact .halt child
  · rw [halted, view₂]; exact .restart root

/-- A call on the stack that `tss.esp0` gave it finds the block of the running process. -/
theorem Links.onStack (links : Links s.view F) (placed : s.view.Placed) {esp : Nat} (stack : OnStack s.tss.esp0 esp) :
    getCurrPcb esp = getPcbByPid (F.cur s.view.currProcess) := by
  apply getCurrPcb_of_onStack (links.cur_valid s.view.currProcess)
  have top : s.tss.esp0 = kernelStackTop (F.cur s.view.currProcess) := placed.stack.trans (by rw [links.curr])
  rw [← top]
  exact stack

theorem Links.execute_step (links : Links s.view F) (loadable : ShellLoadable env) (placed : s.view.Placed)
    (fr exc : ExecFrame) (command : Bytes) (stack : OnStack s.tss.esp0 fr.regs.esp) :
    CallStep s.view F (executeCall env fr exc command s).2.view := by
  have onStack := links.onStack placed stack
  have effect := sysExecute_view env fr command s
  unfold executeCall
  generalize sysExecute env fr command s = out at effect
  obtain ⟨outcome, s'⟩ := out
  cases outcome with
  | failed => rw [show s'.view = s.view from effect]; exact .same
  | fault => obtain ⟨n, -, view⟩ := effect; exact links.fault_step loadable exc view
  | launched n eip =>
    obtain ⟨alloc, view⟩ := effect
    obtain ⟨valid, fresh⟩ := links.newPid_fresh alloc
    rw [show s'.view = s.view.launch n fr.regs from view]
    exact .launch valid fresh onStack

/-- Every step is a switch or one of the ways of `CallStep`. -/
theorem Tree.op_step (tree : Tree s.view F) (loadable : ShellLoadable env) (placed : s.view.Placed) {op : Op}
    (allowed : op.Allowed s) :
    (∃ r fr, op = .tick r fr ∧ (op.run env s).view = s.view.switch r) ∨
      (∀ r fr, op ≠ .tick r fr) ∧ CallStep s.view F (op.run env s).view := by
  have started : ∀ t, s.currPid t ≠ -1 := tree.currPid_ne
  cases op with
  | execute fr exc command =>
    exact Or.inr ⟨fun _ _ h => (by cases h), tree.execute_step loadable placed fr exc command allowed⟩
  | halt fr status => exact Or.inr ⟨fun _ _ h => (by cases h), tree.halt_step loadable fr status⟩
  | tick r fr =>
    obtain ⟨s', switched, view⟩ := switchRunningProcess_switch env r fr (started s.currProcess) (started _)
    exact Or.inl ⟨r, fr, rfl, by simp only [Op.run, switched, view]⟩
  | putc c =>
    refine Or.inr ⟨fun _ _ h => (by cases h), ?_⟩
    rw [show (Op.run env (.putc c) s).view = s.view from putc_view c s]
    exact .same
  | key scancode =>
    refine Or.inr ⟨fun _ _ h => (by cases h), ?_⟩
    rw [show (Op.run env (.key scancode) s).view = s.view from (kbHandler_typed scancode s).view]
    exact .same

end Calls

/-! ## The invariant of all runs -/

section Steps
variable {v v' : ProcView} {F : Forest Term Int}

theorem Tree.callStep (tree : Tree v F) (step : CallStep v F v') : ∃ F', Tree v' F' := by
  cases step with
  | same => exact ⟨F, tree⟩
  | launch valid fresh stack => exact ⟨_, tree.launch valid fresh stack⟩
  | halt child => exact ⟨_, tree.halt child (tree.toLinks.cur_ne_root child)⟩
  | restart root => exact ⟨F, tree.restart _ root⟩

theorem ProcView.Placed.callStep (placed : v.Placed) (links : Links v F) (step : CallStep v F v') : v'.Placed := by
  cases step with
  | same => exact placed
  | @launch n r _ _ _ =>
    have curr : (v.launch n r).curr (v.launch n r).currProcess = n := Function.update_self _ _ _
    exact ⟨by rw [curr]; exact ⟨rfl, rfl, rfl, rfl⟩, by rw [curr]; rfl⟩
  | halt child =>
    have live := F.cur_live v.currProcess
    have parent := links.parPid _ live
    have curr : ((v.release (getPcbByPid (F.cur v.currProcess)) (F.cur v.currProcess)).return_
        (getPcbByPid (F.cur v.currProcess))).curr v.currProcess = F.par (F.cur v.currProcess) := by
      refine (Function.update_self _ _ _).trans ?_
      show (v.pcb (v.pcb (getPcbByPid (F.cur v.currProcess))).parPcbPtr).pid = _
      rw [links.parPcbPtr _ live child, links.pid _ (F.par_live live)]
    refine ⟨?_, ?_⟩
    · show ProcView.Maps _ (ProcView.curr _ v.currProcess)
      rw [curr, ← parent]
      exact ⟨rfl, rfl, rfl, rfl⟩
    · show _ = kernelStackTop (ProcView.curr _ v.currProcess)
      rw [curr, ← parent]
      rfl
  | @restart r root =>
    have curr : ((v.release (getPcbByPid (F.cur v.currProcess)) (F.cur v.currProcess)).launch
        (F.cur v.currProcess) r).curr v.currProcess = F.cur v.currProcess := Function.update_self _ _ _
    exact ⟨by show ProcView.Maps _ (ProcView.curr _ v.currProcess); rw [curr]; exact ⟨rfl, rfl, rfl, rfl⟩,
      by show _ = kernelStackTop (ProcView.curr _ v.currProcess); rw [curr]; rfl⟩

theorem ProcView.switch_placed (v : ProcView) (r : Regs) : (v.switch r).Placed :=
  ⟨⟨rfl, rfl, rfl, rfl⟩, rfl⟩

end Steps

/-- The records of the process tree agree, and the running process is in place. -/
def Consistent (s : Kernel) : Prop := (∃ F, Tree s.view F) ∧ s.view.Placed

/-- **Step lemma.** Every allowed step keeps the records of the tree in agreement. -/
theorem Consistent.step {env : Env} (loadable : ShellLoadable env) {s : Kernel} {op : Op} (h : Consistent s)
    (allowed : op.Allowed s) : Consistent (op.run env s) := by
  obtain ⟨⟨F, tree⟩, placed⟩ := h
  rcases tree.op_step loadable placed allowed with ⟨r, fr, -, view⟩ | ⟨-, step⟩
  · rw [Consistent, view]
    exact ⟨⟨F, tree.switch r⟩, ProcView.switch_placed _ r⟩
  · exact ⟨tree.callStep step, placed.callStep tree.toLinks step⟩

end BigBrainOS
