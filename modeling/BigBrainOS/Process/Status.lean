import BigBrainOS.Theory.Ledger
import BigBrainOS.Process.Boot

/-!
# Exit statuses

A process that halts returns to the `sys_execute` that launched it. The run keeps
a ledger of these calls: every call has its child's life as its key, and the jump
of `sys_halt` answers it. No answer goes to a wrong caller, but `sys_execute`
passes on nothing of the status except that it was the one of an exception.
-/

namespace BigBrainOS
set_option autoImplicit false

/-! ## The system -/

/-- How a process ends: it calls `sys_halt`, or an exception handler does. -/
inductive Ending where
  | halted (status : UInt8)
  | exception
  deriving DecidableEq

/-- A call of `sys_execute` that launched a program, by its caller and the registers of its frame. -/
structure ChildCall where
  caller : Int
  regs : Regs

/-- The jump to `ret_to_exec`: the process that runs then, the registers it runs
with, what the child did, and the value that `sys_execute` returns. -/
structure ChildReturn where
  process : Int
  regs : Regs
  ending : Ending
  value : Int

/-- A kernel with the ledger of its calls of `sys_execute`, each under the pid of its child. -/
structure StatusRun where
  kernel : Kernel
  ledger : Ledger Int ChildCall ChildReturn

/-- A call of the kernel, or an exception of the running process. -/
inductive StatusOp where
  | call (op : Op)
  | exception (fr : ExecFrame) (text : String)

/-- What the end of the process `child` adds to the ledger. -/
def Ending.record (ending : Ending) (child : Int) (out : HaltOutcome × Kernel) (l : Ledger Int ChildCall ChildReturn) :
    Ledger Int ChildCall ChildReturn :=
  match out with
  | (.toParent regs status, s') =>
    l.answer child ⟨s'.currPid s'.currProcess, regs, ending, executeReturn status⟩
  | _ => l

/-- What a step adds to the ledger. -/
def StatusOp.record (env : Env) (op : StatusOp) (q : StatusRun) : Ledger Int ChildCall ChildReturn :=
  let running := q.kernel.currPid q.kernel.currProcess
  match op with
  | .call (.execute fr exc command) =>
    match sysExecute env fr command q.kernel with
    | (.launched newPid _, _) => if 3 ≤ newPid then q.ledger.call newPid ⟨running, fr.regs⟩ else q.ledger
    -- the page fault handler halts the caller
    | (.fault, s') => Ending.exception.record running (pfHandler env exc s') q.ledger
    | (.failed, _) => q.ledger
  | .call (.halt fr status) => (Ending.halted status).record running (sysHalt env fr status q.kernel) q.ledger
  | .exception fr text => Ending.exception.record running (blueScreen env fr text q.kernel) q.ledger
  | _ => q.ledger

def StatusOp.run (env : Env) (op : StatusOp) (s : Kernel) : Kernel :=
  match op with
  | .call op => op.run env s
  | .exception fr text => (blueScreen env fr text s).2

/-- The kernel with exceptions, and the ledger. -/
def statusCalls (env : Env) : TransitionSystem StatusRun StatusOp where
  ok q op := match op with
    | .call op => op.Allowed q.kernel
    | .exception _ _ => True
  next q op := ⟨op.run env q.kernel, op.record env q⟩

/-- The state right after boot. -/
structure StatusRun.Start (q : StatusRun) : Prop where
  boot : AfterBoot q.kernel
  ledger : q.ledger = .empty

/-! ## The property -/

/-- What `sys_execute` returns for each way in which the child can end. -/
def Ending.value : Ending → Int
  | .halted status => executeReturn status
  | .exception => haltExc

/-- The return goes to the frame of the call. -/
structure ChildReturn.Answers (c : ChildCall) (r : ChildReturn) : Prop where
  process : r.process = c.caller
  regs : r.regs = c.regs
  value : r.value = r.ending.value

/-- The caller learns the status of a child that halted by itself, and 256 stands for an exception. -/
structure ChildReturn.Faithful (r : ChildReturn) : Prop where
  status : ∀ status, r.ending = .halted status → r.value = status.toNat
  exception : r.value = haltExc ↔ r.ending = .exception

/-- The endings that get through. -/
def Ending.Conveyed : Ending → Prop
  | .halted status => status = 0
  | .exception => True

/-- Every call that launched a child is answered once or its child still lives. -/
structure StatusRun.Answered (q : StatusRun) : Prop where
  balanced : q.ledger.Balanced ChildReturn.Answers
  waiting : ∀ p, (q.ledger.pending p).isSome = true ↔ 3 ≤ p ∧ q.kernel.usedPids p = true

theorem executeReturn_eq (status : UInt8) :
    (executeReturn status = status.toNat ↔ status = 0) ∧ (executeReturn status = haltExc ↔ status = haltStatusExc) := by
  unfold executeReturn
  constructor
  · constructor
    · intro same
      split at same
      · next exc => rw [exc] at same; exact absurd same (by decide)
      · exact UInt8.toNat_inj.1 (by simpa using same.symm)
    · rintro rfl
      decide
  · split
    · next exc => exact iff_of_true rfl exc
    · next exc => exact iff_of_false (by decide) exc

/-- A child that halts by itself is heard only if it says 0. -/
theorem ChildReturn.faithful_iff {r : ChildReturn} (value : r.value = r.ending.value) : r.Faithful ↔ r.ending.Conveyed := by
  obtain ⟨process, regs, ending, value'⟩ := r
  obtain rfl : value' = ending.value := value
  cases ending with
  | exception => exact iff_of_true ⟨fun _ h => (by cases h), iff_of_true rfl rfl⟩ trivial
  | halted status =>
    obtain ⟨passed, exc⟩ := executeReturn_eq status
    constructor
    · intro faithful
      exact passed.1 (faithful.status status rfl)
    · rintro rfl
      refine ⟨fun st same => ?_, iff_of_false (show ¬ executeReturn 0 = haltExc by decide) (fun h => by cases h)⟩
      cases same
      exact passed.2 rfl

/-! ## The invariant -/

/-- Every live process from 3 on has the call open that launched it, and no other has. -/
structure Waiting (v : ProcView) (F : Forest Term Int) (l : Ledger Int ChildCall ChildReturn) : Prop where
  waits : ∀ p ∈ F.live, 3 ≤ p → l.openCall p = some ⟨F.par p, (v.pcb (getPcbByPid p)).parRegs⟩
  idle : ∀ p, ¬ (p ∈ F.live ∧ 3 ≤ p) → l.pending p = none

namespace Waiting
variable {v v' : ProcView} {F : Forest Term Int} {l : Ledger Int ChildCall ChildReturn}

/-- The ledger depends on these registers only. -/
theorem congr (waiting : Waiting v F l)
    (same : ∀ p ∈ F.live, 3 ≤ p → (v'.pcb (getPcbByPid p)).parRegs = (v.pcb (getPcbByPid p)).parRegs) :
    Waiting v' F l where
  waits p live child := by rw [same p live child]; exact waiting.waits p live child
  idle := waiting.idle

theorem switch (waiting : Waiting v F l) (r : Regs) : Waiting (v.switch r) F l := by
  refine waiting.congr fun p _ _ => ?_
  simp only [ProcView.switch, ProcView.save, Function.update_apply]
  split
  · next same => rw [same]
  · rfl

theorem restart (waiting : Waiting v F l) (links : Links v F) (r : Regs) (root : F.cur v.currProcess < 3) :
    Waiting ((v.release (getPcbByPid (F.cur v.currProcess)) (F.cur v.currProcess)).launch (F.cur v.currProcess) r) F l := by
  refine waiting.congr fun p _ child => ?_
  rw [ProcView.launch_pcb_other]
  · rfl
  · exact getPcbByPid_ne (links.cur_valid _) (by omega)

/-- `sys_execute` opens a call under the pid of the new process. -/
theorem launch (waiting : Waiting v F l) (balanced : l.Balanced ChildReturn.Answers) {n : Int} (valid : ValidPid n)
    (fresh : n ∉ F.live) (child : 3 ≤ n) (r : Regs) :
    Waiting (v.launch n r) (F.push v.currProcess n fresh) (l.call n ⟨F.cur v.currProcess, r⟩) where
  waits p live nonroot := by
    rcases live with rfl | live
    · rw [Ledger.openCall_call_self, F.push_par_self, ProcView.launch_pcb_new]
    · have other : p ≠ n := fun same => fresh (same ▸ live)
      rw [Ledger.openCall_call_of_ne balanced other, F.push_par_of_ne _ fresh other,
        ProcView.launch_pcb_other v r (getPcbByPid_ne valid other)]
      exact waiting.waits p live nonroot
  idle p gone := by
    have other : p ≠ n := by
      rintro rfl
      exact gone ⟨Or.inl rfl, child⟩
    refine (Function.update_of_ne other _ _).trans (waiting.idle p ?_)
    rintro ⟨live, nonroot⟩
    exact gone ⟨Or.inr live, nonroot⟩

/-- The halt of a child answers its call. -/
theorem halt (waiting : Waiting v F l) (links : Links v F) (inner : F.cur v.currProcess ≠ F.root v.currProcess)
    (r : ChildReturn) :
    Waiting ((v.release (getPcbByPid (F.cur v.currProcess)) (F.cur v.currProcess)).return_
      (getPcbByPid (F.cur v.currProcess))) (F.pop v.currProcess inner) (l.answer (F.cur v.currProcess) r) where
  waits p live nonroot := by
    obtain ⟨live, other⟩ := live
    have regs := congrArg PcbLinks.parRegs (Function.update_of_ne (getPcbByPid_ne (links.cur_valid v.currProcess) other)
      Pcb.zero.links v.pcb)
    rw [Ledger.openCall_answer_of_ne l other]
    exact (waiting.waits p live nonroot).trans (by rw [← regs]; rfl)
  idle p gone := by
    by_cases same : p = F.cur v.currProcess
    · rw [same]
      exact Function.update_self _ _ _
    · refine (Function.update_of_ne same _ _).trans (waiting.idle p ?_)
      rintro ⟨live, nonroot⟩
      exact gone ⟨⟨live, same⟩, nonroot⟩

end Waiting

/-- What every run keeps. -/
structure StatusRun.Inv (q : StatusRun) : Prop where
  balanced : q.ledger.Balanced ChildReturn.Answers
  tree : ∃ F, Tree q.kernel.view F ∧ Waiting q.kernel.view F q.ledger

section Steps
variable {env : Env} {s : Kernel} {F : Forest Term Int} {l : Ledger Int ChildCall ChildReturn}

/-- A process that ends answers the call that launched it. -/
theorem Tree.ended (tree : Tree s.view F) (waiting : Waiting s.view F l) (balanced : l.Balanced ChildReturn.Answers)
    (loadable : ShellLoadable env) (fr : ExecFrame) {status : UInt8} {ending : Ending}
    (value : executeReturn status = ending.value) :
    StatusRun.Inv ⟨(sysHalt env fr status s).2,
      ending.record (F.cur s.currProcess) (sysHalt env fr status s) l⟩ := by
  rcases tree.sysHalt_cases loadable fr status with ⟨s', child, halted, view⟩ | ⟨s', root, halted, view⟩
  · have inner := tree.cur_ne_root child
    have tree' : Tree s'.view (F.pop s.currProcess inner) := view ▸ tree.halt child inner
    have parent : s'.currPid s'.currProcess = F.par (F.cur s.currProcess) := by
      have same : s'.currProcess = s.currProcess := congrArg ProcView.currProcess view
      refine (tree'.curr s'.currProcess).trans ?_
      rw [same]
      exact Function.update_self _ _ _
    have made := waiting.waits _ (F.cur_live s.currProcess) child
    rw [halted]
    refine ⟨balanced.answer made ⟨parent, rfl, value⟩, _, tree', ?_⟩
    rw [view]
    exact waiting.halt tree.toLinks inner _
  · rw [halted]
    refine ⟨balanced, F, ?_, ?_⟩
    · rw [view]
      exact tree.restart _ root
    · rw [view]
      exact waiting.restart tree.toLinks _ root

/-- An exception handler halts the process after a message. -/
theorem Tree.excepted (tree : Tree s.view F) (waiting : Waiting s.view F l)
    (balanced : l.Balanced ChildReturn.Answers) (loadable : ShellLoadable env) (fr : ExecFrame) (text : String) :
    StatusRun.Inv ⟨(blueScreen env fr text s).2,
      Ending.exception.record (F.cur s.currProcess) (blueScreen env fr text s) l⟩ := by
  obtain ⟨s₁, printed, handler⟩ : ∃ s₁, Output s s₁ ∧ blueScreen env fr text s = sysHalt env fr haltStatusExc s₁ :=
    ⟨_, puts_output _ _, rfl⟩
  have same : s₁.currProcess = s.currProcess := congrArg ProcView.currProcess printed.view
  rw [handler, ← same]
  apply Tree.ended _ _ balanced loadable fr
  · rfl
  · rw [printed.view]
    exact tree
  · rw [printed.view]
    exact waiting

variable {q : StatusRun}

/-- `sys_execute` opens a call, or changes nothing, or ends its caller. -/
theorem StatusRun.Inv.execute (inv : q.Inv) (loadable : ShellLoadable env) (placed : q.kernel.view.Placed)
    (fr exc : ExecFrame) (command : Bytes) (stack : OnStack q.kernel.tss.esp0 fr.regs.esp) :
    ((statusCalls env).next q (.call (.execute fr exc command))).Inv := by
  obtain ⟨balanced, F, tree, waiting⟩ := inv
  have running : q.kernel.currPid q.kernel.currProcess = F.cur q.kernel.currProcess := tree.currPid_eq
  have effect := sysExecute_view env fr command q.kernel
  simp only [statusCalls, StatusOp.run, StatusOp.record, Op.run, executeCall, running]
  generalize sysExecute env fr command q.kernel = out at effect
  obtain ⟨outcome, s'⟩ := out
  cases outcome with
  | failed =>
    have view : s'.view = q.kernel.view := effect
    exact ⟨balanced, F, by rw [view]; exact tree, by rw [view]; exact waiting⟩
  | fault =>
    obtain ⟨n, -, view⟩ := effect
    have same : s'.currProcess = q.kernel.currProcess := congrArg ProcView.currProcess view
    rw [← same]
    apply Tree.excepted _ _ balanced loadable exc
    · rw [view]
      exact tree.enable n
    · rw [view]
      exact waiting.congr fun _ _ _ => rfl
  | launched n eip =>
    obtain ⟨alloc, view⟩ := effect
    obtain ⟨valid, fresh⟩ := tree.newPid_fresh alloc
    have child := tree.fresh_ge fresh valid.1
    have onStack := tree.onStack placed stack
    have free : q.ledger.pending n = none := waiting.idle n fun h => fresh h.1
    have view' : s'.view = q.kernel.view.launch n fr.regs := view
    simp only [if_pos child]
    refine ⟨balanced.call free _, F.push q.kernel.currProcess n fresh, ?_, ?_⟩
    · rw [view']
      exact tree.launch valid fresh onStack
    · rw [view']
      exact waiting.launch balanced valid fresh child fr.regs

/-- **Step lemma.** -/
theorem StatusRun.Inv.step (inv : q.Inv) (loadable : ShellLoadable env) (placed : q.kernel.view.Placed) {op : StatusOp}
    (ok : (statusCalls env).ok q op) : ((statusCalls env).next q op).Inv := by
  obtain ⟨balanced, F, tree, waiting⟩ := inv
  have running : q.kernel.currPid q.kernel.currProcess = F.cur q.kernel.currProcess := tree.currPid_eq
  have kept : ∀ {s' : Kernel}, s'.view = q.kernel.view → StatusRun.Inv ⟨s', q.ledger⟩ := by
    intro s' view
    exact ⟨balanced, F, by rw [view]; exact tree, by rw [view]; exact waiting⟩
  cases op with
  | exception fr text =>
    simp only [statusCalls, StatusOp.run, StatusOp.record, running]
    exact tree.excepted waiting balanced loadable fr text
  | call op =>
    cases op with
    | execute fr exc command => exact StatusRun.Inv.execute ⟨balanced, F, tree, waiting⟩ loadable placed fr exc command ok
    | halt fr status =>
      simp only [statusCalls, StatusOp.run, StatusOp.record, Op.run, running]
      exact tree.ended waiting balanced loadable fr rfl
    | tick r fr =>
      have started : ∀ t, q.kernel.currPid t ≠ -1 := tree.currPid_ne
      obtain ⟨s', switched, view⟩ := switchRunningProcess_switch env r fr (started _) (started _)
      simp only [statusCalls, StatusOp.run, StatusOp.record, Op.run, switched]
      refine ⟨balanced, F, ?_, ?_⟩
      · rw [view]
        exact tree.switch r
      · rw [view]
        exact waiting.switch r
    | putc c => exact kept (putc_view c _)
    | key scancode => exact kept (kbHandler_typed scancode _).view

/-- Every step keeps the program page and the kernel stack in place. -/
theorem StatusRun.placed_step (tree : Tree q.kernel.view F) (placed : q.kernel.view.Placed) (loadable : ShellLoadable env)
    {op : StatusOp} (ok : (statusCalls env).ok q op) : (op.run env q.kernel).view.Placed := by
  cases op with
  | call op => exact (Consistent.step loadable ⟨⟨F, tree⟩, placed⟩ ok).2
  | exception fr text =>
    have printed := (puts_output (message "! ERROR " ++ [0xAF] ++ message (" " ++ text ++ " !\n")) q.kernel).view
    have tree' := tree
    rw [← printed] at tree' placed
    exact placed.callStep tree'.toLinks (tree'.halt_step loadable fr haltStatusExc)

end Steps

/-! ## All runs -/

theorem StatusRun.Start.inv {q : StatusRun} (start : q.Start) : q.Inv ∧ q.kernel.view.Placed := by
  obtain ⟨shells, placed⟩ := afterBoot_iff.1 start.boot
  refine ⟨⟨?_, baseForest, shells.tree, ?_⟩, placed⟩
  · rw [start.ledger]
    exact Ledger.balanced_empty _
  · rw [start.ledger]
    refine ⟨fun p live child => ?_, fun p _ => rfl⟩
    have low := (start.boot.used p).1 ((shells.tree.used p).2 live)
    omega

/-- **Exit statuses.** In every run after boot each `sys_execute` that launched a
child still waits for it or has returned once, to its own caller and frame; and
what it returned is the child's ending exactly if the child was stopped by an
exception or halted with status 0. -/
theorem exitStatus_of_reach {env : Env} (loadable : ShellLoadable env) {q : StatusRun}
    (reach : (statusCalls env).Reach StatusRun.Start q) :
    q.Answered ∧ ∀ a ∈ q.ledger.returns, (a.2.Faithful ↔ a.2.ending.Conveyed) := by
  have inv : q.Inv ∧ q.kernel.view.Placed := by
    refine reach.invariant (P := fun q => q.Inv ∧ q.kernel.view.Placed) (fun _ start => start.inv) ?_
    rintro q op ⟨inv, placed⟩ ok
    obtain ⟨F, tree, -⟩ := inv.tree
    exact ⟨inv.step loadable placed ok, StatusRun.placed_step tree placed loadable ok⟩
  obtain ⟨⟨balanced, F, tree, waiting⟩, -⟩ := inv
  refine ⟨⟨balanced, fun p => ?_⟩, fun a member => ?_⟩
  · constructor
    · intro waits
      by_contra gone
      rw [waiting.idle p fun h => gone ⟨h.2, (tree.used p).2 h.1⟩] at waits
      cases waits
    · rintro ⟨child, used⟩
      have made := waiting.waits p ((tree.used p).1 used) child
      obtain ⟨i, pending, -⟩ := Option.bind_eq_some_iff.1 made
      rw [pending]
      rfl
  · obtain ⟨i, c, -, -, answers⟩ := balanced.answers a member
    exact ChildReturn.faithful_iff answers.value

/-- After boot a base shell launches a program, which halts with `status`. -/
theorem booted_halted (status : UInt8) :
    ∃ (q : StatusRun) (r : ChildReturn), (statusCalls shellEnv).Reach StatusRun.Start q ∧ (some 0, r) ∈ q.ledger.returns ∧
      r.ending = .halted status ∧ r.value = executeReturn status := by
  have boot := booted_afterBoot
  have start : (statusCalls shellEnv).Reach StatusRun.Start ⟨booted, .empty⟩ := .base ⟨boot, rfl⟩
  generalize booted = s at boot start
  obtain ⟨shells, placed⟩ := afterBoot_iff.1 boot
  have tree := shells.tree
  have stack : OnStack s.tss.esp0 s.tss.esp0 := ⟨Nat.le_refl _, Nat.le_add_right _ _⟩
  obtain ⟨eip, s₁, launched, view⟩ := sysExecute_shell shellEnv_loadable (.blank ⟨s.tss.esp0, 0⟩) boot.getNewPid
  obtain ⟨valid, fresh⟩ := tree.newPid_fresh boot.getNewPid
  have tree₁ : Tree s₁.view (baseForest.push s.currProcess 3 fresh) :=
    view ▸ tree.launch valid fresh (tree.onStack placed stack)
  have current : (baseForest.push s.currProcess 3 fresh).cur s₁.currProcess = 3 := by
    have same : s₁.currProcess = s.currProcess := congrArg ProcView.currProcess view
    rw [same]
    exact Function.update_self _ _ _
  have waits := start.step (StatusOp.call (.execute (.blank ⟨s.tss.esp0, 0⟩) (.blank ⟨0, 0⟩) (shellCommand shellEnv))) stack
  have halts := waits.step (StatusOp.call (.halt (.blank ⟨0, 0⟩) status)) trivial
  have ledger : ((statusCalls shellEnv).next ⟨s, .empty⟩
      (.call (.execute (.blank ⟨s.tss.esp0, 0⟩) (.blank ⟨0, 0⟩) (shellCommand shellEnv)))) =
      ⟨s₁, Ledger.empty.call 3 ⟨s.currPid s.currProcess, ⟨s.tss.esp0, 0⟩⟩⟩ := by
    simp only [statusCalls, StatusOp.run, StatusOp.record, Op.run, executeCall, launched]
    rfl
  rw [ledger] at halts
  have running : s₁.currPid s₁.currProcess = 3 := tree₁.currPid_eq.trans current
  rcases tree₁.sysHalt_cases shellEnv_loadable (.blank ⟨0, 0⟩) status with ⟨s₂, -, halted, -⟩ | ⟨s₂, root, -, -⟩
  · refine ⟨_, ⟨s₂.currPid s₂.currProcess, (s₁.pcb 3).parRegs, .halted status, executeReturn status⟩, halts, ?_, rfl, rfl⟩
    · simp only [statusCalls, StatusOp.record, running, halted, current, Ending.record]
      exact List.mem_singleton_self _
  · rw [current] at root
    omega

/-- A child that halts with status 0. -/
theorem exitStatus_zero : ∃ q : StatusRun, q.Answered ∧ ∃ a ∈ q.ledger.returns, a.2.ending = .halted 0 ∧ a.2.Faithful := by
  obtain ⟨q, r, reach, returned, ending, -⟩ := booted_halted 0
  obtain ⟨answered, conveyed⟩ := exitStatus_of_reach shellEnv_loadable reach
  refine ⟨q, answered, _, returned, ending, (conveyed _ returned).2 ?_⟩
  rw [ending]
  exact rfl

/-- A child that halts with status 7 looks like one with status 0, and one that
halts with status 4 like one that was stopped by an exception. -/
theorem exitStatus_lost :
    (∃ (q : StatusRun) (r : ChildReturn), (statusCalls shellEnv).Reach StatusRun.Start q ∧ (some 0, r) ∈ q.ledger.returns ∧
      r.ending = .halted 7 ∧ r.value = 0 ∧ ¬ r.Faithful) ∧
    ∃ (q : StatusRun) (r : ChildReturn), (statusCalls shellEnv).Reach StatusRun.Start q ∧ (some 0, r) ∈ q.ledger.returns ∧
      r.ending = .halted 4 ∧ r.value = 256 ∧ ¬ r.Faithful := by
  constructor
  · obtain ⟨q, r, reach, returned, ending, value⟩ := booted_halted 7
    refine ⟨q, r, reach, returned, ending, value, fun faithful => ?_⟩
    have passed := faithful.status 7 ending
    rw [value] at passed
    exact absurd passed (by decide)
  · obtain ⟨q, r, reach, returned, ending, value⟩ := booted_halted 4
    refine ⟨q, r, reach, returned, ending, value, fun faithful => ?_⟩
    have excepted := faithful.exception.1 value
    rw [ending] at excepted
    cases excepted

end BigBrainOS
