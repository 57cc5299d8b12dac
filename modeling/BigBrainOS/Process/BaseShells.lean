import BigBrainOS.Process.Boot

/-!
# Base shells are known by their pid

`sys_execute` and `sys_halt` take a process for a base shell when its pid is
below 3, and the scheduler finds the block of a base shell by the number of its
terminal. The run records which pid was started as the base shell of each
terminal, so that these tests can be compared with what they stand for.
-/

namespace BigBrainOS
set_option autoImplicit false

/-- The pid under which a step started a base shell, if it did. -/
def Op.baseShell (env : Env) (op : Op) (s : Kernel) : Option Int :=
  let halted : HaltOutcome → Option Int
    | .restarted newPid => some newPid
    | _ => none
  match op with
  | .tick r fr =>
    match (switchRunningProcess env r fr s).1 with
    | .launched newPid => some newPid
    | _ => none
  | .halt fr status => halted (sysHalt env fr status s).1
  | .execute fr exc command =>
    match sysExecute env fr command s with
    | (.fault, s') => halted (pfHandler env exc s').1
    | _ => none
  | _ => none

/-- A kernel and the pids that were started as base shells. -/
structure BootRun where
  kernel : Kernel
  base : Term → Option Int

/-- Calls are made by processes that have started. -/
def Op.ByProcess (op : Op) (s : Kernel) : Prop :=
  match op with
  | .execute _ _ _ => s.currPid s.currProcess ≠ -1
  | .halt _ _ => s.currPid s.currProcess ≠ -1
  | _ => True

/-- Record a base shell on the terminal that runs now. -/
def BootRun.record (b : BootRun) (s' : Kernel) : Option Int → BootRun
  | some pid => ⟨s', Function.update b.base s'.currProcess (some pid)⟩
  | none => ⟨s', b.base⟩

/-- The kernel from boot on. -/
def bootCalls (env : Env) : TransitionSystem BootRun Op where
  ok b op := op.Allowed b.kernel ∧ op.ByProcess b.kernel
  next b op := b.record (op.run env b.kernel) (op.baseShell env b.kernel)

section
variable {env : Env} {b : BootRun} {s' : Kernel} {newPid : Int}

theorem bootCalls_tick {r : Regs} {fr : ExecFrame}
    (launched : switchRunningProcess env r fr b.kernel = (.launched newPid, s')) :
    (bootCalls env).next b (.tick r fr) = ⟨s', Function.update b.base s'.currProcess (some newPid)⟩ := by
  simp only [bootCalls, Op.run, Op.baseShell, launched, BootRun.record]

theorem bootCalls_execute {fr exc : ExecFrame} {command : Bytes} {eip : Nat}
    (launched : sysExecute env fr command b.kernel = (.launched newPid eip, s')) :
    (bootCalls env).next b (.execute fr exc command) = ⟨s', b.base⟩ := by
  simp only [bootCalls, Op.run, executeCall, Op.baseShell, launched, BootRun.record]

end

/-- No process runs and no base shell was started. -/
def BootRun.Start (b : BootRun) : Prop := Init b.kernel ∧ ∀ t, b.base t = none

/-- The live pids below 3 are the base shells, each on the terminal of its number. -/
structure BootRun.Identified (b : BootRun) : Prop where
  live : ∀ p, b.kernel.usedPids p = true → p < 3 → ∃ t : Term, p = t.val ∧ b.base t = some p
  base : ∀ (t : Term) p, b.base t = some p → p = t.val ∧ b.kernel.usedPids p = true

/-- A program is only launched when every terminal has its process. -/
def LaunchesAfterBoot (env : Env) (b : BootRun) (op : Op) : Prop :=
  match op with
  | .execute fr _ command =>
    (checkExecutable env.img fr (parse fr command)).isSome → ∀ t, b.kernel.currPid t ≠ -1
  | _ => True

/-- What the kernel concludes from a pid below 3 and from the number of the
running terminal. -/
structure BootRun.TestsRight (env : Env) (b : BootRun) : Prop where
  /-- `new_pid < 3` of `sys_execute`: a child is never given such a pid. -/
  execute : ∀ fr exc command, LaunchesAfterBoot env b (.execute fr exc command) → ∀ newPid eip s',
    sysExecute env fr command b.kernel = (.launched newPid eip, s') → 3 ≤ newPid
  /-- `pid < 3` of `sys_halt`: such a process is the base shell of its terminal. -/
  halt : b.kernel.currPid b.kernel.currProcess ≠ -1 →
    (b.kernel.pcb (b.kernel.currPid b.kernel.currProcess)).pid < 3 →
    b.base b.kernel.currProcess = some (b.kernel.currPid b.kernel.currProcess)
  /-- The save during boot: `get_pcb_by_pid(curr_process)` is the block of the
  running process, if there is one. -/
  save : b.kernel.currPid (b.kernel.currProcess + 1) = -1 → b.kernel.currPid b.kernel.currProcess ≠ -1 →
    getPcbByPid b.kernel.currProcess.val = getPcbByPid (b.kernel.currPid b.kernel.currProcess)

/-- The base shells that were started are those of the terminals that have a process. -/
def BaseOf (curr : Term → Int) (base : Term → Option Int) : Prop :=
  ∀ t : Term, base t = if curr t = -1 then none else some (t.val : Int)

/-- Boot is under way, or the process tree is complete. -/
structure BootRun.Inv (b : BootRun) : Prop where
  phase : (∃ k, Booting b.kernel.view k) ∨ Consistent b.kernel
  base : BaseOf b.kernel.currPid b.base

section Loadable
variable {env : Env} {s : Kernel} {F : Forest Term Int} {k : Nat}

/-- A process tree only restarts the base shell of the running terminal. -/
theorem Tree.sysHalt_restarted (tree : Tree s.view F) (loadable : ShellLoadable env) (fr : ExecFrame) (status : UInt8)
    {p : Int} (restarted : (sysHalt env fr status s).1 = .restarted p) :
    p = s.currProcess.val ∧ (sysHalt env fr status s).2.currProcess = s.currProcess := by
  rcases tree.sysHalt_cases loadable fr status with ⟨s', -, halted, -⟩ | ⟨s', root, halted, view⟩
  · rw [halted] at restarted; cases restarted
  · rw [halted] at restarted ⊢
    cases restarted
    exact ⟨(tree.cur_eq_root root).trans (tree.root _), congrArg ProcView.currProcess view⟩

/-- After boot a step that starts a base shell starts that of the running terminal. -/
theorem Tree.baseShell_eq (tree : Tree s.view F) (loadable : ShellLoadable env) {op : Op} {p : Int}
    (started : op.baseShell env s = some p) : p = (op.run env s).currProcess.val := by
  cases op with
  | tick r fr =>
    obtain ⟨s', switched, -⟩ :=
      switchRunningProcess_switch env r fr (tree.currPid_ne s.currProcess) (tree.currPid_ne _)
    simp [Op.baseShell, switched] at started
  | halt fr status =>
    simp only [Op.baseShell] at started
    split at started
    · next n restarted =>
      cases started
      obtain ⟨pid, same⟩ := tree.sysHalt_restarted loadable fr status restarted
      simp only [Op.run, same, pid]
    · cases started
  | execute fr exc command =>
    have effect := sysExecute_view env fr command s
    simp only [Op.baseShell] at started
    simp only [Op.run, executeCall]
    generalize sysExecute env fr command s = out at effect started
    obtain ⟨outcome, s'⟩ := out
    cases outcome with
    | failed => cases started
    | launched n eip => cases started
    | fault =>
      obtain ⟨n, -, view⟩ := effect
      obtain ⟨s₁, printed, handler⟩ := pfHandler_eq env exc s'
      have view₁ : s₁.view = s.view.enable n := printed.view.trans view
      have tree₁ : Tree s₁.view F := view₁ ▸ tree.enable n
      simp only [handler] at started ⊢
      split at started
      · next m restarted =>
        cases started
        obtain ⟨pid, same⟩ := tree₁.sysHalt_restarted loadable exc haltStatusExc restarted
        rw [same, pid]
      · cases started
  | putc c => cases started
  | key scancode => cases started

/-- A step of the complete tree keeps it and its base shells. -/
theorem Consistent.bootStep {b : BootRun} {op : Op} (consistent : Consistent b.kernel)
    (base : BaseOf b.kernel.currPid b.base) (loadable : ShellLoadable env) (allowed : op.Allowed b.kernel) :
    ((bootCalls env).next b op).Inv := by
  have after := consistent.step loadable allowed
  obtain ⟨⟨F, tree⟩, -⟩ := consistent
  obtain ⟨⟨F', tree'⟩, -⟩ := id after
  have known : ∀ t : Term, b.base t = some (t.val : Int) := fun t => by rw [base, if_neg (tree.currPid_ne t)]
  have kept : ∀ base' : Term → Option Int, (∀ t : Term, base' t = some (t.val : Int)) →
      BaseOf (op.run env b.kernel).currPid base' := fun base' h t => by rw [h, if_neg (tree'.currPid_ne t)]
  simp only [bootCalls]
  cases started : op.baseShell env b.kernel with
  | none => exact ⟨Or.inr after, kept _ known⟩
  | some p =>
    refine ⟨Or.inr after, kept _ fun t => ?_⟩
    show Function.update b.base (op.run env b.kernel).currProcess (some p) t = _
    by_cases same : t = (op.run env b.kernel).currProcess
    · rw [same, Function.update_self, tree.baseShell_eq loadable started]
    · rw [Function.update_of_ne same]; exact known t

/-- The tick that starts a shell records it on its terminal. -/
theorem Booting.bootTick {b : BootRun} (boot : Booting b.kernel.view k) (base : BaseOf b.kernel.currPid b.base)
    (loadable : ShellLoadable env) (r : Regs) (fr : ExecFrame) : ((bootCalls env).next b (.tick r fr)).Inv := by
  obtain ⟨s', launched, shells, placed, running⟩ := boot.tick loadable r fr
  have terminal : s'.currProcess.val = k := by rw [running]; exact boot.next
  rw [bootCalls_tick launched]
  refine ⟨?_, fun t => ?_⟩
  · have early := boot.early
    by_cases last : k + 1 = 3
    · exact Or.inr (afterBoot_iff.2 ⟨last ▸ shells, placed⟩).consistent
    · exact Or.inl ⟨k + 1, boot.next_booting shells placed running (by omega)⟩
  · have before : b.kernel.currPid t = if t.val < k then (t.val : Int) else -1 := boot.shells.curr t
    have now : s'.currPid t = if t.val < k + 1 then (t.val : Int) else -1 := shells.curr t
    show Function.update b.base s'.currProcess (some (k : Int)) t = _
    by_cases same : t = s'.currProcess
    · have val : t.val = k := by rw [same]; exact terminal
      have current : s'.currPid t = t.val := now.trans (if_pos (by omega))
      rw [current, if_neg (by omega), same, Function.update_self, terminal]
    · have val : t.val ≠ k := fun e => same (Fin.ext (e.trans terminal.symm))
      have unchanged : s'.currPid t = b.kernel.currPid t := by
        rw [now, before]
        split <;> split <;> omega
      rw [unchanged, Function.update_of_ne same]
      exact base t

/-- A halt during boot restarts the shell it halts. -/
theorem Booting.bootHalt {b : BootRun} (boot : Booting b.kernel.view k) (base : BaseOf b.kernel.currPid b.base)
    (loadable : ShellLoadable env) (fr : ExecFrame) (status : UInt8)
    (started : b.kernel.currPid b.kernel.currProcess ≠ -1) : ((bootCalls env).next b (.halt fr status)).Inv := by
  obtain ⟨s', halted, boot', same⟩ := boot.halt loadable fr status started
  simp only [bootCalls, Op.run, Op.baseShell, halted, BootRun.record]
  refine ⟨Or.inl ⟨k, boot'⟩, fun t => ?_⟩
  have unchanged : s'.currPid t = b.kernel.currPid t := (boot'.shells.curr t).trans (boot.shells.curr t).symm
  have shell : b.base b.kernel.currProcess = some (b.kernel.currProcess.val : Int) := by rw [base, if_neg started]
  rw [unchanged, same, ← shell, Function.update_eq_self]
  exact base t

/-- **Step lemma.** A step that launches no program before the third shell
keeps the base shells on the terminals of their pids. -/
theorem BootRun.Inv.step {b : BootRun} {op : Op} (inv : b.Inv) (loadable : ShellLoadable env)
    (ok : (bootCalls env).ok b op) (late : LaunchesAfterBoot env b op) : ((bootCalls env).next b op).Inv := by
  obtain ⟨⟨k, boot⟩ | consistent, base⟩ := inv
  · cases op with
    | tick r fr => exact boot.bootTick base loadable r fr
    | halt fr status => exact boot.bootHalt base loadable fr status ok.2
    | execute fr exc command =>
      have missing : checkExecutable env.img fr (parse fr command) = none := by
        by_contra found
        exact late (Option.isSome_iff_ne_none.2 found) _ boot.next_empty
      simp only [bootCalls, Op.run, executeCall, Op.baseShell, sysExecute_notExecutable missing, BootRun.record]
      exact ⟨Or.inl ⟨k, boot⟩, base⟩
    | putc c =>
      have view : (BigBrainOS.putc c b.kernel).view = b.kernel.view := putc_view c b.kernel
      refine ⟨Or.inl ⟨k, view ▸ boot⟩, ?_⟩
      show BaseOf (BigBrainOS.putc c b.kernel).view.curr b.base
      rw [view]
      exact base
    | key scancode =>
      have view : (kbHandler scancode b.kernel).view = b.kernel.view := (kbHandler_typed scancode b.kernel).view
      refine ⟨Or.inl ⟨k, view ▸ boot⟩, ?_⟩
      show BaseOf (kbHandler scancode b.kernel).view.curr b.base
      rw [view]
      exact base
  · exact consistent.bootStep base loadable ok.1

/-- The invariant identifies the base shells. -/
theorem BootRun.Inv.identified {b : BootRun} (inv : b.Inv) : b.Identified := by
  obtain ⟨⟨k, boot⟩ | ⟨⟨F, tree⟩, -⟩, base⟩ := inv
  · have early := boot.early
    have curr : ∀ t : Term, b.kernel.currPid t = if t.val < k then (t.val : Int) else -1 := boot.shells.curr
    refine ⟨fun p used _ => ?_, fun t p started => ?_⟩
    · obtain ⟨low, high⟩ := (boot.shells.used p).1 used
      obtain ⟨t, rfl⟩ : ∃ t : Term, p = t.val :=
        ⟨⟨p.toNat, by simp only [numTerminals]; omega⟩, (Int.toNat_of_nonneg low).symm⟩
      have current : b.kernel.currPid t = t.val := (curr t).trans (if_pos (by omega))
      exact ⟨t, rfl, by rw [base, current, if_neg (by omega)]⟩
    · rw [base, curr] at started
      by_cases below : t.val < k
      · rw [if_pos below, if_neg (by omega), Option.some.injEq] at started
        exact ⟨started.symm, (boot.shells.used p).2 (by omega)⟩
      · rw [if_neg below, if_pos rfl] at started
        cases started
  · refine ⟨fun p used low => ?_, fun t p started => ?_⟩
    · obtain ⟨t, pid, -⟩ := tree.root_of_lt ((tree.used p).1 used) low
      exact ⟨t, pid, by rw [base, if_neg (tree.currPid_ne t), pid]⟩
    · rw [base, if_neg (tree.currPid_ne t), Option.some.injEq] at started
      subst started
      exact ⟨rfl, (tree.used _).2 (by rw [← tree.root t]; exact F.root_live t)⟩

theorem BootRun.Inv.testsRight {b : BootRun} (inv : b.Inv) : b.TestsRight env := by
  obtain ⟨⟨k, boot⟩ | ⟨⟨F, tree⟩, -⟩, base⟩ := inv
  · have shell : b.kernel.currPid b.kernel.currProcess ≠ -1 →
        b.kernel.currPid b.kernel.currProcess = b.kernel.currProcess.val := by
      intro started
      have running := boot.running started
      exact (boot.shells.curr _).trans (if_pos (show b.kernel.currProcess.val < k by omega))
    refine ⟨fun fr exc command late newPid eip s' launched => ?_, fun started _ => ?_, fun _ started => ?_⟩
    · have executed := sysExecute_executed env fr command b.kernel
      rw [launched] at executed
      cases executed with
      | launched found => exact absurd boot.next_empty (late found _)
    · rw [base, if_neg started, shell started]
    · rw [shell started]
  · refine ⟨fun fr exc command _ newPid eip s' launched => ?_, fun started low => ?_, fun empty => ?_⟩
    · have effect := sysExecute_view env fr command b.kernel
      rw [launched] at effect
      obtain ⟨valid, fresh⟩ := tree.newPid_fresh effect.1
      exact tree.fresh_ge fresh valid.1
    · have current := tree.currPid_eq
      have own : (b.kernel.pcb (F.cur b.kernel.currProcess)).pid = F.cur b.kernel.currProcess :=
        tree.pid _ (F.cur_live _)
      rw [current] at low ⊢
      rw [own] at low
      rw [base, if_neg started, tree.cur_eq_root low, tree.root]
    · exact absurd empty (tree.currPid_ne _)

end Loadable

/-! ## A machine without a shell -/

/-- The program `shell` is missing or is no executable. -/
def ShellMissing (env : Env) : Prop := ∀ fr, checkExecutable env.img fr (parse fr (shellCommand env)) = none

/-- No process runs. -/
structure BootRun.Idle (b : BootRun) : Prop where
  curr : ∀ t, b.kernel.currPid t = -1
  free : ∀ p, b.kernel.usedPids p = false
  base : ∀ t, b.base t = none

theorem BootRun.Idle.step {env : Env} {b : BootRun} {op : Op} (idle : b.Idle) (missing : ShellMissing env)
    (ok : (bootCalls env).ok b op) : ((bootCalls env).next b op).Idle := by
  have kept : ∀ s' : Kernel, s'.currPid = b.kernel.currPid → s'.usedPids = b.kernel.usedPids →
      BootRun.Idle ⟨s', b.base⟩ := fun s' curr used =>
    ⟨fun t => (congrFun curr t).trans (idle.curr t), fun p => (congrFun used p).trans (idle.free p), idle.base⟩
  cases op with
  | tick r fr =>
    obtain ⟨s', returned, view⟩ := switchRunningProcess_stuck missing r fr idle.curr
    simp only [bootCalls, Op.run, Op.baseShell, returned, BootRun.record]
    refine kept s' ((congrArg ProcView.curr view).trans ?_) ((congrArg ProcView.usedPids view).trans ?_)
    · simp only [ProcView.bootSave]; split <;> rfl
    · simp only [ProcView.bootSave]; split <;> rfl
  | halt fr status => exact absurd (idle.curr _) ok.2
  | execute fr exc command => exact absurd (idle.curr _) ok.2
  | putc c =>
    have view : (BigBrainOS.putc c b.kernel).view = b.kernel.view := putc_view c b.kernel
    exact kept _ (congrArg ProcView.curr view) (congrArg ProcView.usedPids view)
  | key scancode =>
    have view : (kbHandler scancode b.kernel).view = b.kernel.view := (kbHandler_typed scancode b.kernel).view
    exact kept _ (congrArg ProcView.curr view) (congrArg ProcView.usedPids view)

theorem BootRun.Idle.identified {b : BootRun} (idle : b.Idle) : b.Identified where
  live p used := by rw [idle.free] at used; cases used
  base t p started := by rw [idle.base] at started; cases started

theorem BootRun.Idle.testsRight {env : Env} {b : BootRun} (idle : b.Idle) : b.TestsRight env where
  execute fr exc command late newPid eip s' launched := by
    have executed := sysExecute_executed env fr command b.kernel
    rw [launched] at executed
    cases executed with
    | launched found => exact absurd (idle.curr 0) (late found 0)
  halt started := absurd (idle.curr _) started
  save _ started := absurd (idle.curr _) started

/-- **Base shells are known by their pid** in every run that launches no program
before the third shell is up: a live pid below 3 is the base shell of the
terminal of that number, and the tests of the kernel mean what they stand for. -/
theorem baseShells_identified {env : Env} (shell : ShellLoadable env ∨ ShellMissing env) {b : BootRun}
    (reach : ((bootCalls env).restrict (LaunchesAfterBoot env)).Reach BootRun.Start b) :
    b.Identified ∧ b.TestsRight env := by
  rcases shell with loadable | missing
  · have inv : b.Inv := reach.invariant
      (fun b start => ⟨Or.inl ⟨0, start.1.booting⟩, fun t => by rw [start.1.curr, start.2, if_pos rfl]⟩)
      fun _ _ inv ok => inv.step loadable ok.1 ok.2
    exact ⟨inv.identified, inv.testsRight⟩
  · have idle : b.Idle := reach.invariant (fun b start => ⟨start.1.curr, start.1.free, start.2⟩)
      fun _ _ idle ok => idle.step missing ok.1
    exact ⟨idle.identified, idle.testsRight⟩

/-- The kernel before the first tick. -/
@[irreducible] def unbooted : BootRun := ⟨entry ⟨fun _ => 0, fun _ => .zero, 0x26, 0⟩, fun _ => none⟩

theorem unbooted_start : unbooted.Start := by
  unfold unbooted
  exact ⟨entry_init _, fun _ => rfl⟩

open TransitionSystem in
/-- The base shells after the first tick. -/
theorem baseShells_identified_first_tick :
    let b := ((bootCalls shellEnv).restrict (LaunchesAfterBoot shellEnv)).exec unbooted [.tick ⟨0, 0⟩ (.blank ⟨0, 0⟩)]
    b.Identified ∧ b.TestsRight shellEnv :=
  baseShells_identified (Or.inl shellEnv_loadable)
    ((Reach.base unbooted_start).exec ⟨⟨⟨trivial, trivial⟩, trivial⟩, trivial⟩)

open TransitionSystem in
/-- A program that shell 0 launches before the second tick gets pid 1, which is
then no base shell. -/
theorem baseShells_not_identified :
    ¬ ∀ b, (bootCalls shellEnv).Reach BootRun.Start b → b.Identified := by
  intro all
  obtain ⟨s₁, tick, shells, placed, running⟩ :=
    unbooted_start.1.booting.tick shellEnv_loadable ⟨0, 0⟩ (.blank ⟨0, 0⟩)
  have running₁ : s₁.currProcess = 0 := running.trans (by rw [unbooted_start.1.running]; rfl)
  have reach₁ := (Reach.base unbooted_start).step_to (M := bootCalls shellEnv) (.tick ⟨0, 0⟩ (.blank ⟨0, 0⟩))
    ⟨trivial, trivial⟩ (bootCalls_tick tick)
  have started : s₁.currPid s₁.currProcess ≠ -1 := by
    rw [running₁, show s₁.currPid 0 = 0 from shells.curr 0]
    decide
  generalize frame : ExecFrame.blank ⟨s₁.tss.esp0, 0⟩ = fr
  have onStack : OnStack s₁.tss.esp0 fr.regs.esp := by rw [← frame]; exact ⟨Nat.le_refl _, Nat.le_add_right _ _⟩
  obtain ⟨eip, s₂, launched, view⟩ := sysExecute_shell shellEnv_loadable fr (shells.getNewPid (by decide))
  have reach₂ := reach₁.step_to (.execute fr fr (shellCommand shellEnv)) ⟨onStack, started⟩
    (bootCalls_execute launched)
  have used : s₂.usedPids 1 = true := by
    refine (congrArg (fun v : ProcView => v.usedPids 1) view).trans ?_
    exact Function.update_self 1 true s₁.usedPids
  obtain ⟨t, number, base⟩ := (all _ reach₂).live 1 used (by decide)
  have other : t ≠ s₁.currProcess := by
    rw [running₁]
    intro zero
    rw [zero] at number
    cases number
  have none : unbooted.base t = some 1 := (Function.update_of_ne other _ _).symm.trans base
  rw [unbooted_start.2] at none
  cases none

end BigBrainOS
