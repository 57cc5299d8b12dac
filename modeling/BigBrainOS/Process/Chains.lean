import BigBrainOS.Process.Boot

/-!
# The chains of the terminals

What the process tree means for the kernel's own records: from the current
process of each terminal the parent links lead to its base shell, no pid is on
two of these chains, and the pids in use are exactly those on a chain.
-/

namespace BigBrainOS
set_option autoImplicit false

/-- The pids met when `par_pid` is followed from the current process of `t`. -/
def Kernel.chain (s : Kernel) (t : Term) : Set Int := ancestors (fun p => (s.pcb p).parPid) (s.currPid t)

/-- The process records are a tree with one chain for each terminal. -/
structure ProcessTree (s : Kernel) : Prop where
  /-- The links lead to the base shell of the terminal. -/
  rooted : ∀ t : Term, (t.val : Int) ∈ s.chain t
  /-- The chains of different terminals have no pid in common. -/
  apart : ∀ t u, t ≠ u → Disjoint (s.chain t) (s.chain u)
  /-- The pids in use are those on the chains. -/
  cover : ⋃ t, s.chain t = {p | s.usedPids p = true}
  /-- Two pids in use share no program frame, control block or kernel stack. -/
  own : ∀ p q, s.usedPids p = true → s.usedPids q = true → p ≠ q →
    programFrame p ≠ programFrame q ∧ getPcbByPid p ≠ getPcbByPid q ∧ kernelStackTop p ≠ kernelStackTop q
  /-- The terminal's `prog_par_pid` is the parent of its current process. -/
  parent : ∀ t, (s.terminals t).progParPid = (s.pcb (s.currPid t)).parPid

/-- What `sys_halt` does to the records of the running process. -/
structure HaltReturns (env : Env) (s : Kernel) (fr : ExecFrame) (status : UInt8) : Prop where
  /-- The halt of a child makes its parent current and frees its pid only. -/
  child : 3 ≤ s.currPid s.currProcess → ∃ s',
    sysHalt env fr status s = (.toParent (s.pcb (s.currPid s.currProcess)).parRegs status, s') ∧
      s'.currPid = Function.update s.currPid s.currProcess (s.pcb (s.currPid s.currProcess)).parPid ∧
      s'.usedPids = Function.update s.usedPids (s.currPid s.currProcess) false
  /-- The halt of a base shell starts a shell under its pid. -/
  root : s.currPid s.currProcess < 3 → ∃ s',
    sysHalt env fr status s = (.restarted (s.currPid s.currProcess), s') ∧
      s'.currPid = s.currPid ∧ s'.usedPids = s.usedPids

section
variable {env : Env} {s : Kernel} {F : Forest Term Int}

/-- The chains of the kernel are those of the forest. -/
theorem Tree.chain_eq (tree : Tree s.view F) (t : Term) : s.chain t = F.chain t := by
  have current : s.currPid t = F.cur t := tree.curr t
  rw [Kernel.chain, current]
  exact ancestors_congr fun p hp => tree.parPid p (F.mem_live hp)

theorem kernelStackTop_ne {p q : Int} (hp : ValidPid p) (hq : ValidPid q) (different : p ≠ q) :
    kernelStackTop p ≠ kernelStackTop q := by
  obtain ⟨lowp, highp⟩ := hp
  obtain ⟨lowq, highq⟩ := hq
  simp only [kernelStackTop, eightMB, eightKB]
  omega

theorem Tree.processTree (tree : Tree s.view F) : ProcessTree s where
  rooted t := by rw [tree.chain_eq, ← tree.root]; exact F.rooted t
  apart t u different := by rw [tree.chain_eq, tree.chain_eq]; exact F.apart t u different
  cover := by
    have live : F.live = {p | s.usedPids p = true} := Set.ext fun p => (tree.used p).symm
    simp only [tree.chain_eq, ← live]
    exact F.cover
  own p q usedp usedq different := by
    have validp := tree.valid p ((tree.used p).1 usedp)
    have validq := tree.valid q ((tree.used q).1 usedq)
    exact ⟨fun same => different (programFrame_inj validp validq same), getPcbByPid_ne validq different,
      kernelStackTop_ne validp validq different⟩
  parent t := by
    have current : s.currPid t = F.cur t := tree.curr t
    rw [current]
    exact (tree.par t).trans (tree.parPid _ (F.cur_live t)).symm

theorem Tree.haltReturns (tree : Tree s.view F) (loadable : ShellLoadable env) (fr : ExecFrame) (status : UInt8) :
    HaltReturns env s fr status := by
  have current := tree.currPid_eq
  have live := F.cur_live s.currProcess
  have used : s.usedPids (F.cur s.currProcess) = true := (tree.used _).2 live
  have parent : (s.pcb (F.cur s.currProcess)).parPid = F.par (F.cur s.currProcess) := tree.parPid _ live
  refine ⟨fun child => ?_, fun root => ?_⟩
  · rw [current] at child ⊢
    rcases tree.sysHalt_cases loadable fr status with ⟨s', -, halted, view⟩ | ⟨s', root, -, -⟩
    · refine ⟨s', halted, ?_, congrArg ProcView.usedPids view⟩
      refine (congrArg ProcView.curr view).trans ?_
      show Function.update s.currPid s.currProcess (s.view.pcb (s.view.pcb _).parPcbPtr).pid = _
      rw [tree.parPcbPtr _ live child, tree.pid _ (F.par_live live), parent]
    · omega
  · rw [current] at root ⊢
    rcases tree.sysHalt_cases loadable fr status with ⟨s', child, -, -⟩ | ⟨s', -, halted, view⟩
    · omega
    · refine ⟨s', halted, ?_, ?_⟩
      · refine (congrArg ProcView.curr view).trans ?_
        show Function.update s.currPid s.currProcess (F.cur s.currProcess) = _
        rw [← current, Function.update_eq_self]
      · refine (congrArg ProcView.usedPids view).trans ?_
        show Function.update (Function.update s.usedPids _ false) _ true = _
        rw [Function.update_idem, ← used, Function.update_eq_self]

end

/-- **The process tree.** In every state that `sys_execute`, `sys_halt` and
scheduler switches reach after boot, the records are a tree with one chain for
each terminal, and `sys_halt` returns to the parent or restarts the base shell. -/
theorem processTree_of_reach {env : Env} (loadable : ShellLoadable env) {s : Kernel}
    (reach : (atomicCalls env).Reach AfterBoot s) :
    ProcessTree s ∧ ∀ fr status, HaltReturns env s fr status := by
  have consistent : Consistent s :=
    reach.invariant (fun _ boot => boot.consistent) fun _ _ inv ok => inv.step loadable ok
  obtain ⟨⟨F, tree⟩, -⟩ := consistent
  exact ⟨tree.processTree, tree.haltReturns loadable⟩

open TransitionSystem in
/-- The records after the running base shell has launched a child. -/
theorem processTree_after_execute :
    let fr := ExecFrame.blank ⟨booted.tss.esp0, 0⟩
    let s := (atomicCalls shellEnv).exec booted [.execute fr fr (shellCommand shellEnv)]
    ProcessTree s ∧ ∀ fr status, HaltReturns shellEnv s fr status := by
  intro fr s
  have onStack : OnStack booted.tss.esp0 fr.regs.esp := ⟨Nat.le_refl _, Nat.le_add_right _ _⟩
  exact processTree_of_reach shellEnv_loadable ((Reach.base booted_afterBoot).exec ⟨onStack, trivial⟩)

end BigBrainOS
