import BigBrainOS.Preempt.Runs

/-!
# Halts under preemption

Where no tick lands in a critical section, `sys_halt` returns to the parent with the
parent's page and stack in place, and on the stack registers that the launch of
the process stored. A round of ticks behind the restoring of the page breaks this:
`prog_curr_pid` still names the halted process, and the scheduler maps it again.
-/

namespace BigBrainOS
set_option autoImplicit false

open TransitionSystem (Reach)

/-- The jump to `ret_to_exec` finds the page and the stack of the parent, on the
registers that were stored when the halting process was created. -/
def HaltPlaced (m : Threads) : Prop :=
  ∀ c parRegs, m.code m.cur = .jump c parRegs →
    m.kernel.MapsProgram c.parPid ∧ m.kernel.tss.esp0 = kernelStackTop c.parPid ∧ parRegs = m.created m.cur c.h.pid

/-- **Halt.** In every run whose critical sections are not interrupted, a process
that halts returns to its parent in place. -/
theorem haltPlaced_of_reach {env : Env} (loadable : ShellLoadable env) {m : Threads}
    (run : ((preemptible env).restrict Uninterrupted).Reach Threads.Start m) : HaltPlaced m := by
  intro c parRegs position
  obtain ⟨v, F, held, settled, state⟩ := inv_of_reach loadable run
  rw [position] at state
  rcases state with ⟨-, -, calm⟩ | ⟨⟨own, -, -⟩, view, regs⟩
  · exact calm.elim
  · have page : m.kernel.view.Maps c.parPid := by
      rw [view, own.parPid]
      exact ⟨rfl, rfl, rfl, rfl⟩
    have stack : m.kernel.view.esp0 = kernelStackTop c.parPid := by
      rw [view, own.parPid]
      rfl
    refine ⟨page, stack, ?_⟩
    rw [regs, own.h]

/-- A shell that the base shell launched halts, up to the update of its terminal. -/
theorem reach_halting {env : Env} (loadable : ShellLoadable env) {k : Kernel} (boot : AfterBoot k) :
    ∃ c m, ((preemptible env).restrict Uninterrupted).Reach Threads.Start m ∧
      m.code m.cur = .parent c [.progCurrPid, .progParPid] := by
  obtain ⟨m₀, c, l, allocated, -, -, code, -, pid, -, room⟩ := reach_allocated loadable boot
  obtain ⟨m, run, position⟩ := reach_iret allocated (by rw [code, Function.update_self]) room
  obtain ⟨v, F, held, settled, state⟩ := inv_of_reach loadable (run.weaken Orderly.uninterrupted)
  rw [position] at state
  rcases state with ⟨view, -, -, -, current⟩ | ⟨pending, -⟩
  · have curr : m.kernel.currPid m.cur = 3 := by
      rw [← pid, current, ← view]
      rfl
    have own : (m.kernel.pcb 3).pid = 3 := by
      have live := F.cur_live m.cur
      rw [← settled.links.curr, ← current, pid] at live
      have block := settled.links.pid 3 live
      rw [← view] at block
      exact block
    have user : m.step env (.launch c l [.iret]) = m.goto .user := rfl
    have entered := reach_next run position
    rw [user] at entered
    have running : m.kernel.currPid m.cur ≠ -1 := by
      rw [curr]
      decide
    have above : 3 ≤ (m.kernel.pcb (m.kernel.currPid m.cur)).pid := by
      rw [curr, own]
    obtain ⟨c', m', run', position'⟩ := reach_parent entered (m.goto_code _) running above
    exact ⟨c', m', run'.weaken Orderly.uninterrupted, position'⟩
  · simp at pending

/-- The shell that the base shell launched returns to it. -/
theorem haltPlaced_shell :
    ∃ m c parRegs, ((preemptible shellEnv).restrict Uninterrupted).Reach Threads.Start m ∧
      m.code m.cur = .jump c parRegs ∧ HaltPlaced m := by
  obtain ⟨c, m, run, position⟩ := reach_halting shellEnv_loadable booted_afterBoot
  obtain ⟨m', parRegs, returned, jump, -⟩ := exec_jump shellEnv position
  have allowed : ((preemptible shellEnv).restrict Uninterrupted).Allowed m [.next, .next, .next, .next] :=
    ⟨⟨trivial, nofun⟩, ⟨trivial, nofun⟩, ⟨trivial, nofun⟩, ⟨trivial, nofun⟩, trivial⟩
  have run' := run.exec allowed
  rw [show ((preemptible shellEnv).restrict Uninterrupted).exec m _ = m' from returned] at run'
  exact ⟨m', c, parRegs, run', jump, haltPlaced_of_reach shellEnv_loadable run'⟩

/-- A round of ticks behind the closing of the files: the parent is entered with
the page of the process that halted. -/
theorem jump_misplaced {env : Env} (loadable : ShellLoadable env) {k : Kernel} (boot : AfterBoot k) :
    ∃ m, (preemptible env).Reach Threads.Start m ∧ ¬ HaltPlaced m := by
  obtain ⟨c, m, run, position⟩ := reach_halting loadable boot
  obtain ⟨v, F, held, settled, state⟩ := inv_of_reach loadable run
  rw [position] at state
  obtain ⟨⟨own, child, -⟩, past, k₀, split, released, ran⟩ := state.resolve_left fun calm => calm.2.2
  obtain rfl : past = [] := by simpa using split
  have view : m.kernel.view = v.released := by rw [ran]; exact released
  have resumable : m.Resumable := by
    have apart := settled.links.apart
    refine ⟨?_, ?_, fun t => ?_⟩
    · rw [view]
      exact ⟨apart.started, apart.blocks⟩
    · rw [view]
      exact settled.regs
    · by_cases running : t = m.cur
      · rw [running, position]
        simp
      · intro lost
        have calm := settled.others t running
        rw [lost] at calm
        exact calm
  obtain ⟨m₁, run₁, code, cur, maps⟩ := reach_round run.of_restrict resumable
  have position₁ : m₁.code m₁.cur = .parent c [.progCurrPid, .progParPid] := by rw [code, cur, position]
  obtain ⟨m₂, parRegs, returned, jump, pages⟩ := exec_jump env position₁
  have allowed : (preemptible env).Allowed m₁ [.next, .next, .next, .next] :=
    ⟨trivial, trivial, trivial, trivial, trivial⟩
  have run₂ := run₁.exec allowed
  rw [returned] at run₂
  refine ⟨m₂, run₂, fun placed => ?_⟩
  obtain ⟨parent, -, -⟩ := placed c parRegs jump
  have halted : m₂.kernel.MapsProgram v.pid := by
    have current : m.kernel.currPid m.cur = v.pid := by
      rw [show m.kernel.currPid m.cur = m.kernel.view.curr m.cur from rfl, view, ← settled.running]
      rfl
    rw [current] at maps
    rw [Kernel.MapsProgram, pages]
    exact maps
  -- the pid of a process that is no base shell is not its parent's
  have pid := settled.pid_eq
  have live : v.pid ∈ F.live := pid ▸ F.cur_live _
  have other : F.par v.pid ≠ v.pid := by
    intro same
    have inner := F.cur_not_mem_par (settled.links.cur_ne_root (pid ▸ child))
    rw [← pid, same] at inner
    exact inner (self_mem_ancestors _ _)
  rw [own.parPid, settled.links.parPid _ live] at parent
  exact other (parent.unique (settled.links.valid _ (F.par_live live)) (settled.links.valid _ live) halted)

/-- A tick in the window lets a process return to its parent with its own page. -/
theorem haltPlaced_interrupted : ¬ ∀ m, (preemptible shellEnv).Reach Threads.Start m → HaltPlaced m := by
  intro always
  obtain ⟨m, run, misplaced⟩ := jump_misplaced shellEnv_loadable booted_afterBoot
  exact misplaced (always m run)

end BigBrainOS
