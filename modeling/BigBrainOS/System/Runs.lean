import BigBrainOS.System.Invariant

/-!
# Runs of other processes

The step lemmas of isolation over whole runs, in which a call is one step: from any
state that the machine reaches, as long as a process is not given the processor, its memory and its
record stay as they are. The caller of `sys_execute` is such a process until its
child has halted, so it finds everything as it left it.
-/

namespace BigBrainOS
set_option autoImplicit false

/-- Steps of a system in which process `q` does not run. -/
def systemWithout (env : Env) (tableAddr : Nat) (q : Int) : TransitionSystem Kernel SystemOp :=
  (systemCalls env tableAddr).restrict fun s _ => s.running ≠ q

section Runs
variable {env : Env} {tableAddr : Nat} {s : Kernel} {q : Int}

/-- **Run lemma.** What leaves the process alone step by step leaves it alone. -/
theorem LeftAlone.run (loadable : ShellLoadable env) (valid : ValidPid q) {b : Pcb} {m : Nat → UInt8} {ops : List SystemOp} :
    ∀ {s : Kernel}, SystemInv s → LeftAlone q b m s → (systemWithout env tableAddr q).Allowed s ops →
      SystemInv ((systemCalls env tableAddr).exec s ops) ∧ LeftAlone q b m ((systemCalls env tableAddr).exec s ops) := by
  induction ops with
  | nil => exact fun inv alone _ => ⟨inv, alone⟩
  | cons op ops ih =>
    intro s inv alone ⟨⟨allowed, other⟩, rest⟩
    apply ih _ _ rest
    · exact inv.step loadable tableAddr allowed
    · exact alone.step valid inv.consistent other allowed

/-- A live process in a reachable state. -/
theorem SystemInv.leftAlone (inv : SystemInv s) (used : s.usedPids q = true) : LeftAlone q (s.pcb q) s.phys s :=
  ⟨inv.paged, used, .refl _, fun _ _ => rfl⟩

/-- Nor are the stack registers touched with which it was preempted. -/
theorem LeftAlone.regs {b : Pcb} {m : Nat → UInt8} (alone : LeftAlone q b m s) : (s.pcb q).regs = b.regs := by
  obtain ⟨d, e⟩ := alone.block
  rw [e]

end Runs

end BigBrainOS
