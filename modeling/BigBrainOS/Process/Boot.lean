import BigBrainOS.Kernel.Init
import BigBrainOS.Process.System

/-!
# Boot

The first three clock ticks start the base shells. `Shells k` describes the
process records when exactly the shells of terminals `0 .. k-1` run and nothing
else does: each further tick leads from `Shells k` to `Shells (k + 1)`, and
`Shells 3` is a process tree of three roots.

The kernel recognises a base shell by its pid being below 3. That is right in
every run in which no program is launched before the third shell is up.
-/

namespace BigBrainOS
set_option autoImplicit false

/-- Exactly the base shells of the terminals below `k` run. -/
structure Shells (v : ProcView) (k : Nat) : Prop where
  used : ∀ p, v.usedPids p = true ↔ 0 ≤ p ∧ p < k
  curr : ∀ t : Term, v.curr t = if t.val < k then (t.val : Int) else -1
  pid : ∀ p : Int, 0 ≤ p → p < k → (v.pcb (getPcbByPid p)).pid = p
  parPid : ∀ p : Int, 0 ≤ p → p < k → (v.pcb (getPcbByPid p)).parPid = p
  par : ∀ t : Term, t.val < k → v.par t = t.val

namespace Shells
variable {v : ProcView} {k : Nat}

/-- The saved registers do not matter. -/
theorem save (shells : Shells v k) (p : Int) (r : Regs) : Shells (v.save p r) k := by
  have links : ∀ a, ((v.save p r).pcb a).pid = (v.pcb a).pid ∧ ((v.save p r).pcb a).parPid = (v.pcb a).parPid := by
    intro a
    simp only [ProcView.save]
    by_cases same : a = getPcbByPid p
    · subst same; rw [Function.update_self]; exact ⟨rfl, rfl⟩
    · rw [Function.update_of_ne same]; exact ⟨rfl, rfl⟩
  exact ⟨shells.used, shells.curr, fun q low high => (links _).1.trans (shells.pid q low high),
    fun q low high => (links _).2.trans (shells.parPid q low high), shells.par⟩

theorem bootSave (shells : Shells v k) (r : Regs) : Shells (v.bootSave r) k := by
  have saved : Shells (if v.currProcess + 1 ≠ 0 then v.save v.currProcess.val r else v) k := by
    split
    · exact shells.save _ r
    · exact shells
  exact ⟨saved.used, saved.curr, saved.pid, saved.parPid, saved.par⟩

/-- The next base shell takes the next pid. -/
theorem launch (shells : Shells v k) (r : Regs) (early : k < 3) (running : v.currProcess.val = k) :
    Shells (v.launch k r) (k + 1) := by
  have valid : ValidPid (k : Int) := ⟨by omega, by omega⟩
  have parent : v.newParent k r = k := if_pos (by omega)
  have other : ∀ p : Int, p < k → getPcbByPid p ≠ getPcbByPid k := fun p below => getPcbByPid_ne valid (by omega)
  refine ⟨?used, ?curr, ?pid, ?parPid, ?par⟩
  case used =>
    intro p
    show Function.update v.usedPids (k : Int) true p = true ↔ _
    by_cases same : p = k
    · rw [same, Function.update_self]
      exact ⟨fun _ => ⟨by omega, by omega⟩, fun _ => rfl⟩
    · rw [Function.update_of_ne same, shells.used]
      omega
  case curr =>
    intro t
    show Function.update v.curr v.currProcess (k : Int) t = _
    by_cases same : t = v.currProcess
    · rw [same, Function.update_self, running, if_pos (by omega)]
    · have different : t.val ≠ k := fun e => same (Fin.ext (e.trans running.symm))
      rw [Function.update_of_ne same, shells.curr]
      split <;> split <;> omega
  case pid =>
    intro p low high
    by_cases same : p = k
    · rw [same, ProcView.launch_pcb_new]
    · rw [ProcView.launch_pcb_other v r (other p (by omega))]; exact shells.pid p low (by omega)
  case parPid =>
    intro p low high
    by_cases same : p = k
    · rw [same, ProcView.launch_pcb_new]; exact parent
    · rw [ProcView.launch_pcb_other v r (other p (by omega))]; exact shells.parPid p low (by omega)
  case par =>
    intro t high
    rw [ProcView.launch_par, parent]
    by_cases same : t = v.currProcess
    · rw [same, Function.update_self, running]
    · have different : t.val ≠ k := fun e => same (Fin.ext (e.trans running.symm))
      rw [Function.update_of_ne same]; exact shells.par t (by omega)

/-- The restart of the running base shell keeps the records. -/
theorem restart (shells : Shells v k) (r : Regs) (started : v.currProcess.val < k) :
    Shells ((v.release (getPcbByPid v.currProcess.val) v.currProcess.val).launch v.currProcess.val r) k := by
  have small := v.currProcess.isLt
  simp only [numTerminals] at small
  generalize shell : (v.currProcess.val : Int) = p
  have valid : ValidPid p := ⟨by omega, by omega⟩
  have parent : (v.release (getPcbByPid p) p).newParent p r = p := if_pos (by omega)
  have other : ∀ q : Int, q ≠ p → getPcbByPid q ≠ getPcbByPid p := fun q => getPcbByPid_ne valid
  refine ⟨?used, ?curr, ?pid, ?parPid, ?par⟩
  case used =>
    intro q
    show Function.update (Function.update v.usedPids p false) p true q = true ↔ _
    by_cases same : q = p
    · subst same; simp; omega
    · rw [Function.update_of_ne same, Function.update_of_ne same]; exact shells.used q
  case curr =>
    intro t
    show Function.update v.curr v.currProcess p t = _
    by_cases same : t = v.currProcess
    · rw [same, Function.update_self, if_pos started, shell]
    · rw [Function.update_of_ne same]; exact shells.curr t
  case pid =>
    intro q low high
    by_cases same : q = p
    · rw [same, ProcView.launch_pcb_new]
    · rw [ProcView.launch_pcb_other _ r (other q same)]; exact shells.pid q low high
  case parPid =>
    intro q low high
    by_cases same : q = p
    · rw [same, ProcView.launch_pcb_new]; exact parent
    · rw [ProcView.launch_pcb_other _ r (other q same)]; exact shells.parPid q low high
  case par =>
    intro t high
    rw [ProcView.launch_par, parent]
    show Function.update v.par v.currProcess p t = _
    by_cases same : t = v.currProcess
    · rw [same, Function.update_self, shell]
    · rw [Function.update_of_ne same]; exact shells.par t high

/-- `get_new_pid` finds the pid of the next base shell. -/
theorem getNewPid {s : Kernel} (shells : Shells s.view k) (early : k < 3) : BigBrainOS.getNewPid s = some (k : Int) := by
  rw [getNewPid_eq_some]
  refine ⟨⟨by omega, by omega⟩, ?_, fun q low high => (shells.used q).2 ⟨low, high⟩⟩
  have unused : ¬ s.usedPids k = true := fun used => by
    have high := ((shells.used k).1 used).2
    omega
  simpa using unused

end Shells

/-- The terminal numbers are the pids below 3. -/
theorem iUnion_term : ⋃ t : Term, ancestors id (t.val : Int) = {p | 0 ≤ p ∧ p < 3} := by
  ext p
  have alone : ∀ a : Int, ancestors id a = {a} := fun a => ancestors_root rfl
  simp only [alone, Set.mem_iUnion, Set.mem_singleton_iff, Set.mem_ofPred_eq]
  constructor
  · rintro ⟨t, rfl⟩
    have small := t.isLt
    simp only [numTerminals] at small
    omega
  · rintro ⟨low, high⟩
    exact ⟨⟨p.toNat, by simp only [numTerminals]; omega⟩, (Int.toNat_of_nonneg low).symm⟩

theorem disjoint_term (t u : Term) (different : t ≠ u) :
    Disjoint (ancestors id (t.val : Int)) (ancestors id (u.val : Int)) := by
  rw [ancestors_root rfl, ancestors_root rfl, Set.disjoint_singleton]
  intro same
  exact different (Fin.ext (by omega))

/-- The tree of the three base shells. -/
def baseForest : Forest Term Int where
  par := id
  cur t := t.val
  root t := t.val
  live := {p | 0 ≤ p ∧ p < 3}
  fixed _ := rfl
  rooted _ := self_mem_ancestors id _
  apart := disjoint_term
  cover := iUnion_term

/-- Three base shells are a process tree. -/
theorem Shells.tree {v : ProcView} (shells : Shells v 3) : Tree v baseForest where
  curr t := by
    have small := t.isLt
    rw [shells.curr, if_pos small]
    rfl
  root _ := rfl
  used p := (shells.used p).trans Iff.rfl
  valid p live := ⟨live.1, by have := live.2; omega⟩
  pid p live := shells.pid p live.1 live.2
  parPid p live := shells.parPid p live.1 live.2
  parPcbPtr p live child := by have := live.2; omega
  par t := shells.par t t.isLt

/-! ## The states at the two ends of boot -/

/-- The state set by `init_idt`, `init_pid` and `init_pit`. -/
structure Init (s : Kernel) : Prop where
  curr : ∀ t, s.currPid t = -1
  running : s.currProcess = 2
  free : ∀ p, s.usedPids p = false

theorem entry_init (m : Machine) : Init (entry m) := ⟨fun _ => rfl, rfl, fun _ => rfl⟩

theorem Init.shells {s : Kernel} (init : Init s) : Shells s.view 0 where
  used p := by
    have free : s.view.usedPids p = false := init.free p
    rw [free]; simp
  curr t := by rw [if_neg (Nat.not_lt_zero _)]; exact init.curr t
  pid p low high := by omega
  parPid p low high := by omega
  par t low := by omega

/-- The state right after boot: base shells 0, 1, 2 run on terminals 0, 1, 2,
each its own parent, the other pids are free, and the machine runs one of them. -/
structure AfterBoot (s : Kernel) : Prop where
  used : ∀ p, s.usedPids p = true ↔ 0 ≤ p ∧ p < 3
  curr : ∀ t : Term, s.currPid t = t.val
  par : ∀ t : Term, (s.terminals t).progParPid = t.val
  pid : ∀ t : Term, (s.pcb t.val).pid = t.val
  parPid : ∀ t : Term, (s.pcb t.val).parPid = t.val
  page : s.MapsProgram s.currProcess.val
  stack : s.tss.esp0 = kernelStackTop s.currProcess.val

theorem afterBoot_iff {s : Kernel} : AfterBoot s ↔ Shells s.view 3 ∧ s.view.Placed := by
  constructor
  · intro boot
    have curr : ∀ t : Term, s.view.curr t = t.val := boot.curr
    have terminal : ∀ p : Int, 0 ≤ p → p < 3 → ∃ t : Term, p = t.val := fun p low high =>
      ⟨⟨p.toNat, by simp only [numTerminals]; omega⟩, (Int.toNat_of_nonneg low).symm⟩
    refine ⟨⟨boot.used, fun t => by rw [curr, if_pos t.isLt], ?_, ?_, fun t _ => boot.par t⟩,
      ⟨by rw [curr]; exact boot.page, by rw [curr]; exact boot.stack⟩⟩
    · intro p low high
      obtain ⟨t, rfl⟩ := terminal p low high
      exact boot.pid t
    · intro p low high
      obtain ⟨t, rfl⟩ := terminal p low high
      exact boot.parPid t
  · rintro ⟨shells, page, stack⟩
    have curr : ∀ t : Term, s.view.curr t = t.val := fun t => by rw [shells.curr, if_pos t.isLt]
    have small : ∀ t : Term, (t.val : Int) < 3 := fun t => by
      have := t.isLt
      simp only [numTerminals] at this
      omega
    rw [curr] at page stack
    exact ⟨shells.used, curr, fun t => shells.par t t.isLt, fun t => shells.pid _ (by omega) (small t),
      fun t => shells.parPid _ (by omega) (small t), page, stack⟩

theorem AfterBoot.consistent {s : Kernel} (boot : AfterBoot s) : Consistent s := by
  obtain ⟨shells, placed⟩ := afterBoot_iff.1 boot
  exact ⟨⟨baseForest, shells.tree⟩, placed⟩

/-- After boot the first free pid is 3. -/
theorem AfterBoot.getNewPid {s : Kernel} (boot : AfterBoot s) : BigBrainOS.getNewPid s = some 3 := by
  rw [getNewPid_eq_some]
  refine ⟨⟨by omega, by omega⟩, ?_, fun q low high => (boot.used q).2 ⟨low, high⟩⟩
  have free : ¬ s.usedPids 3 = true := fun used => by have := (boot.used 3).1 used; omega
  exact Bool.eq_false_iff.2 free

/-- The shells below `k` run and the next tick starts shell `k`. -/
structure Booting (v : ProcView) (k : Nat) : Prop where
  early : k < 3
  shells : Shells v k
  next : (v.currProcess + 1).val = k
  placed : k ≠ 0 → v.Placed

theorem Init.booting {s : Kernel} (init : Init s) : Booting s.view 0 :=
  ⟨by decide, init.shells, by rw [show s.view.currProcess = 2 from init.running]; rfl, fun h => absurd rfl h⟩

section Tick
variable {env : Env} {s : Kernel} {k : Nat}

theorem Booting.next_empty (boot : Booting s.view k) : s.currPid (s.currProcess + 1) = -1 := by
  have curr := boot.shells.curr (s.currProcess + 1)
  rw [show (s.currProcess + 1).val = k from boot.next, if_neg (Nat.lt_irrefl k)] at curr
  exact curr

/-- Once a shell runs, the running terminal is the one before the next to start. -/
theorem Booting.running (boot : Booting s.view k) (started : s.currPid s.currProcess ≠ -1) :
    s.currProcess.val + 1 = k := by
  have curr := boot.shells.curr s.currProcess
  have next : (s.currProcess + 1).val = k := boot.next
  by_cases below : s.currProcess.val < k
  · have early := boot.early
    rw [Fin.val_add] at next
    simp only [numTerminals, Fin.val_one] at next
    omega
  · rw [if_neg below] at curr
    exact absurd curr started

/-- The tick that starts shell `k`. -/
theorem Booting.tick (boot : Booting s.view k) (loadable : ShellLoadable env) (r : Regs) (fr : ExecFrame) :
    ∃ s', switchRunningProcess env r fr s = (.launched k, s') ∧ Shells s'.view (k + 1) ∧ s'.view.Placed ∧
      s'.currProcess = s.currProcess + 1 := by
  obtain ⟨s', launched, view⟩ :=
    switchRunningProcess_boot loadable r fr boot.next_empty (boot.shells.getNewPid boot.early)
  have running : s'.currProcess = s.currProcess + 1 := congrArg ProcView.currProcess view
  refine ⟨s', launched, ?_, ?_, running⟩
  · rw [view]
    exact (boot.shells.bootSave r).launch fr.regs boot.early boot.next
  · have curr : s'.view.curr s'.view.currProcess = k := by rw [view]; exact Function.update_self _ _ _
    refine ⟨?_, ?_⟩
    · rw [curr, view]; exact ⟨rfl, rfl, rfl, rfl⟩
    · rw [curr, view]; rfl

/-- After shell `k` has started, the next one is due. -/
theorem Booting.next_booting (boot : Booting s.view k) {s' : Kernel} (shells : Shells s'.view (k + 1))
    (placed : s'.view.Placed) (running : s'.currProcess = s.currProcess + 1) (more : k + 1 < 3) :
    Booting s'.view (k + 1) := by
  have next : (s.currProcess + 1).val = k := boot.next
  refine ⟨more, shells, ?_, fun _ => placed⟩
  show (s'.currProcess + 1).val = k + 1
  rw [running, Fin.val_add, next]
  simp only [numTerminals, Fin.val_one]
  omega

/-- The halt of a base shell during boot starts it again. -/
theorem Booting.halt (boot : Booting s.view k) (loadable : ShellLoadable env) (fr : ExecFrame) (status : UInt8)
    (started : s.currPid s.currProcess ≠ -1) :
    ∃ s', sysHalt env fr status s = (.restarted s.currProcess.val, s') ∧ Booting s'.view k ∧
      s'.currProcess = s.currProcess := by
  have running := boot.running started
  have early := boot.early
  have shell : s.currPid s.currProcess = s.currProcess.val :=
    (boot.shells.curr s.currProcess).trans (if_pos (by omega))
  have own : (s.pcb s.currProcess.val).pid = s.currProcess.val := boot.shells.pid _ (by omega) (by omega)
  obtain ⟨s', halted, view⟩ := sysHalt_root loadable fr status shell (by omega) (by omega) own
    fun q low high => (boot.shells.used q).2 ⟨low, by omega⟩
  have same : s'.currProcess = s.currProcess := congrArg ProcView.currProcess view
  refine ⟨s', halted, ⟨early, ?_, ?_, fun _ => ?_⟩, same⟩
  · rw [view]; exact boot.shells.restart fr.regs (show s.currProcess.val < k by omega)
  · show (s'.currProcess + 1).val = k
    rw [same]; exact boot.next
  · have curr : s'.view.curr s'.view.currProcess = s.currProcess.val := by
      rw [view]; exact Function.update_self _ _ _
    refine ⟨?_, ?_⟩
    · rw [curr, view]; exact ⟨rfl, rfl, rfl, rfl⟩
    · rw [curr, view]; rfl

end Tick

/-- **Boot.** Three ticks lead from the initial state to the state after boot. -/
theorem boot {env : Env} (loadable : ShellLoadable env) {s : Kernel} (init : Init s) (r₁ r₂ r₃ : Regs)
    (fr₁ fr₂ fr₃ : ExecFrame) :
    AfterBoot ((atomicCalls env).exec s [.tick r₁ fr₁, .tick r₂ fr₂, .tick r₃ fr₃]) := by
  obtain ⟨s₁, tick₁, shells₁, placed₁, running₁⟩ := init.booting.tick loadable r₁ fr₁
  have boot₁ := init.booting.next_booting shells₁ placed₁ running₁ (by decide)
  obtain ⟨s₂, tick₂, shells₂, placed₂, running₂⟩ := boot₁.tick loadable r₂ fr₂
  have boot₂ := boot₁.next_booting shells₂ placed₂ running₂ (by decide)
  obtain ⟨s₃, tick₃, shells₃, placed₃, -⟩ := boot₂.tick loadable r₃ fr₃
  simp only [TransitionSystem.exec_cons, TransitionSystem.exec_nil, atomicCalls, Op.run, tick₁, tick₂, tick₃]
  exact afterBoot_iff.2 ⟨shells₃, placed₃⟩

/-- A frame whose local arrays are zero. -/
def ExecFrame.blank (r : Regs) : ExecFrame := ⟨r, fun _ => 0, fun _ => 0, fun _ => 0⟩

/-- A machine with blank memory and a file system that holds the shell, after boot. -/
@[irreducible] def booted : Kernel :=
  (atomicCalls shellEnv).exec (entry ⟨fun _ => 0, fun _ => .zero, 0x26, 0⟩)
    [.tick ⟨0, 0⟩ (.blank ⟨0, 0⟩), .tick ⟨0, 0⟩ (.blank ⟨0, 0⟩), .tick ⟨0, 0⟩ (.blank ⟨0, 0⟩)]

theorem booted_afterBoot : AfterBoot booted := by
  unfold booted
  exact boot shellEnv_loadable (entry_init _) _ _ _ _ _ _

end BigBrainOS
