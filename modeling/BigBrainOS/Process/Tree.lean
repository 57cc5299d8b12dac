import BigBrainOS.Theory.Forest
import BigBrainOS.Theory.Reach
import BigBrainOS.Process.Calls

/-!
# The process tree

The pid table, the parent links of the control blocks and the pids of the
terminals record one forest: a chain of processes for each terminal, rooted in
its base shell. `Tree` ties the records to a `Forest`; a launch pushes a node, a
halt pops one, and the restart of a base shell and a switch keep it.
-/

namespace BigBrainOS
set_option autoImplicit false

/-- The pid table, the control blocks and `prog_curr_pid` agree with the forest `F`. -/
structure Links (v : ProcView) (F : Forest Term Int) : Prop where
  curr : ∀ t, v.curr t = F.cur t
  root : ∀ t, F.root t = t.val
  used : ∀ p, v.usedPids p = true ↔ p ∈ F.live
  valid : ∀ p ∈ F.live, ValidPid p
  pid : ∀ p ∈ F.live, (v.pcb (getPcbByPid p)).pid = p
  parPid : ∀ p ∈ F.live, (v.pcb (getPcbByPid p)).parPid = F.par p
  parPcbPtr : ∀ p ∈ F.live, 3 ≤ p → (v.pcb (getPcbByPid p)).parPcbPtr = getPcbByPid (F.par p)

/-- All four records of the process tree agree with `F`. -/
structure Tree (v : ProcView) (F : Forest Term Int) : Prop extends Links v F where
  par : ∀ t, v.par t = F.par (F.cur t)

namespace ProcView

/-- The block of a launched process. -/
theorem launch_pcb_new (v : ProcView) (n : Int) (r : Regs) :
    (v.launch n r).pcb (getPcbByPid n) =
      ⟨n, v.newParent n r, getCurrPcb r.esp, r, ⟨userEsp, userEsp⟩⟩ := by
  simp [launch, enter, create, enable, newParent]

theorem launch_pcb_other (v : ProcView) {n : Int} (r : Regs) {a : Nat} (other : a ≠ getPcbByPid n) :
    (v.launch n r).pcb a = v.pcb a := by
  simp [launch, enter, create, enable, Function.update_of_ne other]

theorem launch_par (v : ProcView) (n : Int) (r : Regs) :
    (v.launch n r).par = Function.update v.par v.currProcess (v.newParent n r) := by
  simp [launch, enter, create, enable, newParent]

end ProcView

namespace Links
variable {v v' : ProcView} {F : Forest Term Int} {p n : Int}

/-- A live pid below 3 is a root. -/
theorem root_of_lt (links : Links v F) (live : p ∈ F.live) (low : p < 3) : ∃ t : Term, p = t.val ∧ F.root t = p := by
  obtain ⟨nonneg, -⟩ := links.valid p live
  have small : p.toNat < numTerminals := by simp only [numTerminals]; omega
  refine ⟨⟨p.toNat, small⟩, by simp only [Int.toNat_of_nonneg nonneg], ?_⟩
  rw [links.root]
  exact Int.toNat_of_nonneg nonneg

/-- A current process below 3 is the base shell of its own terminal. -/
theorem cur_eq_root (links : Links v F) {t : Term} (low : F.cur t < 3) : F.cur t = F.root t := by
  obtain ⟨u, -, isRoot⟩ := links.root_of_lt (F.cur_live t) low
  have same : t = u := F.root_chain (isRoot ▸ self_mem_ancestors F.par (F.cur t))
  rw [same, isRoot, same]

/-- The pids of the base shells are in use. -/
theorem base_live (links : Links v F) (nonneg : 0 ≤ p) (low : p < 3) : p ∈ F.live := by
  have small : p.toNat < numTerminals := by simp only [numTerminals]; omega
  have live := F.root_live ⟨p.toNat, small⟩
  rw [links.root] at live
  rwa [Int.toNat_of_nonneg nonneg] at live

/-- A current process from 3 on is no base shell. -/
theorem cur_ne_root (links : Links v F) {t : Term} (child : 3 ≤ F.cur t) : F.cur t ≠ F.root t := by
  have root := links.root t
  have small := t.isLt
  simp only [numTerminals] at small
  omega

theorem cur_valid (links : Links v F) (t : Term) : ValidPid (F.cur t) := links.valid _ (F.cur_live t)

/-- A pid outside the tree is not among those of the base shells. -/
theorem fresh_ge (links : Links v F) (fresh : n ∉ F.live) (nonneg : 0 ≤ n) : 3 ≤ n := by
  by_contra low
  exact fresh (links.base_live nonneg (by omega))

/-- The links are in these parts of the view only. -/
theorem congr (links : Links v F) (curr : v'.curr = v.curr) (used : v'.usedPids = v.usedPids)
    (pcb : ∀ p ∈ F.live, ∃ regs, v'.pcb (getPcbByPid p) = { v.pcb (getPcbByPid p) with regs := regs }) : Links v' F where
  curr t := by rw [curr]; exact links.curr t
  root := links.root
  used p := by rw [used]; exact links.used p
  valid := links.valid
  pid p live := by obtain ⟨regs, e⟩ := pcb p live; rw [e]; exact links.pid p live
  parPid p live := by obtain ⟨regs, e⟩ := pcb p live; rw [e]; exact links.parPid p live
  parPcbPtr p live child := by obtain ⟨regs, e⟩ := pcb p live; rw [e]; exact links.parPcbPtr p live child

theorem enable (links : Links v F) (p : Int) : Links (v.enable p) F :=
  links.congr rfl rfl fun _ _ => ⟨_, rfl⟩

/-- A scheduler switch keeps the tree. -/
theorem switch (links : Links v F) (r : Regs) : Links (v.switch r) F := by
  refine links.congr rfl rfl fun p live => ?_
  simp only [ProcView.switch, ProcView.save]
  by_cases same : getPcbByPid p = getPcbByPid (v.curr v.currProcess)
  · exact ⟨r, by rw [same, Function.update_self]⟩
  · exact ⟨_, by rw [Function.update_of_ne same]⟩

/-! ### Launch -/

/-- The parent of a child is the process whose kernel stack is in use. -/
theorem newParent_child (links : Links v F) {r : Regs} (fresh : n ∉ F.live) (child : 3 ≤ n) (t : Term)
    (stack : getCurrPcb r.esp = getPcbByPid (F.cur t)) : v.newParent n r = F.cur t := by
  have other : getPcbByPid (F.cur t) ≠ getPcbByPid n := by
    intro same
    have cur := getPcbByPid_inj (links.cur_valid t) same.symm
    exact fresh (cur ▸ F.cur_live t)
  rw [ProcView.newParent, if_neg (by omega), stack, if_neg other, links.pid _ (F.cur_live t)]

/-- `sys_execute` hangs the new process under the current one. -/
theorem launch (links : Links v F) {r : Regs} (valid : ValidPid n) (fresh : n ∉ F.live)
    (stack : getCurrPcb r.esp = getPcbByPid (F.cur v.currProcess)) :
    Links (v.launch n r) (F.push v.currProcess n fresh) := by
  have child := links.fresh_ge fresh valid.1
  have parent := links.newParent_child fresh child v.currProcess stack
  have known : ∀ p ∈ F.live, p ≠ n := fun p live e => fresh (e ▸ live)
  have other : ∀ p ∈ F.live, getPcbByPid p ≠ getPcbByPid n := fun p live =>
    getPcbByPid_ne valid (known p live)
  refine ⟨?curr, links.root, ?used, ?valid, ?pid, ?parPid, ?ptr⟩
  case curr =>
    intro t
    show Function.update v.curr v.currProcess n t = Function.update F.cur v.currProcess n t
    rw [funext links.curr]
  case used =>
    intro p
    show Function.update v.usedPids n true p = true ↔ p = n ∨ p ∈ F.live
    by_cases same : p = n
    · subst same; simp
    · rw [Function.update_of_ne same, links.used]; simp [same]
  case valid =>
    intro p live
    rcases live with rfl | live
    · exact valid
    · exact links.valid p live
  case pid =>
    intro p live
    rcases live with rfl | live
    · rw [ProcView.launch_pcb_new]
    · rw [ProcView.launch_pcb_other v r (other p live)]; exact links.pid p live
  case parPid =>
    intro p live
    rcases live with rfl | live
    · rw [ProcView.launch_pcb_new, F.push_par_self]
      exact parent
    · rw [ProcView.launch_pcb_other v r (other p live), links.parPid p live, F.push_par_of_ne _ fresh (known p live)]
  case ptr =>
    intro p live nonroot
    rcases live with rfl | live
    · rw [ProcView.launch_pcb_new, F.push_par_self]
      exact stack
    · rw [ProcView.launch_pcb_other v r (other p live), links.parPcbPtr p live nonroot, F.push_par_of_ne _ fresh (known p live)]

/-! ### Halt -/

/-- The halt of a child removes it and makes its parent current. -/
theorem halt (links : Links v F) (child : 3 ≤ F.cur v.currProcess)
    (inner : F.cur v.currProcess ≠ F.root v.currProcess) :
    Links ((v.release (getPcbByPid (F.cur v.currProcess)) (F.cur v.currProcess)).return_
      (getPcbByPid (F.cur v.currProcess))) (F.pop v.currProcess inner) := by
  have live := F.cur_live v.currProcess
  have valid := links.cur_valid v.currProcess
  generalize halting : F.cur v.currProcess = p at child live valid
  have ptr := links.parPcbPtr p live child
  have parent := links.pid (F.par p) (F.par_live live)
  have other : ∀ q, q ≠ p → getPcbByPid q ≠ getPcbByPid p := fun q => getPcbByPid_ne valid
  refine ⟨?curr, links.root, ?used, fun q hq => links.valid q hq.1, ?pid, ?parPid, ?ptr⟩
  case curr =>
    intro t
    show Function.update v.curr v.currProcess (v.pcb (v.pcb (getPcbByPid p)).parPcbPtr).pid t =
      Function.update F.cur v.currProcess (F.par (F.cur v.currProcess)) t
    rw [ptr, parent, halting, funext links.curr]
  case used =>
    intro q
    show Function.update v.usedPids p false q = true ↔ q ∈ F.live \ {F.cur v.currProcess}
    rw [halting]
    by_cases same : q = p
    · subst same; simp
    · rw [Function.update_of_ne same, links.used]; simp [same]
  case pid =>
    intro q ⟨alive, other'⟩
    rw [halting] at other'
    exact (congrArg PcbLinks.pid (Function.update_of_ne (other q other') _ _)).trans (links.pid q alive)
  case parPid =>
    intro q ⟨alive, other'⟩
    rw [halting] at other'
    exact (congrArg PcbLinks.parPid (Function.update_of_ne (other q other') _ _)).trans (links.parPid q alive)
  case ptr =>
    intro q ⟨alive, other'⟩ nonroot
    rw [halting] at other'
    exact (congrArg PcbLinks.parPcbPtr (Function.update_of_ne (other q other') _ _)).trans
      (links.parPcbPtr q alive nonroot)

/-- The restart of a base shell keeps the tree. -/
theorem restart (links : Links v F) (r : Regs) (root : F.cur v.currProcess < 3) :
    Links ((v.release (getPcbByPid (F.cur v.currProcess)) (F.cur v.currProcess)).launch (F.cur v.currProcess) r) F := by
  have live := F.cur_live v.currProcess
  have valid := links.cur_valid v.currProcess
  have fixed : F.par (F.cur v.currProcess) = F.cur v.currProcess := by
    rw [links.cur_eq_root root]; exact F.fixed v.currProcess
  generalize halting : F.cur v.currProcess = p at root live valid fixed
  have parent : (v.release (getPcbByPid p) p).newParent p r = p := if_pos root
  have other : ∀ q, q ≠ p → getPcbByPid q ≠ getPcbByPid p := fun q => getPcbByPid_ne valid
  refine ⟨?curr, links.root, ?used, links.valid, ?pid, ?parPid, ?ptr⟩
  case curr =>
    intro t
    show Function.update v.curr v.currProcess p t = F.cur t
    rw [← halting, funext links.curr, Function.update_eq_self]
  case used =>
    intro q
    show Function.update (Function.update v.usedPids p false) p true q = true ↔ q ∈ F.live
    by_cases same : q = p
    · subst same; simp [live]
    · rw [Function.update_of_ne same, Function.update_of_ne same, links.used]
  case pid =>
    intro q alive
    by_cases same : q = p
    · rw [same, ProcView.launch_pcb_new]
    · rw [ProcView.launch_pcb_other _ r (other q same)]; exact links.pid q alive
  case parPid =>
    intro q alive
    by_cases same : q = p
    · rw [same, ProcView.launch_pcb_new, fixed]; exact parent
    · rw [ProcView.launch_pcb_other _ r (other q same)]; exact links.parPid q alive
  case ptr =>
    intro q alive nonroot
    rw [ProcView.launch_pcb_other _ r (other q (by omega))]
    exact links.parPcbPtr q alive nonroot

end Links

/-! ### The parents of the terminals -/

namespace Tree
variable {v : ProcView} {F : Forest Term Int} {n : Int}

theorem enable (tree : Tree v F) (p : Int) : Tree (v.enable p) F := ⟨tree.toLinks.enable p, tree.par⟩

theorem switch (tree : Tree v F) (r : Regs) : Tree (v.switch r) F := ⟨tree.toLinks.switch r, tree.par⟩

theorem launch (tree : Tree v F) {r : Regs} (valid : ValidPid n) (fresh : n ∉ F.live)
    (stack : getCurrPcb r.esp = getPcbByPid (F.cur v.currProcess)) :
    Tree (v.launch n r) (F.push v.currProcess n fresh) := by
  have parent := tree.newParent_child fresh (tree.fresh_ge fresh valid.1) v.currProcess stack
  refine ⟨tree.toLinks.launch valid fresh stack, fun t => ?_⟩
  rw [ProcView.launch_par, parent]
  show _ = Function.update F.par n (F.cur v.currProcess) (Function.update F.cur v.currProcess n t)
  by_cases running : t = v.currProcess
  · subst running; simp
  · have known : F.cur t ≠ n := fun e => fresh (e ▸ F.cur_live t)
    rw [Function.update_of_ne running, Function.update_of_ne running, tree.par, Function.update_of_ne known]

theorem halt (tree : Tree v F) (child : 3 ≤ F.cur v.currProcess)
    (inner : F.cur v.currProcess ≠ F.root v.currProcess) :
    Tree ((v.release (getPcbByPid (F.cur v.currProcess)) (F.cur v.currProcess)).return_
      (getPcbByPid (F.cur v.currProcess))) (F.pop v.currProcess inner) := by
  have live := F.cur_live v.currProcess
  refine ⟨tree.toLinks.halt child inner, fun t => ?_⟩
  show Function.update v.par v.currProcess
      (v.pcb (v.pcb (getPcbByPid (F.cur v.currProcess))).parPcbPtr).parPid t =
    F.par (Function.update F.cur v.currProcess (F.par (F.cur v.currProcess)) t)
  rw [tree.parPcbPtr _ live child, tree.parPid _ (F.par_live live)]
  by_cases running : t = v.currProcess
  · subst running; simp
  · rw [Function.update_of_ne running, Function.update_of_ne running]; exact tree.par t

theorem restart (tree : Tree v F) (r : Regs) (root : F.cur v.currProcess < 3) :
    Tree ((v.release (getPcbByPid (F.cur v.currProcess)) (F.cur v.currProcess)).launch (F.cur v.currProcess) r) F := by
  have fixed : F.par (F.cur v.currProcess) = F.cur v.currProcess := by
    rw [tree.cur_eq_root root]; exact F.fixed v.currProcess
  have parent : (v.release (getPcbByPid (F.cur v.currProcess)) (F.cur v.currProcess)).newParent
      (F.cur v.currProcess) r = F.cur v.currProcess := if_pos root
  refine ⟨tree.toLinks.restart r root, fun t => ?_⟩
  rw [ProcView.launch_par, parent]
  show Function.update v.par v.currProcess (F.cur v.currProcess) t = F.par (F.cur t)
  by_cases running : t = v.currProcess
  · subst running; rw [Function.update_self, fixed]
  · rw [Function.update_of_ne running]; exact tree.par t

end Tree

end BigBrainOS
