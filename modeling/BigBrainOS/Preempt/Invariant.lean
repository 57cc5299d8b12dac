import BigBrainOS.Preempt.Machine
import BigBrainOS.Preempt.Statements
import BigBrainOS.Preempt.Held

/-!
# The invariant of the uninterrupted critical sections

Between critical sections the kernel is `Settled`: the links of the process tree
agree and the running process is in place. Inside one, the running code has run
some of its statements on a settled kernel, and no other code has run since. The
invariant of all runs is this: a settled kernel `k₀` to which the positions of the
other terminals refer, and the position of the running code relative to it.
-/

namespace BigBrainOS
set_option autoImplicit false

/-- What is known of a terminal whose code stands outside the critical sections. -/
def Calm (env : Env) (v : ProcView) (t : Term) : Code → Prop
  | .user => True
  | .parse c => c.caller = none ∧ getCurrPcb c.fr.regs.esp = getPcbByPid (v.curr t)
  | .check c _ => c.caller = none ∧ getCurrPcb c.fr.regs.esp = getPcbByPid (v.curr t)
  | .getNewPid c cmd inode =>
    (c.caller = none ∧ getCurrPcb c.fr.regs.esp = getPcbByPid (v.curr t)) ∧
      checkExecutable env.img c.fr cmd = some inode
  | .launch _ l todo => (∃ past, past ++ todo = enterStmts) ∧ todo ≠ [] ∧ l.newPid = v.curr t
  | .haltPid addr _ _ _ => addr = getPcbByPid (v.curr t)
  | .halt c todo =>
    ((∃ past, past ++ todo = releaseStmts) ∧ .esp0 ∈ todo) ∧ c.h = ⟨getPcbByPid (v.curr t), v.curr t⟩ ∧
      c.parPid = (v.pcb (getPcbByPid (v.curr t))).parPid
  | _ => False

/-- The process view between critical sections, with the positions of the terminals that do not run. -/
structure Settled (env : Env) (m : Threads) (v : ProcView) (F : Forest Term Int) (held : Term → List Int) : Prop where
  links : Links v F
  placed : v.Placed
  running : v.currProcess = m.cur
  regs : RegsSaved v m.regs
  holding : Holding F held
  created : ∀ t, ∀ p ∈ F.chain t, (v.pcb (getPcbByPid p)).parRegs = m.created t p
  others : ∀ t, t ≠ m.cur → Calm env v t (m.code t)

/-- The process that runs. -/
def ProcView.pid (v : ProcView) : Int := v.curr v.currProcess

/-- The view after the statements of `sys_halt` up to the closing of the files. -/
def ProcView.released (v : ProcView) : ProcView := v.release (getPcbByPid v.pid) v.pid

/-- A call of `sys_halt` for the process that runs. -/
structure Own (v : ProcView) (c : HaltCall) : Prop where
  h : c.h = ⟨getPcbByPid v.pid, v.pid⟩
  parPid : c.parPid = (v.pcb (getPcbByPid v.pid)).parPid

/-- Where a launch began: at the call of a process, with a fresh pid, or at the
restart of a base shell under its own pid. -/
inductive Began (m : Threads) (v : ProcView) (F : Forest Term Int) (held : Term → List Int) (c : ExecCall) (l : Launch) :
    ProcView → Prop where
  | call : c.caller = none → ValidPid l.newPid → l.newPid ∉ F.live → getCurrPcb l.regs.esp = getPcbByPid v.pid →
      m.held = withNew held m.cur l.newPid → Began m v F held c l v
  | restart : l.newPid = v.pid → v.pid < 3 → l.program.length ≤ programRoom →
      m.held = withNew (without held m.cur v.pid) m.cur v.pid → Began m v F held c l v.released

/-- What is known of the running terminal inside a critical section. -/
def InSection (env : Env) (m : Threads) (v : ProcView) (F : Forest Term Int) (held : Term → List Int) : Code → Prop
  | .parse c => Restart c
  | .check c cmd => Restart c ∧ cmd = parse c.fr (shellCommand env)
  | .getNewPid c cmd inode =>
    Restart c ∧ cmd = parse c.fr (shellCommand env) ∧ checkExecutable env.img c.fr cmd = some inode
  | .launch c l todo =>
    .progCurrPid ∈ todo ∧ ∃ past k, past ++ todo = launchStmts l ∧ Began m v F held c l k.view ∧
      runLaunch l past k = .ok m.kernel
  | .halt c todo =>
    (Own v c ∧ .esp0 ∉ todo) ∧ m.held = (if .usedPids ∈ todo then held else without held m.cur v.pid) ∧
      ∃ past k, past ++ todo = releaseStmts.tail ∧ k.view = v ∧ m.kernel = runHalt c.h past k
  | .parent c todo =>
    Child c ∧ ∃ past k, past ++ todo = [.progCurrPid, .progParPid] ∧ k.view = v.released ∧
      m.kernel = runHalt c.h past k
  | .clear c parRegs =>
    Child c ∧ (∃ k, k.view = v.released ∧ m.kernel = runHalt c.h [.progCurrPid, .progParPid] k) ∧
      parRegs = m.created m.cur v.pid
  | .jump c parRegs =>
    Child c ∧ m.kernel.view = v.released.return_ (getPcbByPid v.pid) ∧ parRegs = m.created m.cur v.pid
  | _ => False
where
  /-- The files of a base shell are closed and it is being started again. -/
  Restart (c : ExecCall) : Prop :=
    (c.command = shellCommand env ∧ c.caller ≠ none) ∧ v.pid < 3 ∧ m.kernel.view = v.released ∧
      m.held = without held m.cur v.pid
  /-- A process that is no base shell returns to its parent. -/
  Child (c : HaltCall) : Prop := Own v c ∧ 3 ≤ v.pid ∧ m.held = without held m.cur v.pid

/-- The invariant of the runs whose critical sections are not interrupted. -/
def Threads.Inv (env : Env) (m : Threads) : Prop :=
  ∃ v F held, Settled env m v F held ∧
    ((m.kernel.view = v ∧ m.held = held ∧ Calm env v m.cur (m.code m.cur)) ∨ InSection env m v F held (m.code m.cur))

/-! ## Changes of the settled kernel -/

section Views
variable {v v' w : ProcView} {F : Forest Term Int} {n : Int} {r : Regs}

/-- `enterStmts` do not touch the links. -/
theorem Links.of_enter (links : Links (w.enter n) F) : Links w F := by
  refine links.congr rfl rfl fun p _ => ⟨(w.pcb (getPcbByPid p)).regs, ?_⟩
  simp only [ProcView.enter]
  by_cases same : getPcbByPid p = getPcbByPid n
  · rw [same, Function.update_self]
  · rw [Function.update_of_ne same]

/-- The running terminal, and the pids and blocks of the others, are the same. -/
structure OthersKept (v v' : ProcView) : Prop where
  running : v'.currProcess = v.currProcess
  curr : ∀ t, t ≠ v.currProcess → v'.curr t = v.curr t
  pcb : ∀ t, t ≠ v.currProcess → v'.pcb (getPcbByPid (v.curr t)) = v.pcb (getPcbByPid (v.curr t))

/-- A view that differs in one block, which belongs to no other terminal. -/
theorem OthersKept.of_block {a : Nat} (running : v'.currProcess = v.currProcess)
    (curr : ∀ t, t ≠ v.currProcess → v'.curr t = v.curr t) (pcb : ∀ b, b ≠ a → v'.pcb b = v.pcb b)
    (own : ∀ t, t ≠ v.currProcess → getPcbByPid (v.curr t) ≠ a) : OthersKept v v' :=
  ⟨running, curr, fun t other => pcb _ (own t other)⟩

/-- The block of the running process belongs to no other terminal. -/
theorem Links.own_block (links : Links v F) (t : Term) (other : t ≠ v.currProcess) :
    getPcbByPid (v.curr t) ≠ getPcbByPid (v.curr v.currProcess) := by
  rw [links.curr, links.curr]
  exact links.cur_ne other

theorem Links.fresh_block (links : Links v F) (valid : ValidPid n) (fresh : n ∉ F.live) (t : Term) :
    getPcbByPid (v.curr t) ≠ getPcbByPid n := by
  rw [links.curr]
  exact getPcbByPid_ne valid fun same => fresh (same ▸ F.cur_live t)

theorem create_parRegs (v : ProcView) (n : Int) (r : Regs) : ((v.create n r).pcb (getPcbByPid n)).parRegs = r := by
  simp only [ProcView.create, Function.update_self]

theorem create_othersKept (own : ∀ t, t ≠ v.currProcess → getPcbByPid (v.curr t) ≠ getPcbByPid n) :
    OthersKept v ((v.enable n).create n r) :=
  .of_block rfl (fun _ other => Function.update_of_ne other _ _) (fun _ other => Function.update_of_ne other _ _) own

theorem RegsSaved.kept {saved : Term → Regs} (regs : RegsSaved v saved) (kept : OthersKept v v') : RegsSaved v' saved := by
  intro t other started
  rw [kept.running] at other
  rw [kept.curr t other] at started ⊢
  rw [kept.pcb t other]
  exact regs t other started

/-- A position outside the critical sections refers only to the terminal's pid and its parent. -/
theorem Calm.congr {env : Env} {t : Term} {code : Code} (calm : Calm env v t code) (curr : v'.curr t = v.curr t)
    (parent : (v'.pcb (getPcbByPid (v.curr t))).parPid = (v.pcb (getPcbByPid (v.curr t))).parPid) :
    Calm env v' t code := by
  cases code <;> simp only [Calm, curr, parent] at calm ⊢ <;> exact calm

end Views

section Settled
variable {env : Env} {m m' : Threads} {v v' : ProcView} {F F' : Forest Term Int} {held held' : Term → List Int}

theorem Settled.pid_eq (settled : Settled env m v F held) : v.pid = F.cur v.currProcess := settled.links.curr _

/-- A step of the running code that leaves the settled view as it is. -/
theorem Settled.move (settled : Settled env m v F held) (cur : m'.cur = m.cur) (regs : m'.regs = m.regs)
    (created : m'.created = m.created) (code : ∀ t, t ≠ m.cur → m'.code t = m.code t) : Settled env m' v F held where
  links := settled.links
  placed := settled.placed
  running := settled.running.trans cur.symm
  regs := regs ▸ settled.regs
  holding := settled.holding
  created := created ▸ settled.created
  others t other := by
    rw [cur] at other
    rw [code t other]
    exact settled.others t other

/-- A step of the running code to another settled view. -/
theorem Settled.renew (settled : Settled env m v F held) (links : Links v' F') (placed : v'.Placed)
    (kept : OthersKept v v') (cur : m'.cur = m.cur) (regs : m'.regs = m.regs)
    (code : ∀ t, t ≠ m.cur → m'.code t = m.code t) (holding : Holding F' held')
    (created : ∀ t, ∀ p ∈ F'.chain t, (v'.pcb (getPcbByPid p)).parRegs = m'.created t p) :
    Settled env m' v' F' held' := by
  refine ⟨links, placed, kept.running.trans (settled.running.trans cur.symm), by rw [regs]; exact settled.regs.kept kept,
    holding, created, fun t other => ?_⟩
  rw [cur] at other
  have other' : t ≠ v.currProcess := fun e => other (e.trans settled.running)
  rw [code t other]
  exact (settled.others t other).congr (kept.curr t other') (congrArg PcbLinks.parPid (kept.pcb t other'))

/-- The registers that a new launch stored, beside those of the chains it does not touch. -/
theorem created_update {t : Term} {n p : Int} {u : Term} {r : Regs} (other : ¬ (u = t ∧ p = n)) :
    Function.update m.created t (Function.update (m.created t) n r) u p = m.created u p := by
  by_cases same : u = t
  · subst same
    rw [Function.update_self, Function.update_of_ne fun e => other ⟨rfl, e⟩]
  · rw [Function.update_of_ne same]

/-- A child has been launched, up to the assignment of `prog_curr_pid`. -/
theorem Settled.launched (settled : Settled env m v F held) {n : Int} {r : Regs} (valid : ValidPid n)
    (fresh : n ∉ F.live) (stack : getCurrPcb r.esp = getPcbByPid v.pid) (cur : m'.cur = m.cur)
    (regs : m'.regs = m.regs) (code : ∀ t, t ≠ m.cur → m'.code t = m.code t)
    (created : m'.created = Function.update m.created m.cur (Function.update (m.created m.cur) n r)) :
    ∃ F', Settled env m' ((v.enable n).create n r) F' (withNew held m.cur n) := by
  have links := settled.links.launch valid fresh (settled.pid_eq ▸ stack)
  have placed := settled.placed.callStep settled.links (.launch valid fresh (settled.pid_eq ▸ stack))
  have chain : ∀ t, (F.push m.cur n fresh).chain t = if t = m.cur then insert n (F.chain m.cur) else F.chain t :=
    fun t => Forest.push_chain_at m.cur fresh t
  rw [settled.running] at links
  refine ⟨F.push m.cur n fresh, settled.renew links.of_enter ⟨placed.page, placed.stack⟩
    (create_othersKept fun t _ => settled.links.fresh_block valid fresh t) cur regs code
    (settled.holding.push fresh m.cur) fun t p member => ?_⟩
  rw [created]
  by_cases new : p = n
  · have own : t = m.cur := by
      by_contra other
      rw [chain, if_neg other, new] at member
      exact fresh (F.mem_live member)
    rw [new, own, Function.update_self, Function.update_self, create_parRegs]
  · have old : p ∈ F.chain t := by
      rw [chain] at member
      split at member
      · next own => rw [own]; exact (Set.mem_insert_iff.1 member).resolve_left new
      · exact member
    rw [created_update fun both => new both.2]
    exact (congrArg PcbLinks.parRegs (Function.update_of_ne (getPcbByPid_ne valid new) _ _)).trans
      (settled.created t p old)

/-- A base shell has been started again, up to the assignment of `prog_curr_pid`. -/
theorem Settled.restarted (settled : Settled env m v F held) {r : Regs} (root : v.pid < 3) (cur : m'.cur = m.cur)
    (regs : m'.regs = m.regs) (code : ∀ t, t ≠ m.cur → m'.code t = m.code t)
    (created : m'.created = Function.update m.created m.cur (Function.update (m.created m.cur) v.pid r)) :
    Settled env m' ((v.released.enable v.pid).create v.pid r) F (withNew (without held m.cur v.pid) m.cur v.pid) := by
  have pid := settled.pid_eq
  have valid : ValidPid v.pid := pid ▸ settled.links.cur_valid _
  have links := settled.links.restart r (pid ▸ root)
  have placed := settled.placed.callStep settled.links (.restart (r := r) (pid ▸ root))
  have holding := settled.holding.restart m.cur
  rw [← pid] at links placed
  rw [← settled.running, ← pid, settled.running] at holding
  refine settled.renew links.of_enter ⟨placed.page, placed.stack⟩ ?_ cur regs code holding fun t p member => ?_
  · exact .of_block rfl (fun _ other => Function.update_of_ne other _ _) (fun _ other => Function.update_of_ne other _ _)
      settled.links.own_block
  · rw [created]
    by_cases own : p = v.pid
    · have same : t = m.cur := by
        rw [← settled.running]
        refine F.chain_unique member ?_
        rw [own, pid]
        exact self_mem_ancestors _ _
      rw [own, same, Function.update_self, Function.update_self, create_parRegs]
    · rw [created_update fun both => own both.2]
      exact (congrArg PcbLinks.parRegs (Function.update_of_ne (getPcbByPid_ne valid own) _ _)).trans
        (settled.created t p member)

/-- The parent of a halted child runs. -/
theorem Settled.halted (settled : Settled env m v F held) (child : 3 ≤ v.pid) (cur : m'.cur = m.cur)
    (regs : m'.regs = m.regs) (code : ∀ t, t ≠ m.cur → m'.code t = m.code t) (created : m'.created = m.created) :
    ∃ F', Settled env m' (v.released.return_ (getPcbByPid v.pid)) F' (without held m.cur v.pid) := by
  have pid := settled.pid_eq
  have valid : ValidPid v.pid := pid ▸ settled.links.cur_valid _
  have inner := settled.links.cur_ne_root (pid ▸ child)
  have links := settled.links.halt (pid ▸ child) inner
  have placed := settled.placed.callStep settled.links (.halt (pid ▸ child))
  have holding := settled.holding.pop inner
  rw [← pid] at links placed holding
  rw [← settled.running]
  refine ⟨F.pop v.currProcess inner, settled.renew links placed ?_ cur regs code holding fun t p member => ?_⟩
  · exact .of_block rfl (fun _ other => Function.update_of_ne other _ _) (fun _ other => Function.update_of_ne other _ _)
      settled.links.own_block
  · have chain : (F.pop v.currProcess inner).chain t = F.chain t \ {F.cur v.currProcess} := Forest.pop_chain_at inner t
    rw [chain, ← pid] at member
    rw [created]
    exact (congrArg PcbLinks.parRegs (Function.update_of_ne (getPcbByPid_ne valid member.2) _ _)).trans
      (settled.created t p member.1)

/-- The parent of a terminal and the saved registers of the running process are
no part of what is settled. -/
theorem Settled.entered (settled : Settled env m v F held) (cur : m'.cur = m.cur) (regs : m'.regs = m.regs)
    (code : ∀ t, t ≠ m.cur → m'.code t = m.code t) (created : m'.created = m.created) (par : Term → Int) (r : Regs) :
    Settled env m' { v with
      par := par
      pcb := Function.update v.pcb (getPcbByPid v.pid) { v.pcb (getPcbByPid v.pid) with regs := r } } F held := by
  have blocks : ∀ a, ∃ r', Function.update v.pcb (getPcbByPid v.pid) { v.pcb (getPcbByPid v.pid) with regs := r } a =
      { v.pcb a with regs := r' } := by
    intro a
    by_cases same : a = getPcbByPid v.pid
    · exact ⟨r, by rw [same, Function.update_self]⟩
    · exact ⟨_, by rw [Function.update_of_ne same]⟩
  refine settled.renew (settled.links.congr rfl rfl fun p _ => blocks _) ⟨settled.placed.page, settled.placed.stack⟩ ?_
    cur regs code settled.holding fun t p member => ?_
  · exact .of_block rfl (fun _ _ => rfl) (fun _ other => Function.update_of_ne other _ _) settled.links.own_block
  · obtain ⟨r', e⟩ := blocks (getPcbByPid p)
    rw [created, ← settled.created t p member]
    exact (congrArg PcbLinks.parRegs e).trans rfl

theorem Settled.enter (settled : Settled env m v F held) : Settled env m (v.enter v.pid) F held :=
  settled.entered rfl rfl (fun _ _ => rfl) rfl
    (Function.update v.par v.currProcess (v.pcb (getPcbByPid v.pid)).parPid) ⟨userEsp, userEsp⟩

/-- A clock tick outside the critical sections. -/
theorem Settled.switch (settled : Settled env m v F held) (calm : Calm env v m.cur (m.code m.cur)) (r : Regs)
    (cur : m'.cur = m.cur + 1) (regs : m'.regs = Function.update m.regs m.cur r) (code : m'.code = m.code)
    (created : m'.created = m.created) :
    Settled env m' (v.switch r) F held ∧ Calm env (v.switch r) m'.cur (m'.code m'.cur) := by
  have blocks : ∀ a, ∃ r', (v.switch r).pcb a = { v.pcb a with regs := r' } := by
    intro a
    simp only [ProcView.switch, ProcView.save]
    by_cases same : a = getPcbByPid (v.curr v.currProcess)
    · exact ⟨r, by rw [same, Function.update_self]⟩
    · exact ⟨_, by rw [Function.update_of_ne same]⟩
  have positions : ∀ t, Calm env (v.switch r) t (m.code t) := by
    intro t
    have old : Calm env v t (m.code t) := by
      by_cases same : t = m.cur
      · rw [same]; exact calm
      · exact settled.others t same
    obtain ⟨r', e⟩ := blocks (getPcbByPid (v.curr t))
    exact old.congr rfl (by rw [e])
  rw [code]
  refine ⟨⟨settled.links.switch r, ProcView.switch_placed v r, ?_, ?_, settled.holding, fun t p member => ?_, ?_⟩,
    positions _⟩
  · rw [cur, ← settled.running]; rfl
  · rw [regs, ← settled.running]
    exact settled.regs.switch settled.links.apart r
  · obtain ⟨r', e⟩ := blocks (getPcbByPid p)
    rw [created, ← settled.created t p member, e]
  · intro t _
    rw [code]
    exact positions t

end Settled

end BigBrainOS
