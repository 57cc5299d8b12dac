import BigBrainOS.Preempt.Invariant

/-!
# Every step keeps the invariant

One lemma for each position of the code, first outside the critical sections and
then inside them, and from these the step lemma of the uninterrupted runs.
-/

namespace BigBrainOS
set_option autoImplicit false

section Positions
variable {env : Env} {m : Threads} {v : ProcView} {F : Forest Term Int} {held : Term → List Int}

theorem Threads.goto_code (m : Threads) (code : Code) : (m.goto code).code m.cur = code := Function.update_self _ _ _

theorem Threads.goto_other {t : Term} (other : t ≠ m.cur) (code : Code) : (m.goto code).code t = m.code t :=
  Function.update_of_ne other _ _

/-- The running code stands where it went, whatever it did to the kernel. -/
theorem Threads.run_position (m : Threads) (code : Code) {k : Kernel} (cur : k.currProcess = m.cur) :
    ((m.goto code).setKernel k).code ((m.goto code).setKernel k).cur = code := by
  rw [show ((m.goto code).setKernel k).cur = m.cur from cur]
  exact m.goto_code code

/-- A position outside the critical sections, on a kernel that is settled. -/
theorem Settled.inv_calm (settled : Settled env m v F held) (view : m.kernel.view = v) (same : m.held = held)
    {code : Code} (position : m.code m.cur = code) (calm : Calm env v m.cur code) : m.Inv env :=
  ⟨v, F, held, settled, Or.inl ⟨view, same, position ▸ calm⟩⟩

theorem Settled.inv_section (settled : Settled env m v F held) {code : Code} (position : m.code m.cur = code)
    (inside : InSection env m v F held code) : m.Inv env :=
  ⟨v, F, held, settled, Or.inr (position ▸ inside)⟩

/-- The running code does something to the kernel and moves on. -/
theorem Settled.run (settled : Settled env m v F held) (code : Code) {k : Kernel} (cur : k.currProcess = m.cur) :
    Settled env ((m.goto code).setKernel k) v F held ∧
      ((m.goto code).setKernel k).code ((m.goto code).setKernel k).cur = code :=
  ⟨settled.move cur rfl rfl fun _ other => m.goto_other other code, m.run_position code cur⟩

/-- The running code moves to a position outside the critical sections. -/
theorem Settled.goto_calm (settled : Settled env m v F held) (view : m.kernel.view = v) (same : m.held = held)
    {code : Code} (calm : Calm env v m.cur code) : (m.goto code).Inv env := by
  have moved : Settled env (m.goto code) v F held := settled.move rfl rfl rfl fun t other => m.goto_other other code
  exact moved.inv_calm view same (m.goto_code code) calm

/-- The running code moves to a position inside a critical section. -/
theorem Settled.goto_section (settled : Settled env m v F held) {code : Code}
    (inside : InSection env (m.goto code) v F held code) : (m.goto code).Inv env := by
  have moved : Settled env (m.goto code) v F held := settled.move rfl rfl rfl fun t other => m.goto_other other code
  exact moved.inv_section (m.goto_code code) inside

/-- What is printed is no part of what is settled. -/
theorem Settled.print (settled : Settled env m v F held) {k : Kernel} (view : k.view = m.kernel.view) :
    Settled env (m.setKernel k) v F held :=
  settled.move (congrArg ProcView.currProcess view) rfl rfl fun _ _ => rfl

/-! ## Outside the critical sections -/

theorem calm_check (settled : Settled env m v F held) (view : m.kernel.view = v) (same : m.held = held) {c : ExecCall}
    {cmd : Command} (calm : Calm env v m.cur (.check c cmd)) : (m.step env (.check c cmd)).Inv env := by
  simp only [Threads.step]
  split
  · rw [Threads.returned, calm.1]
    exact settled.goto_calm view same trivial
  · next inode found => exact settled.goto_calm view same ⟨calm, found⟩

/-- `get_new_pid` hands out a pid that nobody holds. -/
theorem calm_alloc (settled : Settled env m v F held) (view : m.kernel.view = v) (same : m.held = held) {c : ExecCall}
    {cmd : Command} {inode : Nat} (calm : Calm env v m.cur (.getNewPid c cmd inode)) :
    (m.step env (.getNewPid c cmd inode)).Inv env := by
  obtain ⟨⟨caller, stack⟩, check⟩ := calm
  have links : Links m.kernel.view F := view ▸ settled.links
  simp only [Threads.step, Threads.allocStep]
  cases alloc : getNewPid m.kernel with
  | none =>
    simp only [Threads.returned, caller]
    have printed := puts_view maxProcessesMessage m.kernel
    generalize puts maxProcessesMessage m.kernel = k at printed
    exact (settled.print printed).goto_calm (printed.trans view) same trivial
  | some n =>
    obtain ⟨valid, fresh⟩ := links.newPid_fresh alloc
    have read := Image.readData_eq (checkExecutable_valid check) 0 fourMB
    simp only [read]
    generalize launch : Launch.mk n _ _ _ c.fr.regs = l
    have pid : l.newPid = n := by rw [← launch]
    have regs : l.regs = c.fr.regs := by rw [← launch]
    have start : (m.setHeld fun pids => n :: pids).held = withNew held m.cur n := by rw [← same]; rfl
    have moved : Settled env (m.setHeld fun pids => n :: pids) v F held := settled.move rfl rfl rfl fun _ _ => rfl
    refine moved.goto_section ⟨by simp [launchStmts, createStmts], [], m.kernel, rfl, ?_, rfl⟩
    rw [view]
    refine .call caller (pid ▸ valid) (pid ▸ fresh) ?_ (pid ▸ start)
    rw [regs, ProcView.pid, settled.running]
    exact stack

/-- The statements behind the assignment of `prog_curr_pid`. -/
theorem calm_launch (settled : Settled env m v F held) (view : m.kernel.view = v) (same : m.held = held) {c : ExecCall}
    {l : Launch} {todo : List LaunchStmt} (calm : Calm env v m.cur (.launch c l todo)) :
    (m.step env (.launch c l todo)).Inv env := by
  obtain ⟨⟨past, split⟩, nonempty, pid⟩ := calm
  cases todo with
  | nil => exact absurd rfl nonempty
  | cons stmt rest =>
    have member : stmt ∈ enterStmts := by rw [← split]; exact List.mem_append_right _ List.mem_cons_self
    have running : l.newPid = v.pid := by rw [ProcView.pid, settled.running]; exact pid
    have silent : stmt ≠ .progCurrPid := fun e => absurd (e ▸ member) (by decide)
    obtain ⟨k, par, r, run, after⟩ := LaunchStmt.run_enter member l m.kernel
    rw [view, running] at after
    have cur : k.currProcess = m.cur := LaunchStmt.run_currProcess run
    simp only [Threads.step, Threads.launchStep, run, if_neg silent]
    generalize after_stmt : (if rest = [] then Code.user else .launch c l rest) = code
    have moved := settled.entered (show ((m.goto code).setKernel k).cur = m.cur from cur) rfl
      (fun _ other => m.goto_other other _) rfl par r
    rw [← after] at moved
    refine moved.inv_calm rfl same (m.run_position code cur) ?_
    rw [← after_stmt]
    by_cases last : rest = []
    · rw [if_pos last]; trivial
    · rw [if_neg last, after]
      refine ⟨⟨past ++ [stmt], by rw [← split]; simp⟩, last, ?_⟩
      show l.newPid = v.curr k.currProcess
      rw [cur]
      exact pid

/-- `sys_halt` up to the store of `tss.esp0`. -/
theorem calm_halt (settled : Settled env m v F held) (view : m.kernel.view = v) (same : m.held = held) {c : HaltCall}
    {todo : List HaltStmt} (calm : Calm env v m.cur (.halt c todo)) : (m.step env (.halt c todo)).Inv env := by
  obtain ⟨⟨⟨past, split⟩, pending⟩, h, parPid⟩ := calm
  rcases split_esp0 split pending with ⟨-, rfl⟩ | ⟨-, rfl⟩
  · obtain ⟨moved, position⟩ := settled.run (.halt c releaseStmts.tail) (k := HaltStmt.ss0.run c.h m.kernel) rfl
    exact moved.inv_calm view same position ⟨⟨⟨[.ss0], rfl⟩, by decide⟩, h, parPid⟩
  · rw [← settled.running] at h parPid
    obtain ⟨moved, position⟩ := settled.run (.halt c releaseStmts.tail.tail) (k := HaltStmt.esp0.run c.h m.kernel) rfl
    refine moved.inv_section position ⟨⟨⟨h, parPid⟩, by decide⟩, ?_, [.esp0], m.kernel, rfl, view, rfl⟩
    rw [if_pos (by decide)]
    exact same

theorem calm_haltPid (settled : Settled env m v F held) (view : m.kernel.view = v) (same : m.held = held) {addr : Nat}
    {status : UInt8} {fr exc : ExecFrame} (calm : Calm env v m.cur (.haltPid addr status fr exc)) :
    (m.step env (.haltPid addr status fr exc)).Inv env := by
  have found : addr = getPcbByPid (v.curr m.cur) := calm
  have own : (m.kernel.pcbs addr).pid = v.curr m.cur := by
    have pid := settled.links.pid _ (F.cur_live m.cur)
    have block : (m.kernel.pcbs addr).pid = (v.pcb addr).pid := by rw [← view]; rfl
    rw [← settled.links.curr] at pid
    rw [block, found, pid]
  refine settled.goto_calm view same ⟨⟨⟨[], rfl⟩, by simp [releaseStmts]⟩, ?_, ?_⟩
  · show Halt.mk addr (m.kernel.pcbs addr).pid = _
    rw [own, found]
  · show (m.kernel.pcbs addr).parPid = _
    rw [found, ← view]
    rfl

/-! ## Inside `sys_execute` -/

theorem Began.move {m' : Threads} {c : ExecCall} {l : Launch} {w : ProcView} (began : Began m v F held c l w)
    (pids : m'.held = m.held) (cur : m'.cur = m.cur) : Began m' v F held c l w := by
  cases began with
  | call caller valid fresh stack same => exact .call caller valid fresh stack (by rw [pids, cur]; exact same)
  | restart own root room same => exact .restart own root room (by rw [pids, cur]; exact same)

/-- The new process takes over its terminal. -/
theorem launch_settles (settled : Settled env m v F held) {c : ExecCall} {l : Launch} {k k' : Kernel}
    (began : Began m v F held c l k.view) (view : k'.view = (k.view.enable l.newPid).create l.newPid l.regs) :
    (((m.goto (.launch c l enterStmts)).setCreated l.newPid l.regs).setKernel k').Inv env := by
  generalize taken : ((m.goto (.launch c l enterStmts)).setCreated l.newPid l.regs).setKernel k' = m'
  have kernel : m'.kernel = k' := by rw [← taken]; rfl
  have regs : m'.regs = m.regs := by rw [← taken]; rfl
  have pids : m'.held = m.held := by rw [← taken]; rfl
  have created : m'.created =
      Function.update m.created m.cur (Function.update (m.created m.cur) l.newPid l.regs) := by rw [← taken]; rfl
  have code : ∀ t, t ≠ m.cur → m'.code t = m.code t := by
    intro t other
    rw [← taken]
    exact m.goto_other other _
  have position : m'.code m.cur = .launch c l enterStmts := by rw [← taken]; exact m.goto_code _
  have calm : ∀ w : ProcView, k'.view = (w.enable l.newPid).create l.newPid l.regs → w.currProcess = m.cur →
      m'.cur = m.cur ∧ Calm env ((w.enable l.newPid).create l.newPid l.regs) m'.cur (.launch c l enterStmts) := by
    intro w same running
    have cur : m'.cur = m.cur := by
      rw [← running]
      show m'.kernel.currProcess = w.currProcess
      rw [kernel]
      exact congrArg ProcView.currProcess same
    refine ⟨cur, ⟨[], rfl⟩, by decide, ?_⟩
    rw [cur, ← running]
    show l.newPid = Function.update w.curr w.currProcess l.newPid w.currProcess
    rw [Function.update_self]
  generalize began_at : k.view = w at began view
  cases began with
  | call caller valid fresh stack same =>
    obtain ⟨cur, calm⟩ := calm v view settled.running
    obtain ⟨F', moved⟩ := settled.launched valid fresh stack cur regs code created
    exact moved.inv_calm (by rw [kernel, view]) (pids.trans same) (by rw [cur]; exact position) calm
  | restart own root room same =>
    obtain ⟨cur, calm⟩ := calm v.released view settled.running
    rw [own] at created view calm
    have moved := settled.restarted root cur regs code created
    exact moved.inv_calm (by rw [kernel, view]) (pids.trans same) (by rw [cur]; exact position) calm

theorem Threads.faulted_toParent {c : ExecCall} {r : Regs} {status : UInt8} {k : Kernel}
    (halted : pfHandler env c.exc m.kernel = (.toParent r status, k)) :
    m.faulted env c =
      ((m.setHeld fun pids => pids.tail.erase (m.kernel.currPid m.cur)).setKernel k).goto .user := by
  unfold Threads.faulted
  rw [halted]

theorem Threads.faulted_restarted {c : ExecCall} {pid : Int} {k : Kernel}
    (halted : pfHandler env c.exc m.kernel = (.restarted pid, k)) :
    m.faulted env c =
      (((m.setHeld fun pids => pid :: pids.tail.erase pid).setCreated pid c.exc.regs).setKernel k).goto .user := by
  unfold Threads.faulted
  rw [halted]

/-- A page fault of the loader halts the process that made the call. -/
theorem section_fault (loadable : ShellLoadable env) (settled : Settled env m v F held) {c : ExecCall} {l : Launch}
    {k : Kernel} {past rest : List LaunchStmt} {stmt : LaunchStmt} (split : past ++ stmt :: rest = launchStmts l)
    (began : Began m v F held c l k.view) (ran : runLaunch l past k = .ok m.kernel)
    (fault : stmt.run l m.kernel = none) : (m.faulted env c).Inv env := by
  obtain ⟨view, maps, j, small, store⟩ := launch_fault split ran fault
  generalize began_at : k.view = w at began
  cases began with
  | restart own root room same =>
    have address := translate_program maps (show 0x8000000 ≤ progLoadAddr + j by simp only [progLoadAddr]; omega)
      (show progLoadAddr + j < 0x8400000 by simp only [progLoadAddr, programRoom] at room ⊢; omega)
    rw [Kernel.writeByte, address] at store
    cases store
  | call caller valid fresh stack same =>
    have links : Links k.view F := began_at ▸ settled.links
    have running : k.currProcess = m.cur := (congrArg ProcView.currProcess began_at).trans settled.running
    have pid : F.cur k.currProcess = v.pid := by
      rw [settled.pid_eq, ← began_at]; rfl
    have current : m.kernel.currPid m.cur = v.pid := by
      rw [ProcView.pid, settled.running, ← began_at]
      exact congrArg (fun w : ProcView => w.curr m.cur) view
    -- the pid of the launch is given back, and the caller's is released or handed out again
    have tail : ∀ f : List Int → List Int, (m.setHeld fun pids => f pids.tail).held =
        Function.update held m.cur (f (held m.cur)) := by
      intro f
      show Function.update m.held m.cur (f (m.held m.cur).tail) = _
      rw [same, withNew, Function.update_self, Function.update_idem, List.tail_cons]
    rcases links.pfHandler_cases loadable c.exc view with ⟨s₂, child, halted, view₂⟩ | ⟨s₂, root, halted, view₂⟩
    · rw [pid, began_at] at view₂
      rw [pid] at child
      rw [Threads.faulted_toParent halted, current]
      have cur : s₂.currProcess = m.cur := (congrArg ProcView.currProcess view₂).trans settled.running
      have pids := tail fun pids => pids.erase v.pid
      generalize ended : (m.setHeld fun pids => pids.tail.erase v.pid).setKernel s₂ = m'
      have kernel : m'.kernel = s₂ := by rw [← ended]; rfl
      have cur' : m'.cur = m.cur := by rw [← cur, ← kernel]
      have code : ∀ t, m'.code t = m.code t := by intro t; rw [← ended]; rfl
      obtain ⟨F', moved⟩ := settled.halted child cur' (by rw [← ended]; rfl) (fun t _ => code t) (by rw [← ended]; rfl)
      exact moved.goto_calm (by rw [kernel, view₂]; rfl) (by rw [← ended]; exact pids) trivial
    · rw [pid, began_at] at view₂
      rw [pid] at root halted
      rw [Threads.faulted_restarted halted]
      have cur : s₂.currProcess = m.cur := (congrArg ProcView.currProcess view₂).trans settled.running
      have pids := tail fun pids => v.pid :: pids.erase v.pid
      generalize ended : ((m.setHeld fun pids => v.pid :: pids.tail.erase v.pid).setCreated v.pid c.exc.regs).setKernel
        s₂ = m'
      have kernel : m'.kernel = s₂ := by rw [← ended]; rfl
      have cur' : m'.cur = m.cur := by rw [← cur, ← kernel]
      have code : ∀ t, m'.code t = m.code t := by intro t; rw [← ended]; rfl
      have started := settled.restarted root cur' (by rw [← ended]; rfl) (fun t _ => code t)
        (r := c.exc.regs) (by rw [← ended]; rfl)
      -- the launch of the handler is complete, its last statements included
      have own : ((v.released.enable v.pid).create v.pid c.exc.regs).pid = v.pid := Function.update_self _ _ _
      have entered := started.enter
      rw [own] at entered
      refine entered.goto_calm ?_ (by rw [← ended, withNew, without, Function.update_self, Function.update_idem]; exact pids)
        trivial
      rw [kernel, view₂]
      rfl

/-- A statement of a launch up to the assignment of `prog_curr_pid`. -/
theorem section_launch (loadable : ShellLoadable env) (settled : Settled env m v F held) {c : ExecCall} {l : Launch}
    {todo : List LaunchStmt} (inside : InSection env m v F held (.launch c l todo)) :
    (m.step env (.launch c l todo)).Inv env := by
  obtain ⟨pending, past, k, split, began, ran⟩ := inside
  cases todo with
  | nil => cases pending
  | cons stmt rest =>
    simp only [Threads.step, Threads.launchStep]
    cases run : stmt.run l m.kernel with
    | none => exact section_fault loadable settled split began ran run
    | some k' =>
      have ran' := runLaunch_concat ran run
      by_cases assign : stmt = .progCurrPid
      · subst assign
        obtain ⟨whole, rfl⟩ := split_progCurrPid split
        rw [whole] at ran'
        exact launch_settles settled began (runLaunch_created ran')
      · have more : .progCurrPid ∈ rest := (List.mem_cons.1 pending).resolve_left fun e => assign e.symm
        have nonempty : rest ≠ [] := List.ne_nil_of_mem more
        simp only [if_neg nonempty, if_neg assign]
        obtain ⟨moved, position⟩ := settled.run (.launch c l rest) (LaunchStmt.run_currProcess run)
        refine moved.inv_section position ⟨more, past ++ [stmt], k, by rw [← split]; simp, ?_, ran'⟩
        exact began.move rfl (LaunchStmt.run_currProcess run)

/-! ## The restart of a base shell -/

theorem section_check (loadable : ShellLoadable env) (settled : Settled env m v F held) {c : ExecCall} {cmd : Command}
    (inside : InSection env m v F held (.check c cmd)) : (m.step env (.check c cmd)).Inv env := by
  obtain ⟨restart, rfl⟩ := inside
  obtain ⟨inode, found, -⟩ := checkExecutable_shell loadable c.fr
  simp only [Threads.step, found]
  exact settled.goto_section ⟨restart, rfl, found⟩

/-- A base shell that halted is the lowest free pid. -/
theorem getNewPid_released (settled : Settled env m v F held) (root : v.pid < 3) {k : Kernel} (view : k.view = v.released) :
    getNewPid k = some v.pid := by
  have pid := settled.pid_eq
  obtain ⟨low, high⟩ : ValidPid v.pid := pid ▸ settled.links.cur_valid _
  have used : k.usedPids = Function.update v.usedPids v.pid false := congrArg ProcView.usedPids view
  rw [getNewPid_eq_some, used]
  refine ⟨⟨low, high⟩, Function.update_self _ _ _, fun q hq below => ?_⟩
  rw [Function.update_of_ne (by omega)]
  exact (settled.links.used q).2 (settled.links.base_live hq (by omega))

theorem section_alloc (loadable : ShellLoadable env) (settled : Settled env m v F held) {c : ExecCall} {cmd : Command}
    {inode : Nat} (inside : InSection env m v F held (.getNewPid c cmd inode)) :
    (m.step env (.getNewPid c cmd inode)).Inv env := by
  obtain ⟨⟨-, root, view, same⟩, rfl, check⟩ := inside
  obtain ⟨inode', found, -, room⟩ := checkExecutable_shell loadable c.fr
  obtain rfl : inode' = inode := Option.some.inj (found.symm.trans check)
  have alloc := getNewPid_released settled root view
  have read := Image.readData_eq (checkExecutable_valid check) 0 fourMB
  simp only [Threads.step, Threads.allocStep, alloc, read]
  generalize launch : Launch.mk v.pid _ _ _ c.fr.regs = l
  have pid : l.newPid = v.pid := by rw [← launch]
  have length : l.program.length ≤ programRoom := by
    refine Nat.le_trans ?_ room
    rw [← launch, ← Image.fileContent_length]
    exact List.length_take_le' _ _
  have moved : Settled env (m.setHeld fun pids => v.pid :: pids) v F held := settled.move rfl rfl rfl fun _ _ => rfl
  refine moved.goto_section ⟨by simp [launchStmts, createStmts], [], m.kernel, rfl, ?_, rfl⟩
  rw [view]
  refine .restart pid root length ?_
  show Function.update m.held m.cur (v.pid :: m.held m.cur) = _
  rw [same]
  rfl

/-! ## Inside `sys_halt` -/

/-- A statement of `sys_halt` up to the closing of the files. -/
theorem section_halt (settled : Settled env m v F held) {c : HaltCall} {stmt : HaltStmt} {rest : List HaltStmt}
    (inside : InSection env m v F held (.halt c (stmt :: rest))) : (m.haltStep c stmt rest).Inv env := by
  obtain ⟨⟨own, done⟩, same, past, k, split, view, ran⟩ := inside
  have cur : (stmt.run c.h m.kernel).currProcess = m.cur := HaltStmt.run_currProcess c.h stmt m.kernel
  have later : .esp0 ∉ rest := fun member => done (List.mem_cons_of_mem _ member)
  have ran' : stmt.run c.h m.kernel = runHalt c.h (past ++ [stmt]) k := by rw [runHalt_concat, ← ran]
  by_cases release : stmt = .usedPids
  · subst release
    have once := split_usedPids split
    rw [if_pos List.mem_cons_self] at same
    have given : Settled env (m.setHeld fun pids => pids.erase c.h.pid) v F held := settled.move rfl rfl rfl fun _ _ => rfl
    obtain ⟨moved, position⟩ := given.run (.halt c rest) cur
    refine moved.inv_section position ⟨⟨own, later⟩, ?_, past ++ [HaltStmt.usedPids], k, by rw [← split]; simp, view, ran'⟩
    rw [if_neg once]
    show Function.update m.held m.cur ((m.held m.cur).erase c.h.pid) = without held m.cur v.pid
    rw [same, own.h]
    rfl
  · have step : m.haltStep c stmt rest = (m.goto (.halt c rest)).setKernel (stmt.run c.h m.kernel) := by
      simp only [Threads.haltStep, if_neg release]
      rfl
    rw [step]
    obtain ⟨moved, position⟩ := settled.run (.halt c rest) cur
    refine moved.inv_section position ⟨⟨own, later⟩, ?_, past ++ [stmt], k, by rw [← split]; simp, view, ran'⟩
    show m.held = if .usedPids ∈ rest then held else without held (stmt.run c.h m.kernel).currProcess v.pid
    have pending : .usedPids ∈ stmt :: rest ↔ .usedPids ∈ rest := by
      rw [List.mem_cons]
      exact or_iff_right fun e => release e.symm
    simp only [cur, same, pending]

/-- The files are closed. -/
theorem section_closed (settled : Settled env m v F held) {c : HaltCall}
    (inside : InSection env m v F held (.halt c [])) : (m.closed env c).Inv env := by
  obtain ⟨⟨own, -⟩, same, past, k, split, view, ran⟩ := inside
  rw [List.append_nil] at split
  subst split
  have released : m.kernel.view = v.released := by
    rw [ran, runHalt_release_tail, view, own.h]
    rfl
  have pid : c.h.pid = v.pid := by rw [own.h]
  have pids : m.held = without held m.cur v.pid := by rw [same, if_neg List.not_mem_nil]
  unfold Threads.closed
  split
  · next root =>
    have printed := puts_view exitedRootMessage m.kernel
    generalize puts exitedRootMessage m.kernel = k' at printed
    obtain ⟨moved, position⟩ := settled.run (.parse ⟨c.fr, c.exc, shellCommand env, some c⟩)
      (congrArg ProcView.currProcess printed)
    have cur : k'.currProcess = m.cur := congrArg ProcView.currProcess printed
    refine moved.inv_section position ⟨⟨rfl, by simp⟩, pid ▸ root, printed.trans released, ?_⟩
    show m.held = without held k'.currProcess v.pid
    rw [cur]
    exact pids
  · next child =>
    exact settled.goto_section ⟨⟨own, by omega, pids⟩, [], m.kernel, rfl, released, rfl⟩

/-- The assignments of the pids of the terminal. -/
theorem section_parent (settled : Settled env m v F held) {c : HaltCall} {todo : List HaltStmt}
    (inside : InSection env m v F held (.parent c todo)) : (m.step env (.parent c todo)).Inv env := by
  obtain ⟨⟨own, child, same⟩, past, k, split, view, ran⟩ := inside
  cases todo with
  | nil =>
    rw [List.append_nil] at split
    subst split
    refine settled.goto_section ⟨⟨own, child, same⟩, ⟨k, view, ran⟩, ?_⟩
    have live : v.pid ∈ F.chain m.cur := by
      rw [settled.pid_eq, settled.running]; exact self_mem_ancestors _ _
    show (m.kernel.pcbs c.h.addr).parRegs = m.created m.cur v.pid
    rw [← settled.created _ _ live, ran, own.h]
    exact congrArg (fun w : ProcView => (w.pcb (getPcbByPid v.pid)).parRegs) view
  | cons stmt rest =>
    have cur := HaltStmt.run_currProcess c.h stmt m.kernel
    obtain ⟨moved, position⟩ := settled.run (.parent c rest) cur
    refine moved.inv_section position ⟨⟨own, child, ?_⟩, past ++ [stmt], k, by rw [← split]; simp, view, ?_⟩
    · show m.held = without held (stmt.run c.h m.kernel).currProcess v.pid
      rw [cur]
      exact same
    · rw [runHalt_concat, ← ran]
      rfl

/-- The block is cleared. -/
theorem section_clear (settled : Settled env m v F held) {c : HaltCall} {parRegs : Regs}
    (inside : InSection env m v F held (.clear c parRegs)) : (m.step env (.clear c parRegs)).Inv env := by
  obtain ⟨child, ⟨k, view, ran⟩, regs⟩ := inside
  obtain ⟨moved, position⟩ := settled.run (.jump c parRegs) (HaltStmt.run_currProcess c.h .clearPcb m.kernel)
  refine moved.inv_section position ⟨child, ?_, regs⟩
  obtain ⟨k', returned, after⟩ := returnToParent_view c.h c.status k
  have last : k' = HaltStmt.clearPcb.run c.h m.kernel := by
    rw [ran]
    exact (congrArg Prod.snd returned).symm
  show (HaltStmt.clearPcb.run c.h m.kernel).view = _
  rw [← last, after, view, child.1.h]

/-- The jump to the parent. -/
theorem section_jump (settled : Settled env m v F held) {c : HaltCall} {parRegs : Regs}
    (inside : InSection env m v F held (.jump c parRegs)) : (m.step env (.jump c parRegs)).Inv env := by
  obtain ⟨⟨own, child, same⟩, view, -⟩ := inside
  obtain ⟨F', moved⟩ := settled.halted child rfl rfl (fun t _ => rfl) rfl
  exact moved.goto_calm view same trivial

/-! ## The step lemma -/

/-- A tick gives the next terminal its registers back. -/
theorem Threads.tick_eq (apart : Apart m.kernel.view) (saved : RegsSaved m.kernel.view m.regs) (env : Env) (r : Regs)
    (fr : ExecFrame) :
    ∃ k, m.tick env r fr = { m with kernel := k, regs := Function.update m.regs m.cur r } ∧
      k.view = m.kernel.view.switch r := by
  obtain ⟨k, switched, view⟩ := switchRunningProcess_switch env r fr (apart.started m.kernel.currProcess)
    (apart.started _)
  have resumed : (k.pcb (k.currPid k.currProcess)).regs = m.regs (m.cur + 1) := by
    have regs := saved.resumed apart r
    rw [← view] at regs
    exact regs
  refine ⟨k, ?_, view⟩
  unfold Threads.tick
  rw [switched, resumed]
  simp only [if_true]

theorem tick_inv (settled : Settled env m v F held) (view : m.kernel.view = v) (same : m.held = held)
    (calm : Calm env v m.cur (m.code m.cur)) (r : Regs) (fr : ExecFrame) : (m.tick env r fr).Inv env := by
  subst view
  obtain ⟨k, step, view⟩ := m.tick_eq settled.links.apart settled.regs env r fr
  rw [step]
  have next : k.currProcess = m.cur + 1 := congrArg ProcView.currProcess view
  obtain ⟨moved, position⟩ : Settled env { m with kernel := k, regs := Function.update m.regs m.cur r } _ _ _ ∧ _ :=
    settled.switch calm r next rfl rfl rfl
  exact moved.inv_calm view same rfl position

/-- The positions inside the critical sections are those that must not be interrupted. -/
theorem InSection.critical {code : Code} (inside : InSection env m v F held code) : code.Critical := by
  cases code with
  | parse c => exact Option.isSome_iff_ne_none.2 inside.1.2
  | check c cmd => exact Option.isSome_iff_ne_none.2 inside.1.1.2
  | getNewPid c cmd inode => exact Option.isSome_iff_ne_none.2 inside.1.1.2
  | launch c l todo => exact inside.1
  | halt c todo => exact inside.1.2
  | unreadable c n => exact inside.elim
  | parent c todo => trivial
  | clear c r => trivial
  | jump c r => trivial
  | user => exact inside.elim
  | haltPid a status fr exc => exact inside.elim
  | lost => exact inside.elim

/-- A statement outside the critical sections. -/
theorem calm_next (settled : Settled env m v F held) (view : m.kernel.view = v) (same : m.held = held) {code : Code}
    (position : m.code m.cur = code) (calm : Calm env v m.cur code) : (m.step env code).Inv env := by
  cases code with
  | user => exact settled.inv_calm view same position calm
  | parse c => exact settled.goto_calm view same (show Calm env v m.cur (.check c _) from calm)
  | check c cmd => exact calm_check settled view same calm
  | getNewPid c cmd inode => exact calm_alloc settled view same calm
  | launch c l todo => exact calm_launch settled view same calm
  | haltPid addr status fr exc => exact calm_haltPid settled view same calm
  | halt c todo => exact calm_halt settled view same calm
  | unreadable c n => exact calm.elim
  | parent c todo => exact calm.elim
  | clear c r => exact calm.elim
  | jump c r => exact calm.elim
  | lost => exact calm.elim

/-- A statement inside a critical section. -/
theorem section_next (loadable : ShellLoadable env) (settled : Settled env m v F held) {code : Code}
    (inside : InSection env m v F held code) : (m.step env code).Inv env := by
  cases code with
  | parse c =>
    have parsed : parse c.fr c.command = parse c.fr (shellCommand env) := by rw [inside.1.1]
    exact settled.goto_section (show InSection env (m.goto _) v F held (.check c _) from ⟨inside, parsed⟩)
  | check c cmd => exact section_check loadable settled inside
  | getNewPid c cmd inode => exact section_alloc loadable settled inside
  | launch c l todo => exact section_launch loadable settled inside
  | halt c todo =>
    cases todo with
    | nil => exact section_closed settled inside
    | cons stmt rest => exact section_halt settled inside
  | parent c todo => exact section_parent settled inside
  | clear c r => exact section_clear settled inside
  | jump c r => exact section_jump settled inside
  | user => exact inside.elim
  | unreadable c n => exact inside.elim
  | haltPid a status fr exc => exact inside.elim
  | lost => exact inside.elim

/-- **Step lemma.** Every step keeps the invariant, unless it is a tick in a critical section. -/
theorem Threads.Inv.step (loadable : ShellLoadable env) {act : Act} (inv : m.Inv env) (allowed : act.Allowed m)
    (uninterrupted : Uninterrupted m act) : (act.run env m).Inv env := by
  obtain ⟨v, F, held, settled, state⟩ := inv
  cases act with
  | next =>
    rcases state with ⟨view, same, calm⟩ | inside
    · exact calm_next settled view same rfl calm
    · exact section_next loadable settled inside
  | tick r fr =>
    rcases state with ⟨view, same, calm⟩ | inside
    · exact tick_inv settled view same calm r fr
    · exact absurd inside.critical (uninterrupted r fr rfl)
  | execute fr exc command =>
    obtain ⟨user, stack⟩ := allowed
    rw [user] at state
    obtain ⟨view, same, -⟩ := state.resolve_right id
    have top : m.kernel.tss.esp0 = kernelStackTop (F.cur m.cur) := by
      rw [← settled.links.curr, ← settled.running, ← settled.placed.stack, ← view]
      rfl
    have own : getCurrPcb fr.regs.esp = getPcbByPid (v.curr m.cur) := by
      rw [settled.links.curr]
      exact getCurrPcb_of_onStack (settled.links.cur_valid _) (top ▸ stack)
    exact settled.goto_calm view same (show Calm env v m.cur (.parse ⟨fr, exc, command, none⟩) from ⟨rfl, own⟩)
  | halt fr exc status =>
    have user : m.code m.cur = .user := allowed
    rw [user] at state
    obtain ⟨view, same, -⟩ := state.resolve_right id
    have started : m.kernel.currPid m.cur ≠ -1 := (view ▸ settled.links : Links m.kernel.view F).currPid_ne _
    simp only [Act.run, if_neg started]
    have own : getPcbByPid (m.kernel.currPid m.cur) = getPcbByPid (v.curr m.cur) := by
      rw [← view]
      rfl
    exact settled.goto_calm view same (show Calm env v m.cur (.haltPid _ status fr exc) from own)
  | putc c =>
    have user : m.code m.cur = .user := allowed
    rw [user] at state
    obtain ⟨view, same, -⟩ := state.resolve_right id
    have printed := putc_view c m.kernel
    have cur : (putc c m.kernel).currProcess = m.cur := congrArg ProcView.currProcess printed
    have position : m.code (putc c m.kernel).currProcess = .user := by rw [cur]; exact user
    exact (settled.print printed).inv_calm (printed.trans view) same position trivial

end Positions

/-- Every state of an uninterrupted run from boot meets the invariant. -/
theorem Threads.Start.inv {env : Env} {m : Threads} (start : m.Start) : m.Inv env := by
  obtain ⟨shells, placed⟩ := afterBoot_iff.1 start.boot
  have chain : ∀ t, baseForest.chain t = {(t.val : Int)} := fun t => ancestors_root rfl
  have settled : Settled env m m.kernel.view baseForest m.held := by
    refine ⟨shells.tree.toLinks, placed, rfl, ?_, ⟨fun t p => ?_, fun t => ?_⟩, fun t p member => ?_, fun t _ => ?_⟩
    · intro t other _
      have curr : m.kernel.view.curr t = t.val := start.boot.curr t
      rw [curr]
      exact start.regs t other
    · rw [start.held, chain]
      simp
    · rw [start.held]
      simp
    · rw [chain] at member
      obtain rfl := Set.mem_singleton_iff.1 member
      exact (start.created t).symm
    · rw [start.code]
      trivial
  exact settled.inv_calm rfl rfl (start.code _) trivial

theorem inv_of_reach {env : Env} (loadable : ShellLoadable env) {m : Threads}
    (run : ((preemptible env).restrict Uninterrupted).Reach Threads.Start m) : m.Inv env :=
  run.invariant (fun _ start => start.inv) fun _ _ inv allowed => inv.step loadable allowed.1 allowed.2

end BigBrainOS
