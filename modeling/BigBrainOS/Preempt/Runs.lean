import BigBrainOS.Preempt.Steps

/-!
# Runs into the windows

Runs that stop a call at a chosen statement. They need no tick, so the invariant
still holds where they stop. A round of ticks then leads back to the same
statement, with the page and the stack of the process that the terminal names.
-/

namespace BigBrainOS
set_option autoImplicit false

open TransitionSystem (Reach)

section Calls
variable {env : Env} {m : Threads}

theorem Threads.goto_goto (m : Threads) (a b : Code) : (m.goto a).goto b = m.goto b := by
  simp only [Threads.goto, Function.update_idem]

/-- A statement of the running code, from a position that is known. -/
theorem next_goto (m : Threads) (code : Code) :
    (preemptible env).next (m.goto code) .next = (m.goto code).step env code := by
  show (m.goto code).step env ((m.goto code).code m.cur) = _
  rw [m.goto_code]

/-- A process calls `sys_execute` for the shell: the call gets a pid. -/
theorem exec_shellCall (loadable : ShellLoadable env) {n : Int} (alloc : getNewPid m.kernel = some n) (fr exc : ExecFrame) :
    ∃ l, l.newPid = n ∧ 0 < l.program.length ∧ l.program.length ≤ programRoom ∧
      (preemptible env).exec m [.execute fr exc (shellCommand env), .next, .next, .next] =
        (m.setHeld fun pids => n :: pids).goto (.launch ⟨fr, exc, shellCommand env, none⟩ l (launchStmts l)) := by
  obtain ⟨inode, check, nonempty, room⟩ := checkExecutable_shell loadable fr
  have read := Image.readData_eq (checkExecutable_valid check) 0 fourMB
  generalize program : List.take fourMB _ = bytes at read
  have length : bytes.length = min fourMB (env.img.lengthInBytes inode) := by
    rw [← program, List.length_take, List.drop_zero, Image.fileContent_length]
  let cmd := parse fr (shellCommand env)
  let c : ExecCall := ⟨fr, exc, shellCommand env, none⟩
  refine ⟨⟨n, bytes, cmd.haveArgs, cmd.arguments, fr.regs⟩, rfl, ?_, ?_, ?_⟩
  · show 0 < bytes.length
    simp only [fourMB] at length
    omega
  · show bytes.length ≤ programRoom
    omega
  · have parsed : (preemptible env).next (m.goto (.parse c)) .next = m.goto (.check c cmd) := by
      rw [next_goto]
      exact m.goto_goto _ _
    have checked : (preemptible env).next (m.goto (.check c cmd)) .next = m.goto (.getNewPid c cmd inode) := by
      rw [next_goto]
      simp only [Threads.step, check, c, cmd]
      exact m.goto_goto _ _
    have called : (preemptible env).next m (.execute fr exc (shellCommand env)) = m.goto (.parse c) := rfl
    rw [TransitionSystem.exec_cons, called, TransitionSystem.exec_cons, parsed, TransitionSystem.exec_cons, checked,
      TransitionSystem.exec_cons, TransitionSystem.exec_nil, next_goto]
    simp only [Threads.step, Threads.allocStep]
    rw [show (m.goto (.getNewPid c cmd inode)).kernel = m.kernel from rfl, alloc]
    simp only [read]
    simp only [Threads.goto, Threads.setHeld, Function.update_idem]
    rfl

/-- The running code executes a statement of a launch. -/
theorem Threads.launchStep_to (m : Threads) (env : Env) (c : ExecCall) {l : Launch} {stmt : LaunchStmt}
    {rest : List LaunchStmt} {k : Kernel} (run : stmt.run l m.kernel = some k) (more : rest ≠ []) :
    ∃ m', m.launchStep env c l stmt rest = m' ∧ m'.kernel = k ∧ m'.regs = m.regs ∧
      m'.code = Function.update m.code m.cur (.launch c l rest) := by
  refine ⟨_, rfl, ?_⟩
  simp only [Threads.launchStep, run, if_neg more]
  split <;> exact ⟨rfl, rfl, rfl⟩

/-- The running code executes a statement of `sys_halt`. -/
theorem Threads.haltStep_position (m : Threads) (c : HaltCall) (stmt : HaltStmt) (rest : List HaltStmt) :
    (m.haltStep c stmt rest).code (m.haltStep c stmt rest).cur = .halt c rest := by
  have position := m.run_position (.halt c rest) (HaltStmt.run_currProcess c.h stmt m.kernel)
  simp only [Threads.haltStep]
  split <;> exact position

/-- The end of `sys_halt` leaves the pages alone. -/
theorem exec_jump (env : Env) {c : HaltCall} (position : m.code m.cur = .parent c [.progCurrPid, .progParPid]) :
    ∃ m' parRegs, (preemptible env).exec m [.next, .next, .next, .next] = m' ∧ m'.code m'.cur = .jump c parRegs ∧
      m'.kernel.pageDirectory = m.kernel.pageDirectory := by
  have step : ∀ {m : Threads} {code : Code}, m.code m.cur = code → (preemptible env).next m .next = m.step env code :=
    fun {m _} position => position ▸ rfl
  let m₁ := (m.goto (.parent c [.progParPid])).setKernel (HaltStmt.progCurrPid.run c.h m.kernel)
  let m₂ := (m₁.goto (.parent c [])).setKernel (HaltStmt.progParPid.run c.h m₁.kernel)
  let parRegs := (m₂.kernel.pcbs c.h.addr).parRegs
  let m₃ := m₂.goto (.clear c parRegs)
  let m₄ := (m₃.goto (.jump c parRegs)).setKernel (HaltStmt.clearPcb.run c.h m₃.kernel)
  have first : (preemptible env).next m .next = m₁ := step position
  have second : (preemptible env).next m₁ .next = m₂ := step (m.run_position _ (HaltStmt.run_currProcess c.h _ _))
  have third : (preemptible env).next m₂ .next = m₃ := step (m₁.run_position _ (HaltStmt.run_currProcess c.h _ _))
  have fourth : (preemptible env).next m₃ .next = m₄ := step (m₂.goto_code _)
  refine ⟨m₄, parRegs, ?_, m₃.run_position _ (HaltStmt.run_currProcess c.h _ _), rfl⟩
  simp only [TransitionSystem.exec_cons, TransitionSystem.exec_nil, first, second, third, fourth]

end Calls

/-! ## Runs without ticks -/

section Undisturbed
variable {env : Env} {m : Threads}

theorem reach_next (run : ((preemptible env).restrict (Orderly env)).Reach Threads.Start m) {code : Code}
    (position : m.code m.cur = code) :
    ((preemptible env).restrict (Orderly env)).Reach Threads.Start (m.step env code) := by
  have allowed : Act.next.Allowed m ∧ Orderly env m .next := ⟨trivial, nofun, nofun⟩
  have stepped := run.step Act.next allowed
  rw [← position]
  exact stepped

/-- A launch runs on as long as no store faults. -/
theorem reach_launch {c : ExecCall} {l : Launch} {past rest : List LaunchStmt} {k : Kernel}
    (run : ((preemptible env).restrict (Orderly env)).Reach Threads.Start m)
    (position : m.code m.cur = .launch c l (past ++ rest)) (more : rest ≠ [])
    (ran : runLaunch l past m.kernel = .ok k) :
    ∃ m', ((preemptible env).restrict (Orderly env)).Reach Threads.Start m' ∧ m'.kernel = k ∧ m'.cur = m.cur ∧
      m'.regs = m.regs ∧ m'.code = Function.update m.code m.cur (.launch c l rest) := by
  induction past generalizing m with
  | nil =>
    refine ⟨m, run, Except.ok.inj ran, rfl, rfl, ?_⟩
    rw [← show m.code m.cur = .launch c l rest from position, Function.update_eq_self]
  | cons stmt past ih =>
    simp only [runLaunch] at ran
    cases first : stmt.run l m.kernel with
    | none => rw [first] at ran; cases ran
    | some k₁ =>
      rw [first] at ran
      obtain ⟨m₁, step, kernel, regs, code⟩ :=
        m.launchStep_to env c first (List.append_ne_nil_of_right_ne_nil past more)
      have cur : m₁.cur = m.cur := by
        rw [Threads.cur, kernel]
        exact LaunchStmt.run_currProcess first
      have stepped : ((preemptible env).restrict (Orderly env)).Reach Threads.Start m₁ := by
        rw [← step]
        exact reach_next run position
      obtain ⟨m', run', kernel', cur', regs', code'⟩ :=
        ih stepped (by rw [code, cur, Function.update_self]) (kernel ▸ ran)
      refine ⟨m', run', kernel', cur'.trans cur, regs'.trans regs, ?_⟩
      rw [code', code, cur, Function.update_idem]

/-- A program that fits its page is launched up to the `iret`. -/
theorem reach_iret {c : ExecCall} {l : Launch} (run : ((preemptible env).restrict (Orderly env)).Reach Threads.Start m)
    (position : m.code m.cur = .launch c l (launchStmts l)) (room : l.program.length ≤ programRoom) :
    ∃ m', ((preemptible env).restrict (Orderly env)).Reach Threads.Start m' ∧ m'.code m'.cur = .launch c l [.iret] := by
  obtain ⟨s₁, -, loaded⟩ := runLaunch_copies_ok l (List.range l.program.length) _ l.newPid
    (enableProgramPage_maps l.newPid m.kernel) fun k hk => by
      rw [List.mem_range] at hk
      simp only [progLoadAddr, programRoom] at room ⊢
      omega
  obtain ⟨s₂, created, -⟩ := runLaunch_create l s₁ [.progParPid, .esp, .ebp]
  have list : launchStmts l = (loadStmts l ++ (createStmts ++ [.progParPid, .esp, .ebp])) ++ [.iret] := by
    simp [launchStmts, enterStmts]
  rw [list] at position
  have ran : runLaunch l (loadStmts l ++ (createStmts ++ [.progParPid, .esp, .ebp])) m.kernel =
      runLaunch l [.progParPid, .esp, .ebp] s₂ := by
    rw [runLaunch_append, show runLaunch l (loadStmts l) m.kernel = .ok s₁ from loaded]
    exact created
  obtain ⟨m', run', -, cur, -, code⟩ := reach_launch run position (by simp) ran
  exact ⟨m', run', by rw [code, cur, Function.update_self]⟩

/-- The halt of a process that is no base shell, up to the update of its terminal. -/
theorem reach_closed {c : HaltCall} {todo : List HaltStmt} (child : 3 ≤ c.h.pid)
    (run : ((preemptible env).restrict (Orderly env)).Reach Threads.Start m) (position : m.code m.cur = .halt c todo) :
    ∃ m', ((preemptible env).restrict (Orderly env)).Reach Threads.Start m' ∧
      m'.code m'.cur = .parent c [.progCurrPid, .progParPid] := by
  induction todo generalizing m with
  | nil =>
    have closed : m.closed env c = m.goto (.parent c [.progCurrPid, .progParPid]) := if_neg (by omega)
    have stepped := reach_next run position
    rw [Threads.step, closed] at stepped
    exact ⟨_, stepped, m.goto_code _⟩
  | cons stmt rest ih => exact ih (reach_next run position) (m.haltStep_position c stmt rest)

theorem reach_parent (run : ((preemptible env).restrict (Orderly env)).Reach Threads.Start m)
    (user : m.code m.cur = .user) (started : m.kernel.currPid m.cur ≠ -1)
    (child : 3 ≤ (m.kernel.pcb (m.kernel.currPid m.cur)).pid) :
    ∃ c m', ((preemptible env).restrict (Orderly env)).Reach Threads.Start m' ∧
      m'.code m'.cur = .parent c [.progCurrPid, .progParPid] := by
  have called := run.step_to (.halt (.blank ⟨0, 0⟩) (.blank ⟨0, 0⟩) 0) ⟨user, nofun, nofun⟩ (if_neg started)
  have found := reach_next called (m.goto_code _)
  exact ⟨_, reach_closed child found (Function.update_self _ _ _)⟩

end Undisturbed

/-! ## Rounds of ticks -/

section Ticks
variable {env : Env} {start : Threads → Prop} {m : Threads}

/-- The scheduler can give each terminal its registers back. -/
structure Threads.Resumable (m : Threads) : Prop where
  apart : Apart m.kernel.view
  regs : RegsSaved m.kernel.view m.regs
  found : ∀ t, m.code t ≠ .lost

/-- What the running code does to other parts of the kernel does not matter. -/
theorem Threads.Resumable.moved {m' : Threads} (resumable : m.Resumable) (running : m'.cur = m.cur)
    (curr : m'.kernel.view.curr = m.kernel.view.curr) (pcb : m'.kernel.view.pcb = m.kernel.view.pcb)
    (regs : m'.regs = m.regs) {code : Code} (position : m'.code = Function.update m.code m.cur code)
    (found : code ≠ .lost) : m'.Resumable := by
  refine ⟨⟨?_, ?_⟩, ?_, fun t => ?_⟩
  · rw [curr]
    exact resumable.apart.started
  · rw [curr]
    exact resumable.apart.blocks
  · intro t other started
    rw [show m'.kernel.view.currProcess = m.cur from running] at other
    rw [curr] at started ⊢
    rw [pcb, regs]
    exact resumable.regs t other started
  · rw [position]
    by_cases own : t = m.cur
    · rw [own, Function.update_self]
      exact found
    · rw [Function.update_of_ne own]
      exact resumable.found t

theorem reach_tick (run : (preemptible env).Reach start m) (resumable : m.Resumable) :
    ∃ m', (preemptible env).Reach start m' ∧ m'.Resumable ∧ m'.code = m.code ∧ m'.held = m.held ∧
      m'.kernel.view = m.kernel.view.switch ⟨0, 0⟩ := by
  obtain ⟨k, tick, view⟩ := m.tick_eq resumable.apart resumable.regs env ⟨0, 0⟩ (.blank ⟨0, 0⟩)
  refine ⟨_, run.step_to (.tick ⟨0, 0⟩ (.blank ⟨0, 0⟩)) (resumable.found _) tick, ⟨?_, ?_, resumable.found⟩, rfl, rfl, view⟩
  · show Apart k.view
    rw [view]
    exact ⟨resumable.apart.started, resumable.apart.blocks⟩
  · show RegsSaved k.view _
    rw [view]
    exact resumable.regs.switch resumable.apart ⟨0, 0⟩

/-- Three ticks come back to the same code, with the process that its terminal names in place. -/
theorem reach_round (run : (preemptible env).Reach start m) (resumable : m.Resumable) :
    ∃ m', (preemptible env).Reach start m' ∧ m'.code = m.code ∧ m'.cur = m.cur ∧
      m'.kernel.MapsProgram (m.kernel.currPid m.cur) := by
  obtain ⟨m₁, run₁, resumable₁, code₁, -, view₁⟩ := reach_tick run resumable
  obtain ⟨m₂, run₂, resumable₂, code₂, -, view₂⟩ := reach_tick run₁ resumable₁
  obtain ⟨m₃, run₃, -, code₃, -, view₃⟩ := reach_tick run₂ resumable₂
  have back : ∀ t : Term, t + 1 + 1 + 1 = t := by decide
  rw [view₂, view₁] at view₃
  have cur : m₃.cur = m.cur := (congrArg ProcView.currProcess view₃).trans (back m.cur)
  refine ⟨m₃, run₃, by rw [code₃, code₂, code₁], cur, ?_⟩
  have placed := (ProcView.switch_placed ((m.kernel.view.switch ⟨0, 0⟩).switch ⟨0, 0⟩) ⟨0, 0⟩).page
  rw [← view₃] at placed
  have curr : m₃.kernel.view.curr m₃.kernel.view.currProcess = m.kernel.currPid m.cur := by
    rw [show m₃.kernel.view.currProcess = m.cur from cur]
    exact congrArg (fun v : ProcView => v.curr m.cur) view₃
  rw [curr] at placed
  exact placed

end Ticks

/-! ## The machine after boot -/

/-- A kernel after boot with its three shells in user code. -/
def Threads.ofBoot (k : Kernel) : Threads where
  kernel := k
  code _ := .user
  regs t := (k.pcb t.val).regs
  held t := [(t.val : Int)]
  created _ p := (k.pcb p).parRegs

theorem Threads.ofBoot_start {k : Kernel} (boot : AfterBoot k) : (Threads.ofBoot k).Start :=
  ⟨boot, fun _ => rfl, fun _ _ => rfl, fun _ => rfl, fun _ => rfl⟩

theorem Threads.ofBoot_resumable {k : Kernel} (boot : AfterBoot k) : (Threads.ofBoot k).Resumable := by
  obtain ⟨shells, -⟩ := afterBoot_iff.1 boot
  refine ⟨shells.tree.toLinks.apart, fun t _ _ => ?_, nofun⟩
  have curr : k.view.curr t = t.val := boot.curr t
  show (k.view.pcb (getPcbByPid (k.view.curr t))).regs = _
  rw [curr]
  rfl

/-- The running shell calls `sys_execute` for another shell, which gets pid 3. -/
theorem reach_allocated {env : Env} (loadable : ShellLoadable env) {k : Kernel} (boot : AfterBoot k) :
    ∃ m c l, ((preemptible env).restrict (Orderly env)).Reach Threads.Start m ∧ m.kernel = k ∧
      m.regs = (Threads.ofBoot k).regs ∧ m.code = Function.update (fun _ => .user) m.cur (.launch c l (launchStmts l)) ∧
      3 ∈ m.held m.cur ∧ l.newPid = 3 ∧ 0 < l.program.length ∧ l.program.length ≤ programRoom := by
  let fr := ExecFrame.blank ⟨k.tss.esp0, 0⟩
  have alloc : getNewPid (Threads.ofBoot k).kernel = some 3 := boot.getNewPid
  obtain ⟨l, pid, nonempty, room, called⟩ := exec_shellCall loadable alloc fr fr
  have stack : OnStack k.tss.esp0 fr.regs.esp := ⟨Nat.le_refl _, Nat.le_add_right _ _⟩
  have user : (Threads.ofBoot k).code (Threads.ofBoot k).cur = .user := rfl
  have short : (Act.execute fr fr (shellCommand env)).Short env := by
    rintro _ _ _ inode ⟨⟩ check
    obtain ⟨shell, check', -, room⟩ := checkExecutable_shell loadable fr
    obtain rfl := Option.some.inj (check.symm.trans check')
    exact room
  have allowed : ((preemptible env).restrict (Orderly env)).Allowed (.ofBoot k)
      [.execute fr fr (shellCommand env), .next, .next, .next] :=
    ⟨⟨⟨user, stack⟩, nofun, short⟩, ⟨trivial, nofun, nofun⟩, ⟨trivial, nofun, nofun⟩, ⟨trivial, nofun, nofun⟩, trivial⟩
  have run := Reach.exec (.base (Threads.ofBoot_start boot)) allowed
  rw [show ((preemptible env).restrict (Orderly env)).exec _ _ = _ from called] at run
  refine ⟨_, _, l, run, rfl, rfl, rfl, ?_, pid, nonempty, room⟩
  show 3 ∈ Function.update (Threads.ofBoot k).held k.currProcess (3 :: (Threads.ofBoot k).held k.currProcess) k.currProcess
  rw [Function.update_self]
  exact List.mem_cons_self

end BigBrainOS
