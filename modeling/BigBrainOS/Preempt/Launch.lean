import BigBrainOS.Preempt.Runs

/-!
# Launches under preemption

Where no tick lands in a critical section, the loader writes into the frame of
the process it loads, if its file fits there, the `iret` finds the page and the
stack of that process, and no pid is handed out twice. A tick in the window breaks
both: the scheduler takes the page from `prog_curr_pid`, which the launch assigns
last, and `get_new_pid` leaves the pid free until the launch marks it.
-/

namespace BigBrainOS
set_option autoImplicit false

open TransitionSystem (Reach)

/-- The loader stores each byte into the frame of the new process, and the `iret` finds its
page and its stack in place. -/
structure LaunchPlaced (m : Threads) : Prop where
  copy : ∀ c l k rest, m.code m.cur = .launch c l (.copy k :: rest) →
    m.kernel.MapsProgram l.newPid ∧
      m.kernel.translate (progLoadAddr + k) = some (programFrame l.newPid * pageSize + (0x48000 + k))
  iret : ∀ c l rest, m.code m.cur = .launch c l (.iret :: rest) →
    m.kernel.MapsProgram l.newPid ∧ m.kernel.tss.esp0 = kernelStackTop l.newPid

/-! ## Files that fit -/

/-- The file that a call is about to load, or loads, fits its page. -/
def Code.Fits (env : Env) : Code → Prop
  | .parse c => ∀ inode, checkExecutable env.img c.fr (BigBrainOS.parse c.fr c.command) = some inode →
      env.img.lengthInBytes inode ≤ programRoom
  | .check c cmd => ∀ inode, checkExecutable env.img c.fr cmd = some inode → env.img.lengthInBytes inode ≤ programRoom
  | .getNewPid _ _ inode => env.img.lengthInBytes inode ≤ programRoom
  | .launch _ l _ => l.program.length ≤ programRoom
  | _ => True

theorem readData_length_le {img : Image} {inode offset length : Nat} {bytes : List UInt8}
    (read : img.readData inode offset length = some bytes) : bytes.length ≤ img.lengthInBytes inode := by
  by_cases valid : inode < img.numInodes
  · rw [Image.readData_eq valid] at read
    obtain rfl := Option.some.inj read
    rw [List.length_take, List.length_drop, Image.fileContent_length]
    omega
  · rw [Image.readData_none (Nat.le_of_not_lt valid)] at read
    cases read

/-- No terminal is about to load a file that does not fit. -/
def Threads.Fits (env : Env) (m : Threads) : Prop := ∀ t, (m.code t).Fits env

namespace Threads.Fits
variable {env : Env} {m : Threads} (fits : m.Fits env)
include fits

theorem setKernel (k : Kernel) : (m.setKernel k).Fits env := fits

theorem setHeld (f : List Int → List Int) : (m.setHeld f).Fits env := fits

theorem setCreated (pid : Int) (r : Regs) : (m.setCreated pid r).Fits env := fits

theorem goto (code : Code) (own : code.Fits env) : (m.goto code).Fits env := by
  intro t
  show (Function.update m.code m.cur code t).Fits env
  rw [Function.update_apply]
  split
  · exact own
  · exact fits t

theorem returned (c : ExecCall) : (m.returned c).Fits env := by
  unfold Threads.returned
  split
  · exact fits.goto .user trivial
  · exact fits.goto (.parent _ _) trivial

theorem faulted (c : ExecCall) : (m.faulted env c).Fits env := by
  unfold Threads.faulted
  split
  · exact ((fits.setHeld _).setKernel _).goto .user trivial
  · exact (((fits.setHeld _).setCreated _ _).setKernel _).goto .user trivial
  · exact (fits.setKernel _).goto .lost trivial

theorem launchStep (c : ExecCall) {l : Launch} (short : l.program.length ≤ programRoom) (stmt : LaunchStmt)
    (rest : List LaunchStmt) : (m.launchStep env c l stmt rest).Fits env := by
  have next : (if rest = [] then Code.user else .launch c l rest).Fits env := by
    split
    · trivial
    · exact short
  unfold Threads.launchStep
  split
  · exact fits.faulted c
  · dsimp only
    split <;> exact fits.goto _ next

theorem haltStep (c : HaltCall) (stmt : HaltStmt) (rest : List HaltStmt) : (m.haltStep c stmt rest).Fits env := by
  have next : (m.goto (.halt c rest)).Fits env := fits.goto _ trivial
  unfold Threads.haltStep
  dsimp only
  split <;> exact next

/-- The shell that is started again fits. -/
theorem closed (loadable : ShellLoadable env) (c : HaltCall) : (m.closed env c).Fits env := by
  unfold Threads.closed
  split
  · refine fits.goto (.parse _) fun inode check => ?_
    obtain ⟨shell, check', -, room⟩ := checkExecutable_shell loadable c.fr
    obtain rfl := Option.some.inj (check.symm.trans check')
    exact room
  · exact fits.goto _ trivial

theorem allocStep (c : ExecCall) (cmd : Command) {inode : Nat} (short : env.img.lengthInBytes inode ≤ programRoom) :
    (m.allocStep env c cmd inode).Fits env := by
  unfold Threads.allocStep
  split
  · exact (fits.setKernel _).returned c
  dsimp only
  split
  · exact fits.goto (.unreadable _ _) trivial
  · next newPid _ program read =>
    refine fits.goto (.launch _ _ _) ?_
    show program.length ≤ programRoom
    exact (readData_length_le read).trans short

/-- A statement of the running code. -/
theorem step (loadable : ShellLoadable env) : (m.step env (m.code m.cur)).Fits env := by
  have own := fits m.cur
  cases position : m.code m.cur <;> rw [position] at own
  case parse c => exact fits.goto (.check _ _) own
  case check c cmd =>
    simp only [Threads.step]
    split
    · exact fits.returned c
    · next inode check => exact fits.goto (.getNewPid _ _ _) (own inode check)
  case getNewPid c cmd inode => exact fits.allocStep c cmd own
  case unreadable c n => exact ((fits.setHeld _).setKernel _).returned c
  case launch c l todo =>
    cases todo with
    | nil => exact fits.goto .user trivial
    | cons stmt rest => exact fits.launchStep c own stmt rest
  case halt c todo =>
    cases todo with
    | nil => exact fits.closed loadable c
    | cons stmt rest => exact fits.haltStep c stmt rest
  case parent c todo =>
    cases todo with
    | nil => exact fits.goto (.clear _ _) trivial
    | cons stmt rest => exact fits.goto (.parent _ _) trivial
  case haltPid => exact fits.goto (.halt _ _) trivial
  case clear => exact fits.goto (.jump _ _) trivial
  case jump => exact fits.goto .user trivial
  case user => exact fits
  case lost => exact fits

theorem tick (r : Regs) (fr : ExecFrame) : (m.tick env r fr).Fits env := by
  unfold Threads.tick
  split
  · intro t
    dsimp only
    split
    · exact fits t
    · rw [Function.update_apply]
      split
      · trivial
      · exact fits t
  · exact fun _ => trivial

/-- **Step lemma.** -/
theorem run (loadable : ShellLoadable env) {act : Act} (short : act.Short env) : (act.run env m).Fits env := by
  cases act with
  | tick r fr => exact fits.tick r fr
  | execute fr exc command => exact fits.goto (.parse _) fun inode check => short fr exc command inode rfl check
  | halt fr exc status =>
    show (if m.kernel.currPid m.cur = -1 then m else m.goto (.haltPid _ status fr exc)).Fits env
    split
    · exact fits
    · exact fits.goto _ trivial
  | putc c => exact fits
  | next => exact fits.step loadable

end Threads.Fits

theorem fits_of_reach {env : Env} (loadable : ShellLoadable env) {m : Threads}
    (run : ((preemptible env).restrict (Orderly env)).Reach Threads.Start m) : m.Fits env := by
  apply run.invariant
  · intro m start t
    rw [start.code t]
    trivial
  · exact fun _ _ fits allowed => fits.run loadable allowed.2.2

/-! ## Launches -/

section Inside
variable {env : Env} {m : Threads}

/-- The loader runs inside the critical section, behind `enable_program_page`, and copies no more than the file. -/
theorem Threads.Inv.copy_maps (inv : m.Inv env) {c : ExecCall} {l : Launch} {k : Nat} {rest : List LaunchStmt}
    (position : m.code m.cur = .launch c l (.copy k :: rest)) : m.kernel.MapsProgram l.newPid ∧ k < l.program.length := by
  obtain ⟨v, F, held, settled, state⟩ := inv
  rw [position] at state
  rcases state with ⟨-, -, ⟨past, split⟩, -, -⟩ | ⟨-, past, k₀, split, -, ran⟩
  · have member : LaunchStmt.copy k ∈ enterStmts := split ▸ List.mem_append_right past List.mem_cons_self
    simp [enterStmts] at member
  · have member : LaunchStmt.copy k ∈ launchStmts l := split ▸ List.mem_append_right past List.mem_cons_self
    refine ⟨runLaunch_maps_of_split split (by simp) ran, ?_⟩
    simpa [launchStmts, loadStmts, createStmts, enterStmts] using member

/-- The `iret` is the last statement, so it runs outside the critical section. -/
theorem Threads.Inv.iret_placed (inv : m.Inv env) {c : ExecCall} {l : Launch} {rest : List LaunchStmt}
    (position : m.code m.cur = .launch c l (.iret :: rest)) :
    m.kernel.MapsProgram l.newPid ∧ m.kernel.tss.esp0 = kernelStackTop l.newPid := by
  obtain ⟨v, F, held, settled, state⟩ := inv
  rw [position] at state
  rcases state with ⟨view, -, -, -, pid⟩ | ⟨pending, past, k₀, split, -, -⟩
  · have placed := settled.placed
    have current : v.curr v.currProcess = l.newPid := by rw [settled.running, pid]
    have page := placed.page
    have stack := placed.stack
    rw [current, ← view] at page stack
    exact ⟨page, stack⟩
  · have list : launchStmts l = (loadStmts l ++ createStmts ++ enterStmts.dropLast) ++ .iret :: [] := by
      simp [launchStmts, enterStmts]
    have before : LaunchStmt.iret ∉ loadStmts l ++ createStmts ++ enterStmts.dropLast := by
      simp [loadStmts, createStmts, enterStmts]
    rw [list] at split
    obtain ⟨-, -, last⟩ := (List.append_cons_inj_of_notMem before List.not_mem_nil).1 split.symm
    subst last
    simp at pending

/-- No pid is held twice. -/
theorem Threads.Inv.heldOnce (inv : m.Inv env) : HeldOnce m.held := by
  obtain ⟨v, F, held, settled, state⟩ := inv
  have once := settled.holding.once
  have released : HeldOnce (without held m.cur v.pid) := once.without m.cur v.pid
  rcases state with ⟨-, same, -⟩ | inside
  · rw [same]
    exact once
  · cases position : m.code m.cur with
    | parse c => rw [position] at inside; rw [inside.2.2.2]; exact released
    | check c cmd => rw [position] at inside; rw [inside.1.2.2.2]; exact released
    | getNewPid c cmd inode => rw [position] at inside; rw [inside.1.2.2.2]; exact released
    | launch c l todo =>
      rw [position] at inside
      obtain ⟨-, past, k, -, began, -⟩ := inside
      generalize k.view = w at began
      cases began with
      | call _ _ fresh _ same => rw [same]; exact once.withNew (settled.holding.free fresh) m.cur
      | restart _ _ _ same =>
        have own : v.pid ∈ held m.cur := by
          rw [settled.pid_eq, settled.running]
          exact settled.holding.cur_mem m.cur
        rw [same]
        exact released.withNew (once.released own) m.cur
    | halt c todo =>
      rw [position] at inside
      rw [inside.2.1]
      split
      · exact once
      · exact released
    | parent c todo => rw [position] at inside; rw [inside.1.2.2]; exact released
    | clear c r => rw [position] at inside; rw [inside.1.2.2]; exact released
    | jump c r => rw [position] at inside; rw [inside.1.2.2]; exact released
    | user => rw [position] at inside; exact inside.elim
    | unreadable c n => rw [position] at inside; exact inside.elim
    | haltPid a status fr exc => rw [position] at inside; exact inside.elim
    | lost => rw [position] at inside; exact inside.elim

end Inside

/-- **Launch.** In every run whose critical sections are not interrupted and whose programs
fit their page, each byte of a program goes to the frame of its process, and the program is
entered with its page mapped and its kernel stack in `tss.esp0`. -/
theorem launchPlaced_of_reach {env : Env} (loadable : ShellLoadable env) {m : Threads}
    (run : ((preemptible env).restrict (Orderly env)).Reach Threads.Start m) : LaunchPlaced m := by
  have inv := inv_of_reach loadable (run.weaken Orderly.uninterrupted)
  refine ⟨fun c l k rest position => ?_, fun c l rest position => inv.iret_placed position⟩
  obtain ⟨maps, copied⟩ := inv.copy_maps position
  have short : l.program.length ≤ programRoom := by
    have fits := fits_of_reach loadable run m.cur
    rw [position] at fits
    exact fits
  have address := translate_program maps (show 0x8000000 ≤ progLoadAddr + k by simp only [progLoadAddr]; omega)
    (by simp only [progLoadAddr, programRoom] at short ⊢; omega)
  have offset : progLoadAddr + k - 0x8000000 = 0x48000 + k := by simp only [progLoadAddr]; omega
  exact ⟨maps, by rw [address, offset]⟩

/-- The base shell of the machine after boot launches another shell. -/
theorem launchPlaced_shell :
    ∃ m c l, ((preemptible shellEnv).restrict (Orderly shellEnv)).Reach Threads.Start m ∧
      m.code m.cur = .launch c l [.iret] ∧ LaunchPlaced m := by
  obtain ⟨m₀, c, l, allocated, -, -, code, -, -, -, room⟩ := reach_allocated shellEnv_loadable booted_afterBoot
  obtain ⟨m, run, position⟩ := reach_iret allocated (by rw [code, Function.update_self]) room
  exact ⟨m, c, l, run, position, launchPlaced_of_reach shellEnv_loadable run⟩

/-- A round of ticks in front of the first copy: the loader goes on in the frame of
the process that called it. -/
theorem copy_misplaced {env : Env} (loadable : ShellLoadable env) {k : Kernel} (boot : AfterBoot k) :
    ∃ m, (preemptible env).Reach Threads.Start m ∧ ¬ LaunchPlaced m := by
  obtain ⟨m₀, c, l, allocated, kernel, regs, code, -, pid, nonempty, -⟩ := reach_allocated loadable boot
  obtain ⟨rest, list⟩ : ∃ rest, launchStmts l = [.enableProgramPage] ++ .copy 0 :: rest := by
    obtain ⟨n, length⟩ : ∃ n, l.program.length = n + 1 := ⟨l.program.length - 1, by omega⟩
    refine ⟨((List.range n).map Nat.succ).map .copy ++ createStmts ++ enterStmts, ?_⟩
    simp [launchStmts, loadStmts, length, List.range_succ_eq_map]
  have position : m₀.code m₀.cur = .launch c l ([.enableProgramPage] ++ .copy 0 :: rest) := by
    rw [code, Function.update_self, list]
  obtain ⟨m₁, run₁, kernel₁, cur₁, regs₁, code₁⟩ := reach_launch allocated position (by simp) rfl
  have view : m₁.kernel.view = k.view.enable l.newPid := by rw [kernel₁, kernel, Kernel.enableProgramPage_view]
  have resumable : m₁.Resumable := by
    have cur : m₁.cur = k.currProcess := congrArg ProcView.currProcess view
    refine (Threads.ofBoot_resumable boot).moved cur (by rw [view]; rfl) (by rw [view]; rfl) (regs₁.trans regs) ?_
      (show Code.launch c l (.copy 0 :: rest) ≠ .lost by simp)
    rw [code₁, code, Function.update_idem, ← cur₁, cur]
    rfl
  obtain ⟨m₂, run₂, code₂, cur₂, maps⟩ := reach_round run₁.of_restrict resumable
  refine ⟨m₂, run₂, fun placed => ?_⟩
  have new := (placed.copy c l 0 rest (by rw [code₂, cur₂, code₁, cur₁, Function.update_self])).1
  have caller : m₁.kernel.currPid m₁.cur = m₁.cur.val := by
    rw [show m₁.kernel.currPid = k.currPid from congrArg ProcView.curr view]
    exact boot.curr _
  have small := m₁.cur.isLt
  simp only [numTerminals] at small
  rw [caller] at maps
  rw [pid] at new
  have same : (3 : Int) = m₁.cur.val := new.unique ⟨by decide, by decide⟩ ⟨by omega, by omega⟩ maps
  omega

/-- A tick in the window lets the loader write into the frame of another process. -/
theorem launchPlaced_interrupted : ¬ ∀ m, (preemptible shellEnv).Reach Threads.Start m → LaunchPlaced m := by
  intro always
  obtain ⟨m, run, misplaced⟩ := copy_misplaced shellEnv_loadable booted_afterBoot
  exact misplaced (always m run)

/-- **Allocation.** In every run whose critical sections are not interrupted, two
calls never hold the same pid. -/
theorem heldOnce_of_reach {env : Env} (loadable : ShellLoadable env) {m : Threads}
    (run : ((preemptible env).restrict Uninterrupted).Reach Threads.Start m) : HeldOnce m.held :=
  (inv_of_reach loadable run).heldOnce

/-- The base shell of the machine after boot is given pid 3. -/
theorem heldOnce_shell :
    ∃ m, ((preemptible shellEnv).restrict Uninterrupted).Reach Threads.Start m ∧ 3 ∈ m.held m.cur ∧ HeldOnce m.held := by
  obtain ⟨m, c, l, allocated, -, -, -, held, -⟩ := reach_allocated shellEnv_loadable booted_afterBoot
  have run := allocated.weaken Orderly.uninterrupted
  exact ⟨m, run, held, heldOnce_of_reach shellEnv_loadable run⟩

/-- A tick between the return of `get_new_pid` and the store to `used_pids`: the
call of the next terminal is given the same pid. -/
theorem pid_handed_out_twice {env : Env} (loadable : ShellLoadable env) {k : Kernel} (boot : AfterBoot k) :
    ∃ m, (preemptible env).Reach Threads.Start m ∧ ∃ t u, t ≠ u ∧ 3 ∈ m.held t ∧ 3 ∈ m.held u := by
  obtain ⟨m₀, c, l, allocated, kernel, regs, code, held, -⟩ := reach_allocated loadable boot
  have resumable : m₀.Resumable := by
    refine (Threads.ofBoot_resumable boot).moved (by rw [Threads.cur, kernel]; rfl) (by rw [kernel]; rfl)
      (by rw [kernel]; rfl) regs ?_ (show Code.launch c l (launchStmts l) ≠ .lost by simp)
    rw [code, Threads.cur, kernel]
    rfl
  obtain ⟨m₁, run₁, -, code₁, held₁, view⟩ := reach_tick allocated.of_restrict resumable
  have next : m₁.cur = m₀.cur + 1 := congrArg ProcView.currProcess view
  have other : m₀.cur + 1 ≠ m₀.cur := by
    generalize m₀.cur = t
    revert t
    decide
  have user : m₁.code m₁.cur = .user := by rw [code₁, code, next, Function.update_of_ne other]
  have alloc : getNewPid m₁.kernel = some 3 := by
    rw [getNewPid_congr (show m₁.kernel.usedPids = m₀.kernel.usedPids from congrArg ProcView.usedPids view), kernel]
    exact boot.getNewPid
  let fr := ExecFrame.blank ⟨m₁.kernel.tss.esp0, 0⟩
  obtain ⟨l', -, -, -, called⟩ := exec_shellCall loadable alloc fr fr
  have stack : OnStack m₁.kernel.tss.esp0 fr.regs.esp := ⟨Nat.le_refl _, Nat.le_add_right _ _⟩
  have allowed : (preemptible env).Allowed m₁ [.execute fr fr (shellCommand env), .next, .next, .next] :=
    ⟨⟨user, stack⟩, trivial, trivial, trivial, trivial⟩
  have run₂ := run₁.exec allowed
  rw [called] at run₂
  refine ⟨_, run₂, m₀.cur, m₁.cur, by rw [next]; exact other.symm, ?_, ?_⟩
  · show 3 ∈ Function.update m₁.held m₁.cur (3 :: m₁.held m₁.cur) m₀.cur
    rw [Function.update_of_ne (by rw [next]; exact other.symm), held₁]
    exact held
  · show 3 ∈ Function.update m₁.held m₁.cur (3 :: m₁.held m₁.cur) m₁.cur
    rw [Function.update_self]
    exact List.mem_cons_self

/-- A tick in the window lets two calls hold one pid. -/
theorem heldOnce_interrupted : ¬ ∀ m, (preemptible shellEnv).Reach Threads.Start m → HeldOnce m.held := by
  intro always
  obtain ⟨m, run, t, u, different, mine, other⟩ := pid_handed_out_twice shellEnv_loadable booted_afterBoot
  exact different ((always m run).apart t u 3 mine other)

end BigBrainOS
