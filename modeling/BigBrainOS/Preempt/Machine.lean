import BigBrainOS.Process.Context

/-!
# Calls that can be interrupted

The system call wrapper enables interrupts, so a clock tick can land between any
two statements of `sys_execute` and `sys_halt`. Here each statement is a step, and
so is each byte that the loader copies. `Code` says where the code of a terminal
stands; a tick suspends it there and continues the code of the next terminal.
The page fault handler and the scheduler run with interrupts off and stay atomic.

Two histories are kept beside the kernel: the pids that the calls of a terminal
hold, from the return of `get_new_pid` to the release in `sys_halt`, and the
stack registers that the launch of each process stored in its control block.
-/

namespace BigBrainOS
set_option autoImplicit false

/-- A call of `sys_halt`: its locals, the frames that a nested `sys_execute` and a
page fault in it find on the stack, and `pcb->par_pid` as the call found it. -/
structure HaltCall where
  h : Halt
  status : UInt8
  fr : ExecFrame
  exc : ExecFrame
  parPid : Int

/-- A call of `sys_execute`. It was made by a process, or by `sys_halt` to start a
base shell again. -/
structure ExecCall where
  fr : ExecFrame
  exc : ExecFrame
  command : Bytes
  caller : Option HaltCall

/-- Where the code of a terminal stands. -/
inductive Code where
  /-- The process runs, or is in another system call. -/
  | user
  /-- `sys_execute` before its part "Parse". -/
  | parse (c : ExecCall)
  /-- Before the executable check. -/
  | check (c : ExecCall) (cmd : Command)
  /-- Before `get_new_pid`. -/
  | getNewPid (c : ExecCall) (cmd : Command) (inode : Nat)
  /-- Before `enable_program_page`, with a file that `read_data` refuses. -/
  | unreadable (c : ExecCall) (newPid : Int)
  /-- Before the first statement of `todo`. -/
  | launch (c : ExecCall) (l : Launch) (todo : List LaunchStmt)
  /-- `sys_halt` before it reads the pid of the block it has found. -/
  | haltPid (addr : Nat) (status : UInt8) (fr exc : ExecFrame)
  /-- Before the first statement of `todo`, up to the closing of the files. -/
  | halt (c : HaltCall) (todo : List HaltStmt)
  /-- Before the first assignment of `todo` to the terminal's pids. -/
  | parent (c : HaltCall) (todo : List HaltStmt)
  /-- Before the block is cleared, with `par_esp` and `par_ebp` read. -/
  | clear (c : HaltCall) (parRegs : Regs)
  /-- Before the jump to `ret_to_exec`. -/
  | jump (c : HaltCall) (parRegs : Regs)
  /-- The processor runs on a stack that this terminal did not leave. -/
  | lost

/-- The kernel, the code of the three terminals and the registers with which each
was suspended; then the two histories. -/
structure Threads where
  kernel : Kernel
  code : Term → Code
  regs : Term → Regs
  /-- The pids that the calls of a terminal hold. -/
  held : Term → List Int
  /-- The registers that the launch of a process on a terminal stored. -/
  created : Term → Int → Regs

namespace Threads
variable (m : Threads)

/-- The terminal whose code runs. -/
abbrev cur : Term := m.kernel.currProcess

/-- Move the running code on. -/
def goto (code : Code) : Threads := { m with code := Function.update m.code m.cur code }

def setKernel (k : Kernel) : Threads := { m with kernel := k }

/-- Change the pids that the running terminal holds. -/
def setHeld (f : List Int → List Int) : Threads := { m with held := Function.update m.held m.cur (f (m.held m.cur)) }

/-- Record the registers that a launch has stored. -/
def setCreated (pid : Int) (r : Regs) : Threads :=
  { m with created := Function.update m.created m.cur (Function.update (m.created m.cur) pid r) }

/-- `sys_execute` returns: to its process, or to the `sys_halt` that called it. -/
def returned (c : ExecCall) : Threads :=
  match c.caller with
  | none => m.goto .user
  | some hc => m.goto (.parent hc [.progCurrPid, .progParPid])

/-- The page fault of a loader: the handler halts the process that made the call. -/
def faulted (env : Env) (c : ExecCall) : Threads :=
  match pfHandler env c.exc m.kernel with
  | (.toParent _ _, k) => ((m.setHeld fun pids => pids.tail.erase (m.kernel.currPid m.cur)).setKernel k).goto .user
  | (.restarted pid, k) =>
    (((m.setHeld fun pids => pid :: pids.tail.erase pid).setCreated pid c.exc.regs).setKernel k).goto .user
  | (_, k) => (m.setKernel k).goto .lost

/-- A statement of a launch. -/
def launchStep (env : Env) (c : ExecCall) (l : Launch) (stmt : LaunchStmt) (rest : List LaunchStmt) : Threads :=
  match stmt.run l m.kernel with
  | none => m.faulted env c
  | some k =>
    let m := m.goto (if rest = [] then .user else .launch c l rest)
    let m := if stmt = .progCurrPid then m.setCreated l.newPid l.regs else m
    m.setKernel k

/-- A statement of `sys_halt` up to the closing of the files. -/
def haltStep (c : HaltCall) (stmt : HaltStmt) (rest : List HaltStmt) : Threads :=
  let m := m.goto (.halt c rest)
  let m := if stmt = .usedPids then m.setHeld fun pids => pids.erase c.h.pid else m
  m.setKernel (stmt.run c.h m.kernel)

/-- After the files are closed: a base shell is started again. -/
def closed (env : Env) (c : HaltCall) : Threads :=
  if c.h.pid < 3 then
    (m.goto (.parse ⟨c.fr, c.exc, shellCommand env, some c⟩)).setKernel (puts exitedRootMessage m.kernel)
  else m.goto (.parent c [.progCurrPid, .progParPid])

/-- `get_new_pid` and the test of its result. -/
def allocStep (env : Env) (c : ExecCall) (cmd : Command) (inode : Nat) : Threads :=
  match getNewPid m.kernel with
  | none => (m.setKernel (puts maxProcessesMessage m.kernel)).returned c
  | some newPid =>
    let m := m.setHeld fun pids => newPid :: pids
    match env.img.readData inode 0 fourMB with
    | none => m.goto (.unreadable c newPid)
    | some program =>
      let l : Launch := ⟨newPid, program, cmd.haveArgs, cmd.arguments, c.fr.regs⟩
      m.goto (.launch c l (launchStmts l))

/-- One step of the code at a position. -/
def step (env : Env) : Code → Threads
  | .user => m
  | .parse c => m.goto (.check c (BigBrainOS.parse c.fr c.command))
  | .check c cmd =>
    match checkExecutable env.img c.fr cmd with
    | none => m.returned c
    | some inode => m.goto (.getNewPid c cmd inode)
  | .getNewPid c cmd inode => m.allocStep env c cmd inode
  | .unreadable c newPid =>
    ((m.setHeld List.tail).setKernel (enableProgramPage newPid m.kernel)).returned c
  | .launch _ _ [] => m.goto .user
  | .launch c l (stmt :: rest) => m.launchStep env c l stmt rest
  | .haltPid addr status fr exc =>
    m.goto (.halt ⟨⟨addr, (m.kernel.pcbs addr).pid⟩, status, fr, exc, (m.kernel.pcbs addr).parPid⟩ releaseStmts)
  | .halt c [] => m.closed env c
  | .halt c (stmt :: rest) => m.haltStep c stmt rest
  | .parent c [] => m.goto (.clear c (m.kernel.pcbs c.h.addr).parRegs)
  | .parent c (stmt :: rest) => (m.goto (.parent c rest)).setKernel (stmt.run c.h m.kernel)
  | .clear c parRegs => (m.goto (.jump c parRegs)).setKernel (HaltStmt.clearPcb.run c.h m.kernel)
  | .jump _ _ => m.goto .user
  | .lost => m

/-- A clock tick. The code of the next terminal continues where it was suspended if
it gets its registers back. -/
def tick (env : Env) (r : Regs) (fr : ExecFrame) : Threads :=
  match switchRunningProcess env r fr m.kernel with
  | (.resumed regs, k) =>
    let next := m.cur + 1
    { m with
      kernel := k
      regs := Function.update m.regs m.cur r
      code := if regs = m.regs next then m.code else Function.update m.code next .lost }
  | (_, k) => { m with kernel := k, code := fun _ => .lost }

end Threads

/-- What can happen next. -/
inductive Act where
  /-- A clock tick. -/
  | tick (r : Regs) (fr : ExecFrame)
  /-- The running process calls `sys_execute`. -/
  | execute (fr exc : ExecFrame) (command : Bytes)
  /-- The running process calls `sys_halt`. -/
  | halt (fr exc : ExecFrame) (status : UInt8)
  /-- The running process prints. -/
  | putc (c : UInt8)
  /-- The kernel code of the running terminal executes a statement. -/
  | next

/-- The system calls begin in user code, on the stack that `tss.esp0` gives. -/
def Act.Allowed (act : Act) (m : Threads) : Prop :=
  match act with
  | .tick _ _ => m.code m.cur ≠ .lost
  | .execute fr _ _ => m.code m.cur = .user ∧ OnStack m.kernel.tss.esp0 fr.regs.esp
  | .halt _ _ _ => m.code m.cur = .user
  | .putc _ => m.code m.cur = .user
  | .next => True

/-- The effect of an action. `sys_halt` first finds the block of its process. -/
def Act.run (env : Env) (act : Act) (m : Threads) : Threads :=
  match act with
  | .tick r fr => m.tick env r fr
  | .execute fr exc command => m.goto (.parse ⟨fr, exc, command, none⟩)
  | .halt fr exc status =>
    if m.kernel.currPid m.cur = -1 then m
    else m.goto (.haltPid (getPcbByPid (m.kernel.currPid m.cur)) status fr exc)
  | .putc c => m.setKernel (BigBrainOS.putc c m.kernel)
  | .next => m.step env (m.code m.cur)

/-- The kernel with calls that a clock tick can interrupt anywhere. -/
def preemptible (env : Env) : TransitionSystem Threads Act where
  ok m act := act.Allowed m
  next m act := act.run env m

/-- Right after boot: each terminal runs its base shell. -/
structure Threads.Start (m : Threads) : Prop where
  boot : AfterBoot m.kernel
  code : ∀ t, m.code t = .user
  regs : ∀ t, t ≠ m.cur → (m.kernel.pcb t.val).regs = m.regs t
  held : ∀ t : Term, m.held t = [(t.val : Int)]
  created : ∀ t : Term, m.created t t.val = (m.kernel.pcb t.val).parRegs

/-! ## Critical sections -/

/-- The code between the return of `get_new_pid` and the assignment of
`prog_curr_pid` in `sys_execute`, and between the store of `tss.esp0` and the jump
to the parent, or the assignment of `prog_curr_pid` to the restarted base shell, in
`sys_halt`. -/
def Code.Critical : Code → Prop
  | .parse c => c.caller.isSome
  | .check c _ => c.caller.isSome
  | .getNewPid c _ _ => c.caller.isSome
  | .unreadable _ _ => True
  | .launch _ _ todo => .progCurrPid ∈ todo
  | .halt _ todo => .esp0 ∉ todo
  | .parent _ _ => True
  | .clear _ _ => True
  | .jump _ _ => True
  | _ => False

/-- No tick lands in a critical section. -/
def Uninterrupted (m : Threads) (act : Act) : Prop := ∀ r fr, act = .tick r fr → ¬ (m.code m.cur).Critical

/-- A call of `sys_execute` that gets past the executable check names a file that fits between
the load address and the end of the program page. -/
def Act.Short (env : Env) (act : Act) : Prop :=
  ∀ fr exc command inode, act = .execute fr exc command → checkExecutable env.img fr (parse fr command) = some inode →
    env.img.lengthInBytes inode ≤ programRoom

/-- No tick lands in a critical section, and no program is too long for its page. -/
def Orderly (env : Env) (m : Threads) (act : Act) : Prop := Uninterrupted m act ∧ act.Short env

theorem Orderly.uninterrupted {env : Env} (m : Threads) (act : Act) (orderly : Orderly env m act) : Uninterrupted m act :=
  orderly.1

end BigBrainOS
