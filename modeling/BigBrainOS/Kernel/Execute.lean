import BigBrainOS.Kernel.Console
import BigBrainOS.Kernel.FileSystem
import BigBrainOS.Kernel.Rtc

/-!
# `sys_execute` and `sys_halt`

The straight-line parts of both calls are lists of statements in source order,
each with its effect on the kernel. The calls themselves run these lists from
end to end; `Preempt` runs the same lists one statement at a time with clock
ticks in between. A store of the loader that leaves the mapped pages ends the
call in a page fault.
-/

namespace BigBrainOS
set_option autoImplicit false

abbrev maxCmdLen : Nat := 32
abbrev maxArgLen : Nat := 128
abbrev progLoadAddr : Nat := 0x08048000
abbrev progEntryOffset : Nat := 24
abbrev haltStatusExc : UInt8 := 0x04
abbrev haltExc : Int := 256

/-- What the calls read and never write: the file system image, and the bytes
that the linker placed behind the literal `"shell"`. -/
structure Env where
  img : Image
  rodata : Bytes

/-- What `sys_execute` finds on its stack: the stack registers, and the old
contents of its uninitialised local arrays. -/
structure ExecFrame where
  regs : Regs
  executableName : Bytes
  arguments : Bytes
  bufElf : Bytes

/-! ## Parsing the command -/

/-- The loop "Get program", with `n` bytes left from index `i`: the name array,
the flag `have_args`, and the index the loop stops at. -/
def parseName (command : Bytes) : Nat → Nat → Bytes → Bytes × Bool × Nat
  | 0, i, name => (name, false, i)
  | n + 1, i, name =>
    if command i = 0x20 then (name, true, i)
    else if command i = 0x0A then (name, false, i)
    else parseName command n (i + 1) (Function.update (Function.update name i (command i)) (i + 1) 0)

/-- The loop "Get arguments", with `n` bytes left from index `i`. -/
def parseArgs (command : Bytes) (cmdNameLen : Nat) : Nat → Nat → Bytes → Bytes
  | 0, _, args => args
  | n + 1, i, args =>
    if command i = 0x0A ∨ command i = 0 ∨ command i = 0x20 then args
    else
      let k := i - cmdNameLen
      parseArgs command cmdNameLen n (i + 1) (Function.update (Function.update args k (command i)) (k + 1) 0)

/-- The locals that the parser fills. -/
structure Command where
  executableName : Bytes
  haveArgs : Bool
  arguments : Bytes

/-- The part "Parse" of `sys_execute`. -/
def parse (fr : ExecFrame) (command : Bytes) : Command :=
  let (name, haveArgs, i) := parseName command maxCmdLen 0 fr.executableName
  let arguments := Function.update fr.arguments 0 0
  if haveArgs then ⟨name, true, parseArgs command (i + 1) (maxArgLen - (i + 1)) (i + 1) arguments⟩
  else ⟨name, false, arguments⟩

/-! ## The executable check -/

/-- `ELF_MAGIC`. -/
def elfMagic : List UInt8 := [0x7f, 0x45, 0x4c, 0x46]

/-- A buffer after `read_data` stored `bytes` at its start. -/
def store (buf : Bytes) (bytes : List UInt8) : Bytes := fun k => (bytes[k]?).getD (buf k)

/-- The part "Executable Check": the inode of a program that may be launched.
`buf_elf` keeps its old bytes where the file is shorter than the buffer. -/
def checkExecutable (img : Image) (fr : ExecFrame) (cmd : Command) : Option Nat :=
  match img.readDentryByName cmd.executableName with
  | none => none
  | some exe =>
    match img.readData exe.inodeNum 0 4 with
    | none => none
    | some bytes =>
      if (List.range 4).all fun i => store fr.bufElf bytes i == elfMagic.getD i 0 then some exe.inodeNum else none

/-- `get_new_pid`; `none` for `ERROR`. -/
def getNewPid (s : Kernel) : Option Int :=
  ((List.range maxProcesses).find? fun (i : Nat) => s.usedPids i = false).map Int.ofNat

/-! ## Launching -/

/-- The locals of `sys_execute` once a pid is allocated. -/
structure Launch where
  newPid : Int
  /-- The bytes that the loader copies to `PROG_LOAD_ADDR`. -/
  program : List UInt8
  haveArgs : Bool
  arguments : Bytes
  regs : Regs

/-- The statements of `sys_execute` from `enable_program_page` to the `iret`. -/
inductive LaunchStmt where
  | enableProgramPage
  | copy (k : Nat)
  | readEip
  | pid
  | progFreq
  | count
  | divisor
  | parPid
  | parPidRoot
  | parPcbPtr
  | args
  | parRegs
  | fdt
  | ss0
  | esp0
  | printf
  | usedPids
  | progCurrPid
  | progParPid
  | esp
  | ebp
  | iret
  deriving DecidableEq, Repr

/-- The descriptor table that a new process gets. -/
def initFdt : Fin fdtMaxEntries → FdtEntry := fun i =>
  if i = 0 then ⟨some .stdinFot, 0, 0, true, false⟩
  else if i = 1 then ⟨some .stdoutFot, 0, 0, true, false⟩
  else .zero

/-- "Store program arguments in pcb"; `arg_len` is an `int8_t`. -/
def storeArgs (l : Launch) (pcb : Pcb) : Pcb :=
  if l.haveArgs then
    let len := (UInt8.ofNat (strlen l.arguments maxArgLen)).toInt8.toInt
    { pcb with argLen := len, args := strncpy pcb.args l.arguments len.toNat }
  else { pcb with argLen := -1, args := Function.update pcb.args 0 0 }

/-- `"-- Executing Process #%d (T%d) --\n"`. -/
def executingMessage (pid : Int) (t : Term) : List UInt8 :=
  message ("-- Executing Process #" ++ toString pid ++ " (T" ++ toString t.val ++ ") --\n")

/-- `"-- Max Processes Already Reached (%d) --\n"`. -/
def maxProcessesMessage : List UInt8 :=
  message ("-- Max Processes Already Reached (" ++ toString maxProcesses ++ ") --\n")

/-- The effect of a statement; `none` is a page fault of the loader's store. -/
def LaunchStmt.run (l : Launch) (stmt : LaunchStmt) (s : Kernel) : Option Kernel :=
  let newPcb := getPcbByPid l.newPid
  let currPcb := getCurrPcb l.regs.esp
  match stmt with
  | .enableProgramPage => some (BigBrainOS.enableProgramPage l.newPid s)
  | .copy k => s.writeByte (progLoadAddr + k) (l.program.getD k 0)
  | .readEip => some s
  | .pid => some (s.setPcb newPcb fun pcb => { pcb with pid := l.newPid })
  | .progFreq => some (s.setPcb newPcb fun pcb => { pcb with progFreq := 0 })
  | .count => some (s.setPcb newPcb fun pcb => { pcb with count := 0 })
  | .divisor => some (s.setPcb newPcb fun pcb => { pcb with divisor := 0 })
  | .parPid => some (s.setPcb newPcb fun pcb => { pcb with parPid := (s.pcbs currPcb).pid })
  | .parPidRoot => some (if l.newPid < 3 then s.setPcb newPcb fun pcb => { pcb with parPid := l.newPid } else s)
  | .parPcbPtr => some (s.setPcb newPcb fun pcb => { pcb with parPcbPtr := currPcb })
  | .args => some (s.setPcb newPcb (storeArgs l))
  | .parRegs => some (s.setPcb newPcb fun pcb => { pcb with parRegs := l.regs })
  | .fdt => some (s.setPcb newPcb fun pcb => { pcb with fdt := initFdt })
  | .ss0 => some { s with tss := { s.tss with ss0 := kernelDs } }
  | .esp0 => some { s with tss := { s.tss with esp0 := kernelStackTop l.newPid } }
  | .printf => some (puts (executingMessage l.newPid s.currProcess) s)
  | .usedPids => some { s with usedPids := Function.update s.usedPids l.newPid true }
  | .progCurrPid => some (s.setTerminal s.currProcess fun t => { t with progCurrPid := l.newPid })
  | .progParPid => some (s.setTerminal s.currProcess fun t => { t with progParPid := (s.pcbs newPcb).parPid })
  | .esp => some (s.setPcb newPcb fun pcb => { pcb with regs := { pcb.regs with esp := userEsp } })
  | .ebp => some (s.setPcb newPcb fun pcb => { pcb with regs := { pcb.regs with ebp := userEsp } })
  | .iret => some s

/-- "Paging" and "User-level Program loader". -/
def loadStmts (l : Launch) : List LaunchStmt :=
  .enableProgramPage :: (List.range l.program.length).map .copy

/-- "Create PCB" and "Context Switch", up to the assignment of `prog_curr_pid`. -/
def createStmts : List LaunchStmt :=
  [.readEip, .pid, .progFreq, .count, .divisor, .parPid, .parPidRoot, .parPcbPtr, .args, .parRegs, .fdt,
    .ss0, .esp0, .printf, .usedPids, .progCurrPid]

/-- The statements after `prog_curr_pid` is assigned. -/
def enterStmts : List LaunchStmt := [.progParPid, .esp, .ebp, .iret]

/-- All statements of a launch. -/
def launchStmts (l : Launch) : List LaunchStmt := loadStmts l ++ createStmts ++ enterStmts

/-- Run a list of statements; on a page fault, the state in which it occurs. -/
def runLaunch (l : Launch) : List LaunchStmt → Kernel → Except Kernel Kernel
  | [], s => .ok s
  | stmt :: rest, s =>
    match stmt.run l s with
    | none => .error s
    | some s' => runLaunch l rest s'

/-- How `sys_execute` leaves its caller. -/
inductive ExecOutcome where
  /-- It returned `ERROR`. -/
  | failed
  /-- The loader faulted, and the page fault handler takes over. -/
  | fault
  /-- `iret` into the new program at its entry point. -/
  | launched (newPid : Int) (eip : Nat)
  deriving DecidableEq, Repr

/-- The word at a linear address. -/
def Kernel.readWord (s : Kernel) (lin : Nat) : Nat := word (fun k => s.readByte (lin + k)) 0

/-- The part of `sys_execute` that follows a successful load. -/
def enterProgram (l : Launch) (s : Kernel) : ExecOutcome × Kernel :=
  match runLaunch l (createStmts ++ enterStmts) s with
  | .error s' => (.fault, s')
  | .ok s' => (.launched l.newPid (s.readWord (progLoadAddr + progEntryOffset)), s')

/-- `sys_execute`. -/
def sysExecute (env : Env) (fr : ExecFrame) (command : Bytes) (s : Kernel) : ExecOutcome × Kernel :=
  let cmd := parse fr command
  match checkExecutable env.img fr cmd with
  | none => (.failed, s)
  | some inode =>
    match getNewPid s with
    | none => (.failed, puts maxProcessesMessage s)
    | some newPid =>
      match env.img.readData inode 0 fourMB with
      | none => (.failed, enableProgramPage newPid s)
      | some program =>
        let l : Launch := ⟨newPid, program, cmd.haveArgs, cmd.arguments, fr.regs⟩
        match runLaunch l (loadStmts l) s with
        | .error s' => (.fault, s')
        | .ok s' => enterProgram l s'

/-- What `sys_execute` returns to its caller when the child has halted. -/
def executeReturn (status : UInt8) : Int := if status = haltStatusExc then haltExc else 0

/-! ## Halting -/

/-- The locals of `sys_halt`. -/
structure Halt where
  /-- `pcb`, the block of the process that halts. -/
  addr : Nat
  pid : Int

/-- The statements of `sys_halt` that change the kernel. -/
inductive HaltStmt where
  | ss0
  | esp0
  | usedPids
  | printf
  | enableProgramPage
  | close (i : Fin fdtMaxEntries)
  | progCurrPid
  | progParPid
  | clearPcb
  deriving DecidableEq, Repr

/-- `fot_ptr->close(i)`: only the RTC's handler does anything. -/
def closeFile (fot : Option Fot) (s : Kernel) : Kernel :=
  match fot with
  | some .rtcFot => rtcClose s
  | _ => s

/-- `"-- Halting Process #%d --\n"`. -/
def haltingMessage (pid : Int) : List UInt8 := message ("-- Halting Process #" ++ toString pid ++ " --\n")

/-- `"-- Exited Root Process --\n"`. -/
def exitedRootMessage : List UInt8 := message "-- Exited Root Process --\n"

/-- The effect of a statement of `sys_halt`. -/
def HaltStmt.run (h : Halt) (stmt : HaltStmt) (s : Kernel) : Kernel :=
  match stmt with
  | .ss0 => { s with tss := { s.tss with ss0 := kernelDs } }
  | .esp0 => { s with tss := { s.tss with esp0 := kernelStackTop (s.pcbs h.addr).parPid } }
  | .usedPids => { s with usedPids := Function.update s.usedPids h.pid false }
  | .printf => puts (haltingMessage h.pid) s
  | .enableProgramPage => BigBrainOS.enableProgramPage (s.pcbs h.addr).parPid s
  | .close i =>
    let e := (s.pcbs h.addr).fdt i
    if e.enabled then closeFile e.fotPtr s else s
  | .progCurrPid =>
    s.setTerminal s.currProcess fun t => { t with progCurrPid := (s.pcbs (s.pcbs h.addr).parPcbPtr).pid }
  | .progParPid =>
    s.setTerminal s.currProcess fun t => { t with progParPid := (s.pcbs (s.pcbs h.addr).parPcbPtr).parPid }
  | .clearPcb => s.setPcb h.addr fun _ => .zero

/-- "Restore parent data", "Restore parent paging" and "Close open files". -/
def releaseStmts : List HaltStmt :=
  [.ss0, .esp0, .usedPids, .printf, .enableProgramPage] ++ (List.finRange fdtMaxEntries).map .close

/-- Run a list of statements of `sys_halt`. -/
def runHalt (h : Halt) (stmts : List HaltStmt) (s : Kernel) : Kernel := stmts.foldl (fun s stmt => stmt.run h s) s

/-- How `sys_halt` ends. -/
inductive HaltOutcome where
  /-- No process runs on the terminal: `ERROR` is returned. -/
  | noProcess
  /-- A base shell was started again. -/
  | restarted (newPid : Int)
  /-- The loader faulted while the base shell was started again. -/
  | fault
  /-- The jump to `ret_to_exec` on the stack of the parent. -/
  | toParent (regs : Regs) (status : UInt8)
  deriving DecidableEq, Repr

/-- The end of `sys_halt`, from the update of the terminal on. -/
def returnToParent (h : Halt) (status : UInt8) (s : Kernel) : HaltOutcome × Kernel :=
  let s := runHalt h [.progCurrPid, .progParPid] s
  (.toParent (s.pcbs h.addr).parRegs status, runHalt h [.clearPcb] s)

/-- The command of a base shell. -/
def shellCommand (env : Env) : Bytes := literal "shell" env.rodata

/-- The part of `sys_halt` that follows the closing of the files: a base shell is
started again, and any other process returns to its parent. -/
def finishHalt (env : Env) (fr : ExecFrame) (h : Halt) (status : UInt8) (s : Kernel) : HaltOutcome × Kernel :=
  if h.pid < 3 then
    match sysExecute env fr (shellCommand env) (puts exitedRootMessage s) with
    | (.launched newPid _, s') => (.restarted newPid, s')
    | (.fault, s') => (.fault, s')
    | (.failed, s') => returnToParent h status s'
  else returnToParent h status s

/-- `sys_halt`; `fr` is what the nested `sys_execute` finds on the stack. -/
def sysHalt (env : Env) (fr : ExecFrame) (status : UInt8) (s : Kernel) : HaltOutcome × Kernel :=
  if s.currPid s.currProcess = -1 then (.noProcess, s)
  else
    let addr := getPcbByPid (s.currPid s.currProcess)
    let h : Halt := ⟨addr, (s.pcbs addr).pid⟩
    finishHalt env fr h status (runHalt h releaseStmts s)

/-- `blue_screen`, which every exception handler calls. -/
def blueScreen (env : Env) (fr : ExecFrame) (text : String) (s : Kernel) : HaltOutcome × Kernel :=
  sysHalt env fr haltStatusExc
    (puts (message "! ERROR " ++ [0xAF] ++ message (" " ++ text ++ " !\n")) s)

/-- `PF_handler`. -/
def pfHandler (env : Env) (fr : ExecFrame) (s : Kernel) : HaltOutcome × Kernel := blueScreen env fr "Page Fault" s

/-- A call of `sys_execute` with what a page fault of its loader leads to; `exc`
is what a `sys_execute` nested in the fault handler finds on the stack. -/
def executeCall (env : Env) (fr exc : ExecFrame) (command : Bytes) (s : Kernel) : ExecOutcome × Kernel :=
  match sysExecute env fr command s with
  | (.fault, s') => (.fault, (pfHandler env exc s').2)
  | out => out

end BigBrainOS
