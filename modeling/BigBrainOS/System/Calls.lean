import BigBrainOS.Rtc.Release
import BigBrainOS.Display.Bounds

/-!
# The whole kernel

All system calls, interrupts and exceptions of the kernel in one transition
system, with the stores of the programs themselves. A process goes on where the
clock tick left it, so any process may take the next step that its terminal has
the processor for.

What the system leaves out:
- Each call is one step, so no interrupt comes inside it, though `SYS_handler_wrapper`
  turns interrupts on; what a tick inside `sys_execute` or `sys_halt` does is the subject
  of `preemptible`. The calls that wait, `terminal_read` and `rtc_read`, are the steps of
  their stores.
- A descriptor is one of 0 to 7; the calls only test it for being negative.
- Names, commands and buffers are given with the step. What a call delivers reaches the
  memory of its caller by `store` steps behind it, and so only where the caller could store
  itself; `programs` has the pointers.
- A key arrives while `curr_process` is `curr_ter`.
-/

namespace BigBrainOS
set_option autoImplicit false

/-! ## Writing -/

/-- `sys_write` with its handlers: the value returned and the new state. The RTC
takes the word at the start of the buffer, and the handlers of files and
directories return -1. -/
def sysWriteCall (r : Regs) (fd : Fd) (buf : Option Bytes) (nbytes : Int) (s : Kernel) : Int × Kernel :=
  match sysWrite r fd buf.isNone s with
  | .ret value => (value, s)
  | .call (some .rtcFot) => rtcWrite (buf.map fun b => BitVec.ofNat 32 (word b 0)) nbytes s
  | .call (some .stdoutFot) => terminalWrite buf nbytes s
  | .call _ => (error, s)

/-! ## Stores of a program -/

namespace Kernel

/-- The physical address behind a linear one for a store in user mode; `none` is
a page fault. Both levels must be present, for users, and writable. -/
def userTranslate (s : Kernel) (lin : Nat) : Option Nat :=
  let pde := s.pageDirectory (lin / fourMB)
  if pde.present && pde.userSupervisor && pde.readWrite then
    if pde.pageSize then some (pde.address * pageSize + lin % fourMB)
    else
      let pte := (if lin / fourMB = 0 then s.pageTable else s.vidmemPageTable) (lin / pageSize % 1024)
      if pte.present && pte.userSupervisor && pte.readWrite then some (pte.address * pageSize + lin % pageSize) else none
  else none

/-- A byte that a program stores. -/
def userStore (s : Kernel) (lin : Nat) (b : UInt8) : Kernel :=
  match s.userTranslate lin with
  | none => s
  | some a => { s with phys := Function.update s.phys a b }

end Kernel

/-! ## The system -/

/-- A step of the machine: a whole call, an interrupt or an exception. -/
inductive SystemOp where
  | machine (op : MachineOp)
  | open_ (r : Regs) (filename : Bytes)
  | close (r : Regs) (fd : Fd)
  /-- A read, complete unless its handler waits. -/
  | read (r : Regs) (fd : Fd) (buf : Option Bytes) (nbytes : Int)
  | write (r : Regs) (fd : Fd) (buf : Option Bytes) (nbytes : Int)
  /-- A store of a handler that waits. -/
  | wait (stmt : WaitStmt)
  /-- The interrupt of the real-time clock. -/
  | clock
  /-- An exception of the running program. -/
  | exception (exc : ExecFrame) (text : String)
  /-- A store of the running program, or of a call into a buffer that the program could write itself. -/
  | store (lin : BitVec 32) (b : UInt8)

def SystemOp.run (env : Env) (tableAddr : Nat) (op : SystemOp) (s : Kernel) : Kernel :=
  match op with
  | .machine op => op.run env tableAddr s
  | .open_ r filename => (sysOpen env.img r filename s).2
  | .close r fd => (sysClose r fd s).2
  | .read r fd buf nbytes => readCall env.img r fd buf nbytes s
  | .write r fd buf nbytes => (sysWriteCall r fd buf nbytes s).2
  | .wait stmt => stmt.run s
  | .clock => rtHandler s
  | .exception exc text => (blueScreen env exc text s).2
  | .store lin b => s.userStore lin.toNat b

/-- The calls run on the stack that `tss.esp0` gave them; the guard of a key is that of `MachineOp`. -/
def SystemOp.Allowed (op : SystemOp) (s : Kernel) : Prop :=
  match op with
  | .machine op => op.Allowed s
  | .open_ r _ => OnStack s.tss.esp0 r.esp
  | .close r _ => OnStack s.tss.esp0 r.esp
  | .read r _ _ _ => OnStack s.tss.esp0 r.esp
  | .write r _ _ _ => OnStack s.tss.esp0 r.esp
  | _ => True

/-- The whole kernel with atomic calls; `tableAddr` is the address of `vidmem_page_table`. -/
def systemCalls (env : Env) (tableAddr : Nat) : TransitionSystem Kernel SystemOp where
  ok s op := op.Allowed s
  next s op := op.run env tableAddr s

/-- The process that runs. -/
def Kernel.running (s : Kernel) : Int := s.currPid s.currProcess

/-! ## Boot -/

/-- The kernel between the `sti` of `entry` and the start of the third shell: `k`
shells run, and keys and clock interrupts may have arrived in between. -/
inductive StartUp (env : Env) : Nat → Kernel → Prop where
  | entry (m : Machine) : StartUp env 0 (entry m)
  | tick {k : Nat} {s : Kernel} (r : Regs) (fr : ExecFrame) : StartUp env k s → k < 3 →
      StartUp env (k + 1) (switchRunningProcess env r fr s).2
  | key {k : Nat} {s : Kernel} (scancode : UInt8) : StartUp env k s → StartUp env k (kbHandler scancode s)
  | clock {k : Nat} {s : Kernel} : StartUp env k s → StartUp env k (rtHandler s)

/-- The three shells have just been started, or only interrupts came since. -/
def Booted (env : Env) (s : Kernel) : Prop := StartUp env 3 s

end BigBrainOS
