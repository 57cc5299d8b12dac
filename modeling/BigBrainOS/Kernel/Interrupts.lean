import BigBrainOS.Kernel.Init
import BigBrainOS.Kernel.Keyboard

/-!
# The interrupt flag

What sets and clears the interrupt flag: the gates of the interrupt descriptor
table, the wrappers of `interrupt_wrappers.S`, `sti`, `cli_and_save` and
`restore_flags`, and the EFLAGS image with which `sys_execute` enters a program.
A kernel stack is the list of the EFLAGS images on it; the image of a gate comes
with the code that the gate interrupted.
-/

namespace BigBrainOS
set_option autoImplicit false

/-! ## The descriptor table -/

abbrev ptInt : Nat := 0x20
abbrev kbInt : Nat := 0x21
abbrev rtInt : Nat := 0x28
abbrev pfExc : Nat := 0x0E
/-- `SYS_CALL`. -/
abbrev sysCall : Nat := 0x80

/-- `NI_EXC`, the non-maskable interrupt. -/
abbrev niExc : Nat := 0x02

/-- `exc_vect` of `init_idt`. -/
def excVect : List Nat :=
  [0x00, 0x01, 0x03, 0x04, 0x05, 0x06, 0x07, 0x08, 0x09, 0x0A, 0x0B, 0x0C, 0x0D, 0x0E, 0x10, 0x11, 0x12, 0x13, 0x14,
    0x1E]

/-- `int_vect` of `init_idt`. -/
def intVect : List Nat := [niExc, kbInt, rtInt, ptInt]

/-- The bits of an `idt_desc_t` that say what kind of gate it is. -/
structure IdtDesc where
  present : Bool
  dpl : Nat
  size : Bool
  reserved0 : Bool
  reserved1 : Bool
  reserved2 : Bool
  reserved3 : Bool
  deriving DecidableEq, Repr

/-- `init_idt`: all entries are of one kind, and user code may call that of the system calls. -/
def initIdt (vector : Nat) : Option IdtDesc :=
  if vector = sysCall then some ⟨true, 3, true, false, true, true, false⟩
  else if vector ∈ excVect ∨ vector ∈ intVect then some ⟨true, 0, true, false, true, true, false⟩
  else none

/-- The type bits are 1110, those of an interrupt gate. A trap gate (1111) leaves the flag alone. -/
def IdtDesc.clearsIf (d : IdtDesc) : Bool := d.size && d.reserved1 && d.reserved2 && !d.reserved3

/-! ## The processor -/

/-- The code that executes. -/
inductive Position where
  /-- The loop at the end of `entry`. -/
  | hlt
  /-- A program. `vector` is the gate through which the kernel was entered when it started the program. -/
  | user (vector : Nat)
  /-- A system call. -/
  | call
  /-- `sys_execute` after the jump to `ret_to_exec`: it returns to its wrapper. -/
  | returning
  /-- The handler of an interrupt or an exception, with interrupts off. -/
  | handler
  /-- What lies on the stack is no frame that was left there. -/
  | lost
  deriving DecidableEq, Repr

/-- An EFLAGS image on a kernel stack, by its interrupt flag. -/
inductive Pushed where
  /-- What a gate pushes, with the code it interrupted. -/
  | gate (iflag : Bool) (code : Position)
  /-- `pushfl` of a wrapper. -/
  | pushfl (iflag : Bool)
  deriving DecidableEq, Repr

/-- The kernel and the processor. `frames r` is what lies on the kernel stack that
the stack registers `r` point to. -/
structure Processor where
  kernel : Kernel
  iflag : Bool
  code : Position
  stack : List Pushed
  frames : Regs → List Pushed

namespace Processor
variable (q : Processor)

/-- What was popped is no image that was pushed. -/
def lose : Processor := { q with code := .lost, stack := [] }

/-- `EFLAGS` is pushed and the gate's handler begins. From a program the processor
first turns to the stack of `tss.esp0`, whose old contents are gone then. -/
def gate (vector : Nat) : Processor :=
  match initIdt vector with
  | none => q.lose
  | some d =>
    let q := match q.code with
      | .user _ =>
        { q with
          stack := []
          frames := fun r => if getCurrPcb r.esp = getCurrPcb q.kernel.tss.esp0 then [] else q.frames r }
      | _ => q
    { q with stack := .gate q.iflag q.code :: q.stack, iflag := q.iflag && !d.clearsIf, code := .handler }

def pushfl : Processor := { q with stack := .pushfl q.iflag :: q.stack }

def popfl : Processor :=
  match q.stack with
  | .pushfl iflag :: rest => { q with iflag := iflag, stack := rest }
  | _ => q.lose

def iret : Processor :=
  match q.stack with
  | .gate iflag code :: rest => { q with iflag := iflag, code := code, stack := rest }
  | _ => q.lose

def cli : Processor := { q with iflag := false }

def sti : Processor := { q with iflag := true }

/-- `cli_and_save`, with the value of `flags`. -/
def cliAndSave : Bool × Processor := (q.iflag, q.cli)

def restoreFlags (flags : Bool) : Processor := { q with iflag := flags }

/-- The beginning of `PT_handler_wrapper`, `KB_handler_wrapper` and `RT_handler_wrapper`. -/
def irqEnter (vector : Nat) : Processor := (q.gate vector).pushfl.cli

/-- The end of the three wrappers. -/
def irqLeave : Processor := q.popfl.iret

/-- The beginning of `SYS_handler_wrapper`. -/
def sysEnter : Processor := { (q.gate sysCall).pushfl.sti with code := .call }

/-- The end of `SYS_handler_wrapper`. -/
def sysLeave : Processor := q.popfl.iret

/-- The end of `sys_execute`: the flags of the moment go onto the stack for `iret`,
and the program has a kernel stack of its own. -/
def enterProgram (vector : Nat) : Processor :=
  { ({ q with stack := .gate q.iflag (.user vector) :: q.stack } : Processor).iret with stack := [] }

/-- The stack in use is left, with the stack registers in a control block. -/
def save (r : Regs) : Processor := { q with frames := Function.update q.frames r q.stack }

/-- The stack registers are loaded. -/
def load (r : Regs) : Processor := { q with stack := q.frames r }

/-- `putc` of a system call. -/
def putc (c : UInt8) : Processor :=
  let (flags, q) := q.cliAndSave
  ({ q with kernel := BigBrainOS.putc c q.kernel } : Processor).restoreFlags flags

/-- The end of a `sys_halt` that was called behind the gate `vector`. -/
def ended (vector : Nat) (out : HaltOutcome × Kernel) : Processor :=
  match out with
  | (.toParent regs _, k) => { ({ q with kernel := k } : Processor).load regs with code := .returning }
  | (.restarted _, k) => ({ q with kernel := k } : Processor).enterProgram vector
  -- only the wrapper of the system calls can be returned to
  | (.noProcess, k) =>
    if vector = sysCall then { q with kernel := k } else ({ q with kernel := k } : Processor).lose
  -- the page fault handler runs into the same fault again
  | (.fault, k) => ({ q with kernel := k } : Processor).lose

/-- `PT_handler`. -/
def tick (env : Env) (r : Regs) (fr exc : ExecFrame) : Processor :=
  let q := q.irqEnter ptInt
  match switchRunningProcess env r fr q.kernel with
  | (.launched _, k) => (({ q with kernel := k } : Processor).save r).enterProgram ptInt
  | (.resumed regs, k) => ((({ q with kernel := k } : Processor).save r).load regs).irqLeave
  | (.returned, k) => ({ q with kernel := k } : Processor).irqLeave
  | (.fault, k) => (({ q with kernel := k } : Processor).gate pfExc).ended pfExc (pfHandler env exc k)

/-- `sys_execute`. -/
def execute (env : Env) (fr exc : ExecFrame) (command : Bytes) : Processor :=
  match sysExecute env fr command q.kernel with
  | (.launched _ _, k) => (({ q with kernel := k } : Processor).save fr.regs).enterProgram sysCall
  | (.failed, k) => { q with kernel := k }
  | (.fault, k) => (({ q with kernel := k } : Processor).gate pfExc).ended pfExc (pfHandler env exc k)

/-- The handler of a keyboard or an RTC interrupt. -/
def irq (vector : Nat) (handler : Kernel → Kernel) : Processor :=
  let q := q.irqEnter vector
  ({ q with kernel := handler q.kernel } : Processor).irqLeave

end Processor

end BigBrainOS
