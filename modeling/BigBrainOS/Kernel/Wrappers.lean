import BigBrainOS.Theory.StackCode
import BigBrainOS.Kernel.Idt

/-!
# The wrappers

The code of `interrupt_wrappers.S`, instruction by instruction, and how the processor
comes to it through an entry of the descriptor table.
-/

namespace BigBrainOS
set_option autoImplicit false
open StackCode (Instr Cpu Program)

/-- The functions that the wrappers call. -/
inductive Callee where
  | kbHandler | rtHandler | ptHandler
  | sysHalt | sysExecute | sysRead | sysWrite | sysOpen | sysClose | sysGetargs | sysVidmap | sysSetHandler | sysSigreturn
  deriving DecidableEq, Repr

inductive WrapperLabel where
  | didNotFail
  | sysCallAeTen
  | sysCallReturn
  deriving DecidableEq, Repr

/-- The code that `KB_handler_wrapper`, `RT_handler_wrapper` and `PT_handler_wrapper` have in common. -/
def irqWrapper (handler : Callee) : List (Instr WrapperLabel Callee) :=
  [.pushfl, .pushal, .cli, .call handler, .popal, .popfl, .iret]

def kbHandlerWrapper : List (Instr WrapperLabel Callee) := irqWrapper .kbHandler

def rtHandlerWrapper : List (Instr WrapperLabel Callee) := irqWrapper .rtHandler

def ptHandlerWrapper : List (Instr WrapperLabel Callee) := irqWrapper .ptHandler

/-- `sys_jump_table`. -/
def sysJumpTable : List Callee :=
  [.sysHalt, .sysExecute, .sysRead, .sysWrite, .sysOpen, .sysClose, .sysGetargs, .sysVidmap, .sysSetHandler, .sysSigreturn]

/-- `SYS_handler_wrapper`. -/
def sysHandlerWrapper : List (Instr WrapperLabel Callee) :=
  [.pushfl,
    .pushl .ebx,
    .pushl .edi,
    .pushl .esi,
    .sti,
    .sublImm 1 .eax,
    .cmplImm 10 .eax,
    .jae .sysCallAeTen,
    .pushl .edx,
    .pushl .ecx,
    .pushl .ebx,
    .callTable sysJumpTable .eax,
    .cmplImm (-1) .eax,
    .jne .didNotFail,
    .label .didNotFail,
    .addlEsp 12,
    .jmp .sysCallReturn,
    .label .sysCallAeTen,
    .movlImm (-1) .eax,
    .label .sysCallReturn,
    .popl .esi,
    .popl .edi,
    .popl .ebx,
    .popfl,
    .iret]

/-- The processor goes through an entry of the table. -/
def enterGate (e : IdtEntry) (c : Cpu) : Cpu := c.gate (e.segSelector.setWidth 32) e.offset e.desc.clearsIf

section
variable (link : Handler → BitVec 32) (callee : Callee → Cpu → Cpu → Prop)

/-- The wrapper of an interrupt. Nothing is said about what an interrupt in it would do. -/
def irqProgram (wrapper : Handler) (handler : Callee) : Program WrapperLabel Callee where
  code := irqWrapper handler
  base := link wrapper
  callee := callee
  irq _ _ := True
  short := show 7 < 2 ^ 32 by decide

/-- The three wrappers of interrupts and their functions. -/
def irqWrappers : List (Handler × Callee) :=
  [(.kbHandlerWrapper, .kbHandler), (.rtHandlerWrapper, .rtHandler), (.ptHandlerWrapper, .ptHandler)]

/-- An interrupt of the keyboard, the RTC or the clock, from its gate to its `iret`. -/
def Interrupted (c after : Cpu) : Prop :=
  ∃ wrapper handler, (wrapper, handler) ∈ irqWrappers ∧
    (irqProgram link callee wrapper handler).Returns (enterGate (handlerGate 0 (link wrapper)) c) after

end

end BigBrainOS
