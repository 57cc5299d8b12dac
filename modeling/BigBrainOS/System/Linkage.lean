import BigBrainOS.Kernel.Wrappers

/-!
# Assembly linkage

What the wrappers of `interrupt_wrappers.S` promise to the code they interrupt. The C
functions behind them are any that keep the calling convention, and return if they want;
the system calls run with interrupts on. An interrupt is not noticed by the code it
interrupts, and so it is not noticed by a system call either, wherever it comes.
-/

namespace BigBrainOS
set_option autoImplicit false
open StackCode (Word Instr Cpu Gprs Program Run interrupts setFlag)

/-- The C functions keep the calling convention, where the stack has a return address and
their arguments. A handler does not turn interrupts on; of a system call only `ebp` has to
be kept: the wrapper saves the other registers of the convention itself. -/
structure Convention (callee : Callee → Cpu → Cpu → Prop) : Prop where
  handler : ∀ {wrapper f entry exit}, (wrapper, f) ∈ irqWrappers → callee f entry exit → 0 < entry.stack.length →
    Program.Returned 0 entry exit ∧ (entry.eflags.getLsbD interrupts = false → exit.eflags.getLsbD interrupts = false)
  call : ∀ {f entry exit}, f ∈ sysJumpTable → callee f entry exit → 3 < entry.stack.length →
    Program.Returned 3 entry exit ∧ exit.regs.ebp = entry.regs.ebp

section
variable {link : Handler → BitVec 32} {callee : Callee → Cpu → Cpu → Prop} {c : Cpu}

/-! ## Interrupts -/

/-- The words that the gate pushes. -/
def gateImage (c : Cpu) : List Word :=
  match c.user with
  | some (ss, esp) => [c.eip, c.cs, c.eflags, esp, ss]
  | none => c.eip :: c.cs :: c.eflags :: c.stack

/-- `EFLAGS` behind a gate of the table. -/
def gateFlags (c : Cpu) : Word := setFlag interrupts false (c.eflags &&& ~~~0x34100#32)

/-- `KERNEL_CS`, as it is pushed. -/
abbrev kernelCsWord : Word := 0x10

theorem enterGate_eq (dpl : Nat) (handler : BitVec 32) (c : Cpu) :
    enterGate (handlerGate dpl handler) c = ⟨c.regs, gateFlags c, kernelCsWord, handler, none, c.top, gateImage c⟩ := by
  rw [enterGate, handlerGate_offset]
  rfl

/-- Behind the gate, the first instruction comes next. -/
theorem enterGate_front (P : Program WrapperLabel Callee) (dpl : Nat) (c : Cpu) :
    enterGate (handlerGate dpl P.base) c = P.front kernelCsWord c.top 0 c.regs (gateFlags c) (gateImage c) := by
  rw [enterGate_eq, Program.front, Program.place, BitVec.add_zero]

theorem gateFlags_off (c : Cpu) : (gateFlags c).getLsbD interrupts = false := StackCode.getLsbD_setFlag (by decide) _ _

/-- The last instruction of a wrapper gives the interrupted code back everything but the general registers. -/
theorem iret_image (coherent : c.Coherent) (P : Program WrapperLabel Callee) (k : Nat) (g : Gprs) (eflags : Word) :
    (P.front kernelCsWord c.top k g eflags (gateImage c)).iret = some { c with regs := g } := by
  have pushed : (P.front kernelCsWord c.top k g eflags (gateImage c)).stack = (c.gate kernelCsWord 0 true).stack := rfl
  exact Cpu.iret_gate coherent pushed rfl rfl

/-- Interrupts are off. -/
def InterruptsOff (d : Cpu) : Prop := d.eflags.getLsbD interrupts = false

/-- The handler was called once, with interrupts off, and `iret` leads back to `c`. -/
def Handled (handler : Callee) (c : Cpu) (r : Run Callee) : Prop :=
  r.cpu.iret = some c ∧ ∃ entry exit, r.calls = [(handler, entry, exit)] ∧ InterruptsOff entry

/-- The wrapper of an interrupt, instruction by instruction. -/
theorem irq_leads (convention : Convention callee) (coherent : c.Coherent) {wrapper : Handler} {handler : Callee}
    (known : (wrapper, handler) ∈ irqWrappers) :
    (irqProgram link callee wrapper handler).Leads InterruptsOff (Handled handler c)
      ⟨enterGate (handlerGate 0 (link wrapper)) c, []⟩ := by
  have entered := enterGate_front (irqProgram link callee wrapper handler) 0 c
  rw [show (irqProgram link callee wrapper handler).base = link wrapper from rfl] at entered
  rw [entered]
  have off := gateFlags_off c
  have cleared : (setFlag interrupts false (gateFlags c)).getLsbD interrupts = false :=
    StackCode.getLsbD_setFlag (by decide) _ _
  apply Program.Leads.pushfl off rfl
  apply Program.Leads.pushal off rfl
  apply Program.Leads.cli off rfl
  refine .call (Program.fetch_front rfl) rfl cleared fun exit returned => ?_
  obtain ⟨back, quiet⟩ := convention.handler known returned (Nat.succ_pos _)
  obtain ⟨new, size, same⟩ := Program.Returned.front (show Program.Returned ([] : List Word).length _ exit from back)
  obtain rfl := List.length_eq_zero_iff.1 size
  have still := quiet cleared
  rw [same]
  apply Program.Leads.popal still rfl
  apply Program.Leads.popfl still rfl
  exact .done (Program.fetch_front rfl) off ⟨iret_image coherent _ _ c.regs _, _, _, rfl, cleared⟩

/-- In a wrapper of an interrupt nothing else interrupts. -/
theorem irq_run (convention : Convention callee) (coherent : c.Coherent) {wrapper : Handler} {handler : Callee}
    (known : (wrapper, handler) ∈ irqWrappers) {r : Run Callee} (reach : (irqProgram link callee wrapper handler).system.Reach
      (· = ⟨enterGate (handlerGate 0 (link wrapper)) c, []⟩) r) :
    (irqProgram link callee wrapper handler).Leads InterruptsOff (Handled handler c) r :=
  (irq_leads convention coherent known).reach (fun _ _ off on _ => absurd (on.symm.trans off) (by decide)) reach

/-- An interrupt is not noticed: all registers, the flags and the stack are as before. -/
theorem Interrupted.same (convention : Convention callee) (coherent : c.Coherent) {after : Cpu}
    (interrupted : Interrupted link callee c after) : after = c := by
  obtain ⟨wrapper, handler, known, r, reach, iret, back⟩ := interrupted
  have handled := ((irq_run convention coherent known reach).at_iret iret).1
  exact Option.some.inj (back.symm.trans handled)

/-- Kernel code. -/
def InKernel (d : Cpu) : Prop := d.user = none ∧ d.cs &&& 3 = 0

theorem InKernel.coherent {d : Cpu} (kernel : InKernel d) : d.Coherent := by
  refine ⟨fun _ => kernel.2, fun program => ?_⟩
  rw [kernel.1] at program
  cases program

section
variable {P : Program WrapperLabel Callee} {k : Nat} {g : Gprs} {eflags : Word} {stack : List Word}

end

end

end BigBrainOS
