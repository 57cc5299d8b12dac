import BigBrainOS.Kernel.Interrupts
import BigBrainOS.Process.Boot

/-!
# Interrupts in user mode

A program runs with the interrupt flag that `sys_execute` found when it started
the program, until it ends: every gate saves the flag, and every way back restores
it. The flag is on exactly if the kernel had been entered through the gate of
the system calls, whose wrapper turns interrupts on. The scheduler starts the base shells
behind the gate of the clock, and exception handlers start them again behind their
own, so these run with interrupts off.
-/

namespace BigBrainOS
set_option autoImplicit false

/-! ## The system -/

/-- What can happen next. `sys_execute` and `sys_halt` are atomic: a call that is interrupted
in the middle goes on with interrupts on, see `irq_inside_call` and `tick_inside_call`. -/
inductive FlagOp where
  | tick (r : Regs) (fr exc : ExecFrame)
  | key (scancode : UInt8)
  | rtc
  /-- `int 0x80` of a program. -/
  | int80
  | execute (fr exc : ExecFrame) (command : Bytes)
  | halt (fr : ExecFrame) (status : UInt8)
  | putc (c : UInt8)
  /-- `sti` of `terminal_read` and `rtc_read`. -/
  | sti
  /-- The system call returns to its wrapper. -/
  | return_
  /-- An exception of a program or of a system call. -/
  | exception (vector : Nat) (fr : ExecFrame) (text : String)

def FlagOp.run (env : Env) (op : FlagOp) (q : Processor) : Processor :=
  match op with
  | .tick r fr exc => q.tick env r fr exc
  | .key scancode => q.irq kbInt (kbHandler scancode)
  | .rtc => q.irq rtInt rtHandler
  | .int80 => q.sysEnter
  | .execute fr exc command => q.execute env fr exc command
  | .halt fr status => q.ended sysCall (sysHalt env fr status q.kernel)
  | .putc c => q.putc c
  | .sti => q.sti
  | .return_ => q.sysLeave
  | .exception vector fr text => (q.gate vector).ended vector (blueScreen env fr text q.kernel)

/-- Interrupts arrive while the flag is on, and each piece of code does what it can do. -/
def FlagOp.Allowed (op : FlagOp) (q : Processor) : Prop :=
  match op with
  | .tick _ _ _ => q.iflag = true ∧ q.code ≠ .lost
  | .key _ => q.iflag = true ∧ q.code ≠ .lost
  | .rtc => q.iflag = true ∧ q.code ≠ .lost
  | .int80 => ∃ vector, q.code = .user vector
  | .execute _ _ _ => q.code = .call
  | .halt _ _ => q.code = .call
  | .putc _ => q.code = .call
  | .sti => q.code = .call
  | .return_ => q.code = .call ∨ q.code = .returning
  | .exception vector _ _ => (vector ∈ excVect ∨ vector = niExc) ∧ ((∃ v, q.code = .user v) ∨ q.code = .call)

/-- The kernel with its interrupt flag. -/
def flagCalls (env : Env) : TransitionSystem Processor FlagOp where
  ok q op := op.Allowed q
  next q op := op.run env q

/-- `entry` has enabled interrupts and waits. -/
structure Processor.Start (q : Processor) : Prop where
  entry : AtEntry q.kernel
  iflag : q.iflag = true
  code : q.code = .hlt
  stack : q.stack = []
  frames : ∀ r, q.frames r = []

/-! ## The invariant -/

/-- The flag is right for the code: on in system calls, and in programs that a system call started. -/
def Position.Flagged (code : Position) (iflag : Bool) : Prop :=
  match code with
  | .user vector => iflag = true ↔ vector = sysCall
  | .call => iflag = true
  | _ => True

/-- Every code that was interrupted gets the right flag back. -/
def Sound (stack : List Pushed) : Prop := ∀ iflag code, .gate iflag code ∈ stack → code.Flagged iflag

/-- Every kernel stack is sound. -/
structure Processor.Stacks (q : Processor) : Prop where
  stack : Sound q.stack
  frames : ∀ r, Sound (q.frames r)

/-- What every run keeps. -/
structure Processor.Inv (q : Processor) : Prop extends q.Stacks where
  flag : q.code.Flagged q.iflag

theorem Sound.nil : Sound [] := by
  intro iflag code member
  cases member

theorem Sound.tail {image : Pushed} {rest : List Pushed} (sound : Sound (image :: rest)) : Sound rest :=
  fun iflag code member => sound iflag code (List.mem_cons_of_mem _ member)

theorem Sound.pushfl {rest : List Pushed} (sound : Sound rest) (iflag : Bool) : Sound (.pushfl iflag :: rest) := by
  intro iflag' code member
  rcases List.mem_cons.1 member with same | below
  · cases same
  · exact sound iflag' code below

theorem Sound.gate {rest : List Pushed} (sound : Sound rest) {iflag : Bool} {code : Position} (flag : code.Flagged iflag) :
    Sound (.gate iflag code :: rest) := by
  intro iflag' code' member
  rcases List.mem_cons.1 member with same | below
  · cases same
    exact flag
  · exact sound iflag' code' below

namespace Processor
variable {q : Processor}

/-- All entries of the table are interrupt gates. -/
theorem gate_off (q : Processor) {vector : Nat} (known : vector ∈ excVect ∨ vector ∈ intVect) :
    (q.gate vector).iflag = false ∧ (q.gate vector).code = .handler := by
  have entries : ∀ vector ∈ excVect ++ intVect, ∃ d, initIdt vector = some d ∧ d.clearsIf = true := by decide
  obtain ⟨d, entry, clears⟩ := entries vector (List.mem_append.2 known)
  unfold Processor.gate
  simp only [entry, clears, Bool.not_true, Bool.and_false, and_self]

/-- In a system call the frame of an interrupt lies on the stack of the call. -/
theorem irqEnter_call (called : q.code = .call) {vector : Nat} (known : vector ∈ intVect) :
    (q.irqEnter vector).stack = .pushfl false :: .gate q.iflag .call :: q.stack ∧
      (q.irqEnter vector).frames = q.frames ∧ (q.irqEnter vector).kernel = q.kernel := by
  have entries : ∀ vector ∈ intVect, ∃ d, initIdt vector = some d ∧ d.clearsIf = true := by decide
  obtain ⟨d, entry, clears⟩ := entries vector known
  simp only [Processor.irqEnter, Processor.cli, Processor.pushfl, Processor.gate, entry, called, clears, Bool.not_true,
    Bool.and_false, and_self]

/-- A key or an RTC interrupt in the middle of a system call only runs its handler. -/
theorem irq_inside_call (called : q.code = .call) {vector : Nat} (known : vector ∈ intVect) (handler : Kernel → Kernel) :
    q.irq vector handler = { q with kernel := handler q.kernel } := by
  obtain ⟨stack, frames, kernel⟩ := irqEnter_call called known
  simp only [Processor.irq, Processor.irqLeave, Processor.popfl, Processor.iret, stack, frames, kernel, called]

/-- **A tick in the middle of a system call**, whatever runs before its terminal has its turn
again: once the stack that the tick saved is loaded, the call goes on with its own flag and stack. -/
theorem tick_inside_call (called : q.code = .call) (r : Regs) {q' : Processor}
    (kept : q'.frames r = ((q.irqEnter ptInt).save r).frames r) :
    (q'.load r).irqLeave = { q' with iflag := q.iflag, code := .call, stack := q.stack } := by
  obtain ⟨stack, -, -⟩ := irqEnter_call called (show ptInt ∈ intVect by decide)
  have saved : ((q.irqEnter ptInt).save r).frames r = (q.irqEnter ptInt).stack := Function.update_self r _ _
  rw [saved, stack] at kept
  simp only [Processor.load, Processor.irqLeave, Processor.popfl, Processor.iret, kept]

/-- A gate saves the flag for the code it interrupts. -/
theorem Inv.gate (inv : q.Inv) (vector : Nat) : (q.gate vector).Stacks := by
  unfold Processor.gate
  split
  · exact ⟨.nil, inv.frames⟩
  · split
    · refine ⟨Sound.nil.gate inv.flag, fun r => ?_⟩
      dsimp only
      split
      · exact .nil
      · exact inv.frames r
    · exact ⟨inv.stack.gate inv.flag, inv.frames⟩

namespace Stacks

theorem lose (kept : q.Stacks) : q.lose.Inv := ⟨⟨.nil, kept.frames⟩, trivial⟩

theorem setKernel (kept : q.Stacks) (k : Kernel) : Processor.Stacks { q with kernel := k } :=
  ⟨kept.stack, kept.frames⟩

theorem save (kept : q.Stacks) (r : Regs) : (q.save r).Stacks := by
  refine ⟨kept.stack, fun r' => ?_⟩
  simp only [Processor.save, Function.update_apply]
  split
  · exact kept.stack
  · exact kept.frames r'

theorem load (kept : q.Stacks) (r : Regs) : (q.load r).Stacks := ⟨kept.frames r, kept.frames⟩

theorem popfl (kept : q.Stacks) : q.popfl.Stacks := by
  unfold Processor.popfl
  split
  · next iflag rest stack => exact ⟨(stack ▸ kept.stack).tail, kept.frames⟩
  · exact kept.lose.toStacks

/-- `iret` gives the interrupted code its flag back. -/
theorem iret (kept : q.Stacks) : q.iret.Inv := by
  unfold Processor.iret
  split
  · next iflag code rest stack =>
    have sound : Sound (.gate iflag code :: rest) := stack ▸ kept.stack
    exact ⟨⟨sound.tail, kept.frames⟩, sound iflag code (List.mem_cons_self ..)⟩
  · exact kept.lose

/-- A program starts with the flag of the moment. -/
theorem enterProgram (kept : q.Stacks) {vector : Nat} (flag : q.iflag = true ↔ vector = sysCall) :
    (q.enterProgram vector).Inv := ⟨⟨.nil, kept.frames⟩, flag⟩

/-- `sys_halt` behind a gate starts a base shell with the flag of the moment, or returns to its parent. -/
theorem ended (kept : q.Stacks) {vector : Nat} (flag : q.iflag = true ↔ vector = sysCall)
    (code : vector = sysCall → q.code = .call) (out : HaltOutcome × Kernel) : (q.ended vector out).Inv := by
  obtain ⟨outcome, k⟩ := out
  have kept' := kept.setKernel k
  cases outcome with
  | toParent regs status => exact ⟨⟨kept.frames regs, kept.frames⟩, trivial⟩
  | restarted pid => exact kept'.enterProgram flag
  | fault => exact kept'.lose
  | noProcess =>
    simp only [Processor.ended]
    split
    · next called =>
      refine ⟨kept', ?_⟩
      show q.code.Flagged q.iflag
      rw [code called]
      exact flag.2 called
    · exact kept'.lose

end Stacks

/-! ## The steps -/

section Steps
variable {env : Env}

theorem Inv.setKernel (inv : q.Inv) (k : Kernel) : Processor.Inv { q with kernel := k } :=
  ⟨inv.toStacks.setKernel k, inv.flag⟩

/-- The wrapper of an interrupt. -/
theorem Inv.irqEnter (inv : q.Inv) {vector : Nat} (known : vector ∈ intVect) : (q.irqEnter vector).Inv := by
  have gated := inv.gate vector
  refine ⟨⟨gated.stack.pushfl _, gated.frames⟩, ?_⟩
  show (q.gate vector).code.Flagged false
  rw [(q.gate_off (.inr known)).2]
  trivial

theorem Stacks.irqLeave (kept : q.Stacks) : q.irqLeave.Inv := kept.popfl.iret

theorem Inv.irq (inv : q.Inv) {vector : Nat} (known : vector ∈ intVect) (handler : Kernel → Kernel) :
    (q.irq vector handler).Inv :=
  ((inv.irqEnter known).setKernel _).toStacks.irqLeave

/-- An exception halts the process with interrupts off. -/
theorem Inv.excepted (inv : q.Inv) {vector : Nat} (known : vector ∈ excVect ∨ vector ∈ intVect)
    (out : HaltOutcome × Kernel) : ((q.gate vector).ended vector out).Inv := by
  have system : sysCall ∉ excVect ++ intVect := by decide
  have other : vector ≠ sysCall := by
    rintro rfl
    exact system (List.mem_append.2 known)
  refine (inv.gate vector).ended ?_ (fun same => absurd same other) out
  rw [(q.gate_off known).1]
  exact iff_of_false (fun off => by cases off) other

theorem Inv.tick (inv : q.Inv) (r : Regs) (fr exc : ExecFrame) : (q.tick env r fr exc).Inv := by
  have entered := inv.irqEnter (show ptInt ∈ intVect by decide)
  unfold Processor.tick
  dsimp only
  split
  · apply ((entered.setKernel _).toStacks.save r).enterProgram
    exact iff_of_false (fun on => by cases on) (by decide)
  · exact (((entered.setKernel _).toStacks.save r).load _).irqLeave
  · exact (entered.setKernel _).toStacks.irqLeave
  · exact (entered.setKernel _).excepted (.inl (by decide)) _

theorem Inv.execute (inv : q.Inv) (called : q.code = .call) (fr exc : ExecFrame) (command : Bytes) :
    (q.execute env fr exc command).Inv := by
  have on : q.iflag = true := by
    have flag := inv.flag
    rw [called] at flag
    exact flag
  unfold Processor.execute
  split
  · apply ((inv.setKernel _).toStacks.save fr.regs).enterProgram
    exact iff_of_true on rfl
  · exact inv.setKernel _
  · exact (inv.setKernel _).excepted (.inl (by decide)) _

/-- **Step lemma.** -/
theorem Inv.step (inv : q.Inv) {op : FlagOp} (ok : (flagCalls env).ok q op) : ((flagCalls env).next q op).Inv := by
  have on : q.code = .call → q.iflag = true := by
    intro called
    have flag := inv.flag
    rw [called] at flag
    exact flag
  cases op with
  | tick r fr exc => exact inv.tick r fr exc
  | key scancode => exact inv.irq (show kbInt ∈ intVect by decide) _
  | rtc => exact inv.irq (show rtInt ∈ intVect by decide) _
  | int80 =>
    have gated := inv.gate sysCall
    exact ⟨⟨gated.stack.pushfl _, gated.frames⟩, rfl⟩
  | execute fr exc command => exact inv.execute ok fr exc command
  | halt fr status => exact inv.toStacks.ended (iff_of_true (on ok) rfl) (fun _ => ok) _
  | putc c => exact inv.setKernel _
  | sti =>
    refine ⟨⟨inv.stack, inv.frames⟩, ?_⟩
    show q.code.Flagged true
    rw [show q.code = .call from ok]
    rfl
  | return_ => exact inv.toStacks.popfl.iret
  | exception vector fr text =>
    apply inv.excepted
    rcases ok.1 with exception | rfl
    · exact .inl exception
    · exact .inr (by decide)

end Steps

theorem Start.inv (start : q.Start) : q.Inv := by
  refine ⟨⟨?_, fun r => ?_⟩, ?_⟩
  · rw [start.stack]
    exact .nil
  · rw [start.frames]
    exact .nil
  · rw [start.code]
    trivial

end Processor

/-! ## All runs -/

/-- **Interrupts in user mode.** In every run from boot a program has interrupts on
exactly if the kernel started it behind the gate of the system calls. -/
theorem interruptible_iff {env : Env} {q : Processor} (reach : (flagCalls env).Reach Processor.Start q) {vector : Nat}
    (user : q.code = .user vector) : q.iflag = true ↔ vector = sysCall := by
  have inv : q.Inv := reach.invariant (fun _ start => start.inv) fun _ _ inv ok => inv.step ok
  have flag := inv.flag
  rw [user] at flag
  exact flag

/-- The first clock tick starts a base shell, with interrupts off. -/
theorem first_tick : ∃ q, (flagCalls shellEnv).Reach Processor.Start q ∧ q.code = .user ptInt ∧ q.iflag = false ∧
    Shells q.kernel.view 1 := by
  have init := entry_init ⟨fun _ => 0, fun _ => .zero, 0x26, 0⟩
  have start : (flagCalls shellEnv).Reach Processor.Start
      ⟨entry ⟨fun _ => 0, fun _ => .zero, 0x26, 0⟩, true, .hlt, [], fun _ => []⟩ :=
    .base ⟨⟨_, rfl⟩, rfl, rfl, rfl, fun _ => rfl⟩
  generalize entry ⟨fun _ => 0, fun _ => .zero, 0x26, 0⟩ = s at init start
  obtain ⟨k, launched, shells, -, -⟩ := init.booting.tick shellEnv_loadable ⟨0, 0⟩ (.blank ⟨0, 0⟩)
  have waiting : (⟨s, true, .hlt, [], fun _ => []⟩ : Processor).code ≠ .lost := fun lost => by cases lost
  have ticked := start.step (FlagOp.tick ⟨0, 0⟩ (.blank ⟨0, 0⟩) (.blank ⟨0, 0⟩)) ⟨rfl, waiting⟩
  have entered : ((⟨s, true, .hlt, [], fun _ => []⟩ : Processor).irqEnter ptInt).kernel = s := rfl
  simp only [flagCalls, FlagOp.run, Processor.tick, entered, launched] at ticked
  exact ⟨_, ticked, rfl, rfl, shells⟩

theorem sysEnter_kernel (q : Processor) : q.sysEnter.kernel = q.kernel := by
  simp only [Processor.sysEnter, Processor.sti, Processor.pushfl, Processor.gate, initIdt, if_true]
  split <;> rfl

/-- A program that shell 0 executes can be interrupted. -/
theorem interruptible_child : ∃ q, (flagCalls shellEnv).Reach Processor.Start q ∧ q.code = .user sysCall ∧ q.iflag = true := by
  obtain ⟨q, reach, shell, -, shells⟩ := first_tick
  have called := reach.step FlagOp.int80 ⟨_, shell⟩
  have executed := called.step (FlagOp.execute (.blank ⟨0, 0⟩) (.blank ⟨0, 0⟩) (shellCommand shellEnv)) rfl
  obtain ⟨eip, k, launched, -⟩ := sysExecute_shell shellEnv_loadable (.blank ⟨0, 0⟩) (shells.getNewPid (by decide))
  have user : (q.sysEnter.execute shellEnv (.blank ⟨0, 0⟩) (.blank ⟨0, 0⟩) (shellCommand shellEnv)).code = .user sysCall := by
    simp only [Processor.execute, sysEnter_kernel, launched]
    rfl
  exact ⟨_, executed, user, (interruptible_iff executed user).2 rfl⟩

/-- The base shells that boot starts cannot. -/
theorem user_without_interrupts :
    ∃ q, (flagCalls shellEnv).Reach Processor.Start q ∧ q.code = .user ptInt ∧ q.iflag = false := by
  obtain ⟨q, reach, user, off, -⟩ := first_tick
  exact ⟨q, reach, user, off⟩

end BigBrainOS
