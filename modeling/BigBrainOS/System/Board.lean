import BigBrainOS.Kernel.I8259
import BigBrainOS.Preempt.Flags
import BigBrainOS.Process.Mapping

/-!
# Interrupts on the board

Devices request, the controllers pass a request on, and the processor accepts it when
its flag is on; the vector is all that it learns. Here the handlers' port writes
meet the controllers: between two handlers nothing is in service, the controllers'
masks are those that the kernel has noted, and the processor only ever gets the three
vectors for which there are handlers.
-/

namespace BigBrainOS
set_option autoImplicit false

/-! ## The board -/

/-- The processor with the kernel, and the controllers. -/
structure Board where
  proc : Processor
  pics : PicCascade

inductive BoardOp where
  | request (irq : Fin 16)
  /-- The processor accepts an interrupt. The registers and frames are for a tick, the scan code for a key. -/
  | interrupt (r : Regs) (fr exc : ExecFrame) (scancode : UInt8)
  /-- Code that runs until the next interrupt. -/
  | code (op : FlagOp)

/-- The handler of a vector, from its gate to its end. -/
def Board.handle (env : Env) (r : Regs) (fr exc : ExecFrame) (scancode : UInt8) (vector : UInt8) (b : Board) : Board :=
  if vector.toNat = ptInt then
    ⟨b.proc.tick env r fr exc, runOutbs (ptHandlerOutbs env r fr b.proc.kernel) b.pics⟩
  else if vector.toNat = kbInt then ⟨b.proc.irq kbInt (kbHandler scancode), runOutbs kbHandlerOutbs b.pics⟩
  else if vector.toNat = rtInt then ⟨b.proc.irq rtInt rtHandler, runOutbs rtHandlerOutbs b.pics⟩
  else ⟨b.proc.gate vector.toNat, b.pics⟩

def BoardOp.run (env : Env) (op : BoardOp) (b : Board) : Board :=
  match op with
  | .request irq => { b with pics := b.pics.request irq }
  | .interrupt r fr exc scancode =>
    match b.pics.accept slaveOnMaster with
    | none => b
    | some (vector, pics) => Board.handle env r fr exc scancode vector { b with pics := pics }
  | .code op => { b with proc := op.run env b.proc }

/-- The steps of `flagCalls` that are interrupts of devices. -/
def FlagOp.IsInterrupt (op : FlagOp) : Prop :=
  match op with
  | .tick _ _ _ => True
  | .key _ => True
  | .rtc => True
  | _ => False

/-- No device is on the line of the slave, and the processor accepts interrupts while its flag is on. -/
def BoardOp.Allowed (op : BoardOp) (b : Board) : Prop :=
  match op with
  | .request irq => irq.val ≠ slaveOnMaster.val
  | .interrupt _ _ _ _ => b.proc.iflag = true ∧ b.proc.code ≠ .lost ∧ b.pics.int slaveOnMaster = true
  | .code op => ¬ op.IsInterrupt ∧ op.Allowed b.proc

def boardCalls (env : Env) : TransitionSystem Board BoardOp where
  ok b op := op.Allowed b
  next b op := op.run env b

/-- The writes of `entry` to the controllers, while devices request. -/
inductive Programming : List Outb → PicCascade → PicCascade → Prop where
  | done (c : PicCascade) : Programming [] c c
  | outb {w : Outb} {ws : List Outb} {c c' : PicCascade} : Programming ws (w.run c) c' → Programming (w :: ws) c c'
  | request {irq : Fin 16} {ws : List Outb} {c c' : PicCascade} : irq.val ≠ slaveOnMaster.val →
      Programming ws (c.request irq) c' → Programming ws c c'

/-- `entry` has enabled interrupts. The boot loader left the controllers in any state,
with nothing in service. -/
structure Board.Start (b : Board) : Prop where
  proc : b.proc.Start
  programmed : ∃ c, c.master.Idle ∧ c.slave.Idle ∧ c.master.covered = true ∧ c.slave.covered = true ∧
    Programming (entryOutbs b.proc.kernel) c b.pics

/-! ## The kernel's masks -/

/-- The two masks that the kernel has noted. -/
def HasMasks (master slave : UInt8) (s : Kernel) : Prop := s.masterMask = master ∧ s.slaveMask = slave

section Masks
variable {master slave : UInt8} {s s' : Kernel}

theorem HasMasks.output (masks : HasMasks master slave s) (h : Output s s') : HasMasks master slave s' := by
  obtain ⟨ts, x, y, c, m, rfl, -⟩ := h
  exact masks

/-- No statement of `sys_execute` or `sys_halt` touches a mask. -/
theorem hasMasks_kept (master slave : UInt8) : Kept (HasMasks master slave) where
  launch {l stmt s s'} masks run := by
    cases stmt with
    | copy k => obtain ⟨m, rfl⟩ := writeByte_stored run; exact masks
    | printf => obtain rfl := Option.some.inj run; exact masks.output (puts_output _ _)
    | parPidRoot =>
      obtain rfl := Option.some.inj run
      split <;> exact masks
    | _ => obtain rfl := Option.some.inj run; exact masks
  halt {s} h stmt masks := by
    cases stmt with
    | printf => exact masks.output (puts_output _ _)
    | close i => obtain ⟨f, a, ps, same, -⟩ := close_reprogrammed h i s; rw [same]; exact masks
    | _ => exact masks
  enable pid masks := masks
  stored masks stored := by obtain ⟨m, rfl⟩ := stored; exact masks
  puts text masks := masks.output (puts_output text _)

/-- No key does. -/
theorem hasMasks_keyKept (master slave : UInt8) : KeyKept (HasMasks master slave) where
  output masks h := masks.output h
  terminals ts masks := masks
  modifiers shift ctrl caps alt masks := masks
  switch n masks := by
    unfold switchTerminal
    split <;> exact masks

theorem HasMasks.prepareTerminal (masks : HasMasks master slave s) (next : Term) (vidId : Int) (r : Regs) :
    HasMasks master slave (prepareTerminal next vidId r s) := by
  unfold BigBrainOS.prepareTerminal
  refine HasMasks.output ?_ (resetCursor_output _)
  split <;> exact masks

theorem HasMasks.switchTo (masks : HasMasks master slave s) (next : Term) (pid vidId : Int) (r : Regs) :
    HasMasks master slave (switchTo next pid vidId r s).2 := by
  unfold BigBrainOS.switchTo
  split <;> exact masks

/-- A tick masks the keyboard or lets it through, and leaves the masks alone from there on. -/
theorem switchRunningProcess_masks (env : Env) (r : Regs) (fr : ExecFrame) (s : Kernel) :
    HasMasks (maskKeyboard (s.currProcess + 1) s).masterMask (maskKeyboard (s.currProcess + 1) s).slaveMask
      (switchRunningProcess env r fr s).2 := by
  have masks : HasMasks (maskKeyboard (s.currProcess + 1) s).masterMask (maskKeyboard (s.currProcess + 1) s).slaveMask
      (maskKeyboard (s.currProcess + 1) s) := ⟨rfl, rfl⟩
  unfold switchRunningProcess
  dsimp only
  split
  · have executed := (hasMasks_kept _ _).sysExecute env fr (shellCommand env)
      (masks.prepareTerminal (s.currProcess + 1) (if s.currProcess + 1 = s.currTer then mainVid else (s.currProcess + 1).val) r)
    split
    · next eq => rw [eq] at executed; exact executed
    · next eq => rw [eq] at executed; exact executed
    · next eq => rw [eq] at executed; exact executed.switchTo _ _ _ r
  · exact masks.switchTo _ _ _ r

/-- The early end of interrupt is for the launch of a base shell, and only that does not come back. -/
theorem switchRunningProcess_early {env : Env} {r : Regs} {fr : ExecFrame}
    (gone : (∃ pid, (switchRunningProcess env r fr s).1 = .launched pid) ∨ (switchRunningProcess env r fr s).1 = .fault) :
    s.currPid (s.currProcess + 1) = -1 := by
  by_contra started
  simp only [switchRunningProcess, if_neg started, switchTo] at gone
  split at gone
  · rcases gone with ⟨pid, launched⟩ | faulted
    · cases launched
    · cases faulted
  · rcases gone with ⟨pid, launched⟩ | faulted
    · cases launched
    · cases faulted

end Masks

/-! ## The kernel behind the processor -/

namespace Processor
variable (q : Processor)

theorem gate_kernel (vector : Nat) : (q.gate vector).kernel = q.kernel := by
  unfold gate
  split
  · rfl
  · dsimp only
    split <;> rfl

theorem popfl_kernel : q.popfl.kernel = q.kernel := by
  unfold popfl
  split <;> rfl

theorem iret_kernel : q.iret.kernel = q.kernel := by
  unfold iret
  split <;> rfl

theorem irqEnter_kernel (vector : Nat) : (q.irqEnter vector).kernel = q.kernel := q.gate_kernel vector

theorem irqLeave_kernel : q.irqLeave.kernel = q.kernel := (iret_kernel _).trans q.popfl_kernel

theorem ended_kernel (vector : Nat) (out : HaltOutcome × Kernel) : (q.ended vector out).kernel = out.2 := by
  obtain ⟨outcome, k⟩ := out
  cases outcome with
  | noProcess =>
    simp only [ended]
    split <;> rfl
  | _ => rfl

theorem irq_kernel (vector : Nat) (handler : Kernel → Kernel) : (q.irq vector handler).kernel = handler q.kernel := by
  refine (irqLeave_kernel _).trans ?_
  exact congrArg handler (q.irqEnter_kernel vector)

theorem tick_kernel (env : Env) (r : Regs) (fr exc : ExecFrame) : (q.tick env r fr exc).kernel = tickCall env r fr exc q.kernel := by
  unfold tick tickCall
  dsimp only
  rw [q.irqEnter_kernel ptInt]
  cases switched : switchRunningProcess env r fr q.kernel with
  | mk resume k =>
    cases resume with
    | launched pid => rfl
    | resumed regs => exact irqLeave_kernel _
    | returned => exact irqLeave_kernel _
    | fault => exact ended_kernel _ _ _

theorem execute_kernel (env : Env) (fr exc : ExecFrame) (command : Bytes) :
    (q.execute env fr exc command).kernel = (executeCall env fr exc command q.kernel).2 := by
  unfold execute executeCall
  cases executed : sysExecute env fr command q.kernel with
  | mk outcome k =>
    cases outcome with
    | launched pid eip => rfl
    | failed => rfl
    | fault => exact ended_kernel _ _ _

end Processor

/-! ## The controllers -/

open Pic8259 (bit SameButRequests)

/-- The controllers are programmed as the kernel wants them, their masks are those that
it has noted, and nothing is in service. -/
structure InStep (s : Kernel) (c : PicCascade) : Prop where
  master : c.master.Programmed 0x20 0x04
  slave : c.slave.Programmed 0x28 0x02
  masterMask : c.master.imr = bit s.masterMask
  slaveMask : c.slave.imr = bit s.slaveMask
  masterIdle : c.master.Idle
  slaveIdle : c.slave.Idle

/-- The clock and the slave are let through, the keyboard at times, and of the other lines that of the RTC. -/
def KnownMasks (s : Kernel) : Prop := (s.masterMask = 0xF8 ∨ s.masterMask = 0xFA) ∧ s.slaveMask = 0xFE

section Chips
variable {s s' : Kernel} {c : PicCascade}

theorem InStep.ready (inStep : InStep s c) : c.Ready slaveOnMaster 0x20 0x28 :=
  ⟨⟨_, inStep.master, by decide⟩, ⟨_, inStep.slave, by decide⟩, inStep.masterIdle, inStep.slaveIdle⟩

theorem InStep.congr (inStep : InStep s c) {m sl : Pic8259} (master : SameButRequests c.master m)
    (slave : SameButRequests c.slave sl) : InStep s ⟨m, sl⟩ := by
  obtain ⟨irr, rfl⟩ := master.exists
  obtain ⟨irr', rfl⟩ := slave.exists
  obtain ⟨p, q, masterMask, slaveMask, masterIdle, slaveIdle⟩ := inStep
  exact ⟨⟨p.awaiting, p.covered, p.level, p.icw2, p.icw3, p.icw4⟩, ⟨q.awaiting, q.covered, q.level, q.icw2, q.icw3, q.icw4⟩,
    masterMask, slaveMask, masterIdle, slaveIdle⟩

theorem InStep.kernel (inStep : InStep s c) (masks : HasMasks s.masterMask s.slaveMask s') : InStep s' c := by
  refine ⟨inStep.master, inStep.slave, ?_, ?_, inStep.masterIdle, inStep.slaveIdle⟩
  · rw [masks.1]
    exact inStep.masterMask
  · rw [masks.2]
    exact inStep.slaveMask

theorem InStep.request (inStep : InStep s c) (irq : Fin 16) : InStep s (c.request irq) := by
  unfold PicCascade.request
  split
  · exact inStep.congr ((SameButRequests.refl _).raise _) (.refl _)
  · exact inStep.congr (.refl _) ((SameButRequests.refl _).raise _)

/-! ### Port writes -/

/-- The clock's handler finishes its own line. -/
theorem runOutbs_ptEoi (c : PicCascade) : runOutbs (sendEoi ptIrqNum) c = { c with master := c.master.finish 0 } := rfl

theorem runOutbs_append (ws ws' : List Outb) (c : PicCascade) : runOutbs (ws ++ ws') c = runOutbs ws' (runOutbs ws c) :=
  List.foldl_append

theorem data_mask {p : Pic8259} (ready : p.awaiting = []) (b : UInt8) : p.data b = { p with imr := bit b } := by
  unfold Pic8259.data
  rw [ready]

theorem runOutbs_mask (b : UInt8) (ready : c.master.awaiting = []) :
    runOutbs [⟨b, masterPicData⟩] c = { c with master := { c.master with imr := bit b } } := by
  rw [← data_mask ready]
  rfl

/-- Of the writes of the mask, the last counts. -/
theorem runOutbs_maskKeyboard (next : Term) (s : Kernel) (ready : c.master.awaiting = []) :
    runOutbs (maskKeyboardOutbs next s) c =
      { c with master := { c.master with imr := bit (maskKeyboard next s).masterMask } } := by
  have off : ∀ s : Kernel, disableIrqOutbs kbIrqNum s = [⟨(disableIrq kbIrqNum s).masterMask, masterPicData⟩] := fun _ => rfl
  have on : ∀ s : Kernel, enableIrqOutbs kbIrqNum s = [⟨(enableIrq kbIrqNum s).masterMask, masterPicData⟩] := fun _ => rfl
  unfold maskKeyboardOutbs
  dsimp only
  rw [off, runOutbs_append, runOutbs_mask _ ready]
  by_cases shown : next = s.currTer
  · have mask : (maskKeyboard next s).masterMask = (enableIrq kbIrqNum (disableIrq kbIrqNum s)).masterMask := by
      unfold maskKeyboard
      dsimp only
      rw [if_pos (show next = (disableIrq kbIrqNum { s with onScreen := false }).currTer from shown)]
      rfl
    rw [if_pos (show next = (disableIrq kbIrqNum s).currTer from shown), on, mask]
    exact runOutbs_mask _ ready
  · have mask : (maskKeyboard next s).masterMask = (disableIrq kbIrqNum s).masterMask := by
      unfold maskKeyboard
      dsimp only
      rw [if_neg (show ¬ next = (disableIrq kbIrqNum { s with onScreen := false }).currTer from shown)]
      rfl
    rw [if_neg (show ¬ next = (disableIrq kbIrqNum s).currTer from shown), mask]
    rfl

theorem maskKeyboard_known (known : KnownMasks s) (next : Term) : KnownMasks (maskKeyboard next s) := by
  obtain ⟨master, slave⟩ := known
  unfold maskKeyboard
  dsimp only
  split
  · refine ⟨.inl ?_, slave⟩
    show (s.masterMask ||| _) &&& _ = _
    rcases master with mask | mask <;> rw [mask] <;> decide
  · refine ⟨.inr ?_, slave⟩
    show s.masterMask ||| _ = _
    rcases master with mask | mask <;> rw [mask] <;> decide

/-! ### Start -/

theorem SameButRequests.run {c d : PicCascade} (master : SameButRequests c.master d.master)
    (slave : SameButRequests c.slave d.slave) (w : Outb) :
    SameButRequests (w.run c).master (w.run d).master ∧ SameButRequests (w.run c).slave (w.run d).slave := by
  unfold Outb.run
  split
  · exact ⟨master.command _, slave⟩
  split
  · exact ⟨master.data _, slave⟩
  split
  · exact ⟨master, slave.command _⟩
  split
  · exact ⟨master, slave.data _⟩
  · exact ⟨master, slave⟩

/-- What devices request in the meantime does not disturb the programming. -/
theorem Programming.same {ws : List Outb} {d d' : PicCascade} (run : Programming ws d d') : ∀ {c : PicCascade},
    SameButRequests c.master d.master → SameButRequests c.slave d.slave →
      SameButRequests (runOutbs ws c).master d'.master ∧ SameButRequests (runOutbs ws c).slave d'.slave := by
  induction run with
  | done d => exact fun master slave => ⟨master, slave⟩
  | @outb w ws d d' _ ih =>
    intro c master slave
    obtain ⟨master', slave'⟩ := SameButRequests.run master slave w
    exact ih master' slave'
  | @request irq ws d d' _ _ ih =>
    intro c master slave
    apply ih
    · unfold PicCascade.request
      split
      · exact master.raise _
      · exact master
    · unfold PicCascade.request
      split
      · exact slave
      · exact slave.raise _

theorem enableIrq_rtc (s : Kernel) : enableIrq rtcIrqNum s = { s with slaveMask := s.slaveMask &&& 0xFE } := rfl

theorem enableIrq_kb (s : Kernel) : enableIrq kbIrqNum s = { s with masterMask := s.masterMask &&& 0xFD } := rfl

theorem enableIrq_pt (s : Kernel) : enableIrq ptIrqNum s = { s with masterMask := s.masterMask &&& 0xFE } := rfl

/-- The three lines are enabled one after the other. -/
theorem enabled_masks : (0xFF : UInt8) &&& 0xFE = 0xFE ∧ (0xFB : UInt8) &&& 0xFD = 0xF9 ∧ (0xF9 : UInt8) &&& 0xFE = 0xF8 := by
  decide

theorem entryOutbs_eq (s : Kernel) :
    entryOutbs s = i8259InitOutbs ++ [⟨0xFE, slavePicData⟩] ++ [⟨0xF9, masterPicData⟩] ++ [⟨0xF8, masterPicData⟩] := by
  obtain ⟨rtc, kb, pt⟩ := enabled_masks
  simp only [entryOutbs, enableIrqOutbs, enableIrq_rtc, enableIrq_kb, enableIrq_pt, rtc, kb, pt]
  rfl

theorem data_covered (p : Pic8259) (b : UInt8) : (p.data b).covered = p.covered ∧ (p.data b).isr = p.isr := by
  unfold Pic8259.data
  split <;> exact ⟨rfl, rfl⟩

/-- `i8259_init` and the three `enable_irq` program the controllers, whatever state they were in. -/
theorem entryOutbs_run (s : Kernel) (c : PicCascade) (masterIdle : c.master.Idle) (slaveIdle : c.slave.Idle)
    (master : c.master.covered = true) (slave : c.slave.covered = true) (masks : HasMasks 0xF8 0xFE s) :
    InStep s (runOutbs (entryOutbs s) c) := by
  have run : runOutbs (entryOutbs s) c =
      ⟨(((((((c.master.data 0xFF).command 0x11).data 0x20).data 0x04).data 1).data 0xFB).data 0xF9).data 0xF8,
        ((((((c.slave.data 0xFF).command 0x11).data 0x28).data 0x02).data 1).data 0xFF).data 0xFE⟩ := by
    rw [entryOutbs_eq]
    rfl
  obtain ⟨covered, isr⟩ := data_covered c.master 0xFF
  obtain ⟨covered', isr'⟩ := data_covered c.slave 0xFF
  rw [run]
  generalize c.master.data 0xFF = p at covered isr
  generalize c.slave.data 0xFF = q at covered' isr'
  refine ⟨⟨rfl, covered.trans master, rfl, rfl, rfl, rfl⟩, ⟨rfl, covered'.trans slave, rfl, rfl, rfl, rfl⟩, ?_, ?_,
    fun i => ?_, fun i => ?_⟩
  · rw [masks.1]
    rfl
  · rw [masks.2]
    rfl
  · exact (congrFun isr i).trans (masterIdle i)
  · exact (congrFun isr' i).trans (slaveIdle i)

theorem entry_masks (m : Machine) : HasMasks 0xF8 0xFE (entry m) := by
  obtain ⟨rtc, kb, pt⟩ := enabled_masks
  refine HasMasks.output ?_ (clear_output _)
  rw [enableIrq_pt, enableIrq_kb, enableIrq_rtc]
  constructor
  · show (0xFB : UInt8) &&& 0xFD &&& 0xFE = 0xF8
    rw [kb, pt]
  · exact rtc

end Chips

/-! ## The invariant -/

/-- What every run of the board keeps. -/
structure Board.Inv (b : Board) : Prop where
  inStep : InStep b.proc.kernel b.pics
  known : KnownMasks b.proc.kernel

section Steps
variable {env : Env} {b : Board}

theorem Board.Start.inv (start : b.Start) : b.Inv := by
  obtain ⟨c, masterIdle, slaveIdle, master, slave, programming⟩ := start.programmed
  have masks : HasMasks 0xF8 0xFE b.proc.kernel := by
    obtain ⟨m, entry⟩ := start.proc.entry
    rw [entry]
    exact entry_masks m
  obtain ⟨sameMaster, sameSlave⟩ := programming.same (.refl _) (.refl _)
  exact ⟨(entryOutbs_run _ c masterIdle slaveIdle master slave masks).congr sameMaster sameSlave, .inl masks.1, masks.2⟩

/-- Code that is no interrupt leaves the masks alone. -/
theorem FlagOp.masks {op : FlagOp} (code : ¬ op.IsInterrupt) (q : Processor) :
    HasMasks q.kernel.masterMask q.kernel.slaveMask (op.run env q).kernel := by
  have masks : HasMasks q.kernel.masterMask q.kernel.slaveMask q.kernel := ⟨rfl, rfl⟩
  cases op with
  | tick r fr exc => exact absurd trivial code
  | key scancode => exact absurd trivial code
  | rtc => exact absurd trivial code
  | int80 => simpa only [FlagOp.run, sysEnter_kernel] using masks
  | execute fr exc command =>
    simp only [FlagOp.run, Processor.execute_kernel]
    exact (hasMasks_kept _ _).executeCall env fr exc command masks
  | halt fr status =>
    simp only [FlagOp.run, Processor.ended_kernel]
    exact (hasMasks_kept _ _).sysHalt env fr status masks
  | putc c => exact masks.output (putc_output c _)
  | sti => exact masks
  | return_ => simpa only [FlagOp.run, Processor.sysLeave, Processor.iret_kernel, Processor.popfl_kernel] using masks
  | exception vector fr text =>
    simp only [FlagOp.run, Processor.ended_kernel]
    exact (hasMasks_kept _ _).sysHalt env fr haltStatusExc ((hasMasks_kept _ _).puts _ masks)

theorem KnownMasks.congr {s s' : Kernel} (known : KnownMasks s) (masks : HasMasks s.masterMask s.slaveMask s') :
    KnownMasks s' := by
  rw [KnownMasks, masks.1, masks.2]
  exact known

/-- A tick masks the keyboard or lets it through, and a page fault of the base shell's loader leaves that alone. -/
theorem tickCall_masks (env : Env) (r : Regs) (fr exc : ExecFrame) (s : Kernel) :
    HasMasks (maskKeyboard (s.currProcess + 1) s).masterMask s.slaveMask (tickCall env r fr exc s) := by
  have masks := switchRunningProcess_masks env r fr s
  have slave : (maskKeyboard (s.currProcess + 1) s).slaveMask = s.slaveMask := by
    obtain ⟨on, mask, masked⟩ := maskKeyboard_quiet (s.currProcess + 1) s
    rw [masked]
  rw [slave] at masks
  unfold tickCall
  split
  · next eq =>
    rw [eq] at masks
    exact (hasMasks_kept _ _).pfHandler env exc masks
  · next eq =>
    rw [eq] at masks
    exact masks

/-! ### Interrupts -/

/-- The vectors that the processor can get, and who has requested. -/
theorem InStep.accept {s : Kernel} {c : PicCascade} (inStep : InStep s c) (known : KnownMasks s)
    (interrupts : c.int slaveOnMaster = true) :
    (c.master.irr 0 = true ∧
        c.accept slaveOnMaster = some (0x20, ⟨(c.wired slaveOnMaster).acknowledge 0, c.slave⟩)) ∨
      (c.master.irr 1 = true ∧ s.masterMask = 0xF8 ∧
        c.accept slaveOnMaster = some (0x21, ⟨(c.wired slaveOnMaster).acknowledge 1, c.slave⟩)) ∨
      (c.slave.irr 0 = true ∧
        c.accept slaveOnMaster = some (0x28, ⟨(c.wired slaveOnMaster).acknowledge 2, c.slave.acknowledge 0⟩)) := by
  obtain ⟨i, requests, -, outcome⟩ := inStep.ready.accept interrupts
  obtain ⟨unmasked, line⟩ := requests
  rw [inStep.masterMask] at unmasked
  have onlyThree : ∀ i, bit s.masterMask i = false → i = 0 ∨ (i = 1 ∧ s.masterMask = 0xF8) ∨ i = 2 := by
    rcases known.1 with mask | mask <;> rw [mask] <;> decide
  rcases outcome with ⟨direct, accepted⟩ | ⟨rfl, j, serviceable, -, accepted⟩
  · rw [if_neg direct] at line
    rw [Pic8259.vector, inStep.master.icw2] at accepted
    rcases onlyThree i unmasked with rfl | ⟨rfl, mask⟩ | rfl
    · exact .inl ⟨line, accepted⟩
    · exact .inr (.inl ⟨line, mask, accepted⟩)
    · exact absurd rfl direct
  · have rtcOnly : ∀ j, bit 0xFE j = false → j = 0 := by decide
    have unmasked' := serviceable.2.1
    rw [inStep.slaveMask, known.2] at unmasked'
    obtain rfl := rtcOnly j unmasked'
    rw [Pic8259.vector, inStep.slave.icw2] at accepted
    exact .inr (.inr ⟨serviceable.1, accepted⟩)

/-- A line of the master, served and finished. -/
theorem InStep.served {s : Kernel} {c : PicCascade} (inStep : InStep s c) (i : Fin 8) :
    SameButRequests c.master (((c.wired slaveOnMaster).acknowledge i).finish i) := by
  obtain ⟨irr, wired⟩ := SameButRequests.exists (.of_irr c.master (Function.update c.master.irr slaveOnMaster c.slave.int))
  have idle : (c.wired slaveOnMaster).Idle := inStep.masterIdle
  obtain ⟨irr', same⟩ := (Pic8259.finish_acknowledge idle i).exists
  rw [same]
  exact .of_irr c.master irr'

/-- A new mask for the master, noted and written. -/
theorem InStep.mask {s s' : Kernel} {c : PicCascade} (inStep : InStep s c) {m : UInt8} (masks : HasMasks m s.slaveMask s') :
    InStep s' { c with master := { c.master with imr := bit m } } := by
  obtain ⟨p, slave, -, slaveMask, masterIdle, slaveIdle⟩ := inStep
  refine ⟨⟨p.awaiting, p.covered, p.level, p.icw2, p.icw3, p.icw4⟩, slave, ?_, ?_, masterIdle, slaveIdle⟩
  · rw [masks.1]
  · rw [masks.2]
    exact slaveMask

/-- The end of interrupt of the clock is sent in every case. -/
theorem ptHandler_finishes (env : Env) (r : Regs) (fr : ExecFrame) (s : Kernel) (c : PicCascade) :
    runOutbs (ptHandlerEois env r fr s) c = { c with master := c.master.finish 0 } := by
  have twice : ∀ c : PicCascade, runOutbs (sendEoi ptIrqNum) { c with master := c.master.finish 0 } =
      { c with master := c.master.finish 0 } := by
    intro c
    rw [runOutbs_ptEoi]
    simp only [Pic8259.finish, Function.update_idem]
  have late : runOutbs (sendEoi ptIrqNum)
      (runOutbs (if s.currPid (s.currProcess + 1) = -1 then sendEoi ptIrqNum else []) c) =
        { c with master := c.master.finish 0 } := by
    split
    · rw [runOutbs_ptEoi c]
      exact twice c
    · exact runOutbs_ptEoi c
  unfold ptHandlerEois
  rw [runOutbs_append]
  split
  · exact late
  · exact late
  · next pid launched =>
    rw [if_pos (switchRunningProcess_early (.inl ⟨pid, launched⟩))]
    exact runOutbs_ptEoi c
  · next faulted =>
    rw [if_pos (switchRunningProcess_early (.inr faulted))]
    exact runOutbs_ptEoi c

/-- What an interrupt does, from the acceptance to the end of the handler. -/
inductive Served (env : Env) (r : Regs) (fr exc : ExecFrame) (scancode : UInt8) (b : Board) : Board → Prop where
  | clock : b.pics.master.irr 0 = true → (∃ pics, b.pics.accept slaveOnMaster = some (0x20, pics)) →
      Served env r fr exc scancode b
        ⟨b.proc.tick env r fr exc,
          ⟨{ ((b.pics.wired slaveOnMaster).acknowledge 0).finish 0 with
              imr := bit (maskKeyboard (b.proc.kernel.currProcess + 1) b.proc.kernel).masterMask }, b.pics.slave⟩⟩
  | keyboard : b.pics.master.irr 1 = true → (∃ pics, b.pics.accept slaveOnMaster = some (0x21, pics)) →
      Served env r fr exc scancode b
        ⟨b.proc.irq kbInt (kbHandler scancode), ⟨((b.pics.wired slaveOnMaster).acknowledge 1).finish 1, b.pics.slave⟩⟩
  | rtc : b.pics.slave.irr 0 = true → (∃ pics, b.pics.accept slaveOnMaster = some (0x28, pics)) →
      Served env r fr exc scancode b
        ⟨b.proc.irq rtInt rtHandler,
          ⟨((b.pics.wired slaveOnMaster).acknowledge 2).finish 2, (b.pics.slave.acknowledge 0).finish 0⟩⟩

/-- The processor gets one of three vectors, and its handler writes the end of interrupt for it. -/
theorem Board.Inv.served (inv : b.Inv) (interrupts : b.pics.int slaveOnMaster = true) (r : Regs) (fr exc : ExecFrame)
    (scancode : UInt8) :
    Served env r fr exc scancode b (BoardOp.run env (.interrupt r fr exc scancode) b) := by
  obtain ⟨inStep, known⟩ := inv
  rcases inStep.accept known interrupts with ⟨line, accepted⟩ | ⟨line, -, accepted⟩ | ⟨line, accepted⟩
  · have masked := runOutbs_maskKeyboard (c := ⟨(b.pics.wired slaveOnMaster).acknowledge 0, b.pics.slave⟩)
      (b.proc.kernel.currProcess + 1) b.proc.kernel inStep.master.awaiting
    have handled : BoardOp.run env (.interrupt r fr exc scancode) b =
        ⟨b.proc.tick env r fr exc, runOutbs (ptHandlerOutbs env r fr b.proc.kernel)
          ⟨(b.pics.wired slaveOnMaster).acknowledge 0, b.pics.slave⟩⟩ := by
      simp only [BoardOp.run, accepted]
      rfl
    rw [handled, ptHandlerOutbs, runOutbs_append, masked, ptHandler_finishes]
    exact .clock line ⟨_, accepted⟩
  · have handled : BoardOp.run env (.interrupt r fr exc scancode) b =
        ⟨b.proc.irq kbInt (kbHandler scancode),
          ⟨((b.pics.wired slaveOnMaster).acknowledge 1).finish 1, b.pics.slave⟩⟩ := by
      simp only [BoardOp.run, accepted]
      rfl
    rw [handled]
    exact .keyboard line ⟨_, accepted⟩
  · have handled : BoardOp.run env (.interrupt r fr exc scancode) b =
        ⟨b.proc.irq rtInt rtHandler,
          ⟨((b.pics.wired slaveOnMaster).acknowledge 2).finish 2, (b.pics.slave.acknowledge 0).finish 0⟩⟩ := by
      simp only [BoardOp.run, accepted]
      rfl
    rw [handled]
    exact .rtc line ⟨_, accepted⟩

/-- After the handler the controllers are in step with the kernel again. -/
theorem Board.Inv.interrupt (inv : b.Inv) {r : Regs} {fr exc : ExecFrame} {scancode : UInt8} {b' : Board}
    (served : Served env r fr exc scancode b b') : b'.Inv := by
  obtain ⟨inStep, known⟩ := inv
  have masks : HasMasks b.proc.kernel.masterMask b.proc.kernel.slaveMask b.proc.kernel := ⟨rfl, rfl⟩
  cases served with
  | clock _ _ =>
    have ticked := tickCall_masks env r fr exc b.proc.kernel
    rw [← b.proc.tick_kernel] at ticked
    have known' := maskKeyboard_known known (b.proc.kernel.currProcess + 1)
    refine ⟨(inStep.congr (inStep.served 0) (.refl _)).mask ticked, ?_, ticked.2.trans known.2⟩
    rw [ticked.1]
    exact known'.1
  | keyboard _ _ =>
    have kept := (hasMasks_keyKept _ _).kbHandler scancode masks
    rw [← b.proc.irq_kernel kbInt (kbHandler scancode)] at kept
    exact ⟨(inStep.congr (inStep.served 1) (.refl _)).kernel kept, known.congr kept⟩
  | rtc _ _ =>
    have kept : HasMasks b.proc.kernel.masterMask b.proc.kernel.slaveMask (b.proc.irq rtInt rtHandler).kernel := by
      rw [b.proc.irq_kernel rtInt rtHandler]
      exact masks
    have slave := Pic8259.finish_acknowledge inStep.slaveIdle 0
    exact ⟨(inStep.congr (inStep.served 2) slave).kernel kept, known.congr kept⟩

/-- The handler is one that `flagCalls` allows. -/
theorem Served.flagOp {r : Regs} {fr exc : ExecFrame} {scancode : UInt8} {b' : Board}
    (served : Served env r fr exc scancode b b') (on : b.proc.iflag = true) (code : b.proc.code ≠ .lost) :
    ∃ op : FlagOp, op.Allowed b.proc ∧ op.run env b.proc = b'.proc := by
  cases served with
  | clock _ _ => exact ⟨.tick r fr exc, ⟨on, code⟩, rfl⟩
  | keyboard _ _ => exact ⟨.key scancode, ⟨on, code⟩, rfl⟩
  | rtc _ _ => exact ⟨.rtc, ⟨on, code⟩, rfl⟩

/-- **Step lemma.** -/
theorem Board.Inv.step (inv : b.Inv) {op : BoardOp} (allowed : op.Allowed b) : (op.run env b).Inv := by
  cases op with
  | request irq => exact ⟨inv.inStep.request irq, inv.known⟩
  | interrupt r fr exc scancode => exact inv.interrupt (inv.served allowed.2.2 r fr exc scancode)
  | code op =>
    have masks : HasMasks b.proc.kernel.masterMask b.proc.kernel.slaveMask (op.run env b.proc).kernel :=
      FlagOp.masks allowed.1 b.proc
    exact ⟨inv.inStep.kernel masks, inv.known.congr masks⟩

end Steps

/-! ## All runs -/

theorem Board.Inv.of_reach {env : Env} {b : Board} (reach : (boardCalls env).Reach Board.Start b) : b.Inv := by
  apply reach.invariant
  · exact fun _ start => start.inv
  · exact fun _ _ inv allowed => inv.step allowed

/-- The processor of the board makes a run of its own: the interrupts of the devices come
only where `flagCalls` has them. -/
theorem Board.proc_reach {env : Env} {b : Board} (reach : (boardCalls env).Reach Board.Start b) :
    (flagCalls env).Reach Processor.Start b.proc := by
  induction reach with
  | base start => exact .base start.proc
  | @step b op before allowed ih =>
    have inv := Board.Inv.of_reach before
    cases op with
    | request irq => exact ih
    | code op => exact ih.step op allowed.2
    | interrupt r fr exc scancode =>
      obtain ⟨op, ok, same⟩ := (inv.served allowed.2.2 r fr exc scancode).flagOp allowed.1 allowed.2.1
      exact ih.step_to op ok same

/-- The acceptance of one line leaves the requests of the others. -/
theorem wired_acknowledge (c : PicCascade) {i k : Fin 8} (device : k ≠ slaveOnMaster) (other : k ≠ i) :
    ((c.wired slaveOnMaster).acknowledge i).irr k = c.master.irr k := by
  show Function.update (Function.update c.master.irr slaveOnMaster c.slave.int) i _ k = _
  rw [Function.update_of_ne other, Function.update_of_ne device]

/-- A request is kept until its interrupt is accepted: the step that loses it is an interrupt with its vector. -/
theorem Board.Inv.requesting {env : Env} {b : Board} (inv : b.Inv) {op : BoardOp} (allowed : op.Allowed b) {irq : Fin 16}
    (device : irq.val ≠ slaveOnMaster.val) (requesting : b.pics.Requesting irq) :
    (op.run env b).pics.Requesting irq ∨
      ∃ r fr exc scancode pics, op = .interrupt r fr exc scancode ∧
        b.pics.accept slaveOnMaster = some (UInt8.ofNat (0x20 + irq.val), pics) := by
  obtain ⟨master, slave⟩ := requesting
  have offWire : ∀ h : irq.val < 8, (⟨irq.val, h⟩ : Fin 8) ≠ slaveOnMaster := fun h same => device (congrArg Fin.val same)
  cases op with
  | code op => exact .inl ⟨master, slave⟩
  | request irq' => exact .inl (PicCascade.Requesting.request ⟨master, slave⟩ irq')
  | interrupt r fr exc scancode =>
    have served : Served env r fr exc scancode b (BoardOp.run env (.interrupt r fr exc scancode) b) :=
      inv.served allowed.2.2 r fr exc scancode
    generalize BoardOp.run env (.interrupt r fr exc scancode) b = b' at served
    cases served with
    | clock _ accepted =>
      by_cases own : irq.val = 0
      · refine .inr ⟨r, fr, exc, scancode, ?_⟩
        rw [own]
        exact accepted.imp fun _ accept => ⟨rfl, accept⟩
      · exact .inl ⟨fun h => (wired_acknowledge _ (offWire h) fun same => own (congrArg Fin.val same)).trans (master h), slave⟩
    | keyboard _ accepted =>
      by_cases own : irq.val = 1
      · refine .inr ⟨r, fr, exc, scancode, ?_⟩
        rw [own]
        exact accepted.imp fun _ accept => ⟨rfl, accept⟩
      · exact .inl ⟨fun h => (wired_acknowledge _ (offWire h) fun same => own (congrArg Fin.val same)).trans (master h), slave⟩
    | rtc _ accepted =>
      by_cases own : irq.val = 8
      · refine .inr ⟨r, fr, exc, scancode, ?_⟩
        rw [own]
        exact accepted.imp fun _ accept => ⟨rfl, accept⟩
      · refine .inl ⟨fun h => (wired_acknowledge _ (offWire h) (offWire h)).trans (master h), fun h => ?_⟩
        refine (Function.update_of_ne ?_ _ _).trans (slave h)
        intro same
        have zero : irq.val - 8 = 0 := congrArg Fin.val same
        omega

/-- The processor is interrupted exactly for a line that is let through. -/
theorem Board.Inv.int_iff {b : Board} (inv : b.Inv) :
    b.pics.int slaveOnMaster = true ↔ b.pics.Requesting 0 ∨
      (b.pics.Requesting 1 ∧ bit b.proc.kernel.masterMask 1 = false) ∨ b.pics.Requesting 8 := by
  obtain ⟨inStep, master, slave⟩ := inv
  have open' : bit b.proc.kernel.masterMask 0 = false ∧ bit b.proc.kernel.masterMask 2 = false := by
    rcases master with mask | mask <;> rw [mask] <;> decide
  have shut : ∀ i, bit b.proc.kernel.masterMask i = false → i = 0 ∨ i = 1 ∨ i = 2 := by
    rcases master with mask | mask <;> rw [mask] <;> decide
  have rtcOnly : ∀ j, bit b.proc.kernel.slaveMask j = false ↔ j = 0 := by
    rw [slave]
    decide
  have onMaster : ∀ i : Fin 8, b.pics.Requesting ⟨i.val, by omega⟩ ↔ b.pics.master.irr i = true := fun i =>
    ⟨fun h => h.1 i.isLt, fun h => ⟨fun _ => h, fun above => absurd i.isLt (Nat.not_lt.2 above)⟩⟩
  have onSlave : b.pics.Requesting 8 ↔ b.pics.slave.irr 0 = true :=
    ⟨fun h => h.2 (by decide), fun h => ⟨fun below => absurd below (by decide), fun _ => h⟩⟩
  rw [inStep.ready.int_iff]
  constructor
  · rintro ⟨i, unmasked, line⟩
    rw [inStep.masterMask] at unmasked
    rcases shut i unmasked with rfl | rfl | rfl
    · exact .inl ((onMaster 0).2 line)
    · exact .inr (.inl ⟨(onMaster 1).2 line, unmasked⟩)
    · obtain ⟨j, irr, imr⟩ := line
      rw [inStep.slaveMask, rtcOnly] at imr
      subst imr
      exact .inr (.inr (onSlave.2 irr))
  · rintro (clock | ⟨key, unmasked⟩ | rtc)
    · refine ⟨0, ?_, (onMaster 0).1 clock⟩
      rw [inStep.masterMask]
      exact open'.1
    · refine ⟨1, ?_, (onMaster 1).1 key⟩
      rw [inStep.masterMask]
      exact unmasked
    · refine ⟨2, ?_, 0, onSlave.1 rtc, ?_⟩
      · rw [inStep.masterMask]
        exact open'.2
      · rw [inStep.slaveMask, rtcOnly]

/-- The processor gets no vector but those of the three handlers. -/
theorem Board.Inv.vectors {b : Board} (inv : b.Inv) {vector : UInt8} {pics : PicCascade}
    (accepted : b.pics.accept slaveOnMaster = some (vector, pics)) : vector = 0x20 ∨ vector = 0x21 ∨ vector = 0x28 := by
  have interrupts : b.pics.int slaveOnMaster = true := by
    by_contra quiet
    have none' : b.pics.accept slaveOnMaster = none := if_neg quiet
    rw [none'] at accepted
    cases accepted
  have same : ∀ {v : UInt8} {p : PicCascade}, b.pics.accept slaveOnMaster = some (v, p) → vector = v := by
    intro v p other
    rw [accepted] at other
    exact congrArg Prod.fst (Option.some.inj other)
  rcases inv.inStep.accept inv.known interrupts with ⟨-, clock⟩ | ⟨-, -, key⟩ | ⟨-, rtc⟩
  · exact .inl (same clock)
  · exact .inr (.inl (same key))
  · exact .inr (.inr (same rtc))

/-- **The controllers.** In every state between two steps of the board, from any state
the boot loader left the controllers in: nothing is in service, the controllers' masks
are the kernel's copies, the processor is interrupted exactly if the clock, the RTC or
a keyboard that is let through requests, it gets the vector of one of these, and the only step after
which a request is gone is the interrupt that accepts it. What the processor does is a run of
`flagCalls`. -/
theorem controllers_in_step {env : Env} {b : Board} (reach : (boardCalls env).Reach Board.Start b) :
    InStep b.proc.kernel b.pics ∧ (flagCalls env).Reach Processor.Start b.proc ∧
      (b.pics.int slaveOnMaster = true ↔ b.pics.Requesting 0 ∨
        (b.pics.Requesting 1 ∧ bit b.proc.kernel.masterMask 1 = false) ∨ b.pics.Requesting 8) ∧
      (∀ (vector : UInt8) (pics : PicCascade), b.pics.accept slaveOnMaster = some (vector, pics) →
        vector = 0x20 ∨ vector = 0x21 ∨ vector = 0x28) ∧
      ∀ (op : BoardOp) (irq : Fin 16), op.Allowed b → irq.val ≠ slaveOnMaster.val → b.pics.Requesting irq →
        (op.run env b).pics.Requesting irq ∨
          ∃ r fr exc scancode pics, op = .interrupt r fr exc scancode ∧
            b.pics.accept slaveOnMaster = some (UInt8.ofNat (0x20 + irq.val), pics) := by
  have inv := Board.Inv.of_reach reach
  exact ⟨inv.inStep, Board.proc_reach reach, inv.int_iff, fun _ _ accepted => inv.vectors accepted,
    fun op irq allowed device requesting => inv.requesting allowed device requesting⟩

/-- After the first tick a base shell runs with interrupts off, and the RTC waits. -/
theorem controllers_in_step_tick : ∃ b, (boardCalls shellEnv).Reach Board.Start b ∧ b.proc.code = .user ptInt ∧
    InStep b.proc.kernel b.pics ∧ b.pics.Requesting 8 ∧ b.pics.int slaveOnMaster = true := by
  have init := entry_init ⟨fun _ => 0, fun _ => .zero, 0x26, 0⟩
  have entered : AtEntry (entry ⟨fun _ => 0, fun _ => .zero, 0x26, 0⟩) := ⟨_, rfl⟩
  generalize entry ⟨fun _ => 0, fun _ => .zero, 0x26, 0⟩ = s at init entered
  let chip : Pic8259 := ⟨[], true, false, 8, 4, 1, fun _ => false, fun _ => true, fun _ => false⟩
  let b : Board := ⟨⟨s, true, .hlt, [], fun _ => []⟩, runOutbs (entryOutbs s) ⟨chip, chip⟩⟩
  have programming : ∀ (ws : List Outb) (c : PicCascade), Programming ws c (runOutbs ws c) := by
    intro ws
    induction ws with
    | nil => exact .done
    | cons w ws ih => exact fun c => .outb (ih _)
  have start : (boardCalls shellEnv).Reach Board.Start b :=
    .base ⟨⟨entered, rfl, rfl, rfl, fun _ => rfl⟩, _, fun _ => rfl, fun _ => rfl, rfl, rfl, programming _ _⟩
  have requested := start.step (BoardOp.request 0) (by decide : (0 : Fin 16).val ≠ slaveOnMaster.val)
  have inv := Board.Inv.of_reach requested
  have interrupts : (BoardOp.run shellEnv (.request 0) b).pics.int slaveOnMaster = true := by
    apply inv.int_iff.2
    exact .inl ⟨fun _ => rfl, fun above => absurd above (by decide)⟩
  have waiting : Position.hlt ≠ .lost := fun lost => by cases lost
  have ticked := requested.step (BoardOp.interrupt ⟨0, 0⟩ (.blank ⟨0, 0⟩) (.blank ⟨0, 0⟩) 0) ⟨rfl, waiting, interrupts⟩
  have served : Served shellEnv ⟨0, 0⟩ (.blank ⟨0, 0⟩) (.blank ⟨0, 0⟩) 0 (BoardOp.run shellEnv (.request 0) b)
      (BoardOp.run shellEnv (.interrupt ⟨0, 0⟩ (.blank ⟨0, 0⟩) (.blank ⟨0, 0⟩) 0) (BoardOp.run shellEnv (.request 0) b)) :=
    inv.served interrupts ⟨0, 0⟩ (.blank ⟨0, 0⟩) (.blank ⟨0, 0⟩) 0
  obtain ⟨k, launched, -, -, -⟩ := init.booting.tick shellEnv_loadable ⟨0, 0⟩ (.blank ⟨0, 0⟩)
  have shell : (BoardOp.run shellEnv (.interrupt ⟨0, 0⟩ (.blank ⟨0, 0⟩) (.blank ⟨0, 0⟩) 0)
      (BoardOp.run shellEnv (.request 0) b)).proc.code = .user ptInt := by
    generalize BoardOp.run shellEnv (.interrupt ⟨0, 0⟩ (.blank ⟨0, 0⟩) (.blank ⟨0, 0⟩) 0)
      (BoardOp.run shellEnv (.request 0) b) = after at served
    cases served with
    | clock _ _ =>
      show (b.proc.tick shellEnv ⟨0, 0⟩ (.blank ⟨0, 0⟩) (.blank ⟨0, 0⟩)).code = _
      have enter : (b.proc.irqEnter ptInt).kernel = s := rfl
      simp only [Processor.tick, enter, launched]
      rfl
    | keyboard key _ => cases key
    | rtc line _ => cases line
  have rtc := ticked.step (BoardOp.request 8) (by decide : (8 : Fin 16).val ≠ slaveOnMaster.val)
  obtain ⟨inStep, -, raised, -, -⟩ := controllers_in_step rtc
  have raise : ∀ b : Board, (BoardOp.run shellEnv (.request 8) b).pics.Requesting 8 :=
    fun b => ⟨fun below => absurd below (by decide), fun _ => rfl⟩
  have requesting := raise (BoardOp.run shellEnv (.interrupt ⟨0, 0⟩ (.blank ⟨0, 0⟩) (.blank ⟨0, 0⟩) 0)
    (BoardOp.run shellEnv (.request 0) b))
  exact ⟨_, rtc, shell, inStep, requesting, raised.2 (.inr (.inr requesting))⟩

end BigBrainOS
