import BigBrainOS.Kernel.Execute

/-!
# The scheduler of `pit.c`

`switch_running_process` runs in the timer interrupt with interrupts off. On a
terminal that has no process yet it launches the base shell; otherwise it saves
the stack registers of the running process in its control block and continues
on those of the next terminal's process.
-/

namespace BigBrainOS
set_option autoImplicit false

abbrev ptIrqNum : Nat := 0
abbrev kbIrqNum : Nat := 1
/-- `MAIN_VID`. -/
abbrev mainVid : Int := -1

/-- `enable_irq`. -/
def enableIrq (irqNum : Nat) (s : Kernel) : Kernel :=
  if irqNum > 15 then s
  else if irqNum < 8 then { s with masterMask := s.masterMask &&& ~~~((1 : UInt8) <<< UInt8.ofNat irqNum) }
  else { s with slaveMask := s.slaveMask &&& ~~~((1 : UInt8) <<< UInt8.ofNat (irqNum - 8)) }

/-- `disable_irq`. -/
def disableIrq (irqNum : Nat) (s : Kernel) : Kernel :=
  if irqNum > 15 then s
  else if irqNum < 8 then { s with masterMask := s.masterMask ||| ((1 : UInt8) <<< UInt8.ofNat irqNum) }
  else { s with slaveMask := s.slaveMask ||| ((1 : UInt8) <<< UInt8.ofNat (irqNum - 8)) }

/-- What runs after `switch_running_process`. -/
inductive Resume where
  /-- The process of the next terminal, on the registers taken from its block. -/
  | resumed (regs : Regs)
  /-- A base shell that was launched here. -/
  | launched (newPid : Int)
  /-- The interrupted code: no process could be started. -/
  | returned
  /-- The page fault handler: the loader faulted. -/
  | fault
  deriving DecidableEq, Repr

/-- The end of `switch_running_process`, from "Get current process' pcb" on. -/
def switchTo (next : Term) (pid vidId : Int) (r : Regs) (s : Kernel) : Resume × Kernel :=
  if s.currPid s.currProcess = -1 then (.returned, s)
  else
    let s := s.setPcb (getPcbByPid (s.currPid s.currProcess)) fun pcb => { pcb with regs := r }
    let s := changeVidmem vidId (enableProgramPage pid s)
    let s := { s with tss := ⟨kernelDs, kernelStackTop pid⟩ }
    let s := restoreCursor (s.terminals next).screenXSave (s.terminals next).screenYSave s
    let s := { s with onScreen := decide (next = s.currTer), currProcess := next }
    (.resumed (s.pcb (s.currPid next)).regs, s)

/-- The keyboard is heard only while the displayed terminal runs. -/
def maskKeyboard (next : Term) (s : Kernel) : Kernel :=
  let s := disableIrq kbIrqNum { s with onScreen := false }
  if next = s.currTer then enableIrq kbIrqNum { s with onScreen := true } else s

/-- The branch of `switch_running_process` for a terminal that has no process,
up to the launch of its base shell. -/
def prepareTerminal (next : Term) (vidId : Int) (r : Regs) (s : Kernel) : Kernel :=
  let s := changeVidmem vidId s
  let s := if next ≠ 0 then s.setPcb (getPcbByPid s.currProcess.val) fun pcb => { pcb with regs := r } else s
  resetCursor { s with currProcess := next }

/-- `switch_running_process`; `r` is what it reads from the stack registers, `fr`
what a nested `sys_execute` finds on the stack. -/
def switchRunningProcess (env : Env) (r : Regs) (fr : ExecFrame) (s : Kernel) : Resume × Kernel :=
  let next := s.currProcess + 1
  let pid := s.currPid next
  let vidId : Int := if next = s.currTer then mainVid else next.val
  let s := maskKeyboard next s
  if pid = -1 then
    match sysExecute env fr (shellCommand env) (prepareTerminal next vidId r s) with
    | (.launched newPid _, s') => (.launched newPid, s')
    | (.fault, s') => (.fault, s')
    | (.failed, s') => switchTo next pid vidId r s'
  else switchTo next pid vidId r s

/-- The keyboard's flag and mask. -/
theorem maskKeyboard_quiet (next : Term) (s : Kernel) :
    ∃ on mask, maskKeyboard next s = { s with onScreen := on, masterMask := mask } := by
  unfold maskKeyboard
  dsimp only
  split <;> exact ⟨_, _, rfl⟩

/-- **The rule of a clock tick.** What each part of `switch_running_process` keeps, the launch of a base
shell included, the tick keeps. -/
theorem switchRunningProcess_rule {P : Kernel → Prop} {env : Env} {fr : ExecFrame} (r : Regs) {s : Kernel} (start : P s)
    (mask : ∀ s next, P s → P (maskKeyboard next s))
    (prepare : ∀ s next vidId, vidId ≤ 2 → P s → P (prepareTerminal next vidId r s))
    (launch : ∀ s, P s → P (sysExecute env fr (shellCommand env) s).2)
    (switch : ∀ s next pid vidId, vidId ≤ 2 → P s → P (switchTo next pid vidId r s).2) :
    P (switchRunningProcess env r fr s).2 := by
  have high : ∀ next : Term, (if next = s.currTer then mainVid else (next.val : Int)) ≤ 2 := by
    intro next
    have below : next.val < 3 := next.isLt
    split
    · decide
    · omega
  have masked := mask s (s.currProcess + 1) start
  unfold switchRunningProcess
  dsimp only
  split
  · have launched := launch _ (prepare _ (s.currProcess + 1) _ (high (s.currProcess + 1)) masked)
    split
    · next eq => rw [eq] at launched; exact launched
    · next eq => rw [eq] at launched; exact launched
    · next eq =>
      rw [eq] at launched
      exact switch _ _ _ _ (high _) launched
  · exact switch _ _ _ _ (high _) masked

/-- A clock tick with what a page fault of the base shell's loader leads to. -/
def tickCall (env : Env) (r : Regs) (fr exc : ExecFrame) (s : Kernel) : Kernel :=
  match switchRunningProcess env r fr s with
  | (.fault, s') => (pfHandler env exc s').2
  | (_, s') => s'

end BigBrainOS
