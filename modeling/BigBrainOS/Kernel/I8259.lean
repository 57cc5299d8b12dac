import BigBrainOS.Theory.Pic8259
import BigBrainOS.Kernel.Init

/-!
# The interrupt controllers

The bytes that `i8259.c` writes to the two controllers, and those that `entry` and
the handlers of the three interrupts write through it. `master_mask` and `slave_mask`
are the kernel's copies of what it wrote last.
-/

namespace BigBrainOS
set_option autoImplicit false

/-! ## Ports -/

abbrev masterPicCmd : Nat := 0x20
abbrev masterPicData : Nat := 0x21
abbrev slavePicCmd : Nat := 0xA0
abbrev slavePicData : Nat := 0xA1

/-- The line of the master that the slave is on, `SLAVE_ON_MASTER`. -/
abbrev slaveOnMaster : Fin 8 := 2
/-- `EOI`. -/
abbrev eoi : Nat := 0x60

/-- A byte that `outb` writes to a port. -/
structure Outb where
  value : UInt8
  port : Nat
  deriving DecidableEq, Repr

/-- What the controllers see of it. -/
def Outb.run (w : Outb) (c : PicCascade) : PicCascade :=
  if w.port = masterPicCmd then { c with master := c.master.command w.value }
  else if w.port = masterPicData then { c with master := c.master.data w.value }
  else if w.port = slavePicCmd then { c with slave := c.slave.command w.value }
  else if w.port = slavePicData then { c with slave := c.slave.data w.value }
  else c

def runOutbs (ws : List Outb) (c : PicCascade) : PicCascade := ws.foldl (fun c w => w.run c) c

/-! ## `i8259.c` -/

/-- The port writes of `i8259_init`. -/
def i8259InitOutbs : List Outb :=
  [⟨0xFF, masterPicData⟩, ⟨0xFF, slavePicData⟩, ⟨0x11, masterPicCmd⟩, ⟨0x11, slavePicCmd⟩, ⟨0x20, masterPicData⟩,
    ⟨0x28, slavePicData⟩, ⟨0x04, masterPicData⟩, ⟨0x02, slavePicData⟩, ⟨0x01, masterPicData⟩, ⟨0x01, slavePicData⟩,
    ⟨0xFB, masterPicData⟩, ⟨0xFF, slavePicData⟩]

/-- The mask that `enable_irq` and `disable_irq` write, after they have changed it. -/
def maskOutb (irqNum : Nat) (s : Kernel) : List Outb :=
  if irqNum > 15 then [] else if irqNum < 8 then [⟨s.masterMask, masterPicData⟩] else [⟨s.slaveMask, slavePicData⟩]

/-- The port writes of `enable_irq`. -/
def enableIrqOutbs (irqNum : Nat) (s : Kernel) : List Outb := maskOutb irqNum (enableIrq irqNum s)

/-- The port writes of `disable_irq`. -/
def disableIrqOutbs (irqNum : Nat) (s : Kernel) : List Outb := maskOutb irqNum (disableIrq irqNum s)

/-- `send_eoi`. -/
def sendEoi (irqNum : Nat) : List Outb :=
  if irqNum > 15 then []
  else if irqNum < 8 then [⟨UInt8.ofNat (irqNum ||| eoi), masterPicCmd⟩]
  else [⟨UInt8.ofNat ((irqNum - 8) ||| eoi), slavePicCmd⟩, ⟨UInt8.ofNat (slaveOnMaster.val ||| eoi), masterPicCmd⟩]

/-! ## Handlers -/

/-- The port writes of `entry`: `i8259_init` and the three `enable_irq`. -/
def entryOutbs (s : Kernel) : List Outb :=
  let s := { s with masterMask := 0xFB, slaveMask := 0xFF }
  let rtc := enableIrq rtcIrqNum s
  let kb := enableIrq kbIrqNum rtc
  i8259InitOutbs ++ enableIrqOutbs rtcIrqNum s ++ enableIrqOutbs kbIrqNum rtc ++ enableIrqOutbs ptIrqNum kb

/-- The port writes of `maskKeyboard`. -/
def maskKeyboardOutbs (next : Term) (s : Kernel) : List Outb :=
  let off := disableIrq kbIrqNum s
  disableIrqOutbs kbIrqNum s ++ if next = off.currTer then enableIrqOutbs kbIrqNum off else []

/-- The ends of interrupt of `PT_handler`. A base shell is launched behind one of its own,
and `PT_handler` goes on to the other only if no shell was. -/
def ptHandlerEois (env : Env) (r : Regs) (fr : ExecFrame) (s : Kernel) : List Outb :=
  let early := if s.currPid (s.currProcess + 1) = -1 then sendEoi ptIrqNum else []
  let late := match (switchRunningProcess env r fr s).1 with
    | .resumed _ => sendEoi ptIrqNum
    | .returned => sendEoi ptIrqNum
    | .launched _ => []
    | .fault => []
  early ++ late

/-- The port writes of `PT_handler`. -/
def ptHandlerOutbs (env : Env) (r : Regs) (fr : ExecFrame) (s : Kernel) : List Outb :=
  maskKeyboardOutbs (s.currProcess + 1) s ++ ptHandlerEois env r fr s

/-- The port writes of `KB_handler`: each of its returns is behind `send_eoi`. -/
def kbHandlerOutbs : List Outb := sendEoi kbIrqNum

/-- The port writes of `RT_handler` to the controllers. -/
def rtHandlerOutbs : List Outb := sendEoi rtcIrqNum

end BigBrainOS
