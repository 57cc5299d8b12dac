import Mathlib

/-!
# The 8259A interrupt controller

A chip and a cascade of two, as the data sheet describes them: the initialization
words, the mask, requests and what is in service, in fully nested mode with fixed
priorities. A command that selects another mode (rotation, special masks, polling)
is outside of the description, and the chip records that it got one.
-/

section
set_option autoImplicit false

/-- A word that the chip expects on its data port after `ICW1`. -/
inductive InitWord where
  | icw2
  | icw3
  | icw4
  deriving DecidableEq, Repr

structure Pic8259 where
  /-- The initialization words that are still to come. -/
  awaiting : List InitWord
  /-- All commands so far are among those described here. -/
  covered : Bool
  /-- `LTIM`: requests are levels, not edges. -/
  level : Bool
  icw2 : UInt8
  icw3 : UInt8
  icw4 : UInt8
  /-- The lines that request. -/
  irr : Fin 8 → Bool
  /-- The lines that are masked. -/
  imr : Fin 8 → Bool
  /-- The lines in service. -/
  isr : Fin 8 → Bool

namespace Pic8259

local instance : NeZero 8 := ⟨by decide⟩

/-- A bit of a byte. -/
def bit (b : UInt8) (i : Fin 8) : Bool := b.toNat.testBit i

/-- The line in service that has the highest priority. -/
def inService (p : Pic8259) : Option (Fin 8) := (List.finRange 8).find? p.isr

/-- The end of the service of a line. -/
def finish (i : Fin 8) (p : Pic8259) : Pic8259 := { p with isr := Function.update p.isr i false }

/-- A byte written to the command port: `ICW1`, or one of the operation command words. -/
def command (b : UInt8) (p : Pic8259) : Pic8259 :=
  if bit b 4 then
    { p with
      awaiting := .icw2 :: ((if bit b 1 then [] else [.icw3]) ++ if bit b 0 then [.icw4] else [])
      level := bit b 3
      icw4 := if bit b 0 then p.icw4 else 0
      -- the edge sense circuit and the mask are reset
      irr := fun _ => false
      imr := fun _ => false }
  else if bit b 3 then { p with covered := false }
  else
    match b >>> 5 with
    -- the end of interrupt of the highest priority, and that of a given line
    | 1 => match p.inService with
      | none => p
      | some i => p.finish i
    | 3 => p.finish ⟨b.toNat % 8, Nat.mod_lt _ (by decide)⟩
    | _ => { p with covered := false }

/-- A byte written to the data port: an initialization word, or the mask. -/
def data (b : UInt8) (p : Pic8259) : Pic8259 :=
  match p.awaiting with
  | [] => { p with imr := bit b }
  | .icw2 :: rest => { p with icw2 := b, awaiting := rest }
  | .icw3 :: rest => { p with icw3 := b, awaiting := rest }
  | .icw4 :: rest => { p with icw4 := b, awaiting := rest }

/-- A device requests. -/
def raise (i : Fin 8) (p : Pic8259) : Pic8259 := { p with irr := Function.update p.irr i true }

/-- The line may interrupt: it requests, is not masked, and nothing of its or a higher priority is in service. -/
def Serviceable (p : Pic8259) (i : Fin 8) : Prop := p.irr i = true ∧ p.imr i = false ∧ ∀ j ≤ i, p.isr j = false

instance (p : Pic8259) : DecidablePred p.Serviceable := fun i =>
  inferInstanceAs (Decidable (p.irr i = true ∧ p.imr i = false ∧ ∀ j ≤ i, p.isr j = false))

/-- The priority resolver. -/
def select (p : Pic8259) : Option (Fin 8) := (List.finRange 8).find? fun i => decide (p.Serviceable i)

/-- The output line. -/
def int (p : Pic8259) : Bool := p.covered && p.awaiting.isEmpty && p.select.isSome

/-- The answer to the processor's acknowledge; with automatic end of interrupt nothing stays in service. -/
def acknowledge (i : Fin 8) (p : Pic8259) : Pic8259 :=
  { p with
    irr := Function.update p.irr i (p.level && p.irr i)
    isr := Function.update p.isr i (!bit p.icw4 1) }

/-- The vector that a line has. -/
def vector (i : Fin 8) (p : Pic8259) : UInt8 := (p.icw2 &&& 0xF8) ||| UInt8.ofNat i.val

end Pic8259

/-- Two chips. The output of the second is the line `wire` of the first. -/
structure PicCascade where
  master : Pic8259
  slave : Pic8259

namespace PicCascade
variable (wire : Fin 8)

/-- The first chip with the second one's request. -/
def wired (c : PicCascade) : Pic8259 := { c.master with irr := Function.update c.master.irr wire c.slave.int }

/-- The processor's interrupt line. -/
def int (c : PicCascade) : Bool := (c.wired wire).int

/-- The processor accepts the interrupt and gets its vector, on a cascaded line from
the second chip if that has the line's number; `none` if nobody answers. -/
def accept (c : PicCascade) : Option (UInt8 × PicCascade) :=
  let master := c.wired wire
  if master.int then
    match master.select with
    | none => none
    | some i =>
      if Pic8259.bit master.icw3 i then
        match c.slave.select with
        | none => none
        | some j =>
          if c.slave.icw3 &&& 7 = UInt8.ofNat i.val then
            some (c.slave.vector j, ⟨master.acknowledge i, c.slave.acknowledge j⟩)
          else none
      else some (master.vector i, ⟨master.acknowledge i, c.slave⟩)
  else none

/-- A device requests on one of the sixteen lines, which are numbered through. -/
def request (irq : Fin 16) (c : PicCascade) : PicCascade :=
  if h : irq.val < 8 then { c with master := c.master.raise ⟨irq.val, h⟩ }
  else { c with slave := c.slave.raise ⟨irq.val - 8, by omega⟩ }

/-- The device on the line requests. -/
def Requesting (irq : Fin 16) (c : PicCascade) : Prop :=
  (∀ h : irq.val < 8, c.master.irr ⟨irq.val, h⟩ = true) ∧ ∀ h : 8 ≤ irq.val, c.slave.irr ⟨irq.val - 8, by omega⟩ = true

/-- Another request does not clear it. -/
theorem Requesting.request {irq : Fin 16} {c : PicCascade} (requesting : c.Requesting irq) (irq' : Fin 16) :
    (c.request irq').Requesting irq := by
  obtain ⟨master, slave⟩ := requesting
  have raised : ∀ (lines : Fin 8 → Bool) (i k : Fin 8), lines k = true → Function.update lines i true k = true := by
    intro lines i k on
    rw [Function.update_apply]
    split
    · rfl
    · exact on
  unfold PicCascade.request
  split
  · exact ⟨fun h => raised _ _ _ (master h), slave⟩
  · exact ⟨master, fun h => raised _ _ _ (slave h)⟩

end PicCascade

/-! ## Requests do not matter to commands -/

namespace Pic8259
variable {p q : Pic8259}

/-- The chips differ in their requests only. -/
def SameButRequests (p q : Pic8259) : Prop := { p with irr := q.irr } = q

theorem SameButRequests.refl (p : Pic8259) : SameButRequests p p := rfl

theorem SameButRequests.exists (h : SameButRequests p q) : ∃ irr, q = { p with irr := irr } := ⟨q.irr, h.symm⟩

theorem SameButRequests.of_irr (p : Pic8259) (irr : Fin 8 → Bool) : SameButRequests p { p with irr := irr } := rfl

theorem SameButRequests.raise (h : SameButRequests p q) (i : Fin 8) : SameButRequests p (q.raise i) := by
  obtain ⟨irr, rfl⟩ := h.exists
  exact .of_irr p _

theorem SameButRequests.command (h : SameButRequests p q) (b : UInt8) : SameButRequests (p.command b) (q.command b) := by
  obtain ⟨irr, rfl⟩ := h.exists
  unfold Pic8259.command
  split
  · exact .refl _
  split
  · exact .of_irr _ irr
  split
  · show SameButRequests (match p.inService with | none => p | some i => p.finish i)
      (match p.inService with | none => _ | some i => _)
    split
    · exact .of_irr _ irr
    · exact .of_irr _ irr
  · exact .of_irr _ irr
  · exact .of_irr _ irr

theorem SameButRequests.data (h : SameButRequests p q) (b : UInt8) : SameButRequests (p.data b) (q.data b) := by
  obtain ⟨irr, rfl⟩ := h.exists
  unfold Pic8259.data
  dsimp only
  split <;> exact .of_irr _ irr

/-! ## Initialization -/

/-- The chip has its four initialization words, with edges, in the mode of the 8086
and without automatic end of interrupt. -/
structure Programmed (icw2 icw3 : UInt8) (p : Pic8259) : Prop where
  awaiting : p.awaiting = []
  covered : p.covered = true
  level : p.level = false
  icw2 : p.icw2 = icw2
  icw3 : p.icw3 = icw3
  icw4 : p.icw4 = 1

/-! ## The priority resolver -/

theorem select_eq_some {i : Fin 8} : p.select = some i ↔ p.Serviceable i ∧ ∀ j < i, ¬ p.Serviceable j := by
  unfold select
  rw [List.find?_eq_some_iff_getElem]
  simp only [decide_eq_true_eq, List.length_finRange, List.getElem_finRange, Bool.not_eq_true', decide_eq_false_iff_not]
  constructor
  · rintro ⟨serviceable, k, inside, rfl, earlier⟩
    refine ⟨serviceable, fun j before => ?_⟩
    have at_j := earlier j.val before
    exact at_j
  · rintro ⟨serviceable, earlier⟩
    exact ⟨serviceable, i.val, i.isLt, rfl, fun j before => earlier _ before⟩

theorem select_isSome : p.select.isSome = true ↔ ∃ i, p.Serviceable i := by
  unfold select
  rw [List.find?_isSome]
  constructor
  · rintro ⟨i, -, serviceable⟩
    exact ⟨i, of_decide_eq_true serviceable⟩
  · rintro ⟨i, serviceable⟩
    exact ⟨i, List.mem_finRange i, decide_eq_true serviceable⟩

/-- Nothing is in service. -/
def Idle (p : Pic8259) : Prop := ∀ i, p.isr i = false

/-- An idle chip interrupts for every request that is not masked. -/
theorem Idle.serviceable (idle : p.Idle) {i : Fin 8} : p.Serviceable i ↔ p.irr i = true ∧ p.imr i = false :=
  ⟨fun h => ⟨h.1, h.2.1⟩, fun h => ⟨h.1, h.2, fun j _ => idle j⟩⟩

/-- A programmed chip drives its output exactly if a line may interrupt. -/
theorem Programmed.int {icw2 icw3 : UInt8} (programmed : Programmed icw2 icw3 p) : p.int = true ↔ ∃ i, p.Serviceable i := by
  rw [Pic8259.int, programmed.covered, programmed.awaiting, ← select_isSome]
  simp

/-- The interrupt of an idle chip, acknowledged and finished, leaves the chip as it was but for its requests. -/
theorem finish_acknowledge (idle : p.Idle) (i : Fin 8) :
    SameButRequests p ((p.acknowledge i).finish i) := by
  have isr : Function.update (Function.update p.isr i (!bit p.icw4 1)) i false = p.isr := by
    rw [Function.update_idem, ← idle i, Function.update_eq_self]
  show _ = { p with
    irr := Function.update p.irr i (p.level && p.irr i)
    isr := Function.update (Function.update p.isr i (!bit p.icw4 1)) i false }
  rw [isr]
  rfl

end Pic8259

/-! ## The cascade -/

namespace PicCascade
variable {wire : Fin 8} {c : PicCascade} {base base' : UInt8}

/-- Both chips are programmed, the first for a second one on `wire` and the second for
that line, and nothing is in service. -/
structure Ready (wire : Fin 8) (base base' : UInt8) (c : PicCascade) : Prop where
  master : ∃ icw3, c.master.Programmed base icw3 ∧ ∀ i, Pic8259.bit icw3 i = true ↔ i = wire
  slave : ∃ icw3, c.slave.Programmed base' icw3 ∧ icw3 &&& 7 = UInt8.ofNat wire.val
  masterIdle : c.master.Idle
  slaveIdle : c.slave.Idle

/-- A line of the cascade requests and is not masked. -/
def Requests (wire : Fin 8) (c : PicCascade) (i : Fin 8) : Prop :=
  c.master.imr i = false ∧
    if i = wire then ∃ j, c.slave.irr j = true ∧ c.slave.imr j = false else c.master.irr i = true

theorem Ready.serviceable (ready : c.Ready wire base base') (i : Fin 8) :
    (c.wired wire).Serviceable i ↔ c.Requests wire i := by
  obtain ⟨icw3, programmed, -⟩ := ready.slave
  have idle : (c.wired wire).Idle := ready.masterIdle
  have line : (c.wired wire).irr i = true ↔
      if i = wire then ∃ j, c.slave.irr j = true ∧ c.slave.imr j = false else c.master.irr i = true := by
    simp only [wired, Function.update_apply]
    split
    · rw [programmed.int]
      exact exists_congr fun j => ready.slaveIdle.serviceable
    · rfl
  rw [idle.serviceable, line]
  exact and_comm

/-- The processor is interrupted exactly if a line requests that is not masked. -/
theorem Ready.int_iff (ready : c.Ready wire base base') : c.int wire = true ↔ ∃ i, c.Requests wire i := by
  obtain ⟨icw3, programmed, -⟩ := ready.master
  have wiredProgrammed : (c.wired wire).Programmed base icw3 :=
    ⟨programmed.awaiting, programmed.covered, programmed.level, programmed.icw2, programmed.icw3, programmed.icw4⟩
  rw [PicCascade.int, wiredProgrammed.int]
  exact exists_congr fun i => ready.serviceable i

/-- What the processor gets when it accepts an interrupt: the vector of the first of the
requesting lines, or that of the second chip's first if this is the wire. -/
theorem Ready.accept (ready : c.Ready wire base base') (interrupts : c.int wire = true) :
    ∃ i, c.Requests wire i ∧ (∀ k < i, ¬ c.Requests wire k) ∧
      ((i ≠ wire ∧ c.accept wire = some (c.master.vector i, ⟨(c.wired wire).acknowledge i, c.slave⟩)) ∨
        i = wire ∧ ∃ j, c.slave.Serviceable j ∧ (∀ k < j, ¬ c.slave.Serviceable k) ∧
          c.accept wire = some (c.slave.vector j, ⟨(c.wired wire).acknowledge wire, c.slave.acknowledge j⟩)) := by
  have requests := ready.int_iff.1 interrupts
  obtain ⟨icw3, programmed, lines⟩ := ready.master
  obtain ⟨icw3', programmed', number⟩ := ready.slave
  have selected : (c.wired wire).select.isSome = true := by
    obtain ⟨i, requests⟩ := requests
    exact Pic8259.select_isSome.2 ⟨i, (ready.serviceable i).2 requests⟩
  obtain ⟨i, select⟩ := Option.isSome_iff_exists.1 selected
  obtain ⟨first, others⟩ := Pic8259.select_eq_some.1 select
  refine ⟨i, (ready.serviceable i).1 first, fun k before => (ready.serviceable k).not.1 (others k before), ?_⟩
  have cascaded : Pic8259.bit (c.wired wire).icw3 i = true ↔ i = wire := by
    show Pic8259.bit c.master.icw3 i = true ↔ _
    rw [programmed.icw3]
    exact lines i
  have int : (c.wired wire).int = true := interrupts
  rcases eq_or_ne i wire with rfl | direct
  · right
    have requesting := ((ready.serviceable i).1 first).2
    rw [if_pos rfl] at requesting
    obtain ⟨j, irr, imr⟩ := requesting
    obtain ⟨k, select'⟩ := Option.isSome_iff_exists.1
      (Pic8259.select_isSome.2 ⟨j, ready.slaveIdle.serviceable.2 ⟨irr, imr⟩⟩)
    obtain ⟨first', others'⟩ := Pic8259.select_eq_some.1 select'
    refine ⟨rfl, k, first', others', ?_⟩
    have answers : c.slave.icw3 &&& 7 = UInt8.ofNat i.val := by
      rw [programmed'.icw3]
      exact number
    simp only [PicCascade.accept, int, if_true, select, cascaded.2 rfl, select', answers]
  · left
    have own : ¬ Pic8259.bit (c.wired wire).icw3 i = true := fun on => direct (cascaded.1 on)
    refine ⟨direct, ?_⟩
    simp only [PicCascade.accept, int, if_true, select, own]
    rfl

end PicCascade

end
