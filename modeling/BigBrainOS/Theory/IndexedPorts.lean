import BigBrainOS.Theory.Reach
import Mathlib.Data.List.Induction
import Mathlib.Logic.Function.Basic

/-!
# Registers behind an index port

A chip whose registers are reached in two steps: a byte to the index port selects
a register, and the data port reads or writes it. Several clients change one register,
each by selecting and reading it and then selecting and writing it, and an interrupt handler
selects and reads another register in between. If the changes absorb each other, the clients
need no lock against each other: what counts is that the handler does not come
between a selection and the access behind it.
-/

namespace IndexedPorts
set_option autoImplicit false

structure Chip where
  /-- The register that the data port reaches. -/
  index : UInt8
  regs : UInt8 → UInt8

/-- How registers behave on the data port. -/
structure Kind where
  readOnly : UInt8 → Bool
  /-- Reading clears the register. -/
  clears : UInt8 → Bool

namespace Chip
variable (K : Kind)

/-- A byte to the index port; its highest bit is no part of the index. -/
def select (b : UInt8) (c : Chip) : Chip := { c with index := b &&& 0x7F }

/-- The byte that the data port gives. -/
def input (c : Chip) : UInt8 := c.regs c.index

/-- The chip after it. -/
def read (c : Chip) : Chip := if K.clears c.index then { c with regs := Function.update c.regs c.index 0 } else c

/-- A byte to the data port. -/
def write (b : UInt8) (c : Chip) : Chip :=
  if K.readOnly c.index then c else { c with regs := Function.update c.regs c.index b }

theorem read_regs (c : Chip) {r : UInt8} (kept : K.clears r = false) : (c.read K).regs r = c.regs r := by
  unfold read
  split
  · next cleared =>
    have other : r ≠ c.index := by
      rintro rfl
      rw [kept] at cleared
      cases cleared
    exact Function.update_of_ne other _ _
  · rfl

theorem read_index (c : Chip) : (c.read K).index = c.index := by
  unfold read
  split <;> rfl

end Chip

/-- What the clients and the handler do. -/
structure Setup (ρ : Type) where
  kind : Kind
  /-- What the clients write to the index port. -/
  select : UInt8
  /-- The value that a client writes for its request, from the value it has read. -/
  change : ρ → UInt8 → UInt8
  /-- What the handler writes to the index port. -/
  other : UInt8
  /-- The registers that the device itself changes. -/
  device : UInt8 → Bool

/-- Where a client stands, with the value that it has read, and whether it was selected for it. -/
inductive Stage where
  | select
  | read
  | reselect (value : UInt8) (own : Bool)
  | write (value : UInt8) (own : Bool)
  deriving DecidableEq, Repr

/-- The client has selected the register, for its next access. -/
def Stage.selected : Stage → Bool
  | .read => true
  | .write _ _ => true
  | _ => false

/-- A client with a value that it read behind a selection. -/
def Stage.holds (v : UInt8) (stage : Stage) : Prop := stage = .reselect v true ∨ stage = .write v true

/-- A request that has ended: whether its read and its write came behind a selection by
a client, with no handler in between. -/
structure Ended (ρ : Type) where
  request : ρ
  read : Bool
  write : Bool

/-- The chip and its clients. `own` and `ended` are history: that the last selection was a
client's, and the requests so far. -/
structure Shared (ι ρ : Type) where
  chip : Chip
  clients : ι → Option (ρ × Stage)
  own : Bool
  ended : List (Ended ρ)

inductive Op (ι ρ : Type) where
  | begin (i : ι) (x : ρ)
  /-- The next port access of a client. -/
  | access (i : ι)
  /-- The handler, as a whole. -/
  | handler
  | device (r b : UInt8)

namespace Setup
variable {ι ρ : Type} [DecidableEq ι] (S : Setup ρ)

/-- The register of the clients. -/
def reg : UInt8 := S.select &&& 0x7F

/-- The register of the handler. -/
def otherReg : UInt8 := S.other &&& 0x7F

/-- A client at a stage makes its access. -/
def access (i : ι) (x : ρ) (stage : Stage) (q : Shared ι ρ) : Shared ι ρ :=
  let goOn := fun stage => Function.update q.clients i (some (x, stage))
  match stage with
  | .select => { q with chip := q.chip.select S.select, own := true, clients := goOn .read }
  | .read => { q with chip := q.chip.read S.kind, clients := goOn (.reselect q.chip.input q.own) }
  | .reselect value own => { q with chip := q.chip.select S.select, own := true, clients := goOn (.write value own) }
  | .write value own =>
    { q with
      chip := q.chip.write S.kind (S.change x value)
      clients := Function.update q.clients i none
      ended := q.ended ++ [⟨x, own, q.own⟩] }

def system : TransitionSystem (Shared ι ρ) (Op ι ρ) where
  ok q op := match op with
    | .begin i _ => q.clients i = none
    | .access i => (q.clients i).isSome = true
    | .handler => True
    | .device r _ => S.device r = true
  next q op := match op with
    | .begin i x => { q with clients := Function.update q.clients i (some (x, .select)) }
    | .access i => match q.clients i with
      | some (x, stage) => S.access i x stage q
      | none => q
    | .handler => { q with chip := (q.chip.select S.other).read S.kind, own := false }
    | .device r b => { q with chip := { q.chip with regs := Function.update q.chip.regs r b } }

/-- The register of the clients can be written and keeps its value, that of the handler
cannot be written, and of two changes only the later one counts. -/
structure Lawful : Prop where
  writable : S.kind.readOnly S.reg = false
  kept : S.kind.clears S.reg = false
  device : S.device S.reg = false
  other : S.kind.readOnly S.otherReg = true
  absorb : ∀ x y v, S.change x (S.change y v) = S.change x v

/-- No client is at work. -/
structure Start (chip : Chip) (q : Shared ι ρ) : Prop where
  chip : q.chip = chip
  clients : ∀ i, q.clients i = none
  own : q.own = false
  ended : q.ended = []

/-- The changes whose write reached the register, one after the other. -/
def settled (v : UInt8) (ended : List (Ended ρ)) : UInt8 :=
  (ended.filter (·.write)).foldl (fun v e => S.change e.request v) v

/-- Every write that reached the register had read it. -/
def CleanReads (ended : List (Ended ρ)) : Prop := ∀ e ∈ ended, e.write = true → e.read = true

variable {S}

/-- All changes of two values give the same. -/
def Same (S : Setup ρ) (v w : UInt8) : Prop := ∀ x, S.change x v = S.change x w

theorem settled_append (v : UInt8) (ended : List (Ended ρ)) (e : Ended ρ) :
    S.settled v (ended ++ [e]) = if e.write then S.change e.request (S.settled v ended) else S.settled v ended := by
  unfold settled
  rw [List.filter_append, List.foldl_append]
  cases write : e.write with
  | true => simp only [List.filter_cons, write, if_true, List.filter_nil, List.foldl_cons, List.foldl_nil]
  | false => simp only [List.filter_cons, write, Bool.false_eq_true, if_false, List.filter_nil, List.foldl_nil]

/-- Changes are absorbed. -/
theorem Lawful.settled_same (lawful : S.Lawful) (v : UInt8) (ended : List (Ended ρ)) : S.Same (S.settled v ended) v := by
  induction ended using List.reverseRecOn with
  | nil => exact fun _ => rfl
  | append_singleton ended e ih =>
    intro x
    rw [settled_append]
    split
    · rw [lawful.absorb]
      exact ih x
    · exact ih x

/-- What every run keeps, from a chip `c₀` on. -/
structure Inv (S : Setup ρ) (c₀ : Chip) (q : Shared ι ρ) : Prop where
  index : q.own = true → q.chip.index = S.reg
  /-- A client that has selected the register can only have lost it to the handler. -/
  lost : q.own = false → ∀ i x stage, q.clients i = some (x, stage) → stage.selected = true → q.chip.index = S.otherReg
  /-- What was read behind a selection is as good as the value of the register. -/
  values : CleanReads q.ended → ∀ i x stage v, q.clients i = some (x, stage) → stage.holds v → S.Same v (c₀.regs S.reg)
  value : CleanReads q.ended → q.chip.regs S.reg = S.settled (c₀.regs S.reg) q.ended
  /-- The part of the register that a change sets by itself. -/
  part : ∀ {β : Type} (part : UInt8 → β), (∀ x v w, part (S.change x v) = part (S.change x w)) →
    part (q.chip.regs S.reg) = part (S.settled (c₀.regs S.reg) q.ended)
  /-- No other register is written. -/
  others : ∀ r ≠ S.reg, S.kind.clears r = false → S.device r = false → q.chip.regs r = c₀.regs r

section Steps
variable {c₀ : Chip} {q : Shared ι ρ}

theorem CleanReads.of_append {ended : List (Ended ρ)} {e : Ended ρ} (clean : CleanReads (ended ++ [e])) :
    CleanReads ended ∧ (e.write = true → e.read = true) :=
  ⟨fun e' member => clean e' (List.mem_append_left _ member), clean e (List.mem_append_right _ (List.mem_singleton.2 rfl))⟩

omit [DecidableEq ι] in
theorem Start.inv (start : Start c₀ q) : Inv S c₀ q := by
  obtain ⟨rfl, clients, own, ended⟩ := start
  refine ⟨fun owns => ?_, fun _ i x stage at_i _ => ?_, fun _ i x stage v at_i _ => ?_, fun _ => ?_, fun part _ => ?_,
    fun r _ _ _ => rfl⟩
  · rw [own] at owns
    cases owns
  · rw [clients i] at at_i
    cases at_i
  · rw [clients i] at at_i
    cases at_i
  · rw [ended]
    rfl
  · rw [ended]
    rfl

omit [DecidableEq ι] in
/-- A step that changes neither the register nor what has ended. -/
theorem Inv.keep (inv : Inv S c₀ q) {q' : Shared ι ρ} (reg : q'.chip.regs S.reg = q.chip.regs S.reg)
    (ended : q'.ended = q.ended) (index : q'.own = true → q'.chip.index = S.reg)
    (lost : q'.own = false → ∀ i x stage, q'.clients i = some (x, stage) → stage.selected = true → q'.chip.index = S.otherReg)
    (values : CleanReads q.ended → ∀ i x stage v, q'.clients i = some (x, stage) → stage.holds v → S.Same v (c₀.regs S.reg))
    (others : ∀ r ≠ S.reg, S.kind.clears r = false → S.device r = false → q'.chip.regs r = c₀.regs r) : Inv S c₀ q' := by
  refine ⟨index, lost, ?_, ?_, ?_, others⟩
  · rw [ended]
    exact values
  · rw [ended, reg]
    exact inv.value
  · intro β part own
    rw [ended, reg]
    exact inv.part part own

/-- The clients after a client has changed its stage. -/
theorem update_clients {clients : ι → Option (ρ × Stage)} {i j : ι} {x y : ρ} {stage stage' : Stage}
    (at_j : Function.update clients i (some (x, stage)) j = some (y, stage')) :
    stage' = stage ∨ clients j = some (y, stage') := by
  rw [Function.update_apply] at at_j
  split at at_j
  · cases at_j
    exact .inl rfl
  · exact .inr at_j

/-- A selection by a client. -/
theorem Inv.select (inv : Inv S c₀ q) (i : ι) (x : ρ) {stage : Stage}
    (values : CleanReads q.ended → ∀ v, stage.holds v → S.Same v (c₀.regs S.reg)) :
    Inv S c₀ { q with chip := q.chip.select S.select, own := true, clients := Function.update q.clients i (some (x, stage)) } := by
  refine inv.keep rfl rfl ?index ?lost ?values ?others
  case index => exact fun _ => rfl
  case lost => exact fun own => nomatch own
  case values =>
    intro clean j y stage' v at_j holds
    rcases update_clients at_j with rfl | before
    · exact values clean v holds
    · exact inv.values clean j y stage' v before holds
  case others => exact inv.others

/-- The read of a client. -/
theorem Inv.read (inv : Inv S c₀ q) (lawful : S.Lawful) (i : ι) (x : ρ) :
    Inv S c₀ { q with
      chip := q.chip.read S.kind
      clients := Function.update q.clients i (some (x, .reselect q.chip.input q.own)) } := by
  refine inv.keep (Chip.read_regs S.kind q.chip lawful.kept) rfl ?index ?lost ?values ?others
  case index => exact fun own => (Chip.read_index S.kind q.chip).trans (inv.index own)
  case lost =>
    intro own j y stage at_j selected
    rcases update_clients at_j with rfl | before
    · cases selected
    · exact (Chip.read_index S.kind q.chip).trans (inv.lost own j y stage before selected)
  case values =>
    intro clean j y stage v at_j holds
    rcases update_clients at_j with rfl | before
    · rcases holds with same | same
      · -- the client had the register, so it has read the value of all changes so far
        obtain ⟨rfl, own⟩ := Stage.reselect.inj same
        rw [Chip.input, inv.index own, inv.value clean]
        exact lawful.settled_same _ _
      · cases same
    · exact inv.values clean j y stage v before holds
  case others => exact fun r other kept device => (Chip.read_regs S.kind q.chip kept).trans (inv.others r other kept device)

/-- The write of a client. -/
theorem Inv.write (inv : Inv S c₀ q) (lawful : S.Lawful) {i : ι} {x : ρ} {value : UInt8} {own : Bool}
    (here : q.clients i = some (x, .write value own)) :
    Inv S c₀ { q with
      chip := q.chip.write S.kind (S.change x value)
      clients := Function.update q.clients i none
      ended := q.ended ++ [⟨x, own, q.own⟩] } := by
  have others : ∀ j y stage, Function.update q.clients i none j = some (y, stage) → q.clients j = some (y, stage) := by
    intro j y stage at_j
    rw [Function.update_apply] at at_j
    split at at_j
    · cases at_j
    · exact at_j
  cases owns : q.own with
  | false =>
    -- the handler's register does not take the byte
    have index := inv.lost owns i x _ here rfl
    have chip : q.chip.write S.kind (S.change x value) = q.chip := by
      rw [Chip.write, index, lawful.other]
      rfl
    have settled : S.settled (c₀.regs S.reg) (q.ended ++ [⟨x, own, false⟩]) = S.settled (c₀.regs S.reg) q.ended :=
      settled_append _ _ _
    rw [chip]
    refine ⟨fun owns' => ?_, fun _ j y stage at_j => inv.lost owns j y stage (others j y stage at_j),
      fun clean j y stage v at_j => inv.values clean.of_append.1 j y stage v (others j y stage at_j), fun clean => ?_,
      fun part own => ?_, inv.others⟩
    · cases owns'
    · rw [settled]
      exact inv.value clean.of_append.1
    · rw [settled]
      exact inv.part part own
  | true =>
    have index := inv.index owns
    have chip : q.chip.write S.kind (S.change x value) =
        { q.chip with regs := Function.update q.chip.regs S.reg (S.change x value) } := by
      rw [← index]
      apply if_neg
      rw [index, lawful.writable]
      decide
    have settled : S.settled (c₀.regs S.reg) (q.ended ++ [⟨x, own, true⟩]) =
        S.change x (S.settled (c₀.regs S.reg) q.ended) :=
      settled_append _ _ _
    rw [chip]
    refine ⟨fun _ => index, fun owns' => ?_,
      fun clean j y stage v at_j => inv.values clean.of_append.1 j y stage v (others j y stage at_j), fun clean => ?_,
      fun part own => ?_, fun r other kept device => ?_⟩
    · cases owns'
    · obtain ⟨before, read⟩ := clean.of_append
      obtain rfl : own = true := read rfl
      have reached : Function.update q.chip.regs S.reg (S.change x value) S.reg = S.change x value := Function.update_self ..
      rw [settled]
      refine reached.trans ?_
      rw [inv.values before i x _ value here (.inr rfl) x]
      exact (lawful.settled_same _ _ x).symm
    · have reached : Function.update q.chip.regs S.reg (S.change x value) S.reg = S.change x value := Function.update_self ..
      rw [settled]
      exact (congrArg part reached).trans (own x _ _)
    · exact (Function.update_of_ne other _ _).trans (inv.others r other kept device)

/-- **Step lemma.** -/
theorem Inv.step (inv : Inv S c₀ q) (lawful : S.Lawful) {op : Op ι ρ} (ok : S.system.ok q op) : Inv S c₀ (S.system.next q op) := by
  cases op with
  | begin i x =>
    refine inv.keep rfl rfl inv.index ?lost ?values ?others
    case lost =>
      intro own j y stage at_j selected
      rcases update_clients at_j with rfl | before
      · cases selected
      · exact inv.lost own j y stage before selected
    case values =>
      intro clean j y stage v at_j holds
      rcases update_clients at_j with rfl | before
      · rcases holds with same | same <;> cases same
      · exact inv.values clean j y stage v before holds
    case others => exact inv.others
  | handler =>
    have index : ((q.chip.select S.other).read S.kind).index = S.otherReg := Chip.read_index S.kind _
    have regs : ∀ r, S.kind.clears r = false → ((q.chip.select S.other).read S.kind).regs r = q.chip.regs r :=
      fun r kept => Chip.read_regs S.kind _ kept
    refine inv.keep (regs _ lawful.kept) rfl ?index ?lost ?values ?others
    case index => exact fun own => nomatch own
    case lost => exact fun _ _ _ _ _ _ => index
    case values => exact inv.values
    case others => exact fun r other kept device => (regs r kept).trans (inv.others r other kept device)
  | device r b =>
    have changed : S.device r = true := ok
    have apart : ∀ r', S.device r' = false → Function.update q.chip.regs r b r' = q.chip.regs r' := by
      intro r' still
      apply Function.update_of_ne
      rintro rfl
      rw [changed] at still
      cases still
    exact inv.keep (apart _ lawful.device) rfl inv.index inv.lost inv.values
      fun r' other kept device => (apart r' device).trans (inv.others r' other kept device)
  | access i =>
    cases at_i : q.clients i with
    | none =>
      have idle : S.system.next q (.access i) = q := by simp only [system, at_i]
      rw [idle]
      exact inv
    | some client =>
      obtain ⟨x, stage⟩ := client
      have next : S.system.next q (.access i) = S.access i x stage q := by simp only [system, at_i]
      rw [next]
      cases stage with
      | select =>
        apply inv.select i x
        rintro _ v (same | same) <;> cases same
      | read => exact inv.read lawful i x
      | reselect value own =>
        apply inv.select i x
        rintro clean v (same | same)
        · cases same
        · cases same
          exact inv.values clean i x _ _ at_i (.inl rfl)
      | write value own => exact inv.write lawful at_i

end Steps

end Setup

end IndexedPorts
