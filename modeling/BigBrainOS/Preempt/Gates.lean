import BigBrainOS.Kernel.Idt

/-!
# The gates after `init_idt`

The last entry that a loop writes for a vector stays. The entries that are listed are
all different; what the loop over the interrupts takes from behind its arrays comes
after them and may replace any of them but the one for the system calls.
-/

namespace BigBrainOS
set_option autoImplicit false

/-! ## Tables -/

/-- The last entry for an index is the one that stays. -/
theorem foldl_addEntry (dpl : Nat) (v : Nat) : ∀ (l : List (Nat × BitVec 32)) (m : IdtMemory),
    l.foldl (addEntry dpl) m v = ((l.reverse.lookup v).map (handlerGate dpl)).getD (m v) := by
  intro l
  induction l with
  | nil => intro m; rfl
  | cons p l ih =>
    intro m
    rw [List.foldl_cons, ih, List.reverse_cons, List.lookup_append]
    cases List.lookup v l.reverse with
    | some h => rfl
    | none =>
      rw [Option.none_or, Option.map_none, Option.getD_none, addEntry, installGate_eq]
      by_cases same : v = p.1
      · rw [same, Function.update_self, List.lookup_cons_self]
        rfl
      · rw [Function.update_of_ne same, List.lookup_cons, beq_false_of_ne same]
        rfl

/-- Where every index is listed once, the entry for it is the listed one. -/
theorem lookup_eq_some_of_nodup {α : Type} {l : List (Nat × α)} (nodup : (l.map Prod.fst).Nodup) {v : Nat} {a : α} :
    l.lookup v = some a ↔ (v, a) ∈ l := by
  rw [List.lookup_eq_some_iff]
  constructor
  · rintro ⟨before, after, rfl, -⟩
    exact List.mem_append_right _ List.mem_cons_self
  · intro member
    obtain ⟨before, after, rfl⟩ := List.append_of_mem member
    refine ⟨before, after, rfl, fun p earlier => ?_⟩
    rw [List.map_append, List.map_cons] at nodup
    have apart := (List.nodup_append.1 nodup).2.2 p.1 (List.mem_map_of_mem earlier) v List.mem_cons_self
    exact bne_iff_ne.2 (Ne.symm apart)

/-! ## What is listed -/

/-- The vectors with their handlers, as the two pairs of arrays list them. -/
def listed : List (Nat × Handler) := excVect.zip excHandlers ++ intVect.zip intHandlers

/-- What is taken from behind the arrays of the interrupts. -/
def strayEntries (w : StackWords) : List (Nat × BitVec 32) :=
  (List.range' 4 12).map fun i => ((w.vect i).toNat % 2 ^ 29, w.handler i)

/-- `init_idt` has done its work: every listed vector leads to its handler, from the kernel only, the
system calls can be called from user code, and all other entries are as they were. -/
structure IdtSetUp (link : Handler → BitVec 32) (before after : IdtMemory) : Prop where
  vectors : ∀ v h, (v, h) ∈ listed → after v = handlerGate 0 (link h)
  system : after sysCall = handlerGate 3 (link .sysHandlerWrapper)
  others : ∀ v < numVec, v ≠ sysCall → (∀ h, (v, h) ∉ listed) → after v = before v

/-- The last stray entry for an index, if it goes into the table and not to the system calls, is the one that
is listed, or one that the table has already. -/
def Harmless (link : Handler → BitVec 32) (w : StackWords) (m : IdtMemory) : Prop :=
  ∀ v < numVec, v ≠ sysCall → ∀ a, (strayEntries w).reverse.lookup v = some a →
    (∃ h, (v, h) ∈ listed ∧ a = link h) ∨ (∀ h, (v, h) ∉ listed) ∧ handlerGate 0 a = m v

section
variable (link : Handler → BitVec 32) (w : StackWords) (m : IdtMemory)

theorem listed_nodup : (listed.map Prod.fst).Nodup := by decide

theorem excEntries_eq : excEntries link = (excVect.zip excHandlers).map fun p => (p.1, link p.2) := rfl

theorem intEntries_eq : intEntries link w = (intVect.zip intHandlers).map (fun p => (p.1, link p.2)) ++ strayEntries w := rfl

/-- An entry of the table after `init_idt`. -/
theorem initIdtTable_apply (v : Nat) :
    initIdtTable link w m v = if v = sysCall then handlerGate 3 (link .sysHandlerWrapper)
      else ((((strayEntries w).reverse.lookup v).or ((listed.map fun p => (p.1, link p.2)).reverse.lookup v)).map
        (handlerGate 0)).getD (m v) := by
  rw [initIdtTable, addEntry]
  split
  · next system => rw [system, Function.update_self, installGate_eq]
  · next other =>
    rw [Function.update_of_ne other, ← List.foldl_append, foldl_addEntry, excEntries_eq, intEntries_eq, ← List.append_assoc,
      ← List.map_append, List.reverse_append, List.lookup_append]
    rfl

/-- The entry for a listed vector. -/
theorem listedEntries_lookup {v : Nat} {a : BitVec 32} :
    (listed.map fun p => (p.1, link p.2)).reverse.lookup v = some a ↔ ∃ h, (v, h) ∈ listed ∧ a = link h := by
  have nodup : ((listed.map fun p => (p.1, link p.2)).reverse.map Prod.fst).Nodup := by
    rw [List.map_reverse, List.nodup_reverse, List.map_map]
    exact listed_nodup
  rw [lookup_eq_some_of_nodup nodup, List.mem_reverse, List.mem_map]
  constructor
  · rintro ⟨⟨v', h⟩, member, same⟩
    obtain ⟨rfl, rfl⟩ := Prod.mk.inj same
    exact ⟨h, member, rfl⟩
  · rintro ⟨h, member, rfl⟩
    exact ⟨(v, h), member, rfl⟩

/-- Every vector has one handler. -/
theorem listed_unique {v : Nat} {h h' : Handler} (member : (v, h) ∈ listed) (member' : (v, h') ∈ listed) : h = h' :=
  Option.some.inj (((lookup_eq_some_of_nodup listed_nodup).2 member).symm.trans ((lookup_eq_some_of_nodup listed_nodup).2 member'))

theorem listed_bounds : ∀ p ∈ listed, p.1 < numVec ∧ p.1 ≠ sysCall := by decide

variable {w}

/-- A stray entry stays if it is the last one for its index. -/
theorem initIdtTable_stray {v : Nat} {a : BitVec 32} (other : v ≠ sysCall) (stray : (strayEntries w).reverse.lookup v = some a) :
    initIdtTable link w m v = handlerGate 0 a := by
  rw [initIdtTable_apply, if_neg other, stray]
  rfl

/-- A listed entry stays if no stray one replaces it. -/
theorem initIdtTable_listed {v : Nat} {h : Handler} (member : (v, h) ∈ listed)
    (none_ : (strayEntries w).reverse.lookup v = none) : initIdtTable link w m v = handlerGate 0 (link h) := by
  rw [initIdtTable_apply, if_neg (listed_bounds _ member).2, none_, (listedEntries_lookup link).2 ⟨h, member, rfl⟩]
  rfl

/-- The rest of the table is as it was if no stray entry goes there. -/
theorem initIdtTable_other {v : Nat} (other : v ≠ sysCall) (unlisted : ∀ h, (v, h) ∉ listed)
    (none_ : (strayEntries w).reverse.lookup v = none) : initIdtTable link w m v = m v := by
  have nothing : (listed.map fun p => (p.1, link p.2)).reverse.lookup v = none := by
    rw [Option.eq_none_iff_forall_ne_some]
    intro a found
    obtain ⟨h, member, -⟩ := (listedEntries_lookup link).1 found
    exact unlisted h member
  rw [initIdtTable_apply, if_neg other, none_, nothing]
  rfl

/-- **The descriptor table.** `init_idt` sets up its entries and no others, if and only if what lies behind its
arrays does no harm. -/
theorem initIdtTable_setUp_iff (link : Handler → BitVec 32) (w : StackWords) (m : IdtMemory) :
    IdtSetUp link m (initIdtTable link w m) ↔ Harmless link w m := by
  constructor
  · intro setUp v inside other a stray
    have replaced := initIdtTable_stray link m other stray
    by_cases known : ∃ h, (v, h) ∈ listed
    · obtain ⟨h, member⟩ := known
      exact Or.inl ⟨h, member, handlerGate_inj (replaced.symm.trans (setUp.vectors v h member))⟩
    · have unlisted : ∀ h, (v, h) ∉ listed := fun h member => known ⟨h, member⟩
      exact Or.inr ⟨unlisted, replaced.symm.trans (setUp.others v inside other unlisted)⟩
  · intro harmless
    refine ⟨fun v h member => ?_, ?_, fun v inside other unlisted => ?_⟩
    · obtain ⟨inside, other⟩ := listed_bounds _ member
      cases stray : (strayEntries w).reverse.lookup v with
      | none => exact initIdtTable_listed link m member stray
      | some a =>
        rw [initIdtTable_stray link m other stray]
        rcases harmless v inside other a stray with ⟨h', member', rfl⟩ | ⟨unlisted, -⟩
        · rw [listed_unique member member']
        · exact absurd member (unlisted h)
    · rw [initIdtTable_apply, if_pos rfl]
    · cases stray : (strayEntries w).reverse.lookup v with
      | none => exact initIdtTable_other link m other unlisted stray
      | some a =>
        rw [initIdtTable_stray link m other stray]
        rcases harmless v inside other a stray with ⟨h, member, -⟩ | ⟨-, same⟩
        · exact absurd member (unlisted h)
        · exact same

/-- Handlers of 16 bytes each, one behind the other. -/
def handlersInOrder (h : Handler) : BitVec 32 := BitVec.ofNat 32 (0x400000 + 16 * h.ctorIdx)

/-- Behind both arrays lies the number of the keyboard's vector and a zero: its gate leads to address 0. -/
theorem keyboard_gate_lost :
    ¬ IdtSetUp handlersInOrder (fun _ => .zero) (initIdtTable handlersInOrder ⟨fun _ => 0x21, fun _ => 0⟩ fun _ => .zero) := by
  intro setUp
  have stray : (strayEntries ⟨fun _ => 0x21, fun _ => 0⟩).reverse.lookup kbInt = some 0 := by decide
  have replaced := initIdtTable_stray handlersInOrder (fun _ => .zero) (by decide) stray
  have same := replaced.symm.trans (setUp.vectors kbInt .kbHandlerWrapper (by decide))
  exact absurd (handlerGate_inj same) (by decide)

/-- The kind of an entry that can be called. -/
def IdtEntry.kind (e : IdtEntry) : Option IdtDesc := if e.desc.present then some e.desc else none

/-- From an empty table the gates are those of `initIdt`. -/
theorem initIdtTable_kind (link : Handler → BitVec 32) {w : StackWords} (harmless : Harmless link w fun _ => .zero) {v : Nat}
    (inside : v < numVec) : (initIdtTable link w (fun _ => .zero) v).kind = initIdt v := by
  have setUp := (initIdtTable_setUp_iff link w fun _ => .zero).2 harmless
  have vectors : ∀ v, (∃ h, (v, h) ∈ listed) ↔ v ∈ excVect ∨ v ∈ intVect := by
    intro v
    have keys : listed.map Prod.fst = excVect ++ intVect := by decide
    rw [← List.mem_append, ← keys, List.mem_map]
    constructor
    · rintro ⟨h, member⟩
      exact ⟨(v, h), member, rfl⟩
    · rintro ⟨⟨v', h⟩, member, rfl⟩
      exact ⟨h, member⟩
  unfold initIdt
  split
  · next system =>
    rw [system, setUp.system]
    rfl
  · next other =>
    split
    · next known =>
      obtain ⟨h, member⟩ := (vectors v).2 known
      rw [setUp.vectors v h member]
      rfl
    · next unknown =>
      rw [setUp.others v inside other fun h member => unknown ((vectors v).1 ⟨h, member⟩)]
      rfl

end

end BigBrainOS
