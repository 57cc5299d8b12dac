import Mathlib.Data.List.Basic
import Mathlib.Logic.Function.Basic

/-!
# Memory with a log of its stores

A program that computes its indices as integers may compute one that is no address.
A logged memory keeps each index that is stored to as it was computed, so that its
stores can be bounded, and what was not logged is unchanged.
-/

namespace StoreLog
set_option autoImplicit false

variable {β ι : Type} {size : Nat} {v : Nat → β}

/-- A memory and the indices stored to, the last one first. -/
structure Logged (β : Type) where
  memory : Nat → β
  log : List Int

namespace Logged

/-- A memory that nothing has been stored to. -/
def start (v : Nat → β) : Logged β := ⟨v, []⟩

def store (m : Logged β) (i : Int) (b : β) : Logged β := ⟨Function.update m.memory i.toNat b, i :: m.log⟩

/-- A loop is logged round by round. -/
theorem foldl_memory {f : Logged β → ι → Logged β} {g : (Nat → β) → ι → Nat → β}
    (round : ∀ m a, (f m a).memory = g m.memory a) (l : List ι) (m : Logged β) :
    (l.foldl f m).memory = l.foldl g m.memory :=
  (List.foldl_hom Logged.memory fun m a => (round m a).symm).symm

end Logged

/-- Since the memory was `v`, every store was below `size`, and what was not stored to is the same. -/
structure Traced (v : Nat → β) (size : Nat) (m : Logged β) : Prop where
  inside : ∀ i ∈ m.log, 0 ≤ i ∧ i < size
  outside : ∀ k : Nat, (k : Int) ∉ m.log → m.memory k = v k

namespace Traced
variable {m : Logged β}

theorem start (v : Nat → β) (size : Nat) : Traced v size (.start v) :=
  ⟨fun _ member => absurd member List.not_mem_nil, fun _ _ => rfl⟩

/-- One store in range. -/
theorem store (traced : Traced v size m) {i : Int} (low : 0 ≤ i) (high : i < size) (b : β) :
    Traced v size (m.store i b) := by
  refine ⟨fun j member => ?_, fun k unlogged => ?_⟩
  · rcases List.mem_cons.1 member with rfl | earlier
    · exact ⟨low, high⟩
    · exact traced.inside j earlier
  · have other : k ≠ i.toNat := by
      rintro rfl
      apply unlogged
      rw [Int.toNat_of_nonneg low]
      exact List.mem_cons_self
    exact (Function.update_of_ne other _ _).trans (traced.outside k fun earlier => unlogged (List.mem_cons_of_mem i earlier))

/-- A loop whose rounds keep their stores in range. -/
theorem foldl {f : Logged β → ι → Logged β} {l : List ι} (traced : Traced v size m)
    (round : ∀ a ∈ l, ∀ m, Traced v size m → Traced v size (f m a)) : Traced v size (l.foldl f m) :=
  List.foldlRecOn l f traced fun m traced a member => round a member m traced

end Traced

end StoreLog
