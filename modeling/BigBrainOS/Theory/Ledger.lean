import Mathlib.Data.List.Nodup
import Mathlib.Logic.Function.Basic

/-!
# Calls and their returns

A ledger numbers calls in the order in which they are made, keeps for each key
the call that is open under it, and records every return with the number of the
call it answers. `Balanced R` says that nothing is lost and nothing answered
twice: each call is open under one key or has one return, and the return stands
in the relation `R` to the call it answers.
-/

section
set_option autoImplicit false

/-- Numbered calls, the open ones by their keys, and the returns so far. -/
structure Ledger (κ γ ρ : Type) where
  calls : List γ
  pending : κ → Option Nat
  returns : List (Option Nat × ρ)

namespace Ledger
variable {κ γ ρ : Type}

/-- No call was made. -/
def empty : Ledger κ γ ρ := ⟨[], fun _ => none, []⟩

/-- The call that is open under a key. -/
def openCall (l : Ledger κ γ ρ) (k : κ) : Option γ := (l.pending k).bind fun i => l.calls[i]?

section Update
variable [DecidableEq κ]

/-- A call is made under the key `k`. -/
def call (l : Ledger κ γ ρ) (k : κ) (c : γ) : Ledger κ γ ρ :=
  { l with calls := l.calls ++ [c], pending := Function.update l.pending k (some l.calls.length) }

/-- The call that is open under the key `k` returns. -/
def answer (l : Ledger κ γ ρ) (k : κ) (r : ρ) : Ledger κ γ ρ :=
  { l with pending := Function.update l.pending k none, returns := l.returns ++ [(l.pending k, r)] }

end Update

/-- Every call is open under one key or has one return, to which it is related by `R`. -/
structure Balanced (R : γ → ρ → Prop) (l : Ledger κ γ ρ) : Prop where
  numbered : ∀ k i, l.pending k = some i → i < l.calls.length
  distinct : ∀ k k' i, l.pending k = some i → l.pending k' = some i → k = k'
  accounted : ∀ i < l.calls.length, (∃ k, l.pending k = some i) ∨ some i ∈ l.returns.map Prod.fst
  closed : ∀ k i, l.pending k = some i → some i ∉ l.returns.map Prod.fst
  once : (l.returns.map Prod.fst).Nodup
  answers : ∀ a ∈ l.returns, ∃ i c, a.1 = some i ∧ l.calls[i]? = some c ∧ R c a.2

theorem balanced_empty (R : γ → ρ → Prop) : Balanced R (empty : Ledger κ γ ρ) where
  numbered k i h := by cases h
  distinct k k' i h := by cases h
  accounted i h := absurd h (Nat.not_lt_zero i)
  closed k i h := by cases h
  once := List.nodup_nil
  answers a h := by cases h

namespace Balanced
variable {R : γ → ρ → Prop} {l : Ledger κ γ ρ}

/-- A call that was made before another. -/
theorem earlier {i : Nat} {c : γ} (found : l.calls[i]? = some c) (c' : γ) : (l.calls ++ [c'])[i]? = some c := by
  rw [List.getElem?_append_left (List.getElem?_eq_some_iff.1 found).1]
  exact found

/-- The number of a return is that of a call. -/
theorem returned_lt (h : Balanced R l) {i : Nat} (returned : some i ∈ l.returns.map Prod.fst) : i < l.calls.length := by
  obtain ⟨a, member, number⟩ := List.mem_map.1 returned
  obtain ⟨j, c, same, found, -⟩ := h.answers a member
  obtain rfl : i = j := Option.some.inj (number.symm.trans same)
  exact (List.getElem?_eq_some_iff.1 found).1

variable [DecidableEq κ]

theorem call (h : Balanced R l) {k : κ} (free : l.pending k = none) (c : γ) : Balanced R (l.call k c) := by
  have fresh : ∀ k' i, l.pending k' = some i → i ≠ l.calls.length := fun k' i made =>
    Nat.ne_of_lt (h.numbered k' i made)
  refine ⟨?numbered, ?distinct, ?accounted, ?closed, h.once, ?answers⟩
  case numbered =>
    intro k' i made
    show i < (l.calls ++ [c]).length
    rw [List.length_append, List.length_singleton]
    simp only [Ledger.call, Function.update_apply] at made
    split at made
    · obtain rfl := Option.some.inj made
      omega
    · have := h.numbered k' i made
      omega
  case distinct =>
    intro k₁ k₂ i made₁ made₂
    simp only [Ledger.call, Function.update_apply] at made₁ made₂
    split at made₁ <;> split at made₂
    · next same₁ same₂ => exact same₁.trans same₂.symm
    · exact absurd (Option.some.inj made₁).symm (fresh k₂ i made₂)
    · exact absurd (Option.some.inj made₂).symm (fresh k₁ i made₁)
    · exact h.distinct k₁ k₂ i made₁ made₂
  case accounted =>
    intro i below
    have cases : i < l.calls.length ∨ i = l.calls.length := by
      have below' : i < (l.calls ++ [c]).length := below
      rw [List.length_append, List.length_singleton] at below'
      omega
    rcases cases with below | rfl
    · rcases h.accounted i below with ⟨k', made⟩ | returned
      · have other : k' ≠ k := by
          rintro rfl
          rw [free] at made
          cases made
        exact .inl ⟨k', (Function.update_of_ne other _ _).trans made⟩
      · exact .inr returned
    · exact .inl ⟨k, Function.update_self _ _ _⟩
  case closed =>
    intro k' i made returned
    simp only [Ledger.call, Function.update_apply] at made
    split at made
    · obtain rfl := Option.some.inj made
      exact absurd (h.returned_lt returned) (Nat.lt_irrefl _)
    · exact h.closed k' i made returned
  case answers =>
    intro a member
    obtain ⟨i, c', number, found, related⟩ := h.answers a member
    exact ⟨i, c', number, earlier found c, related⟩

theorem answer (h : Balanced R l) {k : κ} {c : γ} {r : ρ} (made : l.openCall k = some c) (related : R c r) :
    Balanced R (l.answer k r) := by
  obtain ⟨i, pending, found⟩ := Option.bind_eq_some_iff.1 made
  have others : ∀ k' j, (l.answer k r).pending k' = some j → k' ≠ k ∧ l.pending k' = some j := by
    intro k' j open'
    simp only [Ledger.answer, Function.update_apply] at open'
    split at open'
    · cases open'
    · next other => exact ⟨other, open'⟩
  have returns : (l.answer k r).returns.map Prod.fst = l.returns.map Prod.fst ++ [some i] := by
    show (l.returns ++ [(l.pending k, r)]).map Prod.fst = _
    rw [List.map_append, pending]
    rfl
  refine ⟨?numbered, ?distinct, ?accounted, ?closed, ?once, ?answers⟩
  case numbered =>
    intro k' j open'
    exact h.numbered k' j (others k' j open').2
  case distinct =>
    intro k₁ k₂ j open₁ open₂
    exact h.distinct k₁ k₂ j (others k₁ j open₁).2 (others k₂ j open₂).2
  case accounted =>
    intro j below
    rw [returns]
    rcases h.accounted j below with ⟨k', open'⟩ | returned
    · by_cases same : k' = k
      · subst same
        rw [pending] at open'
        exact .inr (List.mem_append_right _ (open' ▸ List.mem_singleton_self _))
      · exact .inl ⟨k', (Function.update_of_ne same _ _).trans open'⟩
    · exact .inr (List.mem_append_left _ returned)
  case closed =>
    intro k' j open' returned
    obtain ⟨other, open''⟩ := others k' j open'
    rw [returns] at returned
    rcases List.mem_append.1 returned with returned | last
    · exact h.closed k' j open'' returned
    · obtain rfl := Option.some.inj (List.mem_singleton.1 last)
      exact other (h.distinct k' k j open'' pending)
  case once =>
    rw [returns, List.nodup_append]
    refine ⟨h.once, List.nodup_singleton _, ?_⟩
    intro a returned b last same
    obtain rfl := List.mem_singleton.1 last
    exact h.closed k i pending (same ▸ returned)
  case answers =>
    intro a member
    rcases List.mem_append.1 member with member | last
    · exact h.answers a member
    · obtain rfl := List.mem_singleton.1 last
      exact ⟨i, c, pending, found, related⟩

end Balanced

section OpenCall
variable [DecidableEq κ] {R : γ → ρ → Prop} {l : Ledger κ γ ρ} {k k' : κ}

@[simp] theorem openCall_call_self (l : Ledger κ γ ρ) (k : κ) (c : γ) : (l.call k c).openCall k = some c := by
  simp [openCall, call]

theorem openCall_call_of_ne (h : Balanced R l) (other : k' ≠ k) (c : γ) :
    (l.call k c).openCall k' = l.openCall k' := by
  simp only [openCall, call, Function.update_of_ne other]
  cases made : l.pending k' with
  | none => rfl
  | some i => exact List.getElem?_append_left (h.numbered k' i made)

theorem openCall_answer_of_ne (l : Ledger κ γ ρ) (other : k' ≠ k) (r : ρ) :
    (l.answer k r).openCall k' = l.openCall k' := by
  simp only [openCall, answer, Function.update_of_ne other]

end OpenCall

end Ledger

end
