import Mathlib

/-!
# Texts in fields of a fixed width

A field of `n` cells holds the text of its cells up to the first zero; a text
that fills the field has no terminator. `text s n` computes it and `Holds s n l`
says what it is, without the computation: a field holds one text, and every
statement about texts is proved through this.
-/

namespace FixedText
set_option autoImplicit false

variable {α : Type} [Zero α] [DecidableEq α]

/-- The cells from `i` on up to the first zero, `n` of them at most. -/
def textFrom (s : Nat → α) : Nat → Nat → List α
  | 0, _ => []
  | n + 1, i => if s i = 0 then [] else s i :: textFrom s n (i + 1)

/-- The text of a field of `n` cells. -/
def text (s : Nat → α) (n : Nat) : List α := textFrom s n 0

/-- The first `n` cells hold the text `l`. -/
structure Holds (s : Nat → α) (n : Nat) (l : List α) : Prop where
  length : l.length ≤ n
  cell : ∀ k (inside : k < l.length), s k = l[k]
  nonzero : ∀ b ∈ l, b ≠ 0
  ended : l.length < n → s l.length = 0

omit [DecidableEq α] in
/-- A field holds one text. -/
theorem Holds.unique {s : Nat → α} {n : Nat} {l l' : List α} (h : Holds s n l) (h' : Holds s n l') : l = l' := by
  have bound : ∀ {l l' : List α}, Holds s n l → Holds s n l' → l.length ≤ l'.length := by
    intro l l' h h'
    by_contra longer
    have inside : l'.length < l.length := by omega
    have length := h.length
    have zero : s l'.length = 0 := h'.ended (by omega)
    rw [h.cell _ inside] at zero
    exact h.nonzero _ (List.getElem_mem inside) zero
  apply List.ext_getElem (Nat.le_antisymm (bound h h') (bound h' h))
  intro k inside inside'
  rw [← h.cell k inside, ← h'.cell k inside']

omit [DecidableEq α] in
/-- The text depends on the cells of the field only. -/
theorem Holds.congr {s s' : Nat → α} {n : Nat} {l : List α} (h : Holds s n l) (same : ∀ k < n, s' k = s k) :
    Holds s' n l := by
  have length := h.length
  refine ⟨h.length, fun k inside => ?_, h.nonzero, fun short => ?_⟩
  · rw [same k (by omega)]
    exact h.cell k inside
  · rw [same _ short]
    exact h.ended short

theorem textFrom_spec (s : Nat → α) : ∀ n i,
    (textFrom s n i).length ≤ n ∧ (∀ k (inside : k < (textFrom s n i).length), s (i + k) = (textFrom s n i)[k]) ∧
      (∀ b ∈ textFrom s n i, b ≠ 0) ∧ ((textFrom s n i).length < n → s (i + (textFrom s n i).length) = 0) := by
  intro n
  induction n with
  | zero =>
    intro i
    refine ⟨Nat.le_refl _, fun k inside => absurd inside (Nat.not_lt_zero k), fun b member => ?_, fun short => ?_⟩
    · cases member
    · exact absurd short (Nat.lt_irrefl _)
  | succ n ih =>
    intro i
    rw [textFrom]
    split
    · next zero =>
      refine ⟨Nat.zero_le _, fun k inside => absurd inside (Nat.not_lt_zero k), fun b member => ?_, fun _ => zero⟩
      cases member
    · next nonzero =>
      obtain ⟨length, cell, rest, ended⟩ := ih (i + 1)
      refine ⟨Nat.succ_le_succ length, fun k inside => ?_, fun b member => ?_, fun short => ?_⟩
      · cases k with
        | zero => rfl
        | succ k =>
          have at_k := cell k (Nat.lt_of_succ_lt_succ inside)
          rw [show i + (k + 1) = i + 1 + k by omega, at_k, List.getElem_cons_succ]
      · rcases List.mem_cons.1 member with first | later
        · rw [first]
          exact nonzero
        · exact rest b later
      · rw [List.length_cons, show i + ((textFrom s n (i + 1)).length + 1) = i + 1 + (textFrom s n (i + 1)).length by omega]
        exact ended (Nat.lt_of_succ_lt_succ short)

theorem holds_text (s : Nat → α) (n : Nat) : Holds s n (text s n) := by
  obtain ⟨length, cell, nonzero, ended⟩ := textFrom_spec s n 0
  simp only [Nat.zero_add] at cell ended
  exact ⟨length, cell, nonzero, ended⟩

/-- The text of a field is the one it holds. -/
theorem text_eq_iff {s : Nat → α} {n : Nat} {l : List α} : text s n = l ↔ Holds s n l := by
  constructor
  · rintro rfl
    exact holds_text s n
  · intro h
    exact (holds_text s n).unique h

omit [DecidableEq α] in
/-- Two fields hold the same text exactly if they agree up to a common terminator or throughout. -/
theorem Holds.iff_agree {a b : Nat → α} {n : Nat} {l : List α} (h : Holds a n l) :
    Holds b n l ↔ ∀ k < n, k ≤ l.length → a k = b k := by
  have length := h.length
  constructor
  · intro h' k inside upto
    by_cases last : k = l.length
    · rw [last, h.ended (by omega), h'.ended (by omega)]
    · rw [h.cell k (by omega), h'.cell k (by omega)]
  · intro agree
    refine ⟨h.length, fun k inside => ?_, h.nonzero, fun short => ?_⟩
    · rw [← agree k (by omega) (by omega)]
      exact h.cell k inside
    · rw [← agree _ short (Nat.le_refl _)]
      exact h.ended short

/-- A text of any length and the zero behind it. -/
def Terminated (s : Nat → α) (l : List α) : Prop := Holds s (l.length + 1) l

omit [DecidableEq α] in
theorem Terminated.zero {s : Nat → α} {l : List α} (h : Terminated s l) : s l.length = 0 := h.ended (Nat.lt_succ_self _)

omit [DecidableEq α] in
/-- A field of `n` cells keeps the first `n` of a terminated text. -/
theorem Terminated.holds_take {s : Nat → α} {l : List α} (h : Terminated s l) (n : Nat) : Holds s n (l.take n) := by
  refine ⟨List.length_take_le n l, fun k inside => ?_, fun b member => h.nonzero b (List.mem_of_mem_take member), fun short => ?_⟩
  · rw [List.length_take] at inside
    rw [List.getElem_take]
    exact h.cell k (by omega)
  · rw [List.length_take] at short ⊢
    rw [show min n l.length = l.length by omega]
    exact h.zero

omit [DecidableEq α] in
/-- A terminated text with another text in front of it. -/
theorem Terminated.prepend {s : Nat → α} {front l : List α} (cells : ∀ k (inside : k < front.length), s k = front[k])
    (nonzero : ∀ b ∈ front, b ≠ 0) (h : Terminated (fun k => s (front.length + k)) l) : Terminated s (front ++ l) := by
  refine ⟨Nat.le_succ _, fun k inside => ?_, fun b member => ?_, fun _ => ?_⟩
  · by_cases before : k < front.length
    · rw [List.getElem_append_left before]
      exact cells k before
    · obtain ⟨j, rfl⟩ : ∃ j, k = front.length + j := ⟨k - front.length, by omega⟩
      rw [List.length_append] at inside
      rw [List.getElem_append_right (by omega)]
      simp only [Nat.add_sub_cancel_left]
      exact h.cell j (by omega)
  · rcases List.mem_append.1 member with first | later
    · exact nonzero b first
    · exact h.nonzero b later
  · rw [List.length_append]
    exact h.zero

end FixedText
