import Mathlib

/-!
# Positional numerals

A numeral is a list of digits, the most significant one first. `value` reads it;
`Canonical` numerals have no zero in front, and there is one of them for each
number. `text` writes the digits in an alphabet.
-/

namespace Numeral
set_option autoImplicit false

/-- Read a numeral in base `b`. -/
def value (b : Nat) (ds : List Nat) : Nat := ds.foldl (fun n d => n * b + d) 0

/-- The numeral that is written: digits below the base, and no zero in front of another digit. -/
structure Canonical (b : Nat) (ds : List Nat) : Prop where
  nonempty : ds ≠ []
  below : ∀ d ∈ ds, d < b
  leading : ds.head? = some 0 → ds = [0]

/-- The numeral of a number. -/
def digits (b n : Nat) : List Nat := if n = 0 then [0] else (Nat.digits b n).reverse

theorem value_eq_ofDigits (b : Nat) (ds : List Nat) : value b ds = Nat.ofDigits b ds.reverse := by
  induction ds using List.reverseRecOn with
  | nil => rfl
  | append_singleton ds d ih =>
    rw [value, List.foldl_append, List.foldl_cons, List.foldl_nil, List.reverse_append, List.reverse_singleton,
      List.singleton_append, Nat.ofDigits_cons, ← ih, value]
    ring

theorem value_digits (b n : Nat) : value b (digits b n) = n := by
  unfold digits
  split
  · next zero => rw [zero]; simp [value]
  · rw [value_eq_ofDigits, List.reverse_reverse, Nat.ofDigits_digits]

/-- Zeros in front do not count. -/
theorem value_replicate_zero (b k : Nat) (ds : List Nat) : value b (List.replicate k 0 ++ ds) = value b ds := by
  rw [value_eq_ofDigits, List.reverse_append, List.reverse_replicate, Nat.ofDigits_append_replicate_zero,
    value_eq_ofDigits]

section
variable {b : Nat}

theorem digits_canonical (base : 1 < b) (n : Nat) : Canonical b (digits b n) := by
  unfold digits
  split
  · refine ⟨List.cons_ne_nil 0 [], fun d member => ?_, fun _ => rfl⟩
    rw [List.mem_singleton.1 member]
    omega
  · next nonzero =>
    have nonempty : Nat.digits b n ≠ [] := Nat.digits_ne_nil_iff_ne_zero.2 nonzero
    refine ⟨fun empty => nonempty (List.reverse_eq_nil_iff.1 empty), fun d member => ?_, fun zero => ?_⟩
    · exact Nat.digits_lt_base base (List.mem_reverse.1 member)
    · rw [List.head?_reverse, List.getLast?_eq_some_getLast nonempty] at zero
      exact absurd (Option.some.inj zero) (Nat.getLast_digit_ne_zero b nonzero)

/-- A number has one canonical numeral. -/
theorem Canonical.eq_digits {ds : List Nat} (canonical : Canonical b ds) (base : 1 < b) : ds = digits b (value b ds) := by
  obtain ⟨nonempty, small, leading⟩ := canonical
  by_cases zero : ds.head? = some 0
  · rw [leading zero]
    simp [value, digits]
  · have written : Nat.digits b (value b ds) = ds.reverse := by
      rw [value_eq_ofDigits]
      apply Nat.digits_ofDigits b base _ fun d member => small d (List.mem_reverse.1 member)
      intro reversed last
      rw [List.getLast_reverse] at last
      exact zero (by rw [List.head?_eq_some_head nonempty, last])
    have positive : value b ds ≠ 0 := by
      intro none
      rw [none, Nat.digits_zero] at written
      exact nonempty (List.reverse_eq_nil_iff.1 written.symm)
    rw [digits, if_neg positive, written, List.reverse_reverse]

theorem length_digits {k : Nat} (base : 1 < b) (room : 0 < k) {n : Nat} (small : n < b ^ k) : (digits b n).length ≤ k := by
  unfold digits
  split
  · exact room
  · rw [List.length_reverse]
    exact (Nat.digits_length_le_iff base n).2 small

end

/-! ## Alphabets -/

section
variable {α : Type} {symbol : Nat → α} {read : α → Nat} {b : Nat}

/-- The symbols of the digits below `b`, and how they are read back. -/
def Readable (symbol : Nat → α) (read : α → Nat) (b : Nat) : Prop := ∀ d < b, read (symbol d) = d

theorem Readable.map (readable : Readable symbol read b) {ds : List Nat} (small : ∀ d ∈ ds, d < b) :
    (ds.map symbol).map read = ds := by
  rw [List.map_map]
  calc
    ds.map (read ∘ symbol) = ds.map id := List.map_congr_left fun d member => readable d (small d member)
    _ = ds := List.map_id ds

end

end Numeral
