import BigBrainOS.Theory.FixedText

/-!
# The string functions of `lib.c`

Strings are memory: a function from the offset to the byte there. Each loop of
the source is a structural recursion on the number of bytes left.
-/

namespace BigBrainOS
set_option autoImplicit false

/-- A piece of memory, by offset from a pointer. -/
abbrev Bytes := Nat → UInt8

/-- The bytes of a C string literal, with its terminator; `after` is what the
linker placed behind it. -/
def literal (text : String) (after : Bytes) : Bytes := fun i =>
  if h : i < text.toList.length then UInt8.ofNat (text.toList.get ⟨i, h⟩).toNat
  else if i = text.toList.length then 0 else after i

/-- The characters of a message, one byte each. -/
def message (text : String) : List UInt8 := text.toList.map fun c => UInt8.ofNat c.toNat

/-- A little-endian 32-bit word. -/
def word (m : Bytes) (a : Nat) : Nat :=
  (m a).toNat + 0x100 * (m (a + 1)).toNat + 0x10000 * (m (a + 2)).toNat + 0x1000000 * (m (a + 3)).toNat

/-- The loop of `strlen`, from index `i` and over `n` bytes at most. -/
def strlenFrom (s : Bytes) : Nat → Nat → Nat
  | 0, i => i
  | n + 1, i => if s i = 0 then i else strlenFrom s n (i + 1)

/-- `strlen`. The scan is cut after `bound` bytes; a caller passes a bound past
which the length makes no difference to it. -/
def strlen (s : Bytes) (bound : Nat) : Nat := strlenFrom s bound 0

/-- The loop of `strncmp`, with `n` bytes left to compare from index `i`. -/
def strncmpFrom (s1 s2 : Bytes) : Nat → Nat → Int
  | 0, _ => 0
  | n + 1, i =>
    if s1 i ≠ s2 i ∨ s1 i = 0 then (s1 i).toInt8.toInt - (s2 i).toInt8.toInt
    else strncmpFrom s1 s2 n (i + 1)

/-- `strncmp`. -/
def strncmp (s1 s2 : Bytes) (n : Nat) : Int := strncmpFrom s1 s2 n 0

/-- The two loops of `strncpy` with `n` bytes left from index `i`; `copying` is
false once the terminator of the source has been met. -/
def strncpyFrom (src : Bytes) : Nat → Nat → Bool → Bytes → Bytes
  | 0, _, _, dest => dest
  | n + 1, i, true, dest =>
    if src i = 0 then strncpyFrom src n (i + 1) false (Function.update dest i 0)
    else strncpyFrom src n (i + 1) true (Function.update dest i (src i))
  | n + 1, i, false, dest => strncpyFrom src n (i + 1) false (Function.update dest i 0)

/-- `strncpy`. -/
def strncpy (dest src : Bytes) (n : Nat) : Bytes := strncpyFrom src n 0 true dest

/-- `memcpy` between disjoint regions. -/
def memcpy (dest src : Bytes) (n : Nat) : Bytes := fun k => if k < n then src k else dest k

/-! ## Equal strings -/

/-- Two memories hold the same string: they agree up to a common terminator. -/
def SameString (a b : Bytes) : Prop := ∃ n, a n = 0 ∧ ∀ k ≤ n, a k = b k

theorem strlen_congr {a b : Bytes} (same : SameString a b) (bound : Nat) : strlen a bound = strlen b bound := by
  obtain ⟨n, zero, agree⟩ := same
  have from_ : ∀ m i, i ≤ n → strlenFrom a m i = strlenFrom b m i := by
    intro m
    induction m with
    | zero => intro i _; rfl
    | succ m ih =>
      intro i below
      simp only [strlenFrom, ← agree i below]
      split
      · rfl
      · next inside =>
        have further : i ≠ n := fun e => inside (e ▸ zero)
        exact ih (i + 1) (by omega)
  exact from_ bound 0 (Nat.zero_le n)

theorem strncmp_congr {a b : Bytes} (same : SameString a b) (c : Bytes) (len : Nat) :
    strncmp a c len = strncmp b c len := by
  obtain ⟨n, zero, agree⟩ := same
  have from_ : ∀ m i, i ≤ n → strncmpFrom a c m i = strncmpFrom b c m i := by
    intro m
    induction m with
    | zero => intro i _; rfl
    | succ m ih =>
      intro i below
      simp only [strncmpFrom, ← agree i below]
      split
      · rfl
      · next inside =>
        have further : i ≠ n := fun e => inside (Or.inr (e ▸ zero))
        exact ih (i + 1) (by omega)
  exact from_ len 0 (Nat.zero_le n)

/-- A literal does not depend on what lies behind its terminator. -/
theorem literal_congr (text : String) (a b : Bytes) {k : Nat} (inside : k ≤ text.toList.length) :
    literal text a k = literal text b k := by
  unfold literal
  split
  · rfl
  · next outside => rw [if_pos (by omega), if_pos (by omega)]

/-! ## Strings of a known length -/

/-- The scan of `strlen` stops at the first terminator. -/
theorem strlen_eq {s : Bytes} {n bound : Nat} (nonzero : ∀ k < n, s k ≠ 0) (zero : s n = 0) (inside : n < bound) :
    strlen s bound = n := by
  have from_ : ∀ m i, i ≤ n → n < i + m → strlenFrom s m i = n := by
    intro m
    induction m with
    | zero => intro i _ _; omega
    | succ m ih =>
      intro i below room
      by_cases last : i = n
      · rw [strlenFrom, if_pos (by rw [last]; exact zero), last]
      · rw [strlenFrom, if_neg (nonzero i (by omega))]
        exact ih (i + 1) (by omega) (by omega)
  exact from_ bound 0 (Nat.zero_le n) (by omega)

theorem strlenFrom_spec (s : Bytes) : ∀ n i,
    i ≤ strlenFrom s n i ∧ strlenFrom s n i ≤ i + n ∧ (∀ k, i ≤ k → k < strlenFrom s n i → s k ≠ 0) ∧
      (strlenFrom s n i < i + n → s (strlenFrom s n i) = 0) := by
  intro n
  induction n with
  | zero =>
    intro i
    exact ⟨Nat.le_refl i, Nat.le_refl i, fun k low high => absurd high (Nat.not_lt.2 low),
      fun short => absurd short (Nat.lt_irrefl i)⟩
  | succ n ih =>
    intro i
    rw [strlenFrom]
    split
    · next zero => exact ⟨Nat.le_refl i, by omega, fun k low high => absurd high (Nat.not_lt.2 low), fun _ => zero⟩
    · next nonzero =>
      obtain ⟨low, high, inside, ended⟩ := ih (i + 1)
      refine ⟨by omega, by omega, fun k from_ below => ?_, fun short => ended (by omega)⟩
      by_cases first : k = i
      · rw [first]; exact nonzero
      · exact inside k (by omega) below

/-- What `strlen` finds within its bound. -/
theorem strlen_spec (s : Bytes) (n : Nat) :
    strlen s n ≤ n ∧ (∀ k < strlen s n, s k ≠ 0) ∧ (strlen s n < n → s (strlen s n) = 0) := by
  obtain ⟨-, high, inside, ended⟩ := strlenFrom_spec s n 0
  rw [Nat.zero_add] at high ended
  exact ⟨high, fun k below => inside k (Nat.zero_le k) below, ended⟩

/-- Behind the terminator of the source, `strncpy` fills with zeros. -/
theorem strncpyFrom_padding (src : Bytes) (k : Nat) : ∀ m i (dest : Bytes),
    strncpyFrom src m i false dest k = if i ≤ k ∧ k < i + m then 0 else dest k := by
  intro m
  induction m with
  | zero => intro i dest; rw [if_neg (by omega)]; rfl
  | succ m ih =>
    intro i dest
    rw [strncpyFrom, ih]
    by_cases first : k = i
    · subst first
      rw [if_neg (by omega), if_pos (by omega), Function.update_self]
    · rw [Function.update_of_ne first]
      by_cases later : i + 1 ≤ k ∧ k < i + 1 + m
      · rw [if_pos later, if_pos (by omega)]
      · rw [if_neg later, if_neg (by omega)]

/-- Up to it, `strncpy` copies. -/
theorem strncpyFrom_copying (src : Bytes) (k : Nat) : ∀ m i (dest : Bytes), strncpyFrom src m i true dest k =
    if i ≤ k ∧ k < strlenFrom src m i then src k else if i ≤ k ∧ k < i + m then 0 else dest k := by
  intro m
  induction m with
  | zero =>
    intro i dest
    rw [if_neg (by simp only [strlenFrom]; omega), if_neg (by omega)]
    rfl
  | succ m ih =>
    intro i dest
    by_cases zero : src i = 0
    · have pads : strncpyFrom src (m + 1) i true dest = strncpyFrom src (m + 1) i false dest := by
        rw [strncpyFrom, if_pos zero, strncpyFrom]
      rw [pads, strncpyFrom_padding, strlenFrom, if_pos zero, if_neg (show ¬ (i ≤ k ∧ k < i) by omega)]
    · rw [strncpyFrom, if_neg zero, ih, strlenFrom, if_neg zero]
      obtain ⟨low, -, -, -⟩ := strlenFrom_spec src m (i + 1)
      by_cases first : k = i
      · subst first
        rw [if_neg (by omega), if_neg (by omega), if_pos (by omega), Function.update_self]
      · rw [Function.update_of_ne first]
        by_cases inside : i + 1 ≤ k ∧ k < strlenFrom src m (i + 1)
        · rw [if_pos inside, if_pos (by omega)]
        · rw [if_neg inside, if_neg (show ¬ (i ≤ k ∧ k < strlenFrom src m (i + 1)) by omega)]
          by_cases later : i + 1 ≤ k ∧ k < i + 1 + m
          · rw [if_pos later, if_pos (by omega)]
          · rw [if_neg later, if_neg (by omega)]

/-- `strncpy` copies the string and fills the rest of its `n` bytes with zeros. -/
theorem strncpy_apply (dest src : Bytes) (n k : Nat) :
    strncpy dest src n k = if k < strlen src n then src k else if k < n then 0 else dest k := by
  rw [strncpy, strncpyFrom_copying src k n 0 dest]
  simp only [Nat.zero_le, true_and, Nat.zero_add]
  rfl

/-- Before the terminator of the source, `strncpy` is a copy. -/
theorem strncpy_eq {src : Bytes} {n : Nat} (dest : Bytes) (nonzero : ∀ k < n, src k ≠ 0) :
    strncpy dest src n = memcpy dest src n := by
  obtain ⟨bound, -, ended⟩ := strlen_spec src n
  have full : strlen src n = n := by
    by_contra short
    exact nonzero _ (by omega) (ended (by omega))
  funext k
  rw [strncpy_apply, full, memcpy]
  split <;> rfl

/-! ## Strings as texts -/

open FixedText (text Terminated holds_text text_eq_iff)

/-- `strlen` measures the text, up to its bound. -/
theorem strlen_eq_length (s : Bytes) (n : Nat) : strlen s n = (text s n).length := by
  obtain ⟨bound, nonzero, ended⟩ := strlen_spec s n
  have held := holds_text s n
  have length := held.length
  by_contra differ
  rcases Nat.lt_or_gt_of_ne differ with short | long
  · have zero := ended (by omega)
    rw [held.cell _ short] at zero
    exact held.nonzero _ (List.getElem_mem _) zero
  · exact nonzero _ long (held.ended (by omega))

theorem strlen_terminated {s : Bytes} {l : List UInt8} (terminated : Terminated s l) (n : Nat) :
    strlen s n = min n l.length := by
  rw [strlen_eq_length, text_eq_iff.2 (terminated.holds_take n), List.length_take]

/-- A C string literal is the text of its characters. -/
theorem literal_terminated (t : String) (after : Bytes) (nonzero : ∀ b ∈ message t, b ≠ 0) :
    Terminated (literal t after) (message t) := by
  have length : (message t).length = t.toList.length := List.length_map _
  refine ⟨Nat.le_succ _, fun k inside => ?_, nonzero, fun _ => ?_⟩
  · rw [literal, dif_pos (by omega)]
    simp [message]
  · rw [literal, dif_neg (by omega), if_pos length]

end BigBrainOS
