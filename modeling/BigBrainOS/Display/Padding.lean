import BigBrainOS.Kernel.Strings
import BigBrainOS.Theory.Ia32

/-!
# `left_pad`

The padded branch copies the string behind the spaces with `strncpy`, and gives it
the length of the whole field: behind the string `strncpy` goes on with zeros, as
many as there are spaces, and the first of them is the terminator at `out[len]`.
-/

namespace BigBrainOS
set_option autoImplicit false
open Ia32 (Address Memory offset_inj toNat_ofNat_of_lt)
open FixedText (Terminated)

/-! ## The function -/

/-- The bytes from an address on. -/
def view (m : Memory) (p : Address) : Bytes := fun k => m (p + BitVec.ofNat 32 k)

/-- Memory with other bytes at the `n` addresses from `p` on. -/
def put (m : Memory) (p : Address) (n : Nat) (b : Bytes) : Memory := fun a =>
  if (a - p).toNat < n then b (a - p).toNat else m a

/-- `strncpy` to an address. -/
def strncpyAt (m : Memory) (p : Address) (src : Bytes) (n : BitVec 32) : Memory :=
  put m p n.toNat (strncpy (view m p) src n.toNat)

/-- The loop that "copies the spaces over"; `i` and `offset` are of type `int`. -/
def padSpaces (offset : Int) (m : Memory) : Memory :=
  (List.range offset.toNat).foldl (fun m i => Function.update m (BitVec.ofNat 32 i) 0x20) m

/-- `left_pad`. Addresses count from `out`, so `out[k]` is the byte at address `k`. -/
def leftPad (inp : Bytes) (out : Memory) (len : BitVec 32) : Memory :=
  let inLen := BitVec.ofNat 32 (strlen inp (2 ^ 32))
  if len ≤ inLen then Function.update (strncpyAt out 0 inp len) len 0
  else
    let offset := (len - inLen).toInt
    Function.update (strncpyAt (padSpaces offset out) (BitVec.ofInt 32 offset) inp len) len 0

/-! ## What it is to do -/

/-- A text in a field of `n` characters: behind spaces, or cut. -/
def padded (text : List UInt8) (n : Nat) : List UInt8 := List.replicate (n - text.length) 0x20 ++ text.take n

/-- The field holds the padded text and its terminator, and nothing else was changed. -/
structure PadsTo (text : List UInt8) (out out' : Memory) (len : BitVec 32) : Prop where
  shown : ∀ k < len.toNat, out' (BitVec.ofNat 32 k) = (padded text len.toNat).getD k 0
  ended : out' len = 0
  kept : ∀ a, len < a → out' a = out a

/-- The zeros that run over the field find zeros, and they do not run around the end of
memory. A gap that no `int` can hold is not filled with spaces. -/
structure PadFits (text : List UInt8) (out : Memory) (len : BitVec 32) : Prop where
  inside : len.toNat + (len.toNat - text.length) ≤ 2 ^ 32
  gap : len.toNat - text.length < 2 ^ 31 ∨ ∀ k < len.toNat - text.length, out (BitVec.ofNat 32 k) = 0x20
  behind : ∀ k, len.toNat < k → k < len.toNat + (len.toNat - text.length) → out (BitVec.ofNat 32 k) = 0

/-! ## What it does -/

section
variable {inp : Bytes} {text : List UInt8} {out : Memory} {len : BitVec 32}

theorem padSpaces_apply {offset : Int} (small : offset < 2 ^ 32) (m : Memory) (a : Address) :
    padSpaces offset m a = if (a.toNat : Int) < offset then 0x20 else m a := by
  have loop : ∀ n ≤ 2 ^ 32, (List.range n).foldl (fun m i => Function.update m (BitVec.ofNat 32 i) 0x20) m a =
      if a.toNat < n then 0x20 else m a := by
    intro n
    induction n with
    | zero => intro _; rfl
    | succ n ih =>
      intro bound
      have index : (BitVec.ofNat 32 n).toNat = n := toNat_ofNat_of_lt (by omega)
      rw [List.range_succ, List.foldl_append, List.foldl_cons, List.foldl_nil]
      by_cases last : a = BitVec.ofNat 32 n
      · rw [last, Function.update_self, index, if_pos (Nat.lt_succ_self n)]
      · have other : a.toNat ≠ n := fun e => last (BitVec.eq_of_toNat_eq (e.trans index.symm))
        rw [Function.update_of_ne last, ih (by omega)]
        exact if_congr (by omega) rfl rfl
  rw [padSpaces, loop _ (by omega)]
  exact if_congr (by omega) rfl rfl

theorem strncpyAt_apply (m : Memory) (p : Address) (src : Bytes) (n : BitVec 32) (a : Address) :
    strncpyAt m p src n a =
      if (a - p).toNat < n.toNat then if (a - p).toNat < strlen src n.toNat then src (a - p).toNat else 0 else m a := by
  rw [strncpyAt, put]
  by_cases inside : (a - p).toNat < n.toNat
  · rw [if_pos inside, if_pos inside, strncpy_apply, if_pos inside]
  · rw [if_neg inside, if_neg inside]

/-- Where the string fills the field, it is cut. -/
theorem leftPad_long (string : Terminated inp text) (small : text.length < 2 ^ 32) (long : len.toNat ≤ text.length)
    (a : Address) : leftPad inp out len a = if a = len then 0 else if a < len then inp a.toNat else out a := by
  have inLen : strlen inp (2 ^ 32) = text.length := by rw [strlen_terminated string]; omega
  have copied : strlen inp len.toNat = len.toNat := by rw [strlen_terminated string]; omega
  have fills : len ≤ BitVec.ofNat 32 text.length := by
    rw [BitVec.le_def, toNat_ofNat_of_lt small]
    exact long
  rw [leftPad, inLen, if_pos fills]
  by_cases last : a = len
  · rw [last, Function.update_self, if_pos rfl]
  · rw [Function.update_of_ne last, if_neg last, strncpyAt_apply, copied, sub_zero]
    by_cases inside : a < len
    · rw [if_pos inside, if_pos (BitVec.lt_def.1 inside), if_pos (BitVec.lt_def.1 inside)]
    · rw [if_neg inside, if_neg fun below => inside (BitVec.lt_def.2 below)]

/-- Where it does not, `strncpy` writes `len` bytes behind the spaces. -/
theorem leftPad_short (string : Terminated inp text) (short : text.length < len.toNat) (a : Address) :
    let pad := len.toNat - text.length
    let i := (a.toNat + (2 ^ 32 - pad)) % 2 ^ 32
    leftPad inp out len a =
      if a = len then 0
      else if i < len.toNat then if i < text.length then inp i else 0
      else if a.toNat < pad ∧ pad < 2 ^ 31 then 0x20
      else out a := by
  intro pad i
  have size := len.isLt
  have inLen : strlen inp (2 ^ 32) = text.length := by rw [strlen_terminated string]; omega
  have copied : strlen inp len.toNat = text.length := by rw [strlen_terminated string]; omega
  have gap : (len - BitVec.ofNat 32 text.length).toNat = pad := by
    rw [BitVec.toNat_sub, BitVec.toNat_ofNat]
    omega
  have offset := BitVec.toInt_eq_toNat_cond (len - BitVec.ofNat 32 text.length)
  rw [gap] at offset
  have from_ : (a - (len - BitVec.ofNat 32 text.length)).toNat = i := by
    rw [BitVec.toNat_sub, gap]
    omega
  rw [leftPad, inLen, if_neg (by rw [BitVec.le_def, BitVec.toNat_ofNat]; omega), BitVec.ofInt_toInt]
  by_cases last : a = len
  · rw [last, Function.update_self, if_pos rfl]
  · rw [Function.update_of_ne last, if_neg last, strncpyAt_apply, copied, from_]
    by_cases inside : i < len.toNat
    · rw [if_pos inside, if_pos inside]
    · rw [if_neg inside, if_neg inside, padSpaces_apply (by omega)]
      exact if_congr (by omega) rfl rfl

/-- The characters of the padded text. -/
theorem padded_getD (string : Terminated inp text) {n k : Nat} (inside : k < n) :
    (padded text n).getD k 0 = if k < n - text.length then 0x20 else inp (k - (n - text.length)) := by
  rw [padded, List.getD_eq_getElem?_getD, List.getElem?_append, List.length_replicate]
  split
  · next space => rw [List.getElem?_replicate, if_pos space, Option.getD_some]
  · next behind =>
    have copied : k - (n - text.length) < text.length := by omega
    rw [List.getElem?_take_of_lt (by omega), List.getElem?_eq_getElem copied, Option.getD_some, string.cell _ copied]

/-- An address is the length only as an index. -/
theorem ofNat_ne {k : Nat} (small : k < 2 ^ 32) (other : k ≠ len.toNat) : BitVec.ofNat 32 k ≠ len :=
  fun same => other (by rw [← same, toNat_ofNat_of_lt small])

theorem padsTo_long (string : Terminated inp text) (small : text.length < 2 ^ 32) (long : len.toNat ≤ text.length) :
    PadsTo text out (leftPad inp out len) len where
  shown k below := by
    have size := len.isLt
    have index : (BitVec.ofNat 32 k).toNat = k := toNat_ofNat_of_lt (by omega)
    rw [leftPad_long string small long, if_neg (ofNat_ne (by omega) (by omega)),
      if_pos (BitVec.lt_def.2 (by rw [index]; exact below)), index, padded_getD string below, if_neg (by omega)]
    congr 1
    omega
  ended := by rw [leftPad_long string small long, if_pos rfl]
  kept a behind := by
    have above := BitVec.lt_def.1 behind
    rw [leftPad_long string small long, if_neg (by rintro rfl; omega), if_neg (by rw [BitVec.lt_def]; omega)]

theorem padsTo_short (string : Terminated inp text) (short : text.length < len.toNat) (fits : PadFits text out len) :
    PadsTo text out (leftPad inp out len) len where
  shown k below := by
    obtain ⟨inside, gap, -⟩ := fits
    have size := len.isLt
    have index : (BitVec.ofNat 32 k).toNat = k := toNat_ofNat_of_lt (by omega)
    rw [leftPad_short string short, if_neg (ofNat_ne (by omega) (by omega)), index, padded_getD string below]
    by_cases space : k < len.toNat - text.length
    · rw [if_pos space, if_neg (by omega)]
      rcases gap with counted | spaces
      · rw [if_pos ⟨space, counted⟩]
      · rw [spaces k space, ite_self]
    · have position : (k + (2 ^ 32 - (len.toNat - text.length))) % 2 ^ 32 = k - (len.toNat - text.length) := by omega
      rw [if_neg space, position, if_pos (by omega), if_pos (by omega)]
  ended := by rw [leftPad_short string short, if_pos rfl]
  kept a behind := by
    obtain ⟨inside, -, zeros⟩ := fits
    have above := BitVec.lt_def.1 behind
    have size := a.isLt
    rw [leftPad_short string short, if_neg (by rintro rfl; omega)]
    by_cases reached : a.toNat < len.toNat + (len.toNat - text.length)
    · -- the zeros that `strncpy` goes on with
      have zero := zeros a.toNat above reached
      rw [BitVec.ofNat_toNat, BitVec.setWidth_eq] at zero
      rw [if_pos (by omega), if_neg (by omega), zero]
    · rw [if_neg (by omega), if_neg (by omega)]

theorem padFits_short (string : Terminated inp text) (short : text.length < len.toNat)
    (pads : PadsTo text out (leftPad inp out len) len) : PadFits text out len := by
  have size := len.isLt
  have inside : len.toNat + (len.toNat - text.length) ≤ 2 ^ 32 := by
    by_contra around
    -- the first space is overwritten by a zero
    have first := pads.shown 0 (by omega)
    rw [leftPad_short string short, if_neg (ofNat_ne (by omega) (by omega)), padded_getD string (by omega),
      toNat_ofNat_of_lt (by omega), if_pos (by omega), if_neg (by omega), if_pos (by omega)] at first
    exact absurd first (by decide)
  refine ⟨inside, ?_, fun k above reached => ?_⟩
  · by_cases counted : len.toNat - text.length < 2 ^ 31
    · exact Or.inl counted
    · refine Or.inr fun k space => ?_
      have shown := pads.shown k (by omega)
      rw [leftPad_short string short, if_neg (ofNat_ne (by omega) (by omega)), padded_getD string (by omega),
        toNat_ofNat_of_lt (by omega), if_neg (by omega), if_neg (by omega), if_pos space] at shown
      exact shown
  · have index : (BitVec.ofNat 32 k).toNat = k := toNat_ofNat_of_lt (by omega)
    have kept := pads.kept (BitVec.ofNat 32 k) (BitVec.lt_def.2 (by rw [index]; exact above))
    rw [leftPad_short string short, if_neg (ofNat_ne (by omega) (by omega)), index, if_pos (by omega),
      if_neg (by omega)] at kept
    exact kept.symm

/-- **When `left_pad` stays in its field.** -/
theorem leftPad_stays_iff (string : Terminated inp text) (small : text.length < 2 ^ 32) (out : Memory) (len : BitVec 32) :
    PadsTo text out (leftPad inp out len) len ↔ PadFits text out len := by
  by_cases long : len.toNat ≤ text.length
  · have size := len.isLt
    exact iff_of_true (padsTo_long string small long) ⟨by omega, Or.inl (by omega), fun k above reached => by omega⟩
  · exact ⟨padFits_short string (by omega), padsTo_short string (by omega)⟩

/-- An index of one digit in a field of two characters: there is one space. -/
theorem leftPad_stays_seven :
    PadsTo (message "7") (fun _ => 0xFF) (leftPad (literal "7" fun _ => 0) (fun _ => 0xFF) 2) 2 := by
  have string := literal_terminated "7" (fun _ => 0) (by decide +kernel)
  have length : (message "7").length = 1 := by decide +kernel
  have field : (2 : BitVec 32).toNat = 2 := rfl
  apply (leftPad_stays_iff string (by rw [length]; decide) _ _).2
  refine ⟨?_, Or.inl ?_, fun k above near => ?_⟩
  · rw [length, field]; decide
  · rw [length, field]; decide
  · rw [field] at above near
    omega

/-- The name `.` of the directory in a field of 32 characters: the byte behind the terminator is cleared too. -/
theorem leftPad_overruns :
    ¬ PadsTo (message ".") (fun _ => 0xFF) (leftPad (literal "." fun _ => 0) (fun _ => 0xFF) 32) 32 := by
  have string := literal_terminated "." (fun _ => 0) (by decide +kernel)
  have length : (message ".").length = 1 := by decide +kernel
  intro pads
  have fits := padFits_short string (by rw [length]; decide) pads
  have zero := fits.behind 33 (by decide) (by rw [length]; decide)
  exact absurd zero (by decide)

end

end BigBrainOS
