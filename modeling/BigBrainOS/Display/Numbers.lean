import BigBrainOS.Display.Format
import BigBrainOS.Kernel.Numbers
import BigBrainOS.Theory.Numeral

/-!
# The numerals that `printf` prints

The digit loop of `itoa` leaves the digits of the number in reverse, and the two
indices of `strrev` meet in the middle. What `conv_buf` holds then is the canonical
numeral, behind a sign or behind zeros.
-/

namespace BigBrainOS
set_option autoImplicit false
open FixedText (Holds Terminated)

/-! ## Numerals -/

/-- The value of a digit. -/
def digitValue (c : UInt8) : Nat := lookup.idxOf c

/-- Read a numeral. -/
def readNumeral (radix : Nat) (text : List UInt8) : Nat := Numeral.value radix (text.map digitValue)

/-- A digit of the radix, out of `0-9A-Z`. -/
def IsDigit (radix : Nat) (c : UInt8) : Prop := ∃ d < radix, c = lookup.getD d 0

/-- The numeral of `v`: digits of the radix with no zero in front, unless `v` is zero. -/
structure IsNumeral (radix v : Nat) (text : List UInt8) : Prop where
  nonempty : text ≠ []
  digits : ∀ c ∈ text, IsDigit radix c
  leading : text.head? = some 0x30 → text = [0x30]
  value : readNumeral radix text = v

/-- The signed decimal numeral of `v`. -/
def IsSigned (v : Int) (text : List UInt8) : Prop :=
  if v < 0 then ∃ rest, text = 0x2D :: rest ∧ IsNumeral 10 v.natAbs rest else IsNumeral 10 v.natAbs text

theorem digitValue_lookup : Numeral.Readable (fun d => lookup.getD d 0) digitValue 36 := by
  intro d small
  revert d
  decide +kernel

/-- The digits of a number in the alphabet of `lookup`. -/
def numeral (radix v : Nat) : List UInt8 := (Numeral.digits radix v).map fun d => lookup.getD d 0

section Numerals
variable {radix v : Nat}

theorem readable (small : radix ≤ 36) : Numeral.Readable (fun d => lookup.getD d 0) digitValue radix :=
  fun d below => digitValue_lookup d (Nat.lt_of_lt_of_le below small)

theorem numeral_isNumeral (base : 1 < radix) (small : radix ≤ 36) (v : Nat) : IsNumeral radix v (numeral radix v) := by
  have canonical := Numeral.digits_canonical base v
  refine ⟨?_, fun c member => ?_, fun zero => ?_, ?_⟩
  · intro empty
    exact canonical.nonempty (List.map_eq_nil_iff.1 empty)
  · obtain ⟨d, digit, rfl⟩ := List.mem_map.1 member
    exact ⟨d, canonical.below d digit, rfl⟩
  · have first : (Numeral.digits radix v).head? = some 0 := by
      rw [numeral, List.head?_map] at zero
      obtain ⟨d, head, symbol⟩ := Option.map_eq_some_iff.1 zero
      have read : digitValue (lookup.getD d 0) = d := readable small d (canonical.below d (List.mem_of_head? head))
      rw [symbol] at read
      rw [head, ← read]
      exact congrArg some (by decide +kernel)
    rw [numeral, canonical.leading first]
    exact congrArg (· :: []) (by decide +kernel)
  · rw [readNumeral, numeral, (readable small).map canonical.below, Numeral.value_digits]

/-- A number has one numeral. -/
theorem IsNumeral.unique (base : 1 < radix) (small : radix ≤ 36) {text : List UInt8} (h : IsNumeral radix v text) :
    text = numeral radix v := by
  obtain ⟨nonempty, digits, leading, value⟩ := h
  have spelled : (text.map digitValue).map (fun d => lookup.getD d 0) = text := by
    rw [List.map_map]
    refine (List.map_congr_left fun c member => ?_).trans (List.map_id text)
    obtain ⟨d, below, rfl⟩ := digits c member
    exact congrArg (fun d => lookup.getD d 0) (readable small d below)
  have canonical : Numeral.Canonical radix (text.map digitValue) := by
    refine ⟨fun empty => nonempty (List.map_eq_nil_iff.1 empty), fun d member => ?_, fun zero => ?_⟩
    · obtain ⟨c, inside, rfl⟩ := List.mem_map.1 member
      obtain ⟨d, below, rfl⟩ := digits c inside
      rw [readable small d below]
      exact below
    · have first : text.head? = some 0x30 := by
        rw [List.head?_map] at zero
        obtain ⟨c, head, symbol⟩ := Option.map_eq_some_iff.1 zero
        obtain ⟨d, below, rfl⟩ := digits c (List.mem_of_head? head)
        rw [readable small d below] at symbol
        rw [head, symbol]
        exact congrArg some (by decide +kernel)
      rw [leading first]
      exact congrArg (· :: []) (by decide +kernel)
  rw [numeral, ← spelled, canonical.eq_digits base]
  exact congrArg (fun n => (Numeral.digits radix n).map _) value

end Numerals

/-! ## `strrev` and `itoa` -/

/-- The two indices change places with each other until they meet. -/
theorem strrevFrom_apply (k : Nat) : ∀ fin beg (s : Bytes),
    strrevFrom fin beg s k = if beg ≤ k ∧ k ≤ fin then s (beg + fin - k) else s k := by
  intro fin
  induction fin with
  | zero =>
    intro beg s
    by_cases inside : beg ≤ k ∧ k ≤ 0
    · rw [if_pos inside, strrevFrom]
      congr 1
      omega
    · rw [if_neg inside, strrevFrom]
  | succ fin ih =>
    intro beg s
    rw [strrevFrom]
    split
    · next open_ =>
      dsimp only
      rw [ih]
      by_cases first : k = beg
      · rw [if_neg (by omega), if_pos (by omega), first, Function.update_self]
        congr 1
        omega
      · by_cases last : k = fin + 1
        · rw [if_neg (by omega), if_pos (by omega), Function.update_of_ne first, last, Function.update_self]
          congr 1
          omega
        · by_cases inside : beg + 1 ≤ k ∧ k ≤ fin
          · rw [if_pos inside, if_pos (by omega), Function.update_of_ne (by omega), Function.update_of_ne (by omega)]
            congr 1
            omega
          · rw [if_neg inside, if_neg (by omega), Function.update_of_ne first, Function.update_of_ne last]
    · next met =>
      by_cases middle : beg ≤ k ∧ k ≤ fin + 1
      · rw [if_pos middle]
        congr 1
        omega
      · rw [if_neg middle]

theorem strrev_apply {s : Bytes} {l : List UInt8} (terminated : Terminated s l) (small : l.length < 2 ^ 32) (k : Nat) :
    strrev s k = if k < l.length then l.reverse.getD k 0 else s k := by
  have length : strlen s (2 ^ 32) = l.length := by rw [strlen_terminated terminated]; omega
  rw [strrev, length, strrevFrom_apply]
  by_cases inside : k < l.length
  · have mirror : 0 + (l.length - 1) - k = l.length - 1 - k := by omega
    have reversed : k < l.reverse.length := by rw [List.length_reverse]; exact inside
    rw [if_pos (by omega), if_pos inside, mirror, terminated.cell _ (by omega), List.getD_eq_getElem _ _ reversed,
      List.getElem_reverse]
  · rw [if_neg inside]
    split
    · next single =>
      -- the empty string: index 0 stays where it is
      congr 1
      omega
    · rfl

/-- The digit loop stores the digits from the lowest on. -/
theorem itoaDigits_spec (radix : Radix) (newval newbuf : Nat) (buf : Bytes) :
    let ds := Nat.digits radix.val newval
    (itoaDigits radix newval newbuf buf).2 = newbuf + ds.length ∧ ∀ k, (itoaDigits radix newval newbuf buf).1 k =
      if newbuf ≤ k ∧ k < newbuf + ds.length then lookup.getD (ds.getD (k - newbuf) 0) 0 else buf k := by
  fun_induction itoaDigits radix newval newbuf buf with
  | case1 newval newbuf buf positive i ih =>
    obtain ⟨stop, stored⟩ := ih
    rw [Nat.digits_def' radix.two_le positive]
    dsimp only at stop stored ⊢
    generalize Nat.digits radix.val (newval / radix.val) = ds at stop stored
    rw [List.length_cons]
    refine ⟨by rw [stop]; omega, fun k => ?_⟩
    rw [stored]
    by_cases first : k = newbuf
    · rw [if_neg (by omega), if_pos (by omega), first, Function.update_self, Nat.sub_self, List.getD_cons_zero]
    · rw [Function.update_of_ne first]
      by_cases inside : newbuf + 1 ≤ k ∧ k < newbuf + 1 + ds.length
      · rw [if_pos inside, if_pos (by omega), show k - newbuf = k - (newbuf + 1) + 1 by omega, List.getD_cons_succ]
      · rw [if_neg inside, if_neg (by omega)]
  | case2 newval newbuf buf zero =>
    obtain rfl : newval = 0 := by omega
    rw [Nat.digits_zero]
    exact ⟨rfl, fun k => by rw [if_neg (by simp)]⟩

/-- No symbol of `lookup` is the terminator. -/
theorem lookup_ne_zero : ∀ d < 36, lookup.getD d 0 ≠ 0 := by decide +kernel

theorem numeral_nonzero (radix : Radix) (v : Nat) : ∀ c ∈ numeral radix.val v, c ≠ 0 := by
  intro c member
  obtain ⟨d, digit, rfl⟩ := List.mem_map.1 member
  have below := (Numeral.digits_canonical radix.two_le v).below d digit
  exact lookup_ne_zero d (Nat.lt_of_lt_of_le below radix.le_36)

/-- A 32-bit number has 32 digits at most. -/
theorem numeral_length (radix : Radix) (value : BitVec 32) : (numeral radix.val value.toNat).length ≤ 32 := by
  rw [numeral, List.length_map]
  apply Numeral.length_digits radix.two_le (by decide)
  calc
    value.toNat < 2 ^ 32 := value.isLt
    _ ≤ radix.val ^ 32 := Nat.pow_le_pow_left radix.two_le 32

/-- The digits from the lowest on. -/
def lowFirst (radix v : Nat) : List UInt8 := (Nat.digits radix v).map fun d => lookup.getD d 0

theorem lowFirst_reverse (radix : Nat) {v : Nat} (positive : v ≠ 0) : (lowFirst radix v).reverse = numeral radix v := by
  rw [numeral, Numeral.digits, if_neg positive, List.map_reverse, lowFirst]

/-- What `itoa` has stored when it calls `strrev`. -/
theorem itoa_stored (radix : Radix) {value : BitVec 32} (positive : value.toNat ≠ 0) (buf : Bytes) :
    let low := lowFirst radix.val value.toNat
    let (b, newbuf) := itoaDigits radix value.toNat 0 buf
    Terminated (Function.update b newbuf 0) low ∧ ∀ k, low.length < k → Function.update b newbuf 0 k = buf k := by
  intro low
  obtain ⟨stop, stored⟩ := itoaDigits_spec radix value.toNat 0 buf
  have length : (Nat.digits radix.val value.toNat).length = low.length := (List.length_map _).symm
  simp only [Nat.zero_add, Nat.zero_le, true_and, Nat.sub_zero, length] at stop stored
  dsimp only
  rw [stop]
  refine ⟨⟨Nat.le_succ _, fun k inside => ?_, fun c member => ?_, fun _ => Function.update_self _ _ _⟩, fun k behind => ?_⟩
  · have digit : (Nat.digits radix.val value.toNat).getD k 0 = (Nat.digits radix.val value.toNat)[k] :=
      List.getD_eq_getElem _ _ (length ▸ inside)
    rw [Function.update_of_ne (by omega), stored, if_pos inside, digit]
    exact Eq.symm (List.getElem_map fun d => lookup.getD d 0)
  · apply numeral_nonzero radix value.toNat c
    rw [← lowFirst_reverse radix.val positive]
    exact List.mem_reverse.2 member
  · rw [Function.update_of_ne (by omega), stored, if_neg (by omega)]

/-- `itoa` byte by byte. -/
theorem itoaInto_apply (value : BitVec 32) (buf : Bytes) (radix : Radix) (k : Nat) :
    let text := numeral radix.val value.toNat
    itoaInto value buf radix k = if k < text.length then text.getD k 0 else if k = text.length then 0 else buf k := by
  intro text
  by_cases zero : value = 0
  · have single : text = [0x30] := by
      subst zero
      exact congrArg (· :: []) (show lookup.getD 0 0 = 0x30 by decide +kernel)
    rw [itoaInto, if_pos zero, single, List.length_singleton]
    by_cases first : k = 0
    · rw [first, Function.update_of_ne (by decide), Function.update_self]
      rfl
    · by_cases second : k = 1
      · rw [second, Function.update_self]
        rfl
      · rw [Function.update_of_ne second, Function.update_of_ne first, if_neg (by omega), if_neg second]
  · have positive : value.toNat ≠ 0 := fun e => zero (BitVec.eq_of_toNat_eq e)
    have written := lowFirst_reverse radix.val positive
    have length : (lowFirst radix.val value.toNat).length = text.length := by
      rw [← List.length_reverse, written]
    have fits : text.length ≤ 32 := numeral_length radix value
    obtain ⟨filled, kept⟩ := itoa_stored radix positive buf
    rw [itoaInto, if_neg zero]
    dsimp only
    rw [strrev_apply filled (by omega), written, length]
    by_cases inside : k < text.length
    · rw [if_pos inside, if_pos inside]
    · rw [if_neg inside, if_neg inside]
      by_cases last : k = text.length
      · rw [if_pos last, last, ← length]
        exact filled.zero
      · rw [if_neg last]
        exact kept k (by omega)

theorem itoaInto_terminated (value : BitVec 32) (buf : Bytes) (radix : Radix) :
    Terminated (itoaInto value buf radix) (numeral radix.val value.toNat) := by
  refine ⟨Nat.le_succ _, fun k inside => ?_, numeral_nonzero radix _, fun _ => ?_⟩
  · rw [itoaInto_apply, if_pos inside, List.getD_eq_getElem _ _ inside]
  · rw [itoaInto_apply, if_neg (Nat.lt_irrefl _), if_pos rfl]

/-- `itoa` as a text is the one that the scanner prints. -/
theorem itoa_eq (radix : Radix) (value : BitVec 32) : itoa value radix.val = numeral radix.val value.toNat := by
  unfold itoa
  split
  · next zero =>
    rw [zero]
    exact congrArg (· :: []) (show (0x30 : UInt8) = lookup.getD 0 0 by decide +kernel)
  · next nonzero =>
    exact lowFirst_reverse radix.val fun e => nonzero (BitVec.eq_of_toNat_eq e)

/-! ## `conv_buf` -/

theorem bytesFrom_callAt (buf : Bytes) (i : Nat) (call : Bytes → Bytes) :
    bytesFrom (callAt buf i call) i = call (bytesFrom buf i) := by
  funext k
  rw [bytesFrom, callAt, if_pos (Nat.le_add_right i k), Nat.add_sub_cancel_left]

/-- The loop that fills `conv_buf` with zeros. -/
theorem foldl_fill (c : UInt8) (k : Nat) : ∀ n i (b : Bytes),
    (List.range' i n).foldl (fun b i => Function.update b i c) b k = if i ≤ k ∧ k < i + n then c else b k := by
  intro n
  induction n with
  | zero => intro i b; rw [if_neg (by omega)]; rfl
  | succ n ih =>
    intro i b
    rw [List.range'_succ, List.foldl_cons, ih]
    by_cases first : k = i
    · rw [if_neg (by omega), if_pos (by omega), first, Function.update_self]
    · rw [Function.update_of_ne first]
      exact if_congr (by omega) rfl rfl

section Conversions
variable (convBuf : Bytes) (value : BitVec 32)

theorem hex_length : (numeral 16 value.toNat).length ≤ 8 := by
  rw [numeral, List.length_map]
  exact Numeral.length_digits (by decide) (by decide) value.isLt

/-- The zeros that `%#x` puts in front of the digits. -/
def paddedHex : List UInt8 := List.replicate (8 - (numeral 16 value.toNat).length) 0x30 ++ numeral 16 value.toNat

/-- The digits begin at index 8, and the zeros in front of them end there. -/
theorem convHex_padded : Terminated (convHex convBuf true value) (paddedHex value) := by
  have short := hex_length value
  have converted : Terminated (itoaInto value (bytesFrom convBuf 8) hexadecimal) (numeral 16 value.toNat) :=
    itoaInto_terminated value (bytesFrom convBuf 8) hexadecimal
  have length : strlen (itoaInto value (bytesFrom convBuf 8) hexadecimal) (2 ^ 32) = (numeral 16 value.toNat).length := by
    rw [strlen_terminated converted]
    exact min_eq_right (by omega)
  simp only [convHex, if_true, bytesFrom_callAt, length]
  apply Terminated.prepend
  · intro k inside
    rw [List.length_replicate] at inside
    rw [List.getElem_replicate, bytesFrom, foldl_fill, if_pos (by omega)]
  · intro c member
    rw [List.eq_of_mem_replicate member]
    decide
  · convert converted using 1
    funext k
    rw [List.length_replicate, bytesFrom, foldl_fill, if_neg (by omega), callAt, if_pos (by omega)]
    congr 1
    omega

theorem paddedHex_eight :
    (paddedHex value).length = 8 ∧ (∀ c ∈ paddedHex value, IsDigit 16 c) ∧ readNumeral 16 (paddedHex value) = value.toNat := by
  have short := hex_length value
  have digits := numeral_isNumeral (show 1 < 16 by decide) (show 16 ≤ 36 by decide) value.toNat
  have zero : digitValue 0x30 = 0 := by decide +kernel
  refine ⟨?_, fun c member => ?_, ?_⟩
  · rw [paddedHex, List.length_append, List.length_replicate]
    omega
  · rcases List.mem_append.1 member with front | digit
    · exact ⟨0, by decide, (List.eq_of_mem_replicate front).trans (by decide +kernel)⟩
    · exact digits.digits c digit
  · rw [paddedHex, readNumeral, List.map_append, List.map_replicate, zero, Numeral.value_replicate_zero]
    exact digits.value

/-- The text that `%d` prints. -/
def signedNumeral : List UInt8 :=
  if value.slt 0 then 0x2D :: numeral 10 (-value).toNat else numeral 10 value.toNat

theorem convSigned_terminated : Terminated (convSigned convBuf value) (signedNumeral value) := by
  unfold convSigned signedNumeral
  split
  · have converted : Terminated (itoaInto (-value) (bytesFrom (Function.update convBuf 0 0x2D) 1) decimal)
        (numeral 10 (-value).toNat) := itoaInto_terminated _ _ decimal
    have first : Terminated (callAt (Function.update convBuf 0 0x2D) 1 fun buf => itoaInto (-value) buf decimal)
        ([0x2D] ++ numeral 10 (-value).toNat) := by
      apply Terminated.prepend
      · intro k inside
        obtain rfl : k = 0 := by rw [List.length_singleton] at inside; omega
        rw [callAt, if_neg (by decide), Function.update_self]
        rfl
      · intro c member
        rw [List.mem_singleton.1 member]
        decide
      · rw [List.length_singleton]
        convert converted using 1
        exact bytesFrom_callAt _ _ _
    exact first
  · exact itoaInto_terminated value convBuf decimal

/-- The negation modulo 2^32 is right for the least `int` too. -/
theorem signedNumeral_isSigned : IsSigned value.toInt (signedNumeral value) := by
  have numerals : ∀ v, IsNumeral 10 v (numeral 10 v) := numeral_isNumeral (by decide) (by decide)
  have size := value.isLt
  have int := BitVec.toInt_eq_toNat_cond value
  unfold IsSigned signedNumeral
  by_cases negative : value.toInt < 0
  · have sign : value.slt 0 = true := by rw [BitVec.slt_iff_toInt_lt]; exact negative
    have magnitude : (-value).toNat = value.toInt.natAbs := by
      rw [BitVec.toNat_neg]
      omega
    rw [if_pos negative, if_pos sign, magnitude]
    exact ⟨_, rfl, numerals _⟩
  · have sign : ¬ value.slt 0 = true := by rw [BitVec.slt_iff_toInt_lt]; exact negative
    have magnitude : value.toNat = value.toInt.natAbs := by omega
    rw [if_neg negative, if_neg sign, magnitude]
    exact numerals _

/-! ## What `printf` prints -/

/-- What the scanner prints for a number is what `conv_buf` holds. -/
theorem conversion_buffered (args : PrintfArgs) (alternate : Bool) (esp : Nat) :
    Terminated (convHex convBuf alternate (args.word esp)) (conversion args alternate 0x78 esp).1 ∧
      Terminated (convUnsigned convBuf (args.word esp)) (conversion args alternate 0x75 esp).1 ∧
      Terminated (convSigned convBuf (args.word esp)) (conversion args alternate 0x64 esp).1 := by
  have hex : itoa (args.word esp) 16 = numeral 16 (args.word esp).toNat := itoa_eq hexadecimal _
  have dec : ∀ v : BitVec 32, itoa v 10 = numeral 10 v.toNat := itoa_eq decimal
  refine ⟨?_, ?_, ?_⟩
  · cases alternate with
    | false =>
      show Terminated (itoaInto (args.word esp) convBuf hexadecimal) (itoa (args.word esp) 16)
      rw [hex]
      exact itoaInto_terminated _ _ hexadecimal
    | true =>
      show Terminated _ (List.replicate (8 - (itoa (args.word esp) 16).length) 0x30 ++ itoa (args.word esp) 16)
      rw [hex]
      exact convHex_padded convBuf _
  · show Terminated (itoaInto (args.word esp) convBuf decimal) (itoa (args.word esp) 10)
    rw [dec]
    exact itoaInto_terminated _ _ decimal
  · show Terminated _ (if (args.word esp).slt 0 then 0x2D :: itoa (-args.word esp) 10 else itoa (args.word esp) 10)
    rw [dec, dec]
    exact convSigned_terminated convBuf _

theorem scan_signed (args : PrintfArgs) (buf esp : Nat) (s : Kernel) :
    (message "%d").foldl (Printf.scan args) ⟨.test, buf, esp, s⟩ =
      ⟨.test, buf + 2, esp + 1, puts (signedNumeral (args.word esp)) s⟩ := by
  have dec : ∀ v : BitVec 32, itoa v 10 = numeral 10 v.toNat := itoa_eq decimal
  have scanned : (message "%d").foldl (Printf.scan args) ⟨.test, buf, esp, s⟩ = ⟨.test, buf + 2, esp + 1,
    puts (if (args.word esp).slt 0 then 0x2D :: itoa (-args.word esp) 10 else itoa (args.word esp) 10) s⟩ := rfl
  rw [scanned, dec, dec]
  rfl

theorem scan_hex (args : PrintfArgs) (buf esp : Nat) (s : Kernel) :
    (message "%#x").foldl (Printf.scan args) ⟨.test, buf, esp, s⟩ =
      ⟨.test, buf + 3, esp + 1, puts (paddedHex (args.word esp)) s⟩ := by
  have hex : itoa (args.word esp) 16 = numeral 16 (args.word esp).toNat := itoa_eq hexadecimal _
  have scanned : (message "%#x").foldl (Printf.scan args) ⟨.test, buf, esp, s⟩ = ⟨.test, buf + 3, esp + 1,
    puts (List.replicate (8 - (itoa (args.word esp) 16).length) 0x30 ++ itoa (args.word esp) 16) s⟩ := rfl
  rw [scanned, hex]
  rfl

end Conversions

/-- **Number formatting.** `itoa` writes the one numeral of its number and nothing behind the
terminator; `%d` prints the signed decimal numeral and `%#x` the eight hexadecimal digits of
the parameter, out of any `conv_buf`. -/
theorem numbers_formatted :
    (∀ (value : BitVec 32) (radix : Radix) (buf : Bytes), ∃ text,
      Terminated (itoaInto value buf radix) text ∧ IsNumeral radix.val value.toNat text ∧
        (∀ other, IsNumeral radix.val value.toNat other → other = text) ∧ text.length + 1 ≤ 33 ∧
        ∀ k, text.length < k → itoaInto value buf radix k = buf k) ∧
      (∀ (args : PrintfArgs) (buf esp : Nat) (s : Kernel) (convBuf : Bytes), ∃ text,
        Terminated (convSigned convBuf (args.word esp)) text ∧ IsSigned (args.word esp).toInt text ∧
          (message "%d").foldl (Printf.scan args) ⟨.test, buf, esp, s⟩ = ⟨.test, buf + 2, esp + 1, puts text s⟩) ∧
      ∀ (args : PrintfArgs) (buf esp : Nat) (s : Kernel) (convBuf : Bytes), ∃ text,
        Terminated (convHex convBuf true (args.word esp)) text ∧
          (text.length = 8 ∧ (∀ c ∈ text, IsDigit 16 c) ∧ readNumeral 16 text = (args.word esp).toNat) ∧
          (message "%#x").foldl (Printf.scan args) ⟨.test, buf, esp, s⟩ = ⟨.test, buf + 3, esp + 1, puts text s⟩ := by
  refine ⟨fun value radix buf => ?_, fun args buf esp s convBuf => ?_, fun args buf esp s convBuf => ?_⟩
  · refine ⟨numeral radix.val value.toNat, itoaInto_terminated value buf radix, ?_, fun other h => ?_, ?_, fun k behind => ?_⟩
    · exact numeral_isNumeral radix.two_le radix.le_36 _
    · exact h.unique radix.two_le radix.le_36
    · exact Nat.succ_le_succ (numeral_length radix value)
    · rw [itoaInto_apply, if_neg (by omega), if_neg (by omega)]
  · exact ⟨_, convSigned_terminated convBuf _, signedNumeral_isSigned _, scan_signed args buf esp s⟩
  · exact ⟨_, convHex_padded convBuf _, paddedHex_eight _, scan_hex args buf esp s⟩

/-- The least `int`. -/
example : signedNumeral 0x80000000 = message "-2147483648" := by decide +kernel

end BigBrainOS
