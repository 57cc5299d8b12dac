import BigBrainOS.Kernel.Printf

/-!
# `itoa` and `strrev` in their buffers

`itoa` stores the digits of a number from the lowest on and then reverses them in
place. `printf` has it convert into `conv_buf`, at an offset where something is put
in front of the digits.
-/

namespace BigBrainOS
set_option autoImplicit false

/-- A radix that `lookup` has digits for. -/
structure Radix where
  val : Nat
  two_le : 2 ≤ val
  le_36 : val ≤ 36

def decimal : Radix := ⟨10, by decide, by decide⟩
def hexadecimal : Radix := ⟨16, by decide, by decide⟩

/-- The loop of `strrev`, for an `end` that is not negative. -/
def strrevFrom : Nat → Nat → Bytes → Bytes
  | 0, _, s => s
  | fin + 1, beg, s =>
    if beg < fin + 1 then
      let tmp := s (fin + 1)
      let s := Function.update s (fin + 1) (s beg)
      strrevFrom fin (beg + 1) (Function.update s beg tmp)
    else s

/-- `strrev`. An empty string has `end = -1` in the source; `0` makes no difference. -/
def strrev (s : Bytes) : Bytes := strrevFrom (strlen s (2 ^ 32) - 1) 0 s

/-- The loop of `itoa`: the buffer and where `newbuf` points to, as an offset. -/
def itoaDigits (radix : Radix) (newval newbuf : Nat) (buf : Bytes) : Bytes × Nat :=
  if 0 < newval then
    let i := newval % radix.val
    itoaDigits radix (newval / radix.val) (newbuf + 1) (Function.update buf newbuf (lookup.getD i 0))
  else (buf, newbuf)
termination_by newval
decreasing_by exact Nat.div_lt_self (by assumption) radix.two_le

/-- `itoa` on its buffer. -/
def itoaInto (value : BitVec 32) (buf : Bytes) (radix : Radix) : Bytes :=
  if value = 0 then Function.update (Function.update buf 0 0x30) 1 0
  else
    let (buf, newbuf) := itoaDigits radix value.toNat 0 buf
    strrev (Function.update buf newbuf 0)

/-- `&buf[i]`. -/
def bytesFrom (buf : Bytes) (i : Nat) : Bytes := fun k => buf (i + k)

/-- A call that is given `&buf[i]`. -/
def callAt (buf : Bytes) (i : Nat) (call : Bytes → Bytes) : Bytes := fun k =>
  if i ≤ k then call (bytesFrom buf i) (k - i) else buf k

/-- `%x`: what is handed to `puts`. -/
def convHex (convBuf : Bytes) (alternate : Bool) (value : BitVec 32) : Bytes :=
  if alternate then
    let convBuf := callAt convBuf 8 fun buf => itoaInto value buf hexadecimal
    let startingIndex := strlen (bytesFrom convBuf 8) (2 ^ 32)
    -- `while (i < 8)`
    let convBuf := (List.range' startingIndex (8 - startingIndex)).foldl (fun b i => Function.update b i 0x30) convBuf
    bytesFrom convBuf startingIndex
  else itoaInto value convBuf hexadecimal

/-- `%u`. -/
def convUnsigned (convBuf : Bytes) (value : BitVec 32) : Bytes := itoaInto value convBuf decimal

/-- `%d`. The negation is that of 32-bit words. -/
def convSigned (convBuf : Bytes) (value : BitVec 32) : Bytes :=
  if value.slt 0 then
    let convBuf := Function.update convBuf 0 0x2D
    callAt convBuf 1 fun buf => itoaInto (-value) buf decimal
  else itoaInto value convBuf decimal

end BigBrainOS
