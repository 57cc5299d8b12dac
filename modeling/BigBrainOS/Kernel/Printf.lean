import BigBrainOS.Kernel.Console

/-!
# `printf`

The scanner of `printf`, one byte of the format at a time. It tests for the end of the
format in front of a byte outside of directives only; the byte behind a `%` or a `#` is
looked at and passed over whatever it is.
-/

namespace BigBrainOS
set_option autoImplicit false

/-- `lookup` of `itoa`. -/
def lookup : List UInt8 := message "0123456789ABCDEFGHIJKLMNOPQRSTUVWXYZ"

/-- `itoa`: the digits are found from the lowest on and put in order by `strrev`. -/
def itoa (value : BitVec 32) (radix : Nat) : List UInt8 :=
  if value = 0 then message "0" else ((Nat.digits radix value.toNat).map fun i => lookup.getD i 0).reverse

/-- The other parameters of `printf`: the words behind the first one, and the texts that pointers lead to. -/
structure PrintfArgs where
  word : Nat → BitVec 32
  string : BitVec 32 → List UInt8

/-- The conversion specifiers: what is printed for one, and how many parameters it takes. -/
def conversion (args : PrintfArgs) (alternate : Bool) (c : UInt8) (esp : Nat) : List UInt8 × Nat :=
  if c = 0x25 then (message "%", 0)
  else if c = 0x78 then
    let digits := itoa (args.word esp) 16
    -- eight digits, with zeros in front
    (if alternate then List.replicate (8 - digits.length) 0x30 ++ digits else digits, 1)
  else if c = 0x75 then (itoa (args.word esp) 10, 1)
  else if c = 0x64 then
    let value := args.word esp
    (if value.slt 0 then 0x2D :: itoa (-value) 10 else itoa value 10, 1)
  else if c = 0x63 then ([UInt8.ofBitVec ((args.word esp).truncate 8)], 1)
  else if c = 0x73 then (args.string (args.word esp), 1)
  else ([], 0)

/-- The place in the code where the next byte of the format is read. -/
inductive PrintfPoint where
  /-- `while (*buf != '\0')` and the `switch` behind it. -/
  | test
  /-- `format_char_switch`, with `alternate`. -/
  | conversion (alternate : Bool)
  | returned
  deriving DecidableEq, Repr

/-- The scanner: `buf` and `esp` count the bytes and the parameters that are passed. -/
structure Printf where
  point : PrintfPoint
  buf : Nat
  esp : Nat
  kernel : Kernel

namespace Printf

def start (s : Kernel) : Printf := ⟨.test, 0, 0, s⟩

/-- What the scanner does with the next byte of the format. -/
def scan (args : PrintfArgs) (p : Printf) (c : UInt8) : Printf :=
  match p.point with
  | .returned => p
  | .test =>
    if c = 0 then { p with point := .returned }
    else if c = 0x25 then { p with point := .conversion false, buf := p.buf + 1 }
    else { p with buf := p.buf + 1, kernel := putc c p.kernel }
  | .conversion alternate =>
    if c = 0x23 then { p with point := .conversion true, buf := p.buf + 1 }
    else
      let (text, count) := conversion args alternate c p.esp
      ⟨.test, p.buf + 1, p.esp + count, puts text p.kernel⟩

def step (format : Bytes) (args : PrintfArgs) (p : Printf) : Printf := p.scan args (format p.buf)

end Printf

end BigBrainOS
