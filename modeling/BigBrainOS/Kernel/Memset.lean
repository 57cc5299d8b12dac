import BigBrainOS.Theory.Ia32Strings

/-!
# `memset` and `memmove`, instruction by instruction

The inline assembly as the compiler hands it to the processor: the operands in
`eax`, `edi`, `esi` and `ecx`, everything else as it happens to be.
-/

namespace BigBrainOS
set_option autoImplicit false
open Ia32

/-! ## Fills -/

/-- The labels of `memset`. -/
inductive MemsetLabel where
  | top
  | aligned
  | bottom
  | done
  deriving DecidableEq, Repr

/-- The instructions of `memset`. -/
def memsetCode : List (StringInstr MemsetLabel) :=
  [.plain (.label .top),
    .plain (.testl .ecx .ecx),
    .plain (.jz .done),
    .plain (.testlImm 0x3 .edi),
    .plain (.jz .aligned),
    .plain (.movbStore .edi),
    .plain (.addlImm 1 .edi),
    .plain (.sublImm 1 .ecx),
    .plain (.jmp .top),
    .plain (.label .aligned),
    .plain (.movwLoad .ds .edx),
    .plain (.movwStore .edx .es),
    .plain (.movl .ecx .edx),
    .plain (.shrlImm 2 .ecx),
    .plain (.andlImm 0x3 .edx),
    .plain .cld,
    .repStosl,
    .plain (.label .bottom),
    .plain (.testl .edx .edx),
    .plain (.jz .done),
    .plain (.movbStore .edi),
    .plain (.addlImm 1 .edi),
    .plain (.sublImm 1 .edx),
    .plain (.jmp .bottom),
    .plain (.label .done)]

/-- The low byte of `c` in each byte of a register. -/
def memsetValue (c : BitVec 32) : BitVec 32 :=
  let c := c &&& 0xFF
  c <<< 24 ||| c <<< 16 ||| c <<< 8 ||| c

/-- The processor in front of `memset`. -/
def memsetStart (dest : Address) (c n : BitVec 32) (s : StringState) : StringState :=
  { s with cpu := { s.cpu with eax := memsetValue c, edi := dest, ecx := n, pc := 0 } }

/-- The instructions of `memset_word`. It has no labels. -/
def memsetWordCode : List (StringInstr Empty) :=
  [.plain (.movwLoad .ds .edx), .plain (.movwStore .edx .es), .plain .cld, .repStosw]

/-- The instructions of `memset_dword`. -/
def memsetDwordCode : List (StringInstr Empty) :=
  [.plain (.movwLoad .ds .edx), .plain (.movwStore .edx .es), .plain .cld, .repStosl]

/-- The processor in front of `memset_word` and `memset_dword`, which store `c` as it is. -/
def memsetWideStart (dest : Address) (c n : BitVec 32) (s : StringState) : StringState :=
  { s with cpu := { s.cpu with eax := c, edi := dest, ecx := n, pc := 0 } }

/-! ## Moves -/

/-- The label of `memmove`. -/
inductive MemmoveLabel where
  | go
  deriving DecidableEq, Repr

/-- The instructions of `memmove`. -/
def memmoveCode : List (StringInstr MemmoveLabel) :=
  [.plain (.movwLoad .ds .edx),
    .plain (.movwStore .edx .es),
    .plain .cld,
    .cmpl .edi .esi,
    .jae .go,
    .leal (-1) .esi .ecx .esi,
    .leal (-1) .edi .ecx .edi,
    .std,
    .plain (.label .go),
    .repMovsb]

/-- The processor in front of `memmove`. -/
def memmoveStart (dest src : Address) (n : BitVec 32) (s : StringState) : StringState :=
  { s with cpu := { s.cpu with edi := dest, esi := src, ecx := n, pc := 0 } }

end BigBrainOS
