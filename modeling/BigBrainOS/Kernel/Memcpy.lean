import BigBrainOS.Theory.Ia32

/-!
# `memcpy`, instruction by instruction

The inline assembly of `memcpy` as the compiler hands it to the processor: `src`
in `esi`, `dest` in `edi` and `n` in `ecx`, everything else as it happens to be.
-/

namespace BigBrainOS
set_option autoImplicit false
open Ia32

/-- The labels of the code. -/
inductive MemcpyLabel where
  | top
  | aligned
  | bottom
  | done
  deriving DecidableEq, Repr

/-- The instructions of `memcpy`. -/
def memcpyCode : List (Instr MemcpyLabel) :=
  [.label .top,
    .testl .ecx .ecx,
    .jz .done,
    .testlImm 0x3 .edi,
    .jz .aligned,
    .movbLoad .esi,
    .movbStore .edi,
    .addlImm 1 .edi,
    .addlImm 1 .esi,
    .sublImm 1 .ecx,
    .jmp .top,
    .label .aligned,
    .movwLoad .ds .edx,
    .movwStore .edx .es,
    .movl .ecx .edx,
    .shrlImm 2 .ecx,
    .andlImm 0x3 .edx,
    .cld,
    .repMovsl,
    .label .bottom,
    .testl .edx .edx,
    .jz .done,
    .movbLoad .esi,
    .movbStore .edi,
    .addlImm 1 .edi,
    .addlImm 1 .esi,
    .sublImm 1 .edx,
    .jmp .bottom,
    .label .done]

/-- The processor in front of the code. -/
def memcpyStart (dest src : Address) (n : BitVec 32) (s : State) : State :=
  { s with esi := src, edi := dest, ecx := n, pc := 0 }

end BigBrainOS
