import BigBrainOS.Kernel.Interrupts

/-!
# `init_idt`

The descriptor table with its entries as they are stored: the address of a handler in
two halves, the code segment and the bits of the gate. The loop over the interrupts runs
to `NUM_INTERRUPTS`, which is 16, over two arrays of four entries. Behind these it
takes for a vector and a handler whatever the stack holds there.
-/

namespace BigBrainOS
set_option autoImplicit false

/-- The handlers of `idt.c` and `interrupt_wrappers.S`. -/
inductive Handler where
  | deHandler | dbHandler | bpHandler | ofHandler | brHandler | udHandler | nmHandler | dfHandler | cpHandler | tsHandler
  | npHandler | ssHandler | gpHandler | pfHandler | mfHandler | acHandler | mcHandler | xfHandler | veHandler | sxHandler
  | niHandler | kbHandlerWrapper | rtHandlerWrapper | ptHandlerWrapper
  | sysHandlerWrapper
  deriving DecidableEq, Repr

/-- `exc_handlers` of `init_idt`. -/
def excHandlers : List Handler :=
  [.deHandler, .dbHandler, .bpHandler, .ofHandler, .brHandler, .udHandler, .nmHandler, .dfHandler, .cpHandler, .tsHandler,
    .npHandler, .ssHandler, .gpHandler, .pfHandler, .mfHandler, .acHandler, .mcHandler, .xfHandler, .veHandler, .sxHandler]

/-- `int_handlers` of `init_idt`. -/
def intHandlers : List Handler := [.niHandler, .kbHandlerWrapper, .rtHandlerWrapper, .ptHandlerWrapper]

abbrev numExceptions : Nat := 20
abbrev numInterrupts : Nat := 16
/-- `NUM_VEC`. -/
abbrev numVec : Nat := 256
/-- `KERNEL_CS`. -/
abbrev kernelCs : BitVec 16 := 0x0010

/-- `idt_desc_t`. -/
structure IdtEntry where
  offset1500 : BitVec 16
  segSelector : BitVec 16
  reserved4 : BitVec 8
  desc : IdtDesc
  offset3116 : BitVec 16
  deriving DecidableEq, Repr

/-- The table as the linker lays it out: `.quad 0`. -/
def IdtEntry.zero : IdtEntry := ⟨0, 0, 0, ⟨false, 0, false, false, false, false, false⟩, 0⟩

/-- `SET_IDT_ENTRY`. -/
def setIdtEntry (e : IdtEntry) (handler : BitVec 32) : IdtEntry :=
  { e with
    offset3116 := ((handler &&& 0xFFFF0000#32) >>> 16).truncate 16
    offset1500 := (handler &&& 0xFFFF#32).truncate 16 }

/-- The ten assignments to an entry. -/
def installGate (dpl : Nat) (handler : BitVec 32) (e : IdtEntry) : IdtEntry :=
  let e := setIdtEntry e handler
  let e := { e with segSelector := kernelCs }
  let e := { e with desc := { e.desc with present := true } }
  let e := { e with desc := { e.desc with dpl := dpl } }
  let e := { e with desc := { e.desc with size := true } }
  let e := { e with desc := { e.desc with reserved0 := false } }
  let e := { e with desc := { e.desc with reserved1 := true } }
  let e := { e with desc := { e.desc with reserved2 := true } }
  let e := { e with desc := { e.desc with reserved3 := false } }
  { e with reserved4 := 0 }

/-- Memory from `idt` on in pieces of 8 bytes. The first 256 are the table; an index is
taken modulo the 2^29 pieces that 32-bit addresses tell apart. -/
abbrev IdtMemory := Nat → IdtEntry

/-- What the loop finds behind the four entries of `int_vect` and `int_handlers`, when it comes there. What it
stores outside the table is not followed. -/
structure StackWords where
  vect : Nat → BitVec 32
  handler : Nat → BitVec 32

/-- `int_vect[i]`, as the index of a piece of memory. -/
def intVectAt (w : StackWords) (i : Nat) : Nat := (intVect[i]?).getD ((w.vect i).toNat % 2 ^ 29)

/-- `int_handlers[i]`; `link` gives the addresses of the handlers. -/
def intHandlerAt (link : Handler → BitVec 32) (w : StackWords) (i : Nat) : BitVec 32 :=
  ((intHandlers[i]?).map link).getD (w.handler i)

/-- The body of the two loops. -/
def addEntry (dpl : Nat) (m : IdtMemory) (p : Nat × BitVec 32) : IdtMemory :=
  Function.update m p.1 (installGate dpl p.2 (m p.1))

/-- The entries for the exceptions. -/
def excEntries (link : Handler → BitVec 32) : List (Nat × BitVec 32) :=
  (List.range numExceptions).map fun i => (excVect.getD i 0, link (excHandlers.getD i .deHandler))

/-- The entries for the interrupts, and what the loop takes for entries behind them. -/
def intEntries (link : Handler → BitVec 32) (w : StackWords) : List (Nat × BitVec 32) :=
  (List.range numInterrupts).map fun i => (intVectAt w i, intHandlerAt link w i)

/-- What `init_idt` does to the table. -/
def initIdtTable (link : Handler → BitVec 32) (w : StackWords) (m : IdtMemory) : IdtMemory :=
  let m := (excEntries link).foldl (addEntry 0) m
  let m := (intEntries link w).foldl (addEntry 0) m
  addEntry 3 m (sysCall, link .sysHandlerWrapper)

/-- The gate for a handler. -/
def handlerGate (dpl : Nat) (handler : BitVec 32) : IdtEntry := installGate dpl handler .zero

/-- All fields of an entry are set. -/
theorem installGate_eq (dpl : Nat) (handler : BitVec 32) (e : IdtEntry) : installGate dpl handler e = handlerGate dpl handler := rfl

/-- The address that the processor takes from an entry. -/
def IdtEntry.offset (e : IdtEntry) : BitVec 32 := e.offset3116 ++ e.offset1500

/-- The two halves make up the address. -/
@[simp] theorem handlerGate_offset (dpl : Nat) (handler : BitVec 32) : (handlerGate dpl handler).offset = handler := by
  show ((handler &&& 0xFFFF0000#32) >>> 16).truncate 16 ++ (handler &&& 0xFFFF#32).truncate 16 = handler
  have low : ∀ i < 16, (0xFFFF#32).getLsbD i = true := by decide
  have high : ∀ i < 32, 16 ≤ i → (0xFFFF0000#32).getLsbD i = true := by decide
  apply BitVec.eq_of_getLsbD_eq
  intro i inside
  rw [BitVec.getLsbD_append]
  by_cases half : i < 16
  · rw [if_pos half, BitVec.truncate_eq_setWidth, BitVec.getLsbD_setWidth, BitVec.getLsbD_and, low i half]
    simp [half]
  · have index : 16 + (i - 16) = i := by omega
    rw [if_neg half, BitVec.truncate_eq_setWidth, BitVec.getLsbD_setWidth, BitVec.getLsbD_ushiftRight, BitVec.getLsbD_and,
      index, high i inside (by omega)]
    simp
    omega

theorem handlerGate_inj {dpl : Nat} {a b : BitVec 32} (same : handlerGate dpl a = handlerGate dpl b) : a = b := by
  have offset := congrArg IdtEntry.offset same
  rwa [handlerGate_offset, handlerGate_offset] at offset

end BigBrainOS
