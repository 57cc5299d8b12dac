import Mathlib

/-!
# Byte loops of a 32-bit processor

Memory is a function on 32-bit addresses, a program a list of instructions with
labels among them. `Isa` is what any such processor has: a step executes the instruction
at the program counter, and a program has ended once the counter is behind its last
instruction. `Copied` is what a copying loop has to reach, and `Apart` when it can.
-/

namespace Ia32
set_option autoImplicit false

abbrev Address := BitVec 32
abbrev Memory := Address → UInt8

/-! ## Processors -/

/-- A processor that fetches its instructions from a list: what an instruction does, and
the jump that it takes if the zero flag is set. -/
structure Isa (Label ι σ : Type) where
  run : List ι → ι → σ → σ
  pc : σ → Nat
  goto : Nat → σ → σ
  zf : σ → Bool
  jz : Label → ι
  target : List ι → Label → Nat
  run_jz : ∀ code l s, run code (jz l) s = goto (if zf s then target code l else pc s + 1) s

namespace Isa
variable {Label ι σ : Type}

section
variable (M : Isa Label ι σ)

/-- Execute the instruction at the program counter. -/
def step (code : List ι) (s : σ) : σ :=
  match code[M.pc s]? with
  | none => s
  | some i => M.run code i s

/-- Some number of steps leads from the one state to the other. -/
def Steps (code : List ι) : σ → σ → Prop := Relation.ReflTransGen fun s s' => M.step code s = s'

/-- The program has ended. -/
def Ended (code : List ι) (s : σ) : Prop := code.length ≤ M.pc s

end

variable {M : Isa Label ι σ} {code : List ι} {s s' s'' : σ}

theorem Steps.refl : M.Steps code s s := Relation.ReflTransGen.refl

theorem Steps.trans (h : M.Steps code s s') (h' : M.Steps code s' s'') : M.Steps code s s'' := Relation.ReflTransGen.trans h h'

/-- Execute one instruction, whose effect is known, and go on. -/
theorem Steps.next {i : ι} {s₁ : σ} (fetch : code[M.pc s]? = some i) (run : M.run code i s = s₁) (rest : M.Steps code s₁ s') :
    M.Steps code s s' := by
  refine Relation.ReflTransGen.head ?_ rest
  rw [step, fetch]
  exact run

/-- Execute one instruction and go on. -/
theorem Steps.cons {i : ι} (fetch : code[M.pc s]? = some i) (rest : M.Steps code (M.run code i s) s') : M.Steps code s s' :=
  .next fetch rfl rest

/-- A branch that is taken. -/
theorem Steps.branch {l : Label} (fetch : code[M.pc s]? = some (M.jz l)) (flag : M.zf s = true)
    (rest : M.Steps code (M.goto (M.target code l) s) s') : M.Steps code s s' :=
  .next fetch (by rw [M.run_jz, if_pos flag]) rest

/-- A branch that is not taken. -/
theorem Steps.fall {l : Label} (fetch : code[M.pc s]? = some (M.jz l)) (flag : M.zf s = false)
    (rest : M.Steps code (M.goto (M.pc s + 1) s) s') : M.Steps code s s' :=
  .next fetch (by rw [M.run_jz, if_neg (Bool.eq_false_iff.1 flag)]) rest

/-- `part` stands in the code from index `k` on. -/
def Part (part code : List ι) (k : Nat) : Prop := part <+: code.drop k

theorem Part.fetch {part : List ι} {k : Nat} {i : ι} (there : Part part code k) (j : Nat) (inside : part[j]? = some i) :
    code[k + j]? = some i := by
  obtain ⟨rest, split⟩ := there
  obtain ⟨bound, -⟩ := List.getElem?_eq_some_iff.1 inside
  rw [← List.getElem?_drop, ← split, List.getElem?_append_left bound, inside]

end Isa

/-! ## Instructions -/

/-- The general registers that the loops use. -/
inductive Reg where
  | eax
  | ecx
  | edx
  | esi
  | edi
  deriving DecidableEq, Repr

/-- The data segment registers. -/
inductive SegReg where
  | ds
  | es
  deriving DecidableEq, Repr

/-- Instructions under their assembler names, sources in front of destinations. -/
inductive Instr (Label : Type) where
  /-- A place in the code; nothing is executed. -/
  | label (l : Label)
  | testl (a b : Reg)
  | testlImm (imm : BitVec 32) (r : Reg)
  | jz (l : Label)
  | jmp (l : Label)
  /-- `movb (base), %al`. -/
  | movbLoad (base : Reg)
  /-- `movb %al, (base)`. -/
  | movbStore (base : Reg)
  | addlImm (imm : BitVec 32) (r : Reg)
  | sublImm (imm : BitVec 32) (r : Reg)
  | andlImm (imm : BitVec 32) (r : Reg)
  | shrlImm (count : Nat) (r : Reg)
  | movl (src dst : Reg)
  /-- `movw` from a segment register to the low half of a register. -/
  | movwLoad (src : SegReg) (dst : Reg)
  /-- `movw` to a segment register. -/
  | movwStore (src : Reg) (dst : SegReg)
  | cld
  | repMovsl
  deriving DecidableEq, Repr

/-- The registers, the two flags that matter, memory and the program counter. All
segments are flat: they begin at address 0. -/
structure State where
  eax : BitVec 32
  ecx : BitVec 32
  edx : BitVec 32
  esi : BitVec 32
  edi : BitVec 32
  ds : BitVec 16
  es : BitVec 16
  zf : Bool
  df : Bool
  mem : Memory
  pc : Nat

namespace State

def get (s : State) : Reg → BitVec 32
  | .eax => s.eax
  | .ecx => s.ecx
  | .edx => s.edx
  | .esi => s.esi
  | .edi => s.edi

def set (s : State) (r : Reg) (v : BitVec 32) : State :=
  match r with
  | .eax => { s with eax := v }
  | .ecx => { s with ecx := v }
  | .edx => { s with edx := v }
  | .esi => { s with esi := v }
  | .edi => { s with edi := v }

def getSeg (s : State) : SegReg → BitVec 16
  | .ds => s.ds
  | .es => s.es

def setSeg (s : State) (r : SegReg) (v : BitVec 16) : State :=
  match r with
  | .ds => { s with ds := v }
  | .es => { s with es := v }

end State

/-- A register with another low byte. -/
def setLow8 (v : BitVec 32) (b : UInt8) : BitVec 32 := v.extractLsb' 8 24 ++ b.toBitVec

/-- A register with another low half. -/
def setLow16 (v : BitVec 32) (w : BitVec 16) : BitVec 32 := v.extractLsb' 16 16 ++ w

/-- The low byte of a register. -/
def low8 (v : BitVec 32) : UInt8 := ⟨v.extractLsb' 0 8⟩

/-- `movsl` moves the four bytes at `src`, all read in front of the first store. -/
def moveDword (m : Memory) (dst src : Address) : Memory := fun a =>
  if (a - dst).toNat < 4 then m (src + (a - dst)) else m a

section
variable {Label : Type} [DecidableEq Label]

/-- The index of a label. -/
def target (code : List (Instr Label)) (l : Label) : Nat := code.findIdx (· = .label l)

/-- Set the result flag and go on. -/
def State.test (s : State) (v : BitVec 32) : State := { s with zf := decide (v = 0), pc := s.pc + 1 }

/-- Set a register and the result flag, and go on. -/
def State.compute (s : State) (r : Reg) (v : BitVec 32) : State :=
  { s.set r v with zf := decide (v = 0), pc := s.pc + 1 }

/-- Execute one instruction. `repMovsl` moves one double word, and stays where it is
until the count has run out. -/
def Instr.run (code : List (Instr Label)) (i : Instr Label) (s : State) : State :=
  match i with
  | .label _ => { s with pc := s.pc + 1 }
  | .testl a b => s.test (s.get a &&& s.get b)
  | .testlImm imm r => s.test (imm &&& s.get r)
  | .jz l => { s with pc := if s.zf then target code l else s.pc + 1 }
  | .jmp l => { s with pc := target code l }
  | .movbLoad base => { s with eax := setLow8 s.eax (s.mem (s.get base)), pc := s.pc + 1 }
  | .movbStore base => { s with mem := Function.update s.mem (s.get base) (low8 s.eax), pc := s.pc + 1 }
  | .addlImm imm r => s.compute r (s.get r + imm)
  | .sublImm imm r => s.compute r (s.get r - imm)
  | .andlImm imm r => s.compute r (s.get r &&& imm)
  | .shrlImm count r => s.compute r (s.get r >>> count)
  | .movl src dst => { s.set dst (s.get src) with pc := s.pc + 1 }
  | .movwLoad src dst => { s.set dst (setLow16 (s.get dst) (s.getSeg src)) with pc := s.pc + 1 }
  | .movwStore src dst => { s.setSeg dst ((s.get src).truncate 16) with pc := s.pc + 1 }
  | .cld => { s with df := false, pc := s.pc + 1 }
  | .repMovsl =>
    if s.ecx = 0 then { s with pc := s.pc + 1 }
    else
      let delta : BitVec 32 := if s.df then -4 else 4
      { s with
        mem := moveDword s.mem s.edi s.esi
        esi := s.esi + delta
        edi := s.edi + delta
        ecx := s.ecx - 1 }

/-- The processor of these instructions. -/
abbrev plainIsa (Label : Type) [DecidableEq Label] : Isa Label (Instr Label) State where
  run := Instr.run
  pc := State.pc
  goto k s := { s with pc := k }
  zf := State.zf
  jz := .jz
  target := target
  run_jz _ _ _ := rfl

abbrev Steps (code : List (Instr Label)) : State → State → Prop := (plainIsa Label).Steps code

abbrev Ended (code : List (Instr Label)) : State → Prop := (plainIsa Label).Ended code

end

theorem low8_setLow8 (v : BitVec 32) (b : UInt8) : low8 (setLow8 v b) = b := by
  apply UInt8.eq_of_toBitVec_eq
  show (v.extractLsb' 8 24 ++ b.toBitVec).extractLsb' 0 8 = b.toBitVec
  ext i inside
  rw [BitVec.getElem_extractLsb', Nat.zero_add, BitVec.getLsbD_append, if_pos inside, BitVec.getLsbD_eq_getElem inside]

/-! ## Copies -/

/-- The `n` bytes at `dst` and those at `src` are different ones. -/
def Apart (n : Nat) (dst src : Address) : Prop :=
  ∀ i < n, ∀ j < n, dst + BitVec.ofNat 32 i ≠ src + BitVec.ofNat 32 j

/-- `m'` is `m` with the `n` bytes at `src` copied to `dst`. -/
structure Copied (n : Nat) (dst src : Address) (m m' : Memory) : Prop where
  copied : ∀ k < n, m' (dst + BitVec.ofNat 32 k) = m (src + BitVec.ofNat 32 k)
  kept : ∀ a, (∀ k < n, a ≠ dst + BitVec.ofNat 32 k) → m' a = m a

theorem ofNat_add_ofNat (p : Address) (i j : Nat) :
    p + BitVec.ofNat 32 i + BitVec.ofNat 32 j = p + BitVec.ofNat 32 (i + j) := by
  rw [BitVec.add_assoc, BitVec.ofNat_add]

theorem toNat_ofNat_of_lt {k : Nat} (small : k < 2 ^ 32) : (BitVec.ofNat 32 k).toNat = k := by
  rw [BitVec.toNat_ofNat, Nat.mod_eq_of_lt small]

/-- Less than 2^32 bytes from a pointer on are different ones. -/
theorem offset_inj {p : Address} {i j : Nat} (small : i < 2 ^ 32) (small' : j < 2 ^ 32)
    (same : p + BitVec.ofNat 32 i = p + BitVec.ofNat 32 j) : i = j := by
  have equal := congrArg BitVec.toNat (BitVec.add_right_inj p |>.1 same)
  rwa [toNat_ofNat_of_lt small, toNat_ofNat_of_lt small'] at equal

/-- A counter that has not run out. -/
theorem counter_succ {v : BitVec 32} {n : Nat} (count : v.toNat = n + 1) : v ≠ 0 ∧ (v - 1).toNat = n := by
  have bound := v.isLt
  constructor
  · rintro rfl
    cases count
  · rw [BitVec.toNat_sub, count]
    show (2 ^ 32 - 1 + (n + 1)) % 2 ^ 32 = n
    omega

/-- Ranges that do not run over the end of memory and do not overlap. -/
theorem Apart.of_ranges {n : Nat} {dst src : Address} (inside : dst.toNat + n ≤ 2 ^ 32) (inside' : src.toNat + n ≤ 2 ^ 32)
    (apart : dst.toNat + n ≤ src.toNat ∨ src.toNat + n ≤ dst.toNat) : Apart n dst src := by
  intro i below j below' same
  have equal := congrArg BitVec.toNat same
  simp only [BitVec.toNat_add, BitVec.toNat_ofNat] at equal
  omega

theorem Apart.mono {n k : Nat} {dst src : Address} (apart : Apart n dst src) (less : k ≤ n) : Apart k dst src :=
  fun i below j below' => apart i (by omega) j (by omega)

theorem Apart.drop {j n : Nat} {dst src : Address} (apart : Apart (j + n) dst src) :
    Apart n (dst + BitVec.ofNat 32 j) (src + BitVec.ofNat 32 j) := by
  intro i below i' below'
  rw [ofNat_add_ofNat, ofNat_add_ofNat]
  exact apart (j + i) (by omega) (j + i') (by omega)

namespace Copied
variable {dst src : Address} {m m' m'' : Memory}

theorem nothing (dst src : Address) (m : Memory) : Copied 0 dst src m m :=
  ⟨fun k below => absurd below (Nat.not_lt_zero k), fun _ _ => rfl⟩

/-- A copy goes on where it stopped. -/
theorem append {j n : Nat} (h : Copied j dst src m m')
    (h' : Copied n (dst + BitVec.ofNat 32 j) (src + BitVec.ofNat 32 j) m' m'') (apart : Apart (j + n) dst src)
    (room : j + n ≤ 2 ^ 32) : Copied (j + n) dst src m m'' := by
  refine ⟨fun k below => ?_, fun a outside => ?_⟩
  · by_cases first : k < j
    · rw [h'.kept, h.copied k first]
      intro i inside same
      rw [ofNat_add_ofNat] at same
      have equal := offset_inj (by omega) (by omega) same
      omega
    · obtain ⟨i, rfl⟩ : ∃ i, k = j + i := ⟨k - j, by omega⟩
      have second := h'.copied i (by omega)
      rw [ofNat_add_ofNat, ofNat_add_ofNat] at second
      rw [second]
      -- the first part did not write what the second part reads
      exact h.kept _ fun i' inside same => apart i' (by omega) (j + i) below same.symm
  · rw [h'.kept a fun k inside => by rw [ofNat_add_ofNat]; exact outside (j + k) (by omega)]
    exact h.kept a fun k inside => outside k (by omega)

/-- One byte. -/
theorem byte (dst src : Address) (m : Memory) : Copied 1 dst src m (Function.update m dst (m src)) := by
  refine ⟨fun k below => ?_, fun a outside => ?_⟩
  · obtain rfl : k = 0 := by omega
    simp only [BitVec.add_zero, Function.update_self]
  · have other := outside 0 Nat.one_pos
    simp only [BitVec.add_zero] at other
    exact Function.update_of_ne other _ _

/-- Four bytes at once. -/
theorem dword (dst src : Address) (m : Memory) : Copied 4 dst src m (moveDword m dst src) := by
  refine ⟨fun k below => ?_, fun a outside => ?_⟩
  · have offset : dst + BitVec.ofNat 32 k - dst = BitVec.ofNat 32 k := by
      rw [BitVec.add_comm, BitVec.add_sub_cancel]
    have small : (BitVec.ofNat 32 k).toNat < 4 := by rw [BitVec.toNat_ofNat]; omega
    simp only [moveDword, offset, if_pos small]
  · rw [moveDword, if_neg]
    intro inside
    apply outside _ inside
    rw [BitVec.ofNat_toNat, BitVec.setWidth_eq, BitVec.add_comm, BitVec.sub_add_cancel]

/-- Each byte of memory after a copy. -/
theorem unique {n : Nat} (h : Copied n dst src m m') (h' : Copied n dst src m m'') : m' = m'' := by
  funext a
  by_cases inside : ∃ k < n, a = dst + BitVec.ofNat 32 k
  · obtain ⟨k, below, rfl⟩ := inside
    rw [h.copied k below, h'.copied k below]
  · have outside : ∀ k < n, a ≠ dst + BitVec.ofNat 32 k := fun k below same => inside ⟨k, below, same⟩
    rw [h.kept a outside, h'.kept a outside]

end Copied

/-- From `s` to `s'`, `n` bytes were copied and both pointers moved behind them. -/
structure Moved (n : Nat) (s s' : State) : Prop where
  edi : s'.edi = s.edi + BitVec.ofNat 32 n
  esi : s'.esi = s.esi + BitVec.ofNat 32 n
  mem : Copied n s.edi s.esi s.mem s'.mem

theorem Moved.nothing {s s' : State} (edi : s'.edi = s.edi) (esi : s'.esi = s.esi) (mem : s'.mem = s.mem) :
    Moved 0 s s' := by
  refine ⟨by rw [edi, BitVec.add_zero], by rw [esi, BitVec.add_zero], ?_⟩
  rw [mem]
  exact .nothing _ _ _

theorem Moved.append {j n : Nat} {s s' s'' : State} (h : Moved j s s') (h' : Moved n s' s'')
    (apart : Apart (j + n) s.edi s.esi) (room : j + n ≤ 2 ^ 32) : Moved (j + n) s s'' := by
  refine ⟨by rw [h'.edi, h.edi, ofNat_add_ofNat], by rw [h'.esi, h.esi, ofNat_add_ofNat], ?_⟩
  have rest := h'.mem
  rw [h.edi, h.esi] at rest
  exact h.mem.append rest apart room

/-- The part of the range that is still to be moved. -/
theorem Moved.rest {j n : Nat} {s s' : State} (moved : Moved j s s') (apart : Apart (j + n) s.edi s.esi) :
    Apart n s'.edi s'.esi := by
  rw [moved.edi, moved.esi]
  exact apart.drop

end Ia32
