import BigBrainOS.Theory.Ia32

/-!
# String instructions of a 32-bit processor

The processor of `Ia32` with the carry flag and with the instructions that fill
and move strings, upwards or downwards. `fill` and `moveBytes` say what they leave in
memory. A fill may run over the end of memory and over itself, since it stores the
same byte at an address every time; a move may overlap its source, if it begins at
the end from which it reads each byte before it is stored to.
-/

namespace Ia32
set_option autoImplicit false

/-! ## Instructions -/

inductive StringInstr (Label : Type) where
  | plain (i : Instr Label)
  /-- Set the flags from `b - a`. -/
  | cmpl (a b : Reg)
  /-- Jump if the last comparison did not borrow. -/
  | jae (l : Label)
  /-- `leal disp(base, index), dst`. -/
  | leal (disp : BitVec 32) (base index dst : Reg)
  | std
  | repMovsb
  | repStosw
  | repStosl
  deriving DecidableEq, Repr

/-- The processor with its carry flag. -/
structure StringState where
  cpu : State
  cf : Bool

/-- A byte of a register, the lowest one first. -/
def byteOf (v : BitVec 32) (k : Nat) : UInt8 := ⟨v.extractLsb' (8 * k) 8⟩

/-- `m` with the bytes `p` from `dst` on. -/
def fill (p : Nat → UInt8) (n : Nat) (dst : Address) (m : Memory) : Memory := fun a =>
  if (a - dst).toNat < n then p (a - dst).toNat else m a

/-- `m` with the bytes at `src` moved to `dst`, all read in front of the first store. -/
def moveBytes (n : Nat) (dst src : Address) (m : Memory) : Memory := fun a =>
  if (a - dst).toNat < n then m (src + (a - dst)) else m a

section
variable {Label : Type} [DecidableEq Label]

/-- The plain instructions, each at its place. -/
def plainCode (code : List (StringInstr Label)) : List (Instr Label) :=
  code.map fun
    | .plain i => i
    | _ => .cld

/-- The carry flag behind a plain instruction. -/
def Instr.carry (i : Instr Label) (s : State) (cf : Bool) : Bool :=
  match i with
  | .testl _ _ | .testlImm _ _ | .andlImm _ _ => false
  | .addlImm imm r => decide (2 ^ 32 ≤ (s.get r).toNat + imm.toNat)
  | .sublImm imm r => decide (s.get r < imm)
  | .shrlImm count r => if count = 0 then cf else (s.get r).getLsbD (count - 1)
  | _ => cf

/-- One round of `rep stos` with `width` bytes at a time. -/
def State.stos (width : Nat) (s : State) : State :=
  if s.ecx = 0 then { s with pc := s.pc + 1 }
  else
    let delta : BitVec 32 := if s.df then -BitVec.ofNat 32 width else BitVec.ofNat 32 width
    { s with mem := fill (byteOf s.eax) width s.edi s.mem, edi := s.edi + delta, ecx := s.ecx - 1 }

/-- One round of `rep movsb`. -/
def State.movsb (s : State) : State :=
  if s.ecx = 0 then { s with pc := s.pc + 1 }
  else
    let delta : BitVec 32 := if s.df then -1 else 1
    { s with
      mem := Function.update s.mem s.edi (s.mem s.esi)
      esi := s.esi + delta
      edi := s.edi + delta
      ecx := s.ecx - 1 }

/-- Execute one instruction. -/
def StringInstr.run (code : List (StringInstr Label)) (i : StringInstr Label) (s : StringState) : StringState :=
  match i with
  | .plain i => ⟨i.run (plainCode code) s.cpu, i.carry s.cpu s.cf⟩
  | .cmpl a b => ⟨s.cpu.test (s.cpu.get b - s.cpu.get a), decide (s.cpu.get b < s.cpu.get a)⟩
  | .jae l => { s with cpu := { s.cpu with pc := if s.cf then s.cpu.pc + 1 else target (plainCode code) l } }
  | .leal disp base index dst =>
    { s with cpu := { s.cpu.set dst (disp + s.cpu.get base + s.cpu.get index) with pc := s.cpu.pc + 1 } }
  | .std => { s with cpu := { s.cpu with df := true, pc := s.cpu.pc + 1 } }
  | .repMovsb => { s with cpu := s.cpu.movsb }
  | .repStosw => { s with cpu := s.cpu.stos 2 }
  | .repStosl => { s with cpu := s.cpu.stos 4 }

/-- The processor with its string instructions. -/
abbrev stringIsa (Label : Type) [DecidableEq Label] : Isa Label (StringInstr Label) StringState where
  run := StringInstr.run
  pc s := s.cpu.pc
  goto k s := { s with cpu := { s.cpu with pc := k } }
  zf s := s.cpu.zf
  jz l := .plain (.jz l)
  target code l := target (plainCode code) l
  run_jz _ _ _ := rfl

namespace StringState

abbrev Steps (code : List (StringInstr Label)) : StringState → StringState → Prop := (stringIsa Label).Steps code

abbrev Ended (code : List (StringInstr Label)) : StringState → Prop := (stringIsa Label).Ended code

variable {code : List (StringInstr Label)} {s s' : StringState}

/-- The comparison did not borrow. -/
theorem Steps.above {l : Label} (fetch : code[s.cpu.pc]? = some (.jae l)) (flag : s.cf = false)
    (rest : Steps code ⟨{ s.cpu with pc := target (plainCode code) l }, s.cf⟩ s') : Steps code s s' := by
  have run : StringInstr.run code (.jae l) s = ⟨{ s.cpu with pc := target (plainCode code) l }, s.cf⟩ := by
    simp only [StringInstr.run, flag, Bool.false_eq_true, if_false]
  exact .next fetch run rest

/-- The comparison borrowed. -/
theorem Steps.below {l : Label} (fetch : code[s.cpu.pc]? = some (.jae l)) (flag : s.cf = true)
    (rest : Steps code ⟨{ s.cpu with pc := s.cpu.pc + 1 }, s.cf⟩ s') : Steps code s s' := by
  have run : StringInstr.run code (.jae l) s = ⟨{ s.cpu with pc := s.cpu.pc + 1 }, s.cf⟩ := by
    simp only [StringInstr.run, flag, if_true]
  exact .next fetch run rest

end StringState

end

/-! ## Fills -/

section Fills
variable {p : Nat → UInt8} {dst a : Address} {m : Memory}

theorem fill_zero (p : Nat → UInt8) (dst : Address) (m : Memory) : fill p 0 dst m = m :=
  funext fun _ => if_neg (Nat.not_lt_zero _)

/-- The offset from a pointer further on. -/
theorem toNat_sub_add (a dst : Address) {j : Nat} (small : j < 2 ^ 32) :
    (a - (dst + BitVec.ofNat 32 j)).toNat = ((a - dst).toNat + (2 ^ 32 - j)) % 2 ^ 32 := by
  rw [← BitVec.sub_sub, BitVec.toNat_sub, toNat_ofNat_of_lt small, Nat.add_comm]

/-- **A fill goes on where it stopped**, and once around memory if its bytes repeat. -/
theorem fill_append {j : Nat} (n : Nat) (small : j < 2 ^ 32) (repeats : ∀ k, p (k + 2 ^ 32) = p k) (dst : Address) (m : Memory) :
    fill (fun k => p (j + k)) n (dst + BitVec.ofNat 32 j) (fill p j dst m) = fill p (j + n) dst m := by
  funext a
  have offset := toNat_sub_add a dst small
  have bound := (a - dst).isLt
  simp only [fill, offset]
  generalize (a - dst).toNat = x at bound
  by_cases before : x < j
  · have around : (x + (2 ^ 32 - j)) % 2 ^ 32 = x + (2 ^ 32 - j) := Nat.mod_eq_of_lt (by omega)
    have same : p (j + (x + (2 ^ 32 - j))) = p x := by
      rw [← repeats x]
      congr 1
      omega
    rw [around, if_pos before, if_pos (by omega : x < j + n), same, ite_self]
  · have behind : (x + (2 ^ 32 - j)) % 2 ^ 32 = x - j := by omega
    rw [behind, if_neg before]
    by_cases inside : x < j + n
    · rw [if_pos inside, if_pos (by omega : x - j < n), Nat.add_sub_cancel' (by omega)]
    · rw [if_neg inside, if_neg (by omega : ¬ x - j < n)]

/-- A single byte. -/
theorem fill_one (p : Nat → UInt8) (dst : Address) (m : Memory) : fill p 1 dst m = Function.update m dst (p 0) := by
  funext a
  rw [Function.update_apply, fill]
  by_cases same : a = dst
  · rw [if_pos same, same, BitVec.sub_self]
    rfl
  · have apart : (a - dst).toNat ≠ 0 := by
      intro zero
      apply same
      rw [← BitVec.sub_add_cancel a dst, BitVec.eq_of_toNat_eq (y := 0#32) zero, BitVec.zero_add]
    rw [if_neg same, if_neg (by omega)]

/-- Only the bytes that are stored matter. -/
theorem fill_congr {p' : Nat → UInt8} {n : Nat} (same : ∀ k < n, p k = p' k) (dst : Address) (m : Memory) :
    fill p n dst m = fill p' n dst m := by
  funext a
  simp only [fill]
  split
  · next inside => exact same _ inside
  · rfl

end Fills

/-- From `s` to `s'`, `n` bytes `b` were stored and the pointer moved behind them. -/
structure Filled (b : UInt8) (n : Nat) (s s' : State) : Prop where
  eax : s'.eax = s.eax
  edi : s'.edi = s.edi + BitVec.ofNat 32 n
  mem : s'.mem = fill (fun _ => b) n s.edi s.mem

namespace Filled
variable {b : UInt8} {s s' s'' : State}

theorem nothing (eax : s'.eax = s.eax) (edi : s'.edi = s.edi) (mem : s'.mem = s.mem) : Filled b 0 s s' := by
  constructor
  · exact eax
  · rw [edi, BitVec.add_zero]
  · rw [mem, fill_zero]

theorem byte (eax : s'.eax = s.eax) (edi : s'.edi = s.edi + 1) (mem : s'.mem = Function.update s.mem s.edi b) : Filled b 1 s s' := by
  constructor
  · exact eax
  · exact edi
  · rw [mem, fill_one]

/-- A fill goes on where it stopped. -/
theorem append {j n : Nat} (h : Filled b j s s') (h' : Filled b n s' s'') (small : j < 2 ^ 32) : Filled b (j + n) s s'' := by
  constructor
  · exact h'.eax.trans h.eax
  · rw [h'.edi, h.edi, ofNat_add_ofNat]
  · rw [h'.mem, h.mem, h.edi]
    exact fill_append n small (fun _ => rfl) _ _

end Filled

/-! ## `rep stos` -/

/-- The bytes that `rep stos` stores, `width` of them again and again. -/
def pattern (v : BitVec 32) (width k : Nat) : UInt8 := byteOf v (k % width)

section Stos
variable {Label : Type} [DecidableEq Label] {code : List (StringInstr Label)} {width : Nat}

/-- The instruction stores `width` bytes at a time. -/
def Stores (width : Nat) (i : StringInstr Label) : Prop :=
  ∀ (code : List (StringInstr Label)) (s : StringState), i.run code s = { s with cpu := s.cpu.stos width }

/-- **`rep stos` upwards** stores the pattern, as often as the count says. -/
theorem stos_loop {i : StringInstr Label} (stores : Stores width i) (divides : width ∣ 2 ^ 32) (narrow : width < 2 ^ 32) {n : Nat} :
    ∀ {s : StringState}, code[s.cpu.pc]? = some i → s.cpu.df = false → s.cpu.ecx.toNat = n →
      StringState.Steps code s ⟨{ s.cpu with
        mem := fill (pattern s.cpu.eax width) (width * n) s.cpu.edi s.cpu.mem
        edi := s.cpu.edi + BitVec.ofNat 32 (width * n)
        ecx := 0
        pc := s.cpu.pc + 1 }, s.cf⟩ := by
  have positive : 0 < width := Nat.pos_of_dvd_of_pos divides (by decide)
  induction n with
  | zero =>
    intro s fetch up count
    have done : s.cpu.ecx = 0 := BitVec.eq_of_toNat_eq count
    have run := stores code s
    rw [State.stos, if_pos done] at run
    refine .next fetch run ?_
    obtain ⟨⟨eax, ecx, edx, esi, edi, ds, es, zf, df, mem, pc⟩, cf⟩ := s
    dsimp only at done
    rw [done]
    simp only [Nat.mul_zero, fill_zero, BitVec.add_zero]
    exact .refl
  | succ n ih =>
    intro s fetch up count
    obtain ⟨more, next⟩ := counter_succ count
    have run := stores code s
    rw [State.stos, if_neg more, if_neg (by rw [up]; decide)] at run
    refine .next fetch run ?_
    refine .trans (ih fetch up next) ?_
    dsimp only
    have first : fill (byteOf s.cpu.eax) width s.cpu.edi s.cpu.mem = fill (pattern s.cpu.eax width) width s.cpu.edi s.cpu.mem :=
      fill_congr (fun k below => by rw [pattern, Nat.mod_eq_of_lt below]) _ _
    have shifted : pattern s.cpu.eax width = fun k => pattern s.cpu.eax width (width + k) := by
      funext k
      rw [pattern, pattern, Nat.add_mod_left]
    have repeats : ∀ k, pattern s.cpu.eax width (k + 2 ^ 32) = pattern s.cpu.eax width k := by
      intro k
      obtain ⟨c, whole⟩ := divides
      rw [pattern, pattern, whole, Nat.add_mul_mod_self_left]
    have together := fill_append (width * n) narrow repeats s.cpu.edi s.cpu.mem
    rw [← shifted, ← first] at together
    rw [together, ofNat_add_ofNat, show width + width * n = width * (n + 1) by rw [Nat.mul_succ, Nat.add_comm]]
    exact .refl

end Stos

/-! ## `rep movsb` -/

section Movsb
variable {Label : Type} [DecidableEq Label] {code : List (StringInstr Label)} {dst src : Address} {m : Memory} {n : Nat}

theorem moveBytes_zero (dst src : Address) (m : Memory) : moveBytes 0 dst src m = m :=
  funext fun _ => if_neg (Nat.not_lt_zero _)

/-- An offset that does not run over the end of memory. -/
theorem toNat_add_offset {p : Address} {x : BitVec 32} (inside : p.toNat + x.toNat < 2 ^ 32) : (p + x).toNat = p.toNat + x.toNat := by
  rw [BitVec.toNat_add, Nat.mod_eq_of_lt inside]

/-- **Upwards**: the first byte, then the others, where the source does not lie below the destination. -/
theorem moveBytes_up (inside : src.toNat + (n + 1) ≤ 2 ^ 32) (above : dst.toNat ≤ src.toNat) (m : Memory) :
    moveBytes n (dst + 1) (src + 1) (Function.update m dst (m src)) = moveBytes (n + 1) dst src m := by
  funext a
  obtain ⟨x, rfl⟩ : ∃ x, a = dst + x := ⟨a - dst, (add_sub_cancel dst a).symm⟩
  have offset : dst + x - (dst + 1) = x - 1 := add_sub_add_left_eq_sub x 1 dst
  have source : src + 1 + (x - 1) = src + x := by rw [add_assoc, add_sub_cancel]
  simp only [moveBytes, offset, source, add_sub_cancel_left]
  by_cases first : x = 0
  · subst first
    rw [if_neg (by show ¬ 2 ^ 32 - 1 < n; omega), if_pos (by show 0 < n + 1; omega), add_zero, add_zero, Function.update_self]
  · have positive : x.toNat ≠ 0 := fun zero => first (BitVec.eq_of_toNat_eq zero)
    have less : (x - 1).toNat = x.toNat - 1 := (counter_succ (n := x.toNat - 1) (by omega)).2
    have other : dst + x ≠ dst := fun same => first (left_eq_add.1 same.symm)
    rw [less, Function.update_of_ne other]
    by_cases moved : x.toNat < n + 1
    · have unread : src + x ≠ dst := by
        intro same
        have equal := congrArg BitVec.toNat same
        rw [toNat_add_offset (by omega)] at equal
        omega
      rw [if_pos moved, if_pos (by omega), Function.update_of_ne unread]
    · rw [if_neg moved, if_neg (by omega)]

/-- **Downwards**: the last byte, then the others, where the source lies below the destination. -/
theorem moveBytes_down (inside : dst.toNat + (n + 1) ≤ 2 ^ 32) (below : src.toNat < dst.toNat) (m : Memory) :
    moveBytes n dst src (Function.update m (dst + BitVec.ofNat 32 n) (m (src + BitVec.ofNat 32 n))) = moveBytes (n + 1) dst src m := by
  funext a
  obtain ⟨x, rfl⟩ : ∃ x, a = dst + x := ⟨a - dst, (add_sub_cancel dst a).symm⟩
  have last : (BitVec.ofNat 32 n).toNat = n := toNat_ofNat_of_lt (by omega)
  simp only [moveBytes, add_sub_cancel_left]
  rcases Nat.lt_trichotomy x.toNat n with before | at_ | behind
  · have unread : src + x ≠ dst + BitVec.ofNat 32 n := by
      intro same
      have equal := congrArg BitVec.toNat same
      rw [toNat_add_offset (by omega), toNat_add_offset (by omega)] at equal
      omega
    rw [if_pos before, if_pos (by omega), Function.update_of_ne unread]
  · obtain rfl : x = BitVec.ofNat 32 n := BitVec.eq_of_toNat_eq (at_.trans last.symm)
    rw [if_neg (by omega), if_pos (by omega), Function.update_self]
  · have other : dst + x ≠ dst + BitVec.ofNat 32 n := by
      intro same
      have equal := congrArg BitVec.toNat (add_left_cancel same)
      omega
    rw [if_neg (by omega), if_neg (by omega), Function.update_of_ne other]

/-- **`rep movsb` upwards** moves the bytes, where the source does not lie below the destination. -/
theorem movsb_up : ∀ {s : StringState}, code[s.cpu.pc]? = some .repMovsb → s.cpu.df = false → s.cpu.ecx.toNat = n →
    (0 < n → s.cpu.esi.toNat + n ≤ 2 ^ 32 ∧ s.cpu.edi.toNat ≤ s.cpu.esi.toNat) →
      StringState.Steps code s ⟨{ s.cpu with
        mem := moveBytes n s.cpu.edi s.cpu.esi s.cpu.mem
        esi := s.cpu.esi + BitVec.ofNat 32 n
        edi := s.cpu.edi + BitVec.ofNat 32 n
        ecx := 0
        pc := s.cpu.pc + 1 }, s.cf⟩ := by
  induction n with
  | zero =>
    intro s fetch up count _
    have done : s.cpu.ecx = 0 := BitVec.eq_of_toNat_eq count
    have run : StringInstr.run code .repMovsb s = { s with cpu := s.cpu.movsb } := rfl
    rw [State.movsb, if_pos done] at run
    refine .next fetch run ?_
    obtain ⟨⟨eax, ecx, edx, esi, edi, ds, es, zf, df, mem, pc⟩, cf⟩ := s
    dsimp only at done
    rw [done]
    simp only [moveBytes_zero, BitVec.add_zero]
    exact .refl
  | succ n ih =>
    intro s fetch up count place
    obtain ⟨more, next⟩ := counter_succ count
    obtain ⟨inside, above⟩ := place n.succ_pos
    have run : StringInstr.run code .repMovsb s = { s with cpu := s.cpu.movsb } := rfl
    rw [State.movsb, if_neg more, if_neg (by rw [up]; decide)] at run
    refine .next fetch run ?_
    refine .trans (ih fetch up next ?_) ?_
    · intro positive
      dsimp only
      have source : (s.cpu.esi + 1).toNat = s.cpu.esi.toNat + 1 := toNat_add_offset (by show _ + 1 < _; omega)
      have destination : (s.cpu.edi + 1).toNat = s.cpu.edi.toNat + 1 := toNat_add_offset (by show _ + 1 < _; omega)
      omega
    · dsimp only
      have pointer : ∀ v : BitVec 32, v + 1 + BitVec.ofNat 32 n = v + BitVec.ofNat 32 (n + 1) := by
        intro v
        rw [Nat.add_comm n 1]
        exact ofNat_add_ofNat v 1 n
      rw [moveBytes_up inside above, pointer, pointer]
      exact .refl

/-- **`rep movsb` downwards** from the last bytes, where the source lies below the destination. -/
theorem movsb_down (room : dst.toNat + n ≤ 2 ^ 32) (below : src.toNat < dst.toNat) :
    ∀ {s : StringState}, code[s.cpu.pc]? = some .repMovsb → s.cpu.df = true → s.cpu.ecx.toNat = n →
      s.cpu.edi = dst + BitVec.ofNat 32 n - 1 → s.cpu.esi = src + BitVec.ofNat 32 n - 1 →
        StringState.Steps code s ⟨{ s.cpu with
          mem := moveBytes n dst src s.cpu.mem
          esi := src - 1
          edi := dst - 1
          ecx := 0
          pc := s.cpu.pc + 1 }, s.cf⟩ := by
  induction n with
  | zero =>
    intro s fetch down count last last'
    have done : s.cpu.ecx = 0 := BitVec.eq_of_toNat_eq count
    have run : StringInstr.run code .repMovsb s = { s with cpu := s.cpu.movsb } := rfl
    rw [State.movsb, if_pos done] at run
    refine .next fetch run ?_
    obtain ⟨⟨eax, ecx, edx, esi, edi, ds, es, zf, df, mem, pc⟩, cf⟩ := s
    dsimp only at done last last'
    rw [done, last, last']
    simp only [moveBytes_zero, BitVec.add_zero]
    exact .refl
  | succ n ih =>
    intro s fetch down count last last'
    obtain ⟨more, next⟩ := counter_succ count
    have pointer : ∀ v : BitVec 32, v + BitVec.ofNat 32 (n + 1) - 1 = v + BitVec.ofNat 32 n := by
      intro v
      rw [← ofNat_add_ofNat]
      exact add_sub_cancel_right _ _
    rw [pointer] at last last'
    have run : StringInstr.run code .repMovsb s = { s with cpu := s.cpu.movsb } := rfl
    rw [State.movsb, if_neg more, if_pos down] at run
    refine .next fetch run ?_
    refine .trans (ih (by omega) fetch down next ?_ ?_) ?_
    · show s.cpu.edi + -1 = _
      rw [last, sub_eq_add_neg]
    · show s.cpu.esi + -1 = _
      rw [last', sub_eq_add_neg]
    · dsimp only
      rw [last, last', moveBytes_down room below]
      exact .refl

end Movsb

end Ia32
