import BigBrainOS.Kernel.Memset

/-!
# What `memset` and `memmove` leave in memory

`memset` fills in three loops, as `memcpy` copies: single bytes, double words, single
bytes. `memmove` decides between the two directions, and in the one it takes each byte
is read in front of the first store to it.
-/

namespace BigBrainOS
set_option autoImplicit false
open Ia32

/-! ## The value that is stored -/

/-- Each byte of the register is the low byte of the argument. -/
theorem byteOf_memsetValue (c : BitVec 32) {k : Nat} (inside : k < 4) : byteOf (memsetValue c) k = low8 c := by
  apply UInt8.eq_of_toBitVec_eq
  show (memsetValue c).extractLsb' (8 * k) 8 = c.extractLsb' 0 8
  ext i bound
  interval_cases k <;> interval_cases i <;> simp [memsetValue]

theorem low8_memsetValue (c : BitVec 32) : low8 (memsetValue c) = low8 c := byteOf_memsetValue c (k := 0) (by decide)

/-! ## The rounds of `memset` -/

section Rounds
variable {s : StringState}

/-- The instructions that store a byte and count it in `c`. -/
def storeByte (c : Reg) (l : MemsetLabel) : List (StringInstr MemsetLabel) :=
  [.plain (.movbStore .edi), .plain (.addlImm 1 .edi), .plain (.sublImm 1 c), .plain (.jmp l)]

/-- One byte, in either loop. -/
theorem fill_byte_round {c : Reg} (counter : c = .ecx ∨ c = .edx) {l : MemsetLabel}
    (there : Isa.Part (storeByte c l) memsetCode s.cpu.pc) :
    ∃ s', StringState.Steps memsetCode s s' ∧ Filled (low8 s.cpu.eax) 1 s.cpu s'.cpu ∧
      s'.cpu.pc = target (plainCode memsetCode) l ∧ s'.cpu.get c = s.cpu.get c - 1 := by
  let stored : State := { s.cpu with mem := Function.update s.cpu.mem s.cpu.edi (low8 s.cpu.eax), edi := s.cpu.edi + 1 }
  let rest := stored.get c - 1
  refine ⟨⟨{ stored.set c rest with zf := decide (rest = 0), pc := target (plainCode memsetCode) l },
    decide (stored.get c < 1)⟩, ?steps, ?stored⟩
  case steps =>
    refine .cons (i := .plain (.movbStore .edi)) (there.fetch 0 rfl) ?_
    refine .cons (i := .plain (.addlImm 1 .edi)) (there.fetch 1 rfl) ?_
    refine .cons (i := .plain (.sublImm 1 c)) (there.fetch 2 rfl) (.cons (i := .plain (.jmp l)) (there.fetch 3 rfl) ?_)
    rcases counter with rfl | rfl <;> exact .refl
  case stored =>
    rcases counter with rfl | rfl <;> exact ⟨.byte rfl rfl rfl, rfl, rfl⟩

/-- The test of a counter at the beginning of a round. -/
def fillTest (c : Reg) (l : MemsetLabel) : List (StringInstr MemsetLabel) :=
  [.plain (.label l), .plain (.testl c c), .plain (.jz .done)]

theorem fill_test_more {c : Reg} {l : MemsetLabel} (there : Isa.Part (fillTest c l) memsetCode s.cpu.pc)
    (more : s.cpu.get c ≠ 0) :
    ∃ zf, StringState.Steps memsetCode s ⟨{ s.cpu with zf := zf, pc := s.cpu.pc + 3 }, false⟩ := by
  have unset : decide (s.cpu.get c &&& s.cpu.get c = 0) = false := decide_eq_false (by rw [BitVec.and_self]; exact more)
  refine ⟨decide (s.cpu.get c &&& s.cpu.get c = 0), ?_⟩
  refine .cons (i := .plain (.label l)) (there.fetch 0 rfl) (.cons (i := .plain (.testl c c)) (there.fetch 1 rfl) ?_)
  exact .fall (there.fetch 2 rfl) unset .refl

theorem fill_test_done {c : Reg} {l : MemsetLabel} (there : Isa.Part (fillTest c l) memsetCode s.cpu.pc)
    (empty : s.cpu.get c = 0) :
    ∃ zf, StringState.Steps memsetCode s ⟨{ s.cpu with zf := zf, pc := 24 }, false⟩ := by
  have set : decide (s.cpu.get c &&& s.cpu.get c = 0) = true := decide_eq_true (by rw [BitVec.and_self]; exact empty)
  refine ⟨decide (s.cpu.get c &&& s.cpu.get c = 0), ?_⟩
  refine .cons (i := .plain (.label l)) (there.fetch 0 rfl) (.cons (i := .plain (.testl c c)) (there.fetch 1 rfl) ?_)
  exact .branch (there.fetch 2 rfl) set .refl

/-- A byte in front of the aligned part. -/
theorem fill_head_round (at_top : s.cpu.pc = 0) (more : s.cpu.ecx ≠ 0) (unaligned : 0x3 &&& s.cpu.edi ≠ 0) :
    ∃ s', StringState.Steps memsetCode s s' ∧ Filled (low8 s.cpu.eax) 1 s.cpu s'.cpu ∧ s'.cpu.pc = 0 ∧
      s'.cpu.ecx = s.cpu.ecx - 1 := by
  obtain ⟨zf, tested⟩ := fill_test_more (s := s) (c := .ecx) (l := .top) (by rw [at_top]; exact ⟨_, rfl⟩) more
  rw [at_top] at tested
  let s₁ : StringState := ⟨{ s.cpu with zf := decide (0x3 &&& s.cpu.edi = 0), pc := 5 }, false⟩
  obtain ⟨s', steps, filled, back, count⟩ := fill_byte_round (s := s₁) (c := .ecx) (.inl rfl) (l := .top) ⟨_, rfl⟩
  refine ⟨s', tested.trans ?_, ⟨filled.eax, filled.edi, filled.mem⟩, back, count⟩
  exact .cons (i := .plain (.testlImm 0x3 .edi)) rfl (.fall (l := .aligned) rfl (decide_eq_false unaligned) steps)

/-- The first loop ends: nothing is left, or the destination is aligned. -/
theorem fill_head_end (at_top : s.cpu.pc = 0) (stop : s.cpu.ecx = 0 ∨ 0x3 &&& s.cpu.edi = 0) :
    ∃ s', StringState.Steps memsetCode s s' ∧ Filled (low8 s.cpu.eax) 0 s.cpu s'.cpu ∧ s'.cpu.ecx = s.cpu.ecx ∧
      (s.cpu.ecx = 0 ∧ s'.cpu.pc = 24 ∨ s.cpu.ecx ≠ 0 ∧ s'.cpu.pc = 9) := by
  have there : Isa.Part (fillTest .ecx .top) memsetCode s.cpu.pc := by
    rw [at_top]
    exact ⟨_, rfl⟩
  by_cases empty : s.cpu.ecx = 0
  · obtain ⟨zf, tested⟩ := fill_test_done there empty
    exact ⟨_, tested, .nothing rfl rfl rfl, rfl, Or.inl ⟨empty, rfl⟩⟩
  · have aligned := stop.resolve_left empty
    obtain ⟨zf, tested⟩ := fill_test_more there empty
    rw [at_top] at tested
    let s₁ : StringState := ⟨{ s.cpu with zf := decide (0x3 &&& s.cpu.edi = 0), pc := 9 }, false⟩
    refine ⟨s₁, tested.trans (.cons (i := .plain (.testlImm 0x3 .edi)) rfl ?_), .nothing rfl rfl rfl, rfl, Or.inr ⟨empty, rfl⟩⟩
    exact .branch (l := .aligned) rfl (decide_eq_true aligned) .refl

/-- The counters of the other two loops. -/
theorem fill_split_counter (b : UInt8) (at_aligned : s.cpu.pc = 9) :
    ∃ s', StringState.Steps memsetCode s s' ∧ Filled b 0 s.cpu s'.cpu ∧ s'.cpu.pc = 16 ∧ s'.cpu.df = false ∧
      s'.cpu.ecx = s.cpu.ecx >>> 2 ∧ s'.cpu.edx = s.cpu.ecx &&& 0x3 := by
  obtain ⟨⟨eax, ecx, edx, esi, edi, ds, es, zf, df, mem, pc⟩, cf⟩ := s
  dsimp only at at_aligned
  subst at_aligned
  refine ⟨⟨⟨eax, ecx >>> 2, ecx &&& 0x3, esi, edi, ds, (setLow16 edx ds).truncate 16, decide (ecx &&& 0x3 = 0), false,
    mem, 16⟩, false⟩, ?_, .nothing rfl rfl rfl, rfl, rfl, rfl, rfl⟩
  refine .cons (i := .plain (.label .aligned)) rfl (.cons (i := .plain (.movwLoad .ds .edx)) rfl ?_)
  refine .cons (i := .plain (.movwStore .edx .es)) rfl (.cons (i := .plain (.movl .ecx .edx)) rfl ?_)
  refine .cons (i := .plain (.shrlImm 2 .ecx)) rfl (.cons (i := .plain (.andlImm 0x3 .edx)) rfl ?_)
  exact .cons (i := .plain .cld) rfl .refl

/-- A byte behind the double words. -/
theorem fill_tail_round (at_bottom : s.cpu.pc = 17) (more : s.cpu.edx ≠ 0) :
    ∃ s', StringState.Steps memsetCode s s' ∧ Filled (low8 s.cpu.eax) 1 s.cpu s'.cpu ∧ s'.cpu.pc = 17 ∧
      s'.cpu.edx = s.cpu.edx - 1 := by
  obtain ⟨zf, tested⟩ := fill_test_more (s := s) (c := .edx) (l := .bottom) (by rw [at_bottom]; exact ⟨_, rfl⟩) more
  rw [at_bottom] at tested
  let s₁ : StringState := ⟨{ s.cpu with zf := zf, pc := 20 }, false⟩
  obtain ⟨s', steps, filled, back, count⟩ := fill_byte_round (s := s₁) (c := .edx) (.inr rfl) (l := .bottom) ⟨_, rfl⟩
  exact ⟨s', tested.trans steps, ⟨filled.eax, filled.edi, filled.mem⟩, back, count⟩

theorem fill_tail_end (b : UInt8) (at_bottom : s.cpu.pc = 17) (done : s.cpu.edx = 0) :
    ∃ s', StringState.Steps memsetCode s s' ∧ Filled b 0 s.cpu s'.cpu ∧ s'.cpu.pc = 24 := by
  obtain ⟨zf, tested⟩ := fill_test_done (s := s) (c := .edx) (l := .bottom) (by rw [at_bottom]; exact ⟨_, rfl⟩) done
  exact ⟨_, tested, .nothing rfl rfl rfl, rfl⟩

end Rounds

/-! ## The loops of `memset` -/

section Loops

/-- The first loop stores some of the bytes, and all of them if it leads to the end. -/
theorem fill_head_loop {n : Nat} (small : n < 2 ^ 32) : ∀ {s : StringState}, s.cpu.pc = 0 → s.cpu.ecx.toNat = n →
    ∃ k r s', k + r = n ∧ StringState.Steps memsetCode s s' ∧ Filled (low8 s.cpu.eax) k s.cpu s'.cpu ∧
      s'.cpu.ecx.toNat = r ∧ (r = 0 ∧ s'.cpu.pc = 24 ∨ s'.cpu.pc = 9) := by
  induction n with
  | zero =>
    intro s at_top count
    obtain ⟨s', steps, filled, ecx, ended⟩ := fill_head_end at_top (Or.inl (BitVec.eq_of_toNat_eq count))
    refine ⟨0, 0, s', rfl, steps, filled, by rw [ecx, count], ?_⟩
    exact ended.imp (fun h => ⟨rfl, h.2⟩) fun h => h.2
  | succ n ih =>
    intro s at_top count
    obtain ⟨more, next⟩ := counter_succ count
    by_cases aligned : 0x3 &&& s.cpu.edi = 0
    · obtain ⟨s', steps, filled, ecx, ended⟩ := fill_head_end at_top (Or.inr aligned)
      refine ⟨0, n + 1, s', by omega, steps, filled, by rw [ecx, count], Or.inr ?_⟩
      rcases ended with ⟨empty, -⟩ | ⟨-, pc⟩
      · exact absurd empty more
      · exact pc
    · obtain ⟨s₁, round, filled, pc, ecx⟩ := fill_head_round at_top more aligned
      obtain ⟨k, r, s', split, steps, filled', count', ended⟩ := ih (by omega) pc (by rw [ecx, next])
      rw [filled.eax] at filled'
      exact ⟨1 + k, r, s', by omega, round.trans steps, filled.append filled' (by decide), count', ended⟩

/-- The second loop stores four bytes for each count. -/
theorem fill_body_loop {b : UInt8} {s : StringState} (at_rep : s.cpu.pc = 16) (up : s.cpu.df = false)
    (uniform : ∀ k < 4, byteOf s.cpu.eax k = b) :
    ∃ s', StringState.Steps memsetCode s s' ∧ Filled b (4 * s.cpu.ecx.toNat) s.cpu s'.cpu ∧ s'.cpu.pc = 17 ∧
      s'.cpu.edx = s.cpu.edx := by
  have stores : @Stores MemsetLabel _ 4 .repStosl := fun _ _ => rfl
  have fetch : memsetCode[s.cpu.pc]? = some .repStosl := by
    rw [at_rep]
    rfl
  have same : pattern s.cpu.eax 4 = fun _ => b := by
    funext k
    exact uniform _ (Nat.mod_lt _ (by decide))
  have steps := stos_loop stores (by decide) (by decide) fetch up rfl
  rw [same] at steps
  refine ⟨_, steps, ⟨rfl, rfl, rfl⟩, ?_, rfl⟩
  show s.cpu.pc + 1 = 17
  rw [at_rep]

/-- The third loop stores the bytes that are left. -/
theorem fill_tail_loop {n : Nat} : ∀ {s : StringState}, s.cpu.pc = 17 → s.cpu.edx.toNat = n →
    ∃ s', StringState.Steps memsetCode s s' ∧ Filled (low8 s.cpu.eax) n s.cpu s'.cpu ∧ s'.cpu.pc = 24 := by
  induction n with
  | zero =>
    intro s at_bottom count
    exact fill_tail_end _ at_bottom (BitVec.eq_of_toNat_eq count)
  | succ n ih =>
    intro s at_bottom count
    obtain ⟨more, next⟩ := counter_succ count
    obtain ⟨s₁, round, filled, pc, edx⟩ := fill_tail_round at_bottom more
    obtain ⟨s', steps, filled', pc'⟩ := ih pc (by rw [edx, next])
    rw [filled.eax] at filled'
    rw [Nat.add_comm]
    exact ⟨s', round.trans steps, filled.append filled' (by decide), pc'⟩

/-- From the aligned part on, the double words and the bytes behind them make up the count. -/
theorem fill_aligned_part {s : StringState} (at_aligned : s.cpu.pc = 9)
    (uniform : ∀ k < 4, byteOf s.cpu.eax k = low8 s.cpu.eax) :
    ∃ s', StringState.Steps memsetCode s s' ∧ Filled (low8 s.cpu.eax) s.cpu.ecx.toNat s.cpu s'.cpu ∧ s'.cpu.pc = 24 := by
  have small := s.cpu.ecx.isLt
  obtain ⟨s₁, steps₁, filled₁, pc₁, up₁, ecx₁, edx₁⟩ := fill_split_counter (low8 s.cpu.eax) at_aligned
  rw [← filled₁.eax] at uniform
  obtain ⟨s₂, steps₂, filled₂, pc₂, edx₂⟩ := fill_body_loop pc₁ up₁ uniform
  obtain ⟨s₃, steps₃, filled₃, pc₃⟩ := fill_tail_loop pc₂ rfl
  have words : s₁.cpu.ecx.toNat = s.cpu.ecx.toNat / 4 := by
    rw [ecx₁, BitVec.toNat_ushiftRight, Nat.shiftRight_eq_div_pow]
  have rest : s₂.cpu.edx.toNat = s.cpu.ecx.toNat % 4 := by
    rw [edx₂, edx₁, BitVec.toNat_and]
    exact Nat.and_two_pow_sub_one_eq_mod _ 2
  rw [filled₂.eax] at filled₃
  rw [words, filled₁.eax] at filled₂
  rw [rest, filled₁.eax] at filled₃
  have filled := filled₁.append (filled₂.append filled₃ (by omega)) (by decide)
  rw [Nat.zero_add, Nat.div_add_mod] at filled
  exact ⟨s₃, steps₁.trans (steps₂.trans steps₃), filled, pc₃⟩

end Loops

/-! ## Fills -/

/-- **`memset` is the byte fill**, wherever it begins and also over the end of memory: the code
ends, and has stored the low byte of `c` in each of the `n` bytes and nothing anywhere else. -/
theorem memset_fills (dest : Address) (c n : BitVec 32) (s : StringState) :
    ∃ s', StringState.Steps memsetCode (memsetStart dest c n s) s' ∧ StringState.Ended memsetCode s' ∧
      ∀ a, s'.cpu.mem a = if (a - dest).toNat < n.toNat then low8 c else s.cpu.mem a := by
  have uniform : ∀ k < 4, byteOf (memsetValue c) k = low8 (memsetValue c) := by
    intro k inside
    rw [byteOf_memsetValue c inside, low8_memsetValue]
  obtain ⟨k, r, s₁, split, steps₁, filled₁, count₁, ended⟩ :=
    fill_head_loop n.isLt (s := memsetStart dest c n s) rfl rfl
  have fills : ∃ s₂, StringState.Steps memsetCode s₁ s₂ ∧ Filled (low8 (memsetValue c)) r s₁.cpu s₂.cpu ∧
      s₂.cpu.pc = 24 := by
    rcases ended with ⟨rfl, pc⟩ | pc
    · exact ⟨s₁, .refl, .nothing rfl rfl rfl, pc⟩
    · have uniform₁ : ∀ k < 4, byteOf s₁.cpu.eax k = low8 s₁.cpu.eax := by
        rw [filled₁.eax]
        exact uniform
      have part := fill_aligned_part pc uniform₁
      rwa [count₁, filled₁.eax] at part
  obtain ⟨s₂, steps₂, filled₂, pc₂⟩ := fills
  have filled := filled₁.append filled₂ (by omega)
  rw [split] at filled
  have fetch : memsetCode[s₂.cpu.pc]? = some (.plain (.label .done)) := by
    rw [pc₂]
    rfl
  have last : StringState.Steps memsetCode s₂ ⟨{ s₂.cpu with pc := s₂.cpu.pc + 1 }, s₂.cf⟩ := .cons fetch .refl
  refine ⟨_, steps₁.trans (steps₂.trans last), ?_, ?_⟩
  · show 25 ≤ s₂.cpu.pc + 1
    omega
  · intro a
    show s₂.cpu.mem a = _
    rw [filled.mem, ← low8_memsetValue c]
    rfl

section Wide
variable {width : Nat} {i : StringInstr Empty}

/-- The code of the two wide fills, whatever their last instruction stores. -/
theorem wide_fills (stores : Stores width i) (divides : width ∣ 2 ^ 32) (narrow : width < 2 ^ 32) (dest : Address)
    (c n : BitVec 32) (s : StringState) :
    let code : List (StringInstr Empty) := [.plain (.movwLoad .ds .edx), .plain (.movwStore .edx .es), .plain .cld, i]
    ∃ s', StringState.Steps code (memsetWideStart dest c n s) s' ∧ StringState.Ended code s' ∧
      s'.cpu.mem = fill (pattern c width) (width * n.toNat) dest s.cpu.mem := by
  intro code
  obtain ⟨⟨eax, ecx, edx, esi, edi, ds, es, zf, df, mem, pc⟩, cf⟩ := s
  let s₁ : StringState := ⟨⟨c, n, setLow16 edx ds, esi, dest, ds, (setLow16 edx ds).truncate 16, zf, false, mem, 3⟩, cf⟩
  have prepared : StringState.Steps code
      (memsetWideStart dest c n ⟨⟨eax, ecx, edx, esi, edi, ds, es, zf, df, mem, pc⟩, cf⟩) s₁ := by
    refine .cons (i := .plain (.movwLoad .ds .edx)) rfl (.cons (i := .plain (.movwStore .edx .es)) rfl ?_)
    exact .cons (i := .plain .cld) rfl .refl
  have fetch : code[s₁.cpu.pc]? = some i := rfl
  have stored := stos_loop stores divides narrow fetch rfl rfl
  exact ⟨_, prepared.trans stored, Nat.le_refl 4, rfl⟩

end Wide

/-- **`memset_word` and `memset_dword` store the low two bytes, and all four, of `c`** again and
again, `n` times, wherever they begin and also over the end of memory. -/
theorem memset_wide_fills (dest : Address) (c n : BitVec 32) (s : StringState) :
    (∃ s', StringState.Steps memsetWordCode (memsetWideStart dest c n s) s' ∧ StringState.Ended memsetWordCode s' ∧
      ∀ a, s'.cpu.mem a = if (a - dest).toNat < 2 * n.toNat then byteOf c ((a - dest).toNat % 2) else s.cpu.mem a) ∧
    ∃ s', StringState.Steps memsetDwordCode (memsetWideStart dest c n s) s' ∧ StringState.Ended memsetDwordCode s' ∧
      ∀ a, s'.cpu.mem a = if (a - dest).toNat < 4 * n.toNat then byteOf c ((a - dest).toNat % 4) else s.cpu.mem a := by
  have word : @Stores Empty _ 2 .repStosw := fun _ _ => rfl
  have dword : @Stores Empty _ 4 .repStosl := fun _ _ => rfl
  constructor
  · obtain ⟨s', steps, ended, mem⟩ := wide_fills word (by decide) (by decide) dest c n s
    exact ⟨s', steps, ended, fun a => congrFun mem a⟩
  · obtain ⟨s', steps, ended, mem⟩ := wide_fills dword (by decide) (by decide) dest c n s
    exact ⟨s', steps, ended, fun a => congrFun mem a⟩

/-! ## Moves -/

/-- The pointer to the last byte. -/
theorem last_byte (p : Address) (n : BitVec 32) : -1 + p + n = p + BitVec.ofNat 32 n.toNat - 1 := by
  rw [BitVec.ofNat_toNat, BitVec.setWidth_eq, add_assoc, neg_add_eq_sub]

/-- **`memmove` moves overlapping ranges too**: the code ends, each byte of the destination is what
the source held in front of the move, and no other byte changes. It leaves the direction flag
set exactly if it moved downwards. -/
theorem memmove_moves (dest src : Address) (n : BitVec 32) (s : StringState) (inside : dest.toNat + n.toNat ≤ 2 ^ 32)
    (inside' : src.toNat + n.toNat ≤ 2 ^ 32) :
    ∃ s', StringState.Steps memmoveCode (memmoveStart dest src n s) s' ∧ StringState.Ended memmoveCode s' ∧
      (∀ a, s'.cpu.mem a = if (a - dest).toNat < n.toNat then s.cpu.mem (src + (a - dest)) else s.cpu.mem a) ∧
      s'.cpu.df = decide (src < dest) := by
  obtain ⟨⟨eax, ecx, edx, esi, edi, ds, es, zf, df, mem, pc⟩, cf⟩ := s
  let edx' := setLow16 edx ds
  let equal := decide (src - dest = 0)
  let s₁ : StringState :=
    ⟨⟨eax, n, edx', src, dest, ds, edx'.truncate 16, equal, false, mem, 4⟩, decide (src < dest)⟩
  have compared : StringState.Steps memmoveCode
      (memmoveStart dest src n ⟨⟨eax, ecx, edx, esi, edi, ds, es, zf, df, mem, pc⟩, cf⟩) s₁ := by
    refine .cons (i := .plain (.movwLoad .ds .edx)) rfl (.cons (i := .plain (.movwStore .edx .es)) rfl ?_)
    exact .cons (i := .plain .cld) rfl (.cons (i := .cmpl .edi .esi) rfl .refl)
  by_cases below : src < dest
  · -- downwards, from the last bytes on
    let s₂ : StringState :=
      ⟨⟨eax, n, edx', -1 + src + n, -1 + dest + n, ds, edx'.truncate 16, equal, true, mem, 9⟩, decide (src < dest)⟩
    have turned : StringState.Steps memmoveCode s₁ s₂ := by
      refine .below (l := .go) rfl (decide_eq_true below) ?_
      refine .cons (i := .leal (-1) .esi .ecx .esi) rfl (.cons (i := .leal (-1) .edi .ecx .edi) rfl ?_)
      exact .cons (i := .std) rfl (.cons (i := .plain (.label .go)) rfl .refl)
    have fetch : memmoveCode[s₂.cpu.pc]? = some .repMovsb := rfl
    have moved := movsb_down inside (BitVec.lt_def.1 below) fetch rfl rfl (last_byte dest n) (last_byte src n)
    exact ⟨_, compared.trans (turned.trans moved), Nat.le_refl 10, fun _ => rfl, (decide_eq_true below).symm⟩
  · let s₂ : StringState :=
      ⟨⟨eax, n, edx', src, dest, ds, edx'.truncate 16, equal, false, mem, 9⟩, decide (src < dest)⟩
    have kept : StringState.Steps memmoveCode s₁ s₂ :=
      .above (l := .go) rfl (decide_eq_false below) (.cons (i := .plain (.label .go)) rfl .refl)
    have above : dest.toNat ≤ src.toNat := Nat.le_of_not_lt fun less => below (BitVec.lt_def.2 less)
    have fetch : memmoveCode[s₂.cpu.pc]? = some .repMovsb := rfl
    have moved := movsb_up fetch rfl rfl fun _ => ⟨inside', above⟩
    exact ⟨_, compared.trans (kept.trans moved), Nat.le_refl 10, fun _ => rfl, (decide_eq_false below).symm⟩

/-- Eight bytes, three further up: the ranges overlap and the move goes downwards. -/
theorem memmove_moves_overlapping :
    let s : StringState := ⟨⟨0, 0, 0, 0, 0, 0x18, 0x18, false, false, fun a => a.truncate 8 |>.toNat.toUInt8, 0⟩, false⟩
    ∃ s', StringState.Steps memmoveCode (memmoveStart 0x1004 0x1001 8 s) s' ∧ StringState.Ended memmoveCode s' ∧
      (∀ a, s'.cpu.mem a = if (a - 0x1004).toNat < 8 then s.cpu.mem (0x1001 + (a - 0x1004)) else s.cpu.mem a) ∧
      s'.cpu.df = decide ((0x1001 : Address) < 0x1004) :=
  memmove_moves 0x1004 0x1001 8 _ (by decide) (by decide)

end BigBrainOS
