import BigBrainOS.Kernel.Memcpy
import BigBrainOS.Kernel.Strings

/-!
# What `memcpy` leaves in memory

Three loops share the range: single bytes up to the first aligned destination,
then double words, then the bytes that are left. Each is followed through the
instructions for one round and then by induction on its counter.
-/

namespace BigBrainOS
set_option autoImplicit false
open Ia32

/-! ## Single rounds -/

section Rounds
variable {s : State}

/-- The four instructions that move a byte. -/
theorem moved_byte (s s' : State) (edi : s'.edi = s.edi + 1) (esi : s'.esi = s.esi + 1)
    (mem : s'.mem = Function.update s.mem s.edi (low8 (setLow8 s.eax (s.mem s.esi)))) : Moved 1 s s' := by
  refine ⟨edi, esi, ?_⟩
  rw [mem, low8_setLow8]
  exact .byte _ _ _

/-- The instructions that move a byte and count it in `c`. -/
def moveByte (c : Reg) (l : MemcpyLabel) : List (Instr MemcpyLabel) :=
  [.movbLoad .esi, .movbStore .edi, .addlImm 1 .edi, .addlImm 1 .esi, .sublImm 1 c, .jmp l]

/-- One byte, in either loop. -/
theorem byte_round {c : Reg} (counter : c = .ecx ∨ c = .edx) {l : MemcpyLabel}
    (there : Isa.Part (moveByte c l) memcpyCode s.pc) :
    ∃ s', Steps memcpyCode s s' ∧ Moved 1 s s' ∧ s'.pc = target memcpyCode l ∧ s'.get c = s.get c - 1 := by
  let moved : State :=
    { s with
      eax := setLow8 s.eax (s.mem s.esi)
      mem := Function.update s.mem s.edi (low8 (setLow8 s.eax (s.mem s.esi)))
      edi := s.edi + 1
      esi := s.esi + 1 }
  let rest := moved.get c - 1
  refine ⟨{ moved.set c rest with zf := decide (rest = 0), pc := target memcpyCode l }, ?steps, ?moved⟩
  case steps =>
    refine .cons (i := .movbLoad .esi) (there.fetch 0 rfl) (.cons (i := .movbStore .edi) (there.fetch 1 rfl) ?_)
    refine .cons (i := .addlImm 1 .edi) (there.fetch 2 rfl) (.cons (i := .addlImm 1 .esi) (there.fetch 3 rfl) ?_)
    refine .cons (i := .sublImm 1 c) (there.fetch 4 rfl) (.cons (i := .jmp l) (there.fetch 5 rfl) ?_)
    rcases counter with rfl | rfl <;> exact .refl
  case moved =>
    rcases counter with rfl | rfl <;> exact ⟨moved_byte _ _ rfl rfl rfl, rfl, rfl⟩

/-- The test of a counter at the beginning of a round. -/
def testCounter (c : Reg) (l : MemcpyLabel) : List (Instr MemcpyLabel) := [.label l, .testl c c, .jz .done]

theorem test_more {c : Reg} {l : MemcpyLabel} (there : Isa.Part (testCounter c l) memcpyCode s.pc) (more : s.get c ≠ 0) :
    ∃ zf, Steps memcpyCode s { s with zf := zf, pc := s.pc + 3 } := by
  have unset : decide (s.get c &&& s.get c = 0) = false := decide_eq_false (by rw [BitVec.and_self]; exact more)
  refine ⟨decide (s.get c &&& s.get c = 0), ?_⟩
  refine .cons (i := .label l) (there.fetch 0 rfl) (.cons (i := .testl c c) (there.fetch 1 rfl) ?_)
  exact .fall (there.fetch 2 rfl) unset .refl

theorem test_done {c : Reg} {l : MemcpyLabel} (there : Isa.Part (testCounter c l) memcpyCode s.pc) (empty : s.get c = 0) :
    ∃ zf, Steps memcpyCode s { s with zf := zf, pc := 28 } := by
  have set : decide (s.get c &&& s.get c = 0) = true := decide_eq_true (by rw [BitVec.and_self]; exact empty)
  refine ⟨decide (s.get c &&& s.get c = 0), ?_⟩
  refine .cons (i := .label l) (there.fetch 0 rfl) (.cons (i := .testl c c) (there.fetch 1 rfl) ?_)
  exact .branch (there.fetch 2 rfl) set .refl

/-- A byte in front of the aligned part. -/
theorem head_round (at_top : s.pc = 0) (more : s.ecx ≠ 0) (unaligned : 0x3 &&& s.edi ≠ 0) :
    ∃ s', Steps memcpyCode s s' ∧ Moved 1 s s' ∧ s'.pc = 0 ∧ s'.ecx = s.ecx - 1 := by
  obtain ⟨zf, tested⟩ := test_more (s := s) (c := .ecx) (l := .top) (by rw [at_top]; exact ⟨_, rfl⟩) more
  rw [at_top] at tested
  let s₁ : State := { s with zf := decide (0x3 &&& s.edi = 0), pc := 5 }
  obtain ⟨s', steps, moved, back, count⟩ := byte_round (s := s₁) (c := .ecx) (.inl rfl) (l := .top) ⟨_, rfl⟩
  refine ⟨s', tested.trans ?_, ⟨moved.edi, moved.esi, moved.mem⟩, back, count⟩
  exact .cons (i := .testlImm 0x3 .edi) rfl (.fall (l := .aligned) rfl (decide_eq_false unaligned) steps)

/-- The first loop ends: nothing is left, or the destination is aligned. -/
theorem head_end (at_top : s.pc = 0) (stop : s.ecx = 0 ∨ 0x3 &&& s.edi = 0) :
    ∃ s', Steps memcpyCode s s' ∧ Moved 0 s s' ∧ s'.ecx = s.ecx ∧
      (s.ecx = 0 ∧ s'.pc = 28 ∨ s.ecx ≠ 0 ∧ s'.pc = 11) := by
  have there : Isa.Part (testCounter .ecx .top) memcpyCode s.pc := by
    rw [at_top]
    exact ⟨_, rfl⟩
  by_cases empty : s.ecx = 0
  · obtain ⟨zf, tested⟩ := test_done there empty
    exact ⟨_, tested, .nothing rfl rfl rfl, rfl, Or.inl ⟨empty, rfl⟩⟩
  · have aligned := stop.resolve_left empty
    obtain ⟨zf, tested⟩ := test_more there empty
    rw [at_top] at tested
    let s₁ : State := { s with zf := decide (0x3 &&& s.edi = 0), pc := 11 }
    refine ⟨s₁, tested.trans (.cons (i := .testlImm 0x3 .edi) rfl ?_), .nothing rfl rfl rfl, rfl, Or.inr ⟨empty, rfl⟩⟩
    exact .branch (l := .aligned) rfl (decide_eq_true aligned) .refl

/-- The counters of the other two loops. -/
theorem split_counter (at_aligned : s.pc = 11) :
    ∃ s', Steps memcpyCode s s' ∧ Moved 0 s s' ∧ s'.pc = 18 ∧ s'.df = false ∧ s'.ecx = s.ecx >>> 2 ∧
      s'.edx = s.ecx &&& 0x3 := by
  obtain ⟨eax, ecx, edx, esi, edi, ds, es, zf, df, mem, pc⟩ := s
  dsimp only at at_aligned
  subst at_aligned
  refine ⟨⟨eax, ecx >>> 2, ecx &&& 0x3, esi, edi, ds, (setLow16 edx ds).truncate 16, decide (ecx &&& 0x3 = 0), false,
    mem, 18⟩, ?_, .nothing rfl rfl rfl, rfl, rfl, rfl, rfl⟩
  refine .cons (i := .label .aligned) rfl (.cons (i := .movwLoad .ds .edx) rfl ?_)
  refine .cons (i := .movwStore .edx .es) rfl (.cons (i := .movl .ecx .edx) rfl ?_)
  refine .cons (i := .shrlImm 2 .ecx) rfl (.cons (i := .andlImm 0x3 .edx) rfl ?_)
  exact .cons (i := .cld) rfl .refl

/-- One double word. -/
theorem body_round (at_rep : s.pc = 18) (up : s.df = false) (more : s.ecx ≠ 0) :
    ∃ s', Steps memcpyCode s s' ∧ Moved 4 s s' ∧ s'.pc = 18 ∧ s'.df = false ∧ s'.ecx = s.ecx - 1 ∧ s'.edx = s.edx := by
  have fetch : memcpyCode[s.pc]? = some .repMovsl := by
    rw [at_rep]
    rfl
  have run : Instr.run memcpyCode .repMovsl s =
      { s with mem := moveDword s.mem s.edi s.esi, esi := s.esi + 4, edi := s.edi + 4, ecx := s.ecx - 1 } := by
    simp only [Instr.run, if_neg more, up, Bool.false_eq_true, if_false]
  exact ⟨_, .next fetch run .refl, ⟨rfl, rfl, .dword _ _ _⟩, at_rep, up, rfl, rfl⟩

theorem body_end (at_rep : s.pc = 18) (done : s.ecx = 0) :
    ∃ s', Steps memcpyCode s s' ∧ Moved 0 s s' ∧ s'.pc = 19 ∧ s'.edx = s.edx := by
  have fetch : memcpyCode[s.pc]? = some .repMovsl := by
    rw [at_rep]
    rfl
  have run : Instr.run memcpyCode .repMovsl s = { s with pc := s.pc + 1 } := by simp only [Instr.run, if_pos done]
  exact ⟨_, .next fetch run .refl, .nothing rfl rfl rfl, by rw [at_rep], rfl⟩

/-- A byte behind the double words. -/
theorem tail_round (at_bottom : s.pc = 19) (more : s.edx ≠ 0) :
    ∃ s', Steps memcpyCode s s' ∧ Moved 1 s s' ∧ s'.pc = 19 ∧ s'.edx = s.edx - 1 := by
  obtain ⟨zf, tested⟩ := test_more (s := s) (c := .edx) (l := .bottom) (by rw [at_bottom]; exact ⟨_, rfl⟩) more
  rw [at_bottom] at tested
  let s₁ : State := { s with zf := zf, pc := 22 }
  obtain ⟨s', steps, moved, back, count⟩ := byte_round (s := s₁) (c := .edx) (.inr rfl) (l := .bottom) ⟨_, rfl⟩
  exact ⟨s', tested.trans steps, ⟨moved.edi, moved.esi, moved.mem⟩, back, count⟩

theorem tail_end (at_bottom : s.pc = 19) (done : s.edx = 0) :
    ∃ s', Steps memcpyCode s s' ∧ Moved 0 s s' ∧ s'.pc = 28 := by
  obtain ⟨zf, tested⟩ := test_done (s := s) (c := .edx) (l := .bottom) (by rw [at_bottom]; exact ⟨_, rfl⟩) done
  exact ⟨_, tested, .nothing rfl rfl rfl, rfl⟩

end Rounds

/-! ## The loops -/

section Loops

/-- The first loop moves some of the bytes, and all of them if it leads to the end. -/
theorem head_loop {n : Nat} (small : n < 2 ^ 32) : ∀ {s : State}, s.pc = 0 → s.ecx.toNat = n → Apart n s.edi s.esi →
    ∃ k r s', k + r = n ∧ Steps memcpyCode s s' ∧ Moved k s s' ∧ s'.ecx.toNat = r ∧ (r = 0 ∧ s'.pc = 28 ∨ s'.pc = 11) := by
  induction n with
  | zero =>
    intro s at_top count _
    obtain ⟨s', steps, moved, ecx, ended⟩ := head_end at_top (Or.inl (BitVec.eq_of_toNat_eq count))
    refine ⟨0, 0, s', rfl, steps, moved, by rw [ecx, count], ?_⟩
    exact ended.imp (fun h => ⟨rfl, h.2⟩) fun h => h.2
  | succ n ih =>
    intro s at_top count apart
    obtain ⟨more, next⟩ := counter_succ count
    by_cases aligned : 0x3 &&& s.edi = 0
    · obtain ⟨s', steps, moved, ecx, ended⟩ := head_end at_top (Or.inr aligned)
      refine ⟨0, n + 1, s', by omega, steps, moved, by rw [ecx, count], Or.inr ?_⟩
      rcases ended with ⟨empty, -⟩ | ⟨-, pc⟩
      · exact absurd empty more
      · exact pc
    · obtain ⟨s₁, round, moved, pc, ecx⟩ := head_round at_top more aligned
      rw [Nat.add_comm] at apart
      obtain ⟨k, r, s', split, steps, moved', count', ended⟩ :=
        ih (by omega) pc (by rw [ecx, next]) (moved.rest apart)
      refine ⟨1 + k, r, s', by omega, round.trans steps, ?_, count', ended⟩
      exact moved.append moved' (apart.mono (by omega)) (by omega)

/-- The second loop moves four bytes for each count. -/
theorem body_loop {n : Nat} (small : 4 * n < 2 ^ 32) : ∀ {s : State}, s.pc = 18 → s.df = false → s.ecx.toNat = n →
    Apart (4 * n) s.edi s.esi →
    ∃ s', Steps memcpyCode s s' ∧ Moved (4 * n) s s' ∧ s'.pc = 19 ∧ s'.edx = s.edx := by
  induction n with
  | zero =>
    intro s at_rep _ count _
    exact body_end at_rep (BitVec.eq_of_toNat_eq count)
  | succ n ih =>
    intro s at_rep up count apart
    obtain ⟨more, next⟩ := counter_succ count
    obtain ⟨s₁, round, moved, pc, up₁, ecx, edx⟩ := body_round at_rep up more
    rw [show 4 * (n + 1) = 4 + 4 * n by omega] at apart ⊢
    obtain ⟨s', steps, moved', pc', edx'⟩ :=
      ih (by omega) pc up₁ (by rw [ecx, next]) (moved.rest apart)
    exact ⟨s', round.trans steps, moved.append moved' apart (by omega), pc', edx'.trans edx⟩

/-- The third loop moves the bytes that are left. -/
theorem tail_loop {n : Nat} (small : n < 2 ^ 32) : ∀ {s : State}, s.pc = 19 → s.edx.toNat = n → Apart n s.edi s.esi →
    ∃ s', Steps memcpyCode s s' ∧ Moved n s s' ∧ s'.pc = 28 := by
  induction n with
  | zero =>
    intro s at_bottom count _
    exact tail_end at_bottom (BitVec.eq_of_toNat_eq count)
  | succ n ih =>
    intro s at_bottom count apart
    obtain ⟨more, next⟩ := counter_succ count
    obtain ⟨s₁, round, moved, pc, edx⟩ := tail_round at_bottom more
    rw [Nat.add_comm] at apart ⊢
    obtain ⟨s', steps, moved', pc'⟩ := ih (by omega) pc (by rw [edx, next]) (moved.rest apart)
    exact ⟨s', round.trans steps, moved.append moved' apart (by omega), pc'⟩

end Loops

/-! ## The whole copy -/

/-- From the aligned part on, the double words and the bytes behind them make up the count. -/
theorem aligned_part {s : State} (at_aligned : s.pc = 11) (apart : Apart s.ecx.toNat s.edi s.esi) :
    ∃ s', Steps memcpyCode s s' ∧ Moved s.ecx.toNat s s' ∧ s'.pc = 28 := by
  have small := s.ecx.isLt
  obtain ⟨s₁, steps₁, moved₁, pc₁, up₁, ecx₁, edx₁⟩ := split_counter at_aligned
  have words : s₁.ecx.toNat = s.ecx.toNat / 4 := by
    rw [ecx₁, BitVec.toNat_ushiftRight, Nat.shiftRight_eq_div_pow]
  have rest : s₁.edx.toNat = s.ecx.toNat % 4 := by
    rw [edx₁, BitVec.toNat_and]
    exact Nat.and_two_pow_sub_one_eq_mod _ 2
  generalize s.ecx.toNat = n at apart small words rest ⊢
  obtain ⟨q, t, rfl, short⟩ : ∃ q t, n = 4 * q + t ∧ t < 4 := ⟨n / 4, n % 4, by omega, by omega⟩
  have apart₁ : Apart (4 * q + t) s₁.edi s₁.esi := moved₁.rest (by rw [Nat.zero_add]; exact apart)
  obtain ⟨s₂, steps₂, moved₂, pc₂, edx₂⟩ :=
    body_loop (n := q) (by omega) pc₁ up₁ (by rw [words]; omega) (apart₁.mono (by omega))
  obtain ⟨s₃, steps₃, moved₃, pc₃⟩ :=
    tail_loop (n := t) (by omega) pc₂ (by rw [edx₂, rest]; omega) (moved₂.rest apart₁)
  refine ⟨s₃, steps₁.trans (steps₂.trans steps₃), ?_, pc₃⟩
  have moved := moved₁.append (moved₂.append moved₃ apart₁ (by omega)) (by rw [Nat.zero_add]; exact apart) (by omega)
  rwa [Nat.zero_add] at moved

/-- Behind the last label the code has ended. -/
theorem done_ends {s : State} (at_done : s.pc = 28) :
    ∃ s', Steps memcpyCode s s' ∧ Ended memcpyCode s' ∧ s'.mem = s.mem := by
  have fetch : memcpyCode[s.pc]? = some (.label .done) := by
    rw [at_done]
    rfl
  refine ⟨{ s with pc := s.pc + 1 }, .cons fetch .refl, ?_, rfl⟩
  show 29 ≤ s.pc + 1
  omega

theorem memcpy_moves {s : State} (at_top : s.pc = 0) (apart : Apart s.ecx.toNat s.edi s.esi) :
    ∃ s', Steps memcpyCode s s' ∧ Ended memcpyCode s' ∧ Copied s.ecx.toNat s.edi s.esi s.mem s'.mem := by
  have small := s.ecx.isLt
  obtain ⟨k, r, s₁, split, steps₁, moved₁, count₁, ended⟩ := head_loop small at_top rfl apart
  have moves : ∃ s₂, Steps memcpyCode s₁ s₂ ∧ Moved r s₁ s₂ ∧ s₂.pc = 28 := by
    rcases ended with ⟨rfl, pc⟩ | pc
    · exact ⟨s₁, .refl, .nothing rfl rfl rfl, pc⟩
    · rw [← count₁]
      exact aligned_part pc (moved₁.rest (by rw [count₁, split]; exact apart))
  obtain ⟨s₂, steps₂, moved₂, pc₂⟩ := moves
  have moved := moved₁.append moved₂ (by rw [split]; exact apart) (by omega)
  obtain ⟨s₃, steps₃, ended₃, mem₃⟩ := done_ends pc₂
  refine ⟨s₃, steps₁.trans (steps₂.trans steps₃), ended₃, ?_⟩
  rw [mem₃, ← split]
  exact moved.mem

/-- The kernel's other functions use `memcpy` as a copy between two pieces of memory. -/
theorem memcpy_bytes {dest src : Address} {n : BitVec 32} (s : State) (apart : Apart n.toNat dest src) :
    ∃ s', Steps memcpyCode (memcpyStart dest src n s) s' ∧ Ended memcpyCode s' ∧ ∀ k < 2 ^ 32,
      s'.mem (dest + BitVec.ofNat 32 k) =
        memcpy (fun i => s.mem (dest + BitVec.ofNat 32 i)) (fun i => s.mem (src + BitVec.ofNat 32 i)) n.toNat k := by
  have size := n.isLt
  obtain ⟨s', steps, ended, copied⟩ := memcpy_moves (s := memcpyStart dest src n s) rfl apart
  refine ⟨s', steps, ended, fun k small => ?_⟩
  rw [memcpy]
  split
  · next inside => exact copied.copied k inside
  · next outside =>
    refine copied.kept _ fun i inside same => outside ?_
    rw [offset_inj small (Nat.lt_trans inside size) same]
    exact inside

/-- **`memcpy` is the byte copy.** Between ranges that neither overlap nor run over the end of
memory the code ends, and has copied each byte and changed no other. -/
theorem memcpy_copies (dest src : Address) (n : BitVec 32) (s : State) (inside : dest.toNat + n.toNat ≤ 2 ^ 32)
    (inside' : src.toNat + n.toNat ≤ 2 ^ 32)
    (apart : dest.toNat + n.toNat ≤ src.toNat ∨ src.toNat + n.toNat ≤ dest.toNat) :
    ∃ s', Steps memcpyCode (memcpyStart dest src n s) s' ∧ Ended memcpyCode s' ∧
      (∀ k < n.toNat, s'.mem (dest + BitVec.ofNat 32 k) = s.mem (src + BitVec.ofNat 32 k)) ∧
      ∀ a, (∀ k < n.toNat, a ≠ dest + BitVec.ofNat 32 k) → s'.mem a = s.mem a := by
  have ranges : Apart n.toNat dest src := .of_ranges inside inside' apart
  obtain ⟨s', steps, ended, copied⟩ := memcpy_moves (s := memcpyStart dest src n s) rfl ranges
  exact ⟨s', steps, ended, copied.copied, copied.kept⟩

/-- Eleven bytes to an odd address: three to align it, two double words, and none behind them. -/
theorem memcpy_copies_eleven :
    let s : State := ⟨0, 0, 0, 0, 0, 0x18, 0x18, false, true, fun a => a.truncate 8 |>.toNat.toUInt8, 0⟩
    ∃ s', Steps memcpyCode (memcpyStart 0x1001 0xFFFFFFF5 11 s) s' ∧ Ended memcpyCode s' ∧
      (∀ k < 11, s'.mem (0x1001 + BitVec.ofNat 32 k) = s.mem (0xFFFFFFF5 + BitVec.ofNat 32 k)) ∧
      ∀ a, (∀ k < 11, a ≠ 0x1001 + BitVec.ofNat 32 k) → s'.mem a = s.mem a :=
  memcpy_copies 0x1001 0xFFFFFFF5 11 _ (by decide) (by decide) (by decide)

end BigBrainOS
