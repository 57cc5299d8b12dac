import BigBrainOS.Process.Boot

/-!
# The shared frequency of the RTC

The hardware runs at `higher_freq`; a process that asked for `prog_freq` waits
for `divisor` interrupts. `ClockInv` says that the three numbers fit together
for every process, and that register A holds the rate of `higher_freq`. The
invariant reads the pid table, the control blocks and the two RTC variables, so
it is stated about `ClockView`.
-/

namespace BigBrainOS
set_option autoImplicit false

/-- A frequency that `rtc_write` accepts: a power of two from 2 to 1024. -/
def IsFreq (f : Nat) : Prop := ∃ k, 1 ≤ k ∧ k ≤ 10 ∧ f = 2 ^ k

/-- The frequency that a value of register A stands for. -/
def encodedFreq (regA : UInt8) : Nat := 32768 >>> ((regA &&& 0x0F).toNat - 1)

/-- The frequency of every process divides that of the hardware. -/
structure Divided (c : ClockView) : Prop where
  freq : IsFreq c.higherFreq
  valid : ∀ p, c.usedPids p = true → ValidPid p
  asked : ∀ p, c.usedPids p = true → (c.pcbs (getPcbByPid p)).progFreq ≠ 0 →
    IsFreq (c.pcbs (getPcbByPid p)).progFreq ∧ (c.pcbs (getPcbByPid p)).progFreq ∣ c.higherFreq ∧
      (c.pcbs (getPcbByPid p)).divisor * (c.pcbs (getPcbByPid p)).progFreq = c.higherFreq

/-- The clock bookkeeping fits together, and the hardware is programmed for it. -/
structure ClockInv (c : ClockView) : Prop extends Divided c where
  rate : encodedFreq c.rtcRegA = c.higherFreq

/-! ## Frequencies -/

theorem IsFreq.bounds {f : Nat} (h : IsFreq f) : 2 ≤ f ∧ f ≤ 1024 := by
  obtain ⟨k, low, high, rfl⟩ := h
  have up : 2 ^ k ≤ 2 ^ 10 := Nat.pow_le_pow_right (by decide) high
  have down : 2 ^ 1 ≤ 2 ^ k := Nat.pow_le_pow_right (by decide) low
  omega

/-- The smaller of two frequencies divides the greater. -/
theorem IsFreq.dvd {f g : Nat} (hf : IsFreq f) (hg : IsFreq g) (le : f ≤ g) : f ∣ g := by
  obtain ⟨j, -, -, rfl⟩ := hf
  obtain ⟨k, -, -, rfl⟩ := hg
  have order : j ≤ k := (Nat.pow_le_pow_iff_right (by decide)).1 le
  exact Nat.pow_dvd_pow 2 order

theorem and_high_or_low (a b : UInt8) : ((a &&& 0xF0) ||| (b &&& 0x0F)) &&& 0x0F = b &&& 0x0F := by
  have high : ∀ i, i < 8 → (0xF0 : BitVec 8).getLsbD i = true → (0x0F : BitVec 8).getLsbD i = false := by decide
  apply UInt8.toBitVec_inj.1
  ext i bound
  simp only [UInt8.toBitVec_and, UInt8.toBitVec_or, BitVec.getElem_and, BitVec.getElem_or]
  have := high i bound
  cases h : (0xF0 : BitVec 8).getLsbD i <;> simp_all

/-- `rtc_set_frequency` programs the rate of the frequency it is given. -/
theorem encodedFreq_set {f : Nat} (h : IsFreq f) (regA : UInt8) :
    encodedFreq ((regA &&& 0xF0) ||| (UInt8.ofNat (rtcRate f) &&& 0x0F)) = f := by
  have rates : ∀ k, k < 11 → 1 ≤ k → 32768 >>> ((UInt8.ofNat (rtcRate (2 ^ k)) &&& 0x0F).toNat - 1) = 2 ^ k := by
    decide
  obtain ⟨k, low, high, rfl⟩ := h
  rw [encodedFreq, and_high_or_low]
  exact rates k (by omega) low

/-- The test of `rtc_write` accepts frequencies only. -/
theorem isFreq_of_test {freq : BitVec 32} (low : ¬ freq.toInt < rtcMinFreq) (high : ¬ freq.toInt > rtcMaxFreq)
    (test : freq &&& (freq - 1) = 0) : IsFreq freq.toNat := by
  have bound : 2 ≤ freq.toNat ∧ freq.toNat ≤ 1024 := by
    have range := freq.isLt
    simp only [rtcMinFreq, rtcMaxFreq, BitVec.toInt] at low high
    split at low <;> omega
  have zero : freq.toNat &&& (freq.toNat - 1) = 0 := by
    have bits := congrArg BitVec.toNat test
    rw [BitVec.toNat_and, BitVec.toNat_sub] at bits
    have less : (2 ^ 32 - (1 : BitVec 32).toNat + freq.toNat) % 2 ^ 32 = freq.toNat - 1 := by
      have one : (1 : BitVec 32).toNat = 1 := rfl
      omega
    rw [less] at bits
    exact bits
  obtain ⟨k, eq⟩ := (Nat.and_sub_one_eq_zero_iff_isPowerOfTwo (by omega)).1 zero
  rw [eq] at bound ⊢
  refine ⟨k, ?_, ?_, rfl⟩
  · by_contra none
    have : k = 0 := by omega
    subst this
    omega
  · by_contra large
    have : 2 ^ 11 ≤ 2 ^ k := Nat.pow_le_pow_right (by decide) (by omega)
    omega

/-! ## The loops over all processes -/

/-- One pass of the loop "Update all PCB divisors". -/
def updateDivisor (s : Kernel) (i : Nat) : Kernel :=
  if s.usedPids i = true ∧ (s.pcb i).progFreq > 0 then
    s.setPcb (getPcbByPid i) fun pcb => { pcb with divisor := s.higherFreq / pcb.progFreq }
  else s

theorem updateDivisors_eq (s : Kernel) : updateDivisors s = (List.range maxProcesses).foldl updateDivisor s := rfl

/-- The divisor of a process is the one for its frequency. -/
def DivisorSet (s : Kernel) (p : Int) : Prop := (s.pcb p).divisor = s.higherFreq / (s.pcb p).progFreq

/-- A pass keeps the pid table and the RTC variables, and what each process asked for. -/
structure SameRequests (s s' : Kernel) : Prop where
  usedPids : s'.usedPids = s.usedPids
  higherFreq : s'.higherFreq = s.higherFreq
  rtcRegA : s'.rtcRegA = s.rtcRegA
  progFreq : ∀ a, (s'.pcbs a).progFreq = (s.pcbs a).progFreq

theorem SameRequests.trans {a b c : Kernel} (h : SameRequests a b) (h' : SameRequests b c) : SameRequests a c :=
  ⟨h'.usedPids.trans h.usedPids, h'.higherFreq.trans h.higherFreq, h'.rtcRegA.trans h.rtcRegA,
    fun k => (h'.progFreq k).trans (h.progFreq k)⟩

theorem updateDivisor_same (s : Kernel) (i : Nat) : SameRequests s (updateDivisor s i) := by
  unfold updateDivisor
  split
  · refine ⟨rfl, rfl, rfl, fun a => ?_⟩
    simp only [Kernel.setPcb]
    by_cases same : a = getPcbByPid i
    · rw [same, Function.update_self]
    · rw [Function.update_of_ne same]
  · exact ⟨rfl, rfl, rfl, fun _ => rfl⟩

theorem updateDivisors_same (s : Kernel) : SameRequests s (updateDivisors s) := by
  rw [updateDivisors_eq]
  generalize List.range maxProcesses = is
  induction is generalizing s with
  | nil => exact ⟨rfl, rfl, rfl, fun _ => rfl⟩
  | cons i is ih => exact (updateDivisor_same s i).trans (ih _)

/-- Every pass sets the divisor of its process and leaves the others right. -/
theorem updateDivisor_set {s : Kernel} {i : Nat} {p : Int} (valid : ValidPid p) (used : s.usedPids p = true)
    (asked : (s.pcb p).progFreq ≠ 0) (right : (i : Int) = p ∨ DivisorSet s p) : DivisorSet (updateDivisor s i) p := by
  unfold updateDivisor
  by_cases same : (i : Int) = p
  · subst same
    rw [if_pos ⟨used, Nat.pos_of_ne_zero asked⟩]
    simp [DivisorSet, Kernel.pcb, Kernel.setPcb]
  · have before : DivisorSet s p := right.resolve_left same
    split
    · have other : getPcbByPid p ≠ getPcbByPid i := fun e => same (getPcbByPid_inj valid e.symm)
      simp only [DivisorSet, Kernel.pcb, Kernel.setPcb, Function.update_of_ne other]
      exact before
    · exact before

/-- The loop sets the divisor of every process in use that asked for a frequency. -/
theorem updateDivisors_set {s : Kernel} {p : Int} (valid : ValidPid p) (used : s.usedPids p = true)
    (asked : (s.pcb p).progFreq ≠ 0) : DivisorSet (updateDivisors s) p := by
  have loop : ∀ (is : List Nat) (s : Kernel), s.usedPids p = true → (s.pcb p).progFreq ≠ 0 →
      (p.toNat ∈ is ∨ DivisorSet s p) → DivisorSet (is.foldl updateDivisor s) p := by
    intro is
    induction is with
    | nil => intro s _ _ right; exact right.resolve_left List.not_mem_nil
    | cons i is ih =>
      intro s used asked right
      have same := updateDivisor_same s i
      have low := valid.1
      apply ih (updateDivisor s i) (by rw [same.usedPids]; exact used) (by rw [Kernel.pcb, same.progFreq]; exact asked)
      rcases right with member | set
      · rcases List.mem_cons.1 member with first | rest
        · exact Or.inr (updateDivisor_set valid used asked (Or.inl (by omega)))
        · exact Or.inl rest
      · exact Or.inr (updateDivisor_set valid used asked (Or.inr set))
  have member : p.toNat ∈ List.range maxProcesses := by
    obtain ⟨low, high⟩ := valid
    rw [List.mem_range]
    simp only [maxProcesses]
    omega
  rw [updateDivisors_eq]
  exact loop _ s used asked (Or.inl member)

/-- "Get maximum frequency": the result is a frequency, and no process in use
asked for more. -/
theorem maxRequestedFreq_spec {s : Kernel} (valid : ∀ p, s.usedPids p = true → ValidPid p)
    (asked : ∀ p, s.usedPids p = true → (s.pcb p).progFreq ≠ 0 → IsFreq (s.pcb p).progFreq) :
    IsFreq (maxRequestedFreq s) ∧ ∀ p, s.usedPids p = true → (s.pcb p).progFreq ≤ maxRequestedFreq s := by
  have loop : ∀ (is : List Nat) (m : Nat), IsFreq m →
      let m' := is.foldl (fun m (i : Nat) => if s.usedPids i = true ∧ (s.pcb i).progFreq > m then (s.pcb i).progFreq else m) m
      IsFreq m' ∧ m ≤ m' ∧ ∀ i ∈ is, s.usedPids i = true → (s.pcb i).progFreq ≤ m' := by
    intro is
    induction is with
    | nil => intro m hm; exact ⟨hm, Nat.le_refl m, fun i hi => absurd hi List.not_mem_nil⟩
    | cons i is ih =>
      intro m hm
      simp only [List.foldl_cons]
      split
      · next raise =>
        obtain ⟨freq, le, rest⟩ := ih _ (asked i raise.1 (by omega))
        refine ⟨freq, by omega, fun j hj used => ?_⟩
        rcases List.mem_cons.1 hj with rfl | later
        · exact le
        · exact rest j later used
      · next keep =>
        obtain ⟨freq, le, rest⟩ := ih m hm
        refine ⟨freq, le, fun j hj used => ?_⟩
        rcases List.mem_cons.1 hj with rfl | later
        · have : ¬ (s.pcb j).progFreq > m := fun more => keep ⟨used, more⟩
          omega
        · exact rest j later used
  obtain ⟨freq, -, bound⟩ := loop (List.range maxProcesses) rtcStartFreq ⟨1, by decide, by decide, rfl⟩
  refine ⟨freq, fun p used => ?_⟩
  obtain ⟨low, high⟩ := valid p used
  have member : p.toNat ∈ List.range maxProcesses := by
    rw [List.mem_range]
    simp only [maxProcesses]
    omega
  have at_p := bound p.toNat member
  rw [Int.toNat_of_nonneg low] at at_p
  exact at_p used

/-! ## The invariant -/

/-- The loop over all processes sets every divisor for a frequency that no
process exceeds. -/
theorem updateDivisors_divided {s : Kernel} (freq : IsFreq s.higherFreq)
    (valid : ∀ p, s.usedPids p = true → ValidPid p)
    (asked : ∀ p, s.usedPids p = true → (s.pcb p).progFreq ≠ 0 →
      IsFreq (s.pcb p).progFreq ∧ (s.pcb p).progFreq ≤ s.higherFreq) : Divided (updateDivisors s).clock := by
  have same := updateDivisors_same s
  refine ⟨?_, ?_, fun p used nonzero => ?_⟩
  · show IsFreq (updateDivisors s).higherFreq
    rw [same.higherFreq]; exact freq
  · show ∀ p, (updateDivisors s).usedPids p = true → _
    rw [same.usedPids]; exact valid
  · have used' : s.usedPids p = true := by rw [← same.usedPids]; exact used
    have request : ((updateDivisors s).pcb p).progFreq = (s.pcb p).progFreq := same.progFreq _
    have nonzero' : (s.pcb p).progFreq ≠ 0 := by rw [← request]; exact nonzero
    obtain ⟨isFreq, le⟩ := asked p used' nonzero'
    have dvd := isFreq.dvd freq le
    have set : ((updateDivisors s).pcb p).divisor = s.higherFreq / (s.pcb p).progFreq := by
      rw [updateDivisors_set (valid p used') used' nonzero', same.higherFreq, request]
    show IsFreq ((updateDivisors s).pcb p).progFreq ∧ ((updateDivisors s).pcb p).progFreq ∣ (updateDivisors s).higherFreq ∧
      ((updateDivisors s).pcb p).divisor * ((updateDivisors s).pcb p).progFreq = (updateDivisors s).higherFreq
    rw [request, set, same.higherFreq]
    exact ⟨isFreq, dvd, Nat.div_mul_cancel dvd⟩

/-- `rtc_set_frequency(higher_freq)` completes the invariant. -/
theorem Divided.setFrequency {s : Kernel} (divided : Divided s.clock) :
    ClockInv (rtcSetFrequency s.higherFreq s).clock :=
  ⟨⟨divided.freq, divided.valid, divided.asked⟩, encodedFreq_set divided.freq s.rtcRegA⟩

/-! ## What `rtc_write` does -/

/-- The kernel once `rtc_write` has recorded a request of process `p`. -/
def recordRequest (p : Int) (freq : Nat) (s : Kernel) : Kernel :=
  s.setPcb (getPcbByPid p) fun pcb => { pcb with progFreq := freq }

/-- All that `rtc_write` can do: it leaves the state alone, or it records a legal
frequency, for which it raises that of the hardware or sets the divisor. -/
theorem rtcWrite_cases (buf : Option (BitVec 32)) (nbytes : Int) (s : Kernel) :
    (rtcWrite buf nbytes s).2 = s ∨ ∃ freq s₂, IsFreq freq ∧
      (rtcWrite buf nbytes s).2 = rtcSetFrequency s₂.higherFreq s₂ ∧
      (s.higherFreq < freq ∧
          s₂ = updateDivisors { recordRequest (s.currPid s.currProcess) freq s with higherFreq := freq } ∨
        freq ≤ s.higherFreq ∧ s₂ = (recordRequest (s.currPid s.currProcess) freq s).setPcb
          (getPcbByPid (s.currPid s.currProcess)) fun pcb => { pcb with divisor := s.higherFreq / freq }) := by
  unfold rtcWrite
  cases buf with
  | none => exact Or.inl rfl
  | some freq =>
    dsimp only
    split
    · exact Or.inl rfl
    split
    · exact Or.inl rfl
    next bounds =>
    split
    · exact Or.inl rfl
    next test =>
    split
    · exact Or.inl rfl
    have isFreq : IsFreq freq.toNat :=
      isFreq_of_test (fun low => bounds (Or.inr low)) (fun high => bounds (Or.inl high)) (by simpa using test)
    refine Or.inr ⟨freq.toNat, _, isFreq, rfl, ?_⟩
    split
    · next raise => exact Or.inl ⟨raise, rfl⟩
    · next keep => exact Or.inr ⟨Nat.not_lt.1 keep, rfl⟩

namespace ClockInv

/-- The invariant sees only these parts of the control blocks. -/
theorem congr {c c' : ClockView} (inv : ClockInv c) (used : c'.usedPids = c.usedPids)
    (freq : c'.higherFreq = c.higherFreq) (reg : c'.rtcRegA = c.rtcRegA)
    (blocks : ∀ a, (c'.pcbs a).progFreq = (c.pcbs a).progFreq ∧ (c'.pcbs a).divisor = (c.pcbs a).divisor) :
    ClockInv c' where
  freq := by rw [freq]; exact inv.freq
  rate := by rw [reg, freq]; exact inv.rate
  valid := by rw [used]; exact inv.valid
  asked p := by rw [used, freq, (blocks _).1, (blocks _).2]; exact inv.asked p

variable {s : Kernel}

/-- A block overwritten with one whose request, if any, is served. -/
theorem setPcb (inv : ClockInv s.clock) (a : Nat) {f : Pcb → Pcb}
    (served : (f (s.pcbs a)).progFreq ≠ 0 → IsFreq (f (s.pcbs a)).progFreq ∧
      (f (s.pcbs a)).progFreq ∣ s.higherFreq ∧ (f (s.pcbs a)).divisor * (f (s.pcbs a)).progFreq = s.higherFreq) :
    ClockInv (s.setPcb a f).clock := by
  refine ⟨⟨inv.freq, inv.valid, fun p used nonzero => ?_⟩, inv.rate⟩
  by_cases same : getPcbByPid p = a
  · have block : (s.setPcb a f).clock.pcbs (getPcbByPid p) = f (s.pcbs a) := by
      rw [same]; exact s.setPcb_pcbs_self a f
    rw [block] at nonzero ⊢
    exact served nonzero
  · have block : (s.setPcb a f).clock.pcbs (getPcbByPid p) = s.pcbs (getPcbByPid p) := s.setPcb_pcbs_of_ne f same
    rw [block] at nonzero ⊢
    exact inv.asked p used nonzero

/-- A block overwritten with one that asks for nothing. -/
theorem silence (inv : ClockInv s.clock) (a : Nat) {f : Pcb → Pcb} (silent : (f (s.pcbs a)).progFreq = 0) :
    ClockInv (s.setPcb a f).clock :=
  inv.setPcb a fun nonzero => absurd silent nonzero

/-- A pid taken into use with a block that asks for nothing. -/
theorem create {c : ClockView} (inv : ClockInv c) {newPid : Int} {pcb : Pcb} (valid : ValidPid newPid)
    (silent : pcb.progFreq = 0) : ClockInv (c.create newPid pcb) := by
  refine ⟨⟨inv.freq, fun p used => ?_, fun p used nonzero => ?_⟩, inv.rate⟩
  · by_cases same : p = newPid
    · exact same ▸ valid
    · exact inv.valid p ((Function.update_of_ne same _ _).symm.trans used)
  · by_cases same : p = newPid
    · have block : (c.create newPid pcb).pcbs (getPcbByPid p) = pcb := by rw [same]; exact Function.update_self _ _ _
      exact absurd ((congrArg Pcb.progFreq block).trans silent) nonzero
    · have block : (c.create newPid pcb).pcbs (getPcbByPid p) = c.pcbs (getPcbByPid p) :=
        Function.update_of_ne (getPcbByPid_ne valid same) _ _
      rw [block] at nonzero ⊢
      exact inv.asked p ((Function.update_of_ne same _ _).symm.trans used) nonzero

/-- A pid given back. -/
theorem release (inv : ClockInv s.clock) (pid : Int) :
    ClockInv { s.clock with usedPids := Function.update s.usedPids pid false } := by
  have still : ∀ p, Function.update s.usedPids pid false p = true → s.usedPids p = true := by
    intro p used
    by_cases same : p = pid
    · rw [same, Function.update_self] at used; cases used
    · exact (Function.update_of_ne same _ _).symm.trans used
  exact ⟨⟨inv.freq, fun p used => inv.valid p (still p used), fun p used => inv.asked p (still p used)⟩, inv.rate⟩

/-! ### The RTC calls -/

/-- `rtc_open` keeps the invariant. -/
theorem rtcOpen (inv : ClockInv s.clock) : ClockInv (rtcOpen s).clock := by
  unfold BigBrainOS.rtcOpen
  dsimp only
  split
  · exact inv
  · exact Divided.setFrequency (s := s.setPcb _ _) (inv.silence _ rfl).toDivided

/-- `rtc_close` keeps the invariant. -/
theorem rtcClose (inv : ClockInv s.clock) : ClockInv (rtcClose s).clock := by
  obtain ⟨freq, bound⟩ := maxRequestedFreq_spec inv.valid fun p used nonzero => (inv.asked p used nonzero).1
  generalize tuned : rtcSetFrequency (maxRequestedFreq s) { s with higherFreq := maxRequestedFreq s } = s₁
  have rate : encodedFreq s₁.rtcRegA = s₁.higherFreq := by rw [← tuned]; exact encodedFreq_set freq s.rtcRegA
  have divided : Divided (updateDivisors s₁).clock := by
    rw [← tuned]
    exact updateDivisors_divided freq inv.valid fun p used nonzero => ⟨(inv.asked p used nonzero).1, bound p used⟩
  have same := updateDivisors_same s₁
  have result : BigBrainOS.rtcClose s = updateDivisors s₁ := by rw [← tuned]; rfl
  rw [result]
  exact ⟨divided, (congrArg encodedFreq same.rtcRegA).trans (rate.trans same.higherFreq.symm)⟩

/-- `rtc_write` keeps the invariant, whatever it is given. -/
theorem rtcWrite (inv : ClockInv s.clock) (buf : Option (BitVec 32)) (nbytes : Int) :
    ClockInv (rtcWrite buf nbytes s).2.clock := by
  rcases rtcWrite_cases buf nbytes s with same | ⟨freq, s₂, isFreq, result, ⟨raise, rfl⟩ | ⟨keep, rfl⟩⟩
  · rw [same]
    exact inv
  · rw [result]
    generalize s.currPid s.currProcess = p
    apply Divided.setFrequency
    refine updateDivisors_divided isFreq inv.valid fun q used nonzero => ?_
    generalize marked : recordRequest p freq s = s₁ at used nonzero
    show IsFreq (s₁.pcbs (getPcbByPid q)).progFreq ∧ (s₁.pcbs (getPcbByPid q)).progFreq ≤ freq
    by_cases same : getPcbByPid q = getPcbByPid p
    · have request : (s₁.pcbs (getPcbByPid q)).progFreq = freq := by
        rw [← marked, same, recordRequest, Kernel.setPcb_pcbs_self]
      rw [request]
      exact ⟨isFreq, Nat.le_refl _⟩
    · have block : s₁.pcbs (getPcbByPid q) = s.pcbs (getPcbByPid q) := by
        rw [← marked]; exact s.setPcb_pcbs_of_ne _ same
      have nonzero' : (s₁.pcbs (getPcbByPid q)).progFreq ≠ 0 := nonzero
      have used' : s.usedPids q = true := by rw [← marked] at used; exact used
      rw [block] at nonzero' ⊢
      obtain ⟨isFreq', dvd, -⟩ := inv.asked q used' nonzero'
      have below := Nat.le_of_dvd (Nat.lt_of_lt_of_le (by decide) inv.freq.bounds.1) dvd
      exact ⟨isFreq', below.trans (Nat.le_of_lt raise)⟩
  · rw [result]
    have dvd := isFreq.dvd inv.freq keep
    apply Divided.setFrequency
    rw [recordRequest, Kernel.setPcb_setPcb]
    exact (inv.setPcb _ fun _ => ⟨isFreq, dvd, Nat.div_mul_cancel dvd⟩).toDivided

/-! ### Process creation, halt and scheduling -/

theorem launched {l : Launch} {s₁ s' : Kernel} (inv : ClockInv s.clock) (alloc : getNewPid s = some l.newPid)
    (stored : Stored (enableProgramPage l.newPid s) s₁)
    (run : runLaunch l (createStmts ++ enterStmts) s₁ = .ok s') : ClockInv s'.clock := by
  obtain ⟨-, pcb, silent, clock⟩ := launched_effect stored run
  rw [clock]
  exact inv.create (getNewPid_eq_some.1 alloc).1 silent

theorem sysExecute (inv : ClockInv s.clock) (env : Env) (fr : ExecFrame) (command : Bytes) :
    ClockInv (sysExecute env fr command s).2.clock := by
  have executed := sysExecute_executed env fr command s
  generalize BigBrainOS.sysExecute env fr command s = out at executed
  cases executed with
  | notExecutable => exact inv
  | full => dsimp only; rw [puts_clock]; exact inv
  | fault _ _ _ stored => dsimp only; rw [stored.clock]; exact inv
  | launched _ alloc _ stored run => exact inv.launched alloc stored run

/-- Each statement of `sys_halt` keeps the invariant. -/
theorem haltStmt (inv : ClockInv s.clock) (h : Halt) (stmt : HaltStmt) : ClockInv (stmt.run h s).clock := by
  cases stmt with
  | usedPids => exact inv.release h.pid
  | printf => unfold HaltStmt.run; rw [puts_clock]; exact inv
  | close i =>
    simp only [HaltStmt.run, closeFile]
    split
    · split
      · exact inv.rtcClose
      · exact inv
    · exact inv
  | clearPcb => unfold HaltStmt.run; exact inv.silence h.addr rfl
  | _ => exact inv

theorem runHalt (inv : ClockInv s.clock) (h : Halt) (stmts : List HaltStmt) : ClockInv (runHalt h stmts s).clock := by
  induction stmts generalizing s with
  | nil => exact inv
  | cons stmt rest ih => exact ih (inv.haltStmt h stmt)

theorem finishHalt (inv : ClockInv s.clock) (env : Env) (fr : ExecFrame) (h : Halt) (status : UInt8) :
    ClockInv (finishHalt env fr h status s).2.clock := by
  have returned : ∀ s₁ : Kernel, ClockInv s₁.clock → ClockInv (returnToParent h status s₁).2.clock :=
    fun s₁ inv₁ => (inv₁.runHalt h [.progCurrPid, .progParPid]).runHalt h [.clearPcb]
  unfold BigBrainOS.finishHalt
  split
  · have printed : ClockInv (puts exitedRootMessage s).clock := by rw [puts_clock]; exact inv
    have executed := printed.sysExecute env fr (shellCommand env)
    split
    · next eq => rw [eq] at executed; exact executed
    · next eq => rw [eq] at executed; exact executed
    · next eq => rw [eq] at executed; exact returned _ executed
  · exact returned _ inv

/-- `sys_halt` keeps the invariant, whether or not the process closed its RTC. -/
theorem sysHalt (inv : ClockInv s.clock) (env : Env) (fr : ExecFrame) (status : UInt8) :
    ClockInv (sysHalt env fr status s).2.clock := by
  unfold BigBrainOS.sysHalt
  split
  · exact inv
  · exact (inv.runHalt _ releaseStmts).finishHalt env fr _ status

theorem executeCall (inv : ClockInv s.clock) (env : Env) (fr exc : ExecFrame) (command : Bytes) :
    ClockInv (executeCall env fr exc command s).2.clock := by
  have executed := inv.sysExecute env fr command
  unfold BigBrainOS.executeCall
  split
  · next eq =>
    rw [eq] at executed
    obtain ⟨s₁, printed, handler⟩ := pfHandler_eq env exc _
    rw [handler]
    exact sysHalt (s := s₁) (printed.clock ▸ executed) env exc haltStatusExc
  · exact executed

/-- The scheduler's save changes registers only. -/
theorem saveRegs (inv : ClockInv s.clock) (a : Nat) (r : Regs) :
    ClockInv (s.setPcb a fun pcb => { pcb with regs := r }).clock := by
  have blocks : ∀ b, ((s.setPcb a fun pcb => { pcb with regs := r }).pcbs b).progFreq = (s.pcbs b).progFreq ∧
      ((s.setPcb a fun pcb => { pcb with regs := r }).pcbs b).divisor = (s.pcbs b).divisor := by
    apply s.setPcb_forall (P := fun b pcb => pcb.progFreq = (s.pcbs b).progFreq ∧ pcb.divisor = (s.pcbs b).divisor)
    · exact ⟨rfl, rfl⟩
    · exact fun _ _ => ⟨rfl, rfl⟩
  exact inv.congr rfl rfl rfl blocks

theorem switchTo (inv : ClockInv s.clock) (next : Term) (pid vidId : Int) (r : Regs) :
    ClockInv (switchTo next pid vidId r s).2.clock := by
  unfold BigBrainOS.switchTo
  split
  · exact inv
  · exact inv.saveRegs (getPcbByPid (s.currPid s.currProcess)) r

theorem prepareTerminal (inv : ClockInv s.clock) (next : Term) (vidId : Int) (r : Regs) :
    ClockInv (prepareTerminal next vidId r s).clock := by
  have paged : ClockInv (changeVidmem vidId s).clock := inv
  unfold BigBrainOS.prepareTerminal
  rw [(resetCursor_output _).clock]
  generalize changeVidmem vidId s = s₁ at paged
  split
  · exact paged.saveRegs (getPcbByPid s₁.currProcess.val) r
  · exact paged

theorem maskKeyboard (inv : ClockInv s.clock) (next : Term) : ClockInv (maskKeyboard next s).clock := by
  obtain ⟨on, mask, masked⟩ := maskKeyboard_quiet next s
  rw [masked]
  exact inv

theorem switchRunningProcess (inv : ClockInv s.clock) (env : Env) (r : Regs) (fr : ExecFrame) :
    ClockInv (switchRunningProcess env r fr s).2.clock := by
  apply switchRunningProcess_rule (P := fun s => ClockInv s.clock) r inv
  case mask => exact fun _ next inv => inv.maskKeyboard next
  case prepare => exact fun _ next vidId _ inv => inv.prepareTerminal next vidId r
  case launch => exact fun _ inv => inv.sysExecute env fr (shellCommand env)
  case switch => exact fun _ next pid vidId _ inv => inv.switchTo next pid vidId r

end ClockInv

end BigBrainOS
