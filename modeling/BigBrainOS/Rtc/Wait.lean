import BigBrainOS.Rtc.Frequency

/-!
# The wait of `rtc_read`

A reader polls its flag, and each time it finds the flag set it counts down from
its divisor. An interrupt that arrives while the flag is already set, or before
the reader has cleared it again, is not seen: the reader returns after exactly
`divisor` wake-ups, for which at least `divisor` interrupts are needed, and
exactly that many if each of them finds the reader polling.
-/

namespace BigBrainOS
set_option autoImplicit false

/-- What can happen next to a reader. -/
inductive ReadEvent where
  | run
  | interrupt
  deriving DecidableEq, Repr

namespace Reader

def step (r : Reader) : ReadEvent → Reader
  | .run => r.run
  | .interrupt => r.interrupt

/-- A reader after a sequence of events. -/
def exec (r : Reader) (es : List ReadEvent) : Reader := es.foldl step r

/-- The times the reader left its poll and counted down. -/
def wakeUps : Reader → List ReadEvent → Nat
  | _, [] => 0
  | r, e :: es => (if e = .run ∧ r.pc = .decrement then 1 else 0) + wakeUps (r.step e) es

/-- Every interrupt finds the reader polling a clear flag. -/
def Heard : Reader → List ReadEvent → Prop
  | _, [] => True
  | r, e :: es => (e = .interrupt → r.pc = .wait ∧ r.flag = false) ∧ Heard (r.step e) es

/-- The interrupts among the events. -/
def interrupts (es : List ReadEvent) : Nat := es.count .interrupt

/-- An interrupt that the reader has seen and not counted yet. -/
def credit (r : Reader) : Nat := if r.pc = .decrement ∨ (r.pc = .wait ∧ r.flag = true) then 1 else 0

/-- The count is positive until the reader returns. -/
def Counting (r : Reader) : Prop := if r.pc = .returned then r.count = 0 else 0 < r.count

section Steps
variable {r : Reader}

theorem Counting.step (counting : r.Counting) (e : ReadEvent) : (r.step e).Counting := by
  obtain ⟨flag, pc, count⟩ := r
  cases e with
  | interrupt => exact counting
  | run =>
    cases pc with
    | reset => exact counting
    | returned => exact counting
    | wait => cases flag <;> exact counting
    | decrement =>
      simp only [Counting] at counting
      simp only [Reader.step, run]
      by_cases more : count - 1 > 0
      · rw [if_pos more]; exact more
      · rw [if_neg more]
        have zero : count - 1 = 0 := by simpa using more
        exact zero

/-- Each count-down lowers the count by one. -/
theorem step_count (counting : r.Counting) (e : ReadEvent) :
    (if e = .run ∧ r.pc = .decrement then 1 else 0) + (r.step e).count.toNat = r.count.toNat := by
  obtain ⟨flag, pc, count⟩ := r
  cases e with
  | interrupt => simp [Reader.step, interrupt]
  | run =>
    cases pc with
    | reset => simp [Reader.step, run]
    | returned => simp [Reader.step, run]
    | wait => cases flag <;> simp [Reader.step, run]
    | decrement =>
      have positive : 0 < count := counting
      have less : (count - 1).toNat + 1 = count.toNat := by
        have := BitVec.lt_def.1 positive
        rw [BitVec.toNat_sub]
        have range := count.isLt
        have one : (1 : BitVec 32).toNat = 1 := rfl
        have zero : (0 : BitVec 32).toNat = 0 := rfl
        omega
      rw [if_pos ⟨rfl, rfl⟩]
      simp only [Reader.step, run]
      by_cases more : count - 1 > 0
      · rw [if_pos more]; simp only; omega
      · rw [if_neg more]; simp only; omega

/-- A step never counts down without an interrupt behind it. -/
theorem step_credit (r : Reader) (e : ReadEvent) :
    (if e = .run ∧ r.pc = .decrement then 1 else 0) + (r.step e).credit ≤
      (if e = .interrupt then 1 else 0) + r.credit := by
  obtain ⟨flag, pc, count⟩ := r
  cases e <;> cases pc <;> cases flag <;> simp [Reader.step, run, interrupt, credit] <;> split <;> simp

/-- With every interrupt heard, each is counted. -/
theorem step_credit_heard (r : Reader) (e : ReadEvent) (heard : e = .interrupt → r.pc = .wait ∧ r.flag = false) :
    (if e = .run ∧ r.pc = .decrement then 1 else 0) + (r.step e).credit =
      (if e = .interrupt then 1 else 0) + r.credit := by
  obtain ⟨flag, pc, count⟩ := r
  cases e with
  | interrupt =>
    obtain ⟨rfl, rfl⟩ := heard rfl
    simp [Reader.step, interrupt, credit]
  | run => cases pc <;> cases flag <;> simp [Reader.step, run, credit] <;> split <;> simp

end Steps

section Runs
variable {r : Reader}

theorem Counting.exec (counting : r.Counting) (es : List ReadEvent) : (r.exec es).Counting := by
  induction es generalizing r with
  | nil => exact counting
  | cons e es ih => exact ih (counting.step e)

theorem exec_count (counting : r.Counting) (es : List ReadEvent) :
    r.wakeUps es + (r.exec es).count.toNat = r.count.toNat := by
  induction es generalizing r with
  | nil => simp [wakeUps, Reader.exec]
  | cons e es ih =>
    have here := step_count counting e
    have later := ih (counting.step e)
    simp only [wakeUps, Reader.exec, List.foldl_cons] at later ⊢
    omega

theorem interrupts_cons (e : ReadEvent) (es : List ReadEvent) :
    interrupts (e :: es) = (if e = .interrupt then 1 else 0) + interrupts es := by
  cases e <;> simp [interrupts, Nat.add_comm]

theorem exec_credit (r : Reader) (es : List ReadEvent) :
    r.wakeUps es + (r.exec es).credit ≤ interrupts es + r.credit := by
  induction es generalizing r with
  | nil => simp [wakeUps, Reader.exec, interrupts]
  | cons e es ih =>
    have here := step_credit r e
    have later := ih (r.step e)
    rw [interrupts_cons]
    simp only [wakeUps, Reader.exec, List.foldl_cons] at later ⊢
    omega

theorem exec_credit_heard (es : List ReadEvent) (heard : r.Heard es) :
    r.wakeUps es + (r.exec es).credit = interrupts es + r.credit := by
  induction es generalizing r with
  | nil => simp [wakeUps, Reader.exec, interrupts]
  | cons e es ih =>
    have here := step_credit_heard r e heard.1
    have later := ih heard.2
    rw [interrupts_cons]
    simp only [wakeUps, Reader.exec, List.foldl_cons] at later ⊢
    omega

end Runs

/-- What a wait for `d` interrupts does, however the interrupts arrive. -/
structure Waits (r : Reader) (d : Nat) : Prop where
  /-- The count starts at the divisor, which is at least 1. -/
  start : r.count.toNat = d ∧ 1 ≤ d
  /-- The count is at least 1 whenever it is decremented. -/
  positive : ∀ es, (r.exec es).pc ≠ .returned → 1 ≤ (r.exec es).count.toNat
  /-- The reader has returned exactly when it was woken up `d` times. -/
  returns : ∀ es, (r.exec es).pc = .returned ↔ r.wakeUps es = d
  /-- That takes at least `d` interrupts. -/
  enough : ∀ es, (r.exec es).pc = .returned → d ≤ interrupts es
  /-- It takes exactly `d` when each interrupt finds the reader polling a clear flag. -/
  heard : ∀ es, r.Heard es → (r.exec es).pc = .returned → interrupts es = d

/-- A reader at the start of its loop waits for the count it starts with. -/
theorem waits_of_reset (flag : Bool) {count : BitVec 32} (positive : 0 < count) :
    Waits ⟨flag, .reset, count⟩ count.toNat := by
  have counting : Counting ⟨flag, .reset, count⟩ := positive
  have toNat : 1 ≤ count.toNat := BitVec.lt_def.1 positive
  have returned : ∀ es, (exec ⟨flag, .reset, count⟩ es).pc = .returned →
      (exec ⟨flag, .reset, count⟩ es).count.toNat = 0 ∧ (exec ⟨flag, .reset, count⟩ es).credit = 0 := by
    intro es done
    have zero := counting.exec es
    rw [Counting, if_pos done] at zero
    rw [zero]
    exact ⟨rfl, by simp [credit, done]⟩
  have waiting : ∀ es, (exec ⟨flag, .reset, count⟩ es).pc ≠ .returned →
      1 ≤ (exec ⟨flag, .reset, count⟩ es).count.toNat := by
    intro es going
    have more := counting.exec es
    rw [Counting, if_neg going] at more
    exact BitVec.lt_def.1 more
  refine ⟨⟨rfl, toNat⟩, waiting, fun es => ⟨fun done => ?_, fun all => ?_⟩, fun es done => ?_, fun es heard done => ?_⟩
  · have total := exec_count counting es
    rw [(returned es done).1] at total
    exact total
  · by_contra going
    have total := exec_count counting es
    have left := waiting es going
    simp only at total
    omega
  · have total := exec_count counting es
    have bound := exec_credit ⟨flag, .reset, count⟩ es
    rw [(returned es done).1] at total
    rw [(returned es done).2] at bound
    have none : credit ⟨flag, .reset, count⟩ = 0 := by simp [credit]
    simp only at total
    omega
  · have total := exec_count counting es
    have bound := exec_credit_heard es heard
    rw [(returned es done).1] at total
    rw [(returned es done).2] at bound
    have none : credit ⟨flag, .reset, count⟩ = 0 := by simp [credit]
    simp only at total
    omega

end Reader

/-! ## Runs of the kernel with RTC calls -/

/-- A step of the kernel, or a call of an RTC handler by the running process. -/
inductive RtcOp where
  | call (op : Op)
  | rtcOpen
  | rtcWrite (buf : Option (BitVec 32)) (nbytes : Int)
  | rtcClose

/-- The effect of a step. -/
def RtcOp.run (env : Env) (op : RtcOp) (s : Kernel) : Kernel :=
  match op with
  | .call op => op.run env s
  | .rtcOpen => BigBrainOS.rtcOpen s
  | .rtcWrite buf nbytes => (BigBrainOS.rtcWrite buf nbytes s).2
  | .rtcClose => BigBrainOS.rtcClose s

/-- The kernel with atomic calls, RTC calls among them; nothing is asked of the steps. -/
def rtcCalls (env : Env) : TransitionSystem Kernel RtcOp where
  ok _ _ := True
  next s op := op.run env s

theorem clockInv_entry (m : Machine) : ClockInv (entry m).clock where
  freq := ⟨1, by decide, by decide, rfl⟩
  rate := encodedFreq_set ⟨1, by decide, by decide, rfl⟩ m.rtcRegA
  valid _ used := by cases used
  asked _ used := by cases used

/-- **Step lemma.** -/
theorem ClockInv.step {s : Kernel} (inv : ClockInv s.clock) (env : Env) (op : RtcOp) :
    ClockInv (op.run env s).clock := by
  cases op with
  | rtcOpen => exact inv.rtcOpen
  | rtcWrite buf nbytes => exact inv.rtcWrite buf nbytes
  | rtcClose => exact inv.rtcClose
  | call op =>
    cases op with
    | execute fr exc command => exact inv.executeCall env fr exc command
    | halt fr status => exact inv.sysHalt env fr status
    | tick r fr => exact inv.switchRunningProcess env r fr
    | putc c => exact (putc_output c s).clock ▸ inv
    | key scancode => exact (kbHandler_typed scancode s).clock ▸ inv

/-- **RTC virtualisation.** In every state reached from boot the requests divide
the hardware's frequency, and a process that asked for a frequency waits for
`divisor` wake-ups. -/
theorem rtc_virtualised {env : Env} {s : Kernel} (reach : (rtcCalls env).Reach AtEntry s) :
    ClockInv s.clock ∧ ∀ p, s.usedPids p = true → (s.pcb p).progFreq ≠ 0 →
      ∀ flag, (rtcRead (s.pcb p) flag).Waits (s.pcb p).divisor := by
  have inv : ClockInv s.clock :=
    reach.invariant (fun _ ⟨m, start⟩ => start ▸ clockInv_entry m) fun _ op inv _ => inv.step env op
  refine ⟨inv, fun p used asked flag => ?_⟩
  obtain ⟨isFreq, -, product⟩ := inv.asked p used asked
  have product' : (s.pcb p).divisor * (s.pcb p).progFreq = s.higherFreq := product
  have low : 2 ≤ s.higherFreq := inv.freq.bounds.1
  have high : s.higherFreq ≤ 1024 := inv.freq.bounds.2
  have positive : 1 ≤ (s.pcb p).divisor := by
    by_contra zero
    have none : (s.pcb p).divisor = 0 := by omega
    rw [none, Nat.zero_mul] at product'
    omega
  have small : (s.pcb p).divisor ≤ 1024 :=
    (Nat.le_mul_of_pos_right _ (Nat.pos_of_ne_zero asked)).trans (product'.trans_le high)
  have toNat : (BitVec.ofNat 32 (s.pcb p).divisor).toNat = (s.pcb p).divisor := by
    rw [BitVec.toNat_ofNat]; omega
  rw [rtcRead, if_neg asked]
  have count : 0 < BitVec.ofNat 32 (s.pcb p).divisor := BitVec.lt_def.2 (by rw [toNat]; exact positive)
  have waits := Reader.waits_of_reset flag count
  rw [toNat] at waits
  exact waits

/-! ## Lost interrupts -/

/-- An accepted `rtc_write` records the request and raises the hardware's frequency to it. -/
theorem rtcWrite_effect (freq : BitVec 32) {s : Kernel} (low : ¬ freq.toInt < rtcMinFreq)
    (high : ¬ freq.toInt > rtcMaxFreq) (test : freq &&& (freq - 1) = 0) (started : s.currPid s.currProcess ≠ -1) :
    ∃ s', (rtcWrite (some freq) 4 s).2 = s' ∧ (s'.pcb (s.currPid s.currProcess)).progFreq = freq.toNat ∧
      s'.higherFreq = max s.higherFreq freq.toNat ∧ s'.usedPids = s.usedPids ∧ s'.currPid = s.currPid ∧
      s'.currProcess = s.currProcess := by
  have bounds : ¬ (freq.toInt > rtcMaxFreq ∨ freq.toInt < rtcMinFreq) := fun h => h.elim high low
  refine ⟨_, rfl, ?_⟩
  simp only [rtcWrite, ne_eq, not_true, if_false, if_neg bounds, test, if_neg started]
  generalize block : getPcbByPid (s.currPid s.currProcess) = a
  generalize marked : s.setPcb a (fun pcb => { pcb with progFreq := freq.toNat }) = s₁
  have request : (s₁.pcbs a).progFreq = freq.toNat := by rw [← marked, Kernel.setPcb_pcbs_self]
  have freq₁ : s₁.higherFreq = s.higherFreq := by rw [← marked]; rfl
  have used₁ : s₁.usedPids = s.usedPids := by rw [← marked]; rfl
  have curr₁ : s₁.currPid = s.currPid := by rw [← marked]; rfl
  have running₁ : s₁.currProcess = s.currProcess := by rw [← marked]; rfl
  simp only [Kernel.pcb, block]
  split
  · next raise =>
    have same := updateDivisors_same { s₁ with higherFreq := freq.toNat }
    have view := (updateDivisors_reprogrammed { s₁ with higherFreq := freq.toNat }).view
    refine ⟨(same.progFreq a).trans request, same.higherFreq.trans ?_, same.usedPids.trans used₁,
      (congrArg ProcView.curr view).trans curr₁, (congrArg ProcView.currProcess view).trans running₁⟩
    show freq.toNat = max s.higherFreq freq.toNat
    omega
  · next keep =>
    refine ⟨?_, ?_, used₁, curr₁, running₁⟩
    · simp only [rtcSetFrequency, Kernel.setPcb_pcbs_self]
      exact request
    · show s₁.higherFreq = _
      omega

/-- Three interrupts for a reader with a divisor of two: the second one comes
after the reader has left its poll and before it clears the flag again. -/
def lostInterrupt : List ReadEvent := [.run, .interrupt, .run, .interrupt, .run, .run, .interrupt, .run]

open TransitionSystem in
/-- A process that asked for 1024 Hz and then for 512 Hz has a divisor of two,
and its `rtc_read` may return after three interrupts. -/
theorem rtcRead_loses_interrupt :
    ¬ ∀ s, (rtcCalls shellEnv).Reach AtEntry s → ∀ p, s.usedPids p = true → (s.pcb p).progFreq ≠ 0 →
      ∀ flag es e, ((rtcRead (s.pcb p) flag).exec es).pc ≠ .returned →
        ((rtcRead (s.pcb p) flag).exec (es ++ [e])).pc = .returned →
        Reader.interrupts (es ++ [e]) = (s.pcb p).divisor := by
  intro all
  generalize (⟨fun _ => 0, fun _ => .zero, 0x26, 0⟩ : Machine) = m
  obtain ⟨s₁, tick, shells, -, running⟩ := (entry_init m).booting.tick shellEnv_loadable ⟨0, 0⟩ (.blank ⟨0, 0⟩)
  have running₁ : s₁.currProcess = 0 := running.trans (by rw [(entry_init m).running]; rfl)
  have shell : s₁.currPid s₁.currProcess = 0 := by rw [running₁]; exact shells.curr 0
  have reach₁ : (rtcCalls shellEnv).Reach AtEntry s₁ := (Reach.base ⟨m, rfl⟩).step_to
    (.call (.tick ⟨0, 0⟩ (.blank ⟨0, 0⟩))) trivial (congrArg Prod.snd tick)
  obtain ⟨s₂, write₂, -, freq₂, used₂, curr₂, running₂⟩ := rtcWrite_effect 1024 (by decide)
    (by decide) (by decide) (show s₁.currPid s₁.currProcess ≠ -1 by rw [shell]; decide)
  have reach₂ : (rtcCalls shellEnv).Reach AtEntry s₂ := reach₁.step_to (.rtcWrite (some 1024) 4) trivial write₂
  have shell₂ : s₂.currPid s₂.currProcess = 0 := by rw [curr₂, running₂]; exact shell
  obtain ⟨s₃, write₃, request, freq₃, used₃, -, -⟩ := rtcWrite_effect 512 (by decide)
    (by decide) (by decide) (show s₂.currPid s₂.currProcess ≠ -1 by rw [shell₂]; decide)
  have reach₃ : (rtcCalls shellEnv).Reach AtEntry s₃ := reach₂.step_to (.rtcWrite (some 512) 4) trivial write₃
  have invariant : ∀ s, (rtcCalls shellEnv).Reach AtEntry s → ClockInv s.clock := fun s reach =>
    reach.invariant (fun _ ⟨m, start⟩ => start ▸ clockInv_entry m) fun _ op inv _ => inv.step shellEnv op
  have used : s₃.usedPids 0 = true := by rw [used₃, used₂]; exact (shells.used 0).2 (by decide)
  rw [shell₂] at request
  have asked : (s₃.pcb 0).progFreq ≠ 0 := by rw [request]; decide
  have divisor : (s₃.pcb 0).divisor = 2 := by
    have product : (s₃.pcb 0).divisor * (s₃.pcb 0).progFreq = s₃.higherFreq :=
      ((invariant s₃ reach₃).asked 0 used asked).2.2
    have high : s₁.higherFreq ≤ 1024 := (invariant s₁ reach₁).freq.bounds.2
    have values : (1024 : BitVec 32).toNat = 1024 ∧ (512 : BitVec 32).toNat = 512 := by decide
    rw [request, freq₃, freq₂, values.1, values.2] at product
    omega
  have reader : rtcRead (s₃.pcb 0) false = ⟨false, .reset, 2⟩ := by rw [rtcRead, if_neg asked, divisor]; rfl
  have three := all s₃ reach₃ 0 used asked false lostInterrupt .run (by rw [reader]; decide) (by rw [reader]; decide)
  rw [divisor] at three
  exact absurd three (by decide)

open TransitionSystem in
/-- The clock after the first base shell has asked for 512 Hz. -/
theorem rtc_virtualised_after_write :
    let s := (rtcCalls shellEnv).exec (entry ⟨fun _ => 0, fun _ => .zero, 0x26, 0⟩)
      [.call (.tick ⟨0, 0⟩ (.blank ⟨0, 0⟩)), .rtcWrite (some 512) 4]
    ClockInv s.clock ∧ ∀ p, s.usedPids p = true → (s.pcb p).progFreq ≠ 0 →
      ∀ flag, (rtcRead (s.pcb p) flag).Waits (s.pcb p).divisor :=
  rtc_virtualised ((Reach.base ⟨_, rfl⟩).exec ⟨trivial, trivial, trivial⟩)

end BigBrainOS
