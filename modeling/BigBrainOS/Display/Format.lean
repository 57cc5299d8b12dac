import BigBrainOS.Kernel.Printf
import BigBrainOS.Process.Boot

/-!
# Where `printf` stops

The scanner passes one byte of the format at a time. It comes to the end of the format
outside of a directive, and stops there, or inside of one, and runs on behind it.
-/

namespace BigBrainOS
set_option autoImplicit false

/-! ## Formats -/

/-- The scanner is inside a directive behind a byte: `%` begins one, and `#` goes on with it. -/
def insideDirective (inside : Bool) (c : UInt8) : Bool := if inside then c = 0x23 else c = 0x25

/-- The format ends in the middle of a directive. -/
def EndsInside (format : List UInt8) : Prop := format.foldl insideDirective false = true

instance (format : List UInt8) : Decidable (EndsInside format) := inferInstanceAs (Decidable (_ = true))

/-- Memory holds a format and the zero behind it. -/
structure HoldsFormat (memory : Bytes) (format : List UInt8) : Prop where
  bytes : ∀ k (inside : k < format.length), memory k = format[k]
  text : ∀ c ∈ format, c ≠ 0
  ended : memory format.length = 0

/-- `printf` reads nothing behind the zero, and it returns the length of the format. -/
structure StopsAtEnd (memory : Bytes) (format : List UInt8) (args : PrintfArgs) (s : Kernel) : Prop where
  reads : ∀ k, let p := (Printf.step memory args)^[k] (.start s)
    p.point ≠ .returned → p.buf ≤ format.length
  returns : ∃ n, let p := (Printf.step memory args)^[n] (.start s)
    p.point = .returned ∧ p.buf = format.length

/-- What is printed for the rest of a format. -/
def expand (args : PrintfArgs) : PrintfPoint → Nat → List UInt8 → List UInt8
  | _, _, [] => []
  | .test, esp, c :: rest => if c = 0x25 then expand args (.conversion false) esp rest else c :: expand args .test esp rest
  | .conversion alternate, esp, c :: rest =>
    if c = 0x23 then expand args (.conversion true) esp rest
    else (conversion args alternate c esp).1 ++ expand args .test (esp + (conversion args alternate c esp).2) rest
  | .returned, _, _ => []

/-! ## Runs -/

/-- Outside of a directive the scanner tests for the end, inside of one it does not. -/
def PrintfPoint.At (point : PrintfPoint) (inside : Bool) : Prop :=
  if inside then ∃ alternate, point = .conversion alternate else point = .test

section
variable {memory : Bytes} {format : List UInt8} {args : PrintfArgs} {s : Kernel}

theorem puts_append (a b : List UInt8) (s : Kernel) : puts (a ++ b) s = puts b (puts a s) := List.foldl_append

/-- **Step lemma.** A byte that is not the zero is passed, and what it stands for is printed. -/
theorem scan_passes (args : PrintfArgs) {p : Printf} {inside : Bool} (at_ : p.point.At inside) {c : UInt8} (nonzero : c ≠ 0) (rest : List UInt8) :
    (p.scan args c).buf = p.buf + 1 ∧ (p.scan args c).point.At (insideDirective inside c) ∧
      puts (expand args (p.scan args c).point (p.scan args c).esp rest) (p.scan args c).kernel =
        puts (expand args p.point p.esp (c :: rest)) p.kernel := by
  cases inside with
  | false =>
    have point : p.point = .test := at_
    by_cases percent : c = 0x25
    · have scanned : p.scan args c = { p with point := .conversion false, buf := p.buf + 1 } := by
        simp only [Printf.scan, point, if_neg nonzero, if_pos percent]
      rw [scanned, point, expand, if_pos percent]
      exact ⟨rfl, by rw [percent]; exact ⟨false, rfl⟩, rfl⟩
    · have scanned : p.scan args c = { p with buf := p.buf + 1, kernel := putc c p.kernel } := by
        simp only [Printf.scan, point, if_neg nonzero, if_neg percent]
      have outside : insideDirective false c = false := decide_eq_false percent
      rw [scanned, outside]
      dsimp only
      rw [point, expand, if_neg percent]
      exact ⟨rfl, rfl, rfl⟩
  | true =>
    obtain ⟨alternate, point⟩ : ∃ alternate, p.point = .conversion alternate := at_
    by_cases hash : c = 0x23
    · have scanned : p.scan args c = { p with point := .conversion true, buf := p.buf + 1 } := by
        simp only [Printf.scan, point, if_pos hash]
      rw [scanned, point, expand, if_pos hash]
      exact ⟨rfl, by rw [hash]; exact ⟨true, rfl⟩, rfl⟩
    · have scanned : p.scan args c = ⟨.test, p.buf + 1, p.esp + (conversion args alternate c p.esp).2,
          puts (conversion args alternate c p.esp).1 p.kernel⟩ := by
        simp only [Printf.scan, point, if_neg hash]
      have outside : insideDirective true c = false := decide_eq_false hash
      rw [scanned, outside, point, expand, if_neg hash, puts_append]
      exact ⟨rfl, rfl, rfl⟩

/-- **Run lemma.** The scanner passes a text without a zero in as many steps as it has bytes. -/
theorem steps_pass (memory : Bytes) (args : PrintfArgs) : ∀ (text : List UInt8) {p : Printf} {inside : Bool}, p.point.At inside →
    (∀ k (below : k < text.length), memory (p.buf + k) = text[k]) → (∀ c ∈ text, c ≠ 0) →
    ((Printf.step memory args)^[text.length] p).buf = p.buf + text.length ∧
      ((Printf.step memory args)^[text.length] p).point.At (text.foldl insideDirective inside) ∧
      ((Printf.step memory args)^[text.length] p).kernel = puts (expand args p.point p.esp text) p.kernel := by
  intro text
  induction text with
  | nil =>
    intro p inside at_ _ _
    have nothing : expand args p.point p.esp [] = [] := by
      unfold expand
      rfl
    rw [nothing]
    exact ⟨rfl, at_, rfl⟩
  | cons c text ih =>
    intro p inside at_ held nonzero
    have first : Printf.step memory args p = p.scan args c := by
      rw [Printf.step, ← Nat.add_zero p.buf, held 0 (Nat.succ_pos _)]
      rfl
    obtain ⟨buf, point, printed⟩ := scan_passes args at_ (nonzero c List.mem_cons_self) text
    have rest := ih point (fun k below => by
      rw [buf, Nat.add_assoc, Nat.add_comm 1 k, held (k + 1) (Nat.succ_lt_succ below)]
      rfl) fun d member => nonzero d (List.mem_cons_of_mem c member)
    rw [List.length_cons, Function.iterate_succ_apply, first, List.foldl_cons]
    obtain ⟨buf', point', kernel'⟩ := rest
    exact ⟨by rw [buf', buf]; omega, point', by rw [kernel', printed]⟩

/-- The scanner in front of a byte of the format, or of the zero. -/
theorem steps_at (holds : HoldsFormat memory format) (args : PrintfArgs) (s : Kernel) {k : Nat} (inside : k ≤ format.length) :
    ((Printf.step memory args)^[k] (.start s)).buf = k ∧
      ((Printf.step memory args)^[k] (.start s)).point.At ((format.take k).foldl insideDirective false) ∧
      ((Printf.step memory args)^[k] (.start s)).kernel = puts (expand args .test 0 (format.take k)) s := by
  have length : (format.take k).length = k := by rw [List.length_take]; omega
  have passed := steps_pass memory args (format.take k) (p := .start s)
    (show PrintfPoint.At .test false from rfl)
    (fun j below => by
      rw [List.getElem_take, ← holds.bytes j (by omega)]
      exact congrArg memory (Nat.zero_add j))
    fun c member => holds.text c (List.mem_of_mem_take member)
  rw [length] at passed
  obtain ⟨buf, point, kernel⟩ := passed
  exact ⟨buf.trans (Nat.zero_add k), point, kernel⟩

/-- Outside of a directive the scanner stops at the zero. -/
theorem steps_return (holds : HoldsFormat memory format) (args : PrintfArgs) (s : Kernel) (complete : ¬ EndsInside format)
    (n : Nat) : let p := (Printf.step memory args)^[n + (format.length + 1)] (.start s)
      p.point = .returned ∧ p.buf = format.length ∧ p.kernel = puts (expand args .test 0 format) s := by
  obtain ⟨buf, point, kernel⟩ := steps_at holds args s (Nat.le_refl format.length)
  rw [List.take_length] at point kernel
  rw [Bool.eq_false_iff.2 complete] at point
  have testing : ((Printf.step memory args)^[format.length] (.start s)).point = .test := point
  induction n with
  | zero =>
    rw [Nat.zero_add, Function.iterate_succ_apply', Printf.step, buf, holds.ended, Printf.scan, testing]
    exact ⟨rfl, buf, kernel⟩
  | succ n ih =>
    have still : ∀ p : Printf, p.point = .returned → Printf.step memory args p = p := by
      intro p returned
      rw [Printf.step, Printf.scan, returned]
    rw [Nat.add_right_comm, Function.iterate_succ_apply', still _ ih.1]
    exact ih

/-- Inside of a directive the zero is passed like any other byte. -/
theorem steps_beyond (holds : HoldsFormat memory format) (args : PrintfArgs) (s : Kernel) (unfinished : EndsInside format) :
    let p := (Printf.step memory args)^[format.length + 1] (.start s)
    p.point = .test ∧ p.buf = format.length + 1 := by
  obtain ⟨buf, point, -⟩ := steps_at holds args s (Nat.le_refl format.length)
  rw [List.take_length, show format.foldl insideDirective false = true from unfinished] at point
  obtain ⟨alternate, converting⟩ : ∃ alternate, _ = PrintfPoint.conversion alternate := point
  have other : ¬ (0 : UInt8) = 0x23 := by decide
  rw [Function.iterate_succ_apply', Printf.step, buf, holds.ended, Printf.scan, converting]
  dsimp only
  rw [if_neg other, buf]
  exact ⟨rfl, rfl⟩

/-- `printf` prints what its format stands for. -/
theorem printf_prints (holds : HoldsFormat memory format) (args : PrintfArgs) (s : Kernel) (complete : ¬ EndsInside format) :
    ∃ n, ((Printf.step memory args)^[n] (.start s)).point = .returned ∧
      ((Printf.step memory args)^[n] (.start s)).kernel = puts (expand args .test 0 format) s := by
  obtain ⟨returned, -, kernel⟩ := steps_return holds args s complete 0
  exact ⟨_, returned, kernel⟩

/-- **The end of a format.** `printf` stops there if and only if the format does not end in the
middle of a directive. -/
theorem stopsAtEnd_iff (holds : HoldsFormat memory format) (args : PrintfArgs) (s : Kernel) :
    StopsAtEnd memory format args s ↔ ¬ EndsInside format := by
  constructor
  · intro stops unfinished
    obtain ⟨testing, buf⟩ := steps_beyond holds args s unfinished
    have inside := stops.reads (format.length + 1) (by rw [testing]; decide)
    rw [buf] at inside
    omega
  · intro complete
    refine ⟨fun k reading => ?_, ?_⟩
    · rcases Nat.lt_or_ge format.length k with behind | inside
      · obtain ⟨n, rfl⟩ := Nat.exists_eq_add_of_le' behind
        exact absurd (steps_return holds args s complete n).1 reading
      · rw [(steps_at holds args s inside).1]
        exact inside
    · obtain ⟨returned, buf, -⟩ := steps_return holds args s complete 0
      exact ⟨_, returned, buf⟩

end

/-- A text in memory, with zeros behind it. -/
theorem holdsFormat_getD {format : List UInt8} (text : ∀ c ∈ format, c ≠ 0) : HoldsFormat (fun k => format.getD k 0) format :=
  ⟨fun _ inside => List.getD_eq_getElem _ _ inside, text, List.getD_eq_default _ _ (Nat.le_refl _)⟩

/-- The format of `sys_halt` is complete. -/
theorem stopsAtEnd_halting :
    StopsAtEnd (fun k => (message "-- Halting Process #%d --\n").getD k 0) (message "-- Halting Process #%d --\n")
      ⟨fun _ => 3, fun _ => []⟩ booted :=
  (stopsAtEnd_iff (holdsFormat_getD (by decide +kernel)) _ _).2 (by decide +kernel)

/-- Behind a single `%` the scanner reads on. -/
theorem percent_reads_on :
    ¬ StopsAtEnd (fun k => (message "%").getD k 0) (message "%") ⟨fun _ => 0, fun _ => []⟩ booted := by
  intro stops
  have holds := holdsFormat_getD (show ∀ c ∈ message "%", c ≠ 0 by decide +kernel)
  obtain ⟨testing, buf⟩ := steps_beyond holds ⟨fun _ => 0, fun _ => []⟩ booted (by decide +kernel)
  have inside := stops.reads ((message "%").length + 1) (by rw [testing]; decide)
  rw [buf] at inside
  omega

end BigBrainOS
