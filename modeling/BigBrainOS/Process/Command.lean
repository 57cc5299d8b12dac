import BigBrainOS.Process.Arguments
import BigBrainOS.Files.Lookup

/-!
# What the parser depends on

A command ends at its first NUL or line feed. The argument loop of `sys_execute`
stops at both, but the name loop stops at blanks and line feeds only, and it
leaves the name array alone if it stops at once. So a name of no characters is
whatever the stack held, and behind the NUL of a short command the parser goes on
to look for a blank.
-/

namespace BigBrainOS
set_option autoImplicit false

open FixedText (text Holds text_eq_iff)

/-- The argument that `sys_execute` stores for the program, if it finds one. -/
def storedArgs (cmd : Command) : Option (List UInt8) :=
  if cmd.haveArgs then some (text cmd.arguments maxArgLen) else none

theorem storedArgs_isSome (cmd : Command) : (storedArgs cmd).isSome = cmd.haveArgs := by
  unfold storedArgs
  split
  · next given => exact given.symm
  · next missing => exact (Bool.eq_false_of_not_eq_true missing).symm

/-- The command ends at `m`: its first NUL or line feed is there. -/
structure EndsAt (a : Bytes) (m : Nat) : Prop where
  before : ∀ k < m, a k ≠ 0 ∧ a k ≠ 0x0A
  stop : a m = 0 ∨ a m = 0x0A

/-- The two calls look up the same name and store the same argument. -/
structure ParsedAlike (fr fr' : ExecFrame) (a b : Bytes) : Prop where
  name : SameString (parse fr a).executableName (parse fr' b).executableName
  args : storedArgs (parse fr a) = storedArgs (parse fr' b)

/-- The bytes up to the end at `m` decide what is parsed, whatever lies behind them and was on the stack. -/
def CommandDecides (a : Bytes) (m : Nat) : Prop :=
  ∀ b, (∀ k ≤ m, b k = a k) → ∀ fr fr', ParsedAlike fr fr' a b

/-! ## The name -/

/-- The name loop ends at `j` and has looked at no byte behind `m`. -/
structure NameEnds (a : Bytes) (m j : Nat) : Prop where
  plain : ∀ k < j, k ≤ m ∧ a k ≠ 0x20 ∧ a k ≠ 0x0A
  stop : j = maxCmdLen ∨ j ≤ m ∧ j < maxCmdLen ∧ (a j = 0x20 ∨ a j = 0x0A)

section Names
variable {a b : Bytes} {m j : Nat}

/-- The name loop ends somewhere: at the first blank or line feed, or at its limit. -/
theorem exists_nameStop (a : Bytes) : ∃ j ≤ maxCmdLen, (∀ k < j, a k ≠ 0x20 ∧ a k ≠ 0x0A) ∧
    (j = maxCmdLen ∨ j < maxCmdLen ∧ (a j = 0x20 ∨ a j = 0x0A)) := by
  have some : ∃ j, j = maxCmdLen ∨ a j = 0x20 ∨ a j = 0x0A := ⟨maxCmdLen, Or.inl rfl⟩
  have high : Nat.find some ≤ maxCmdLen := Nat.find_min' some (Or.inl rfl)
  refine ⟨Nat.find some, high, fun k before => ?_, ?_⟩
  · have plain := Nat.find_min some before
    rw [not_or, not_or] at plain
    exact plain.2
  · by_cases full : Nat.find some = maxCmdLen
    · exact Or.inl full
    · exact Or.inr ⟨by omega, (Nat.find_spec some).resolve_left full⟩

theorem NameEnds.congr (h : NameEnds a m j) (agree : ∀ k ≤ m, b k = a k) : NameEnds b m j := by
  refine ⟨fun k below => ?_, h.stop.imp id fun inside => ⟨inside.1, inside.2.1, ?_⟩⟩
  · obtain ⟨upto, plain⟩ := h.plain k below
    exact ⟨upto, by rw [agree k upto]; exact plain⟩
  · rw [agree j inside.1]
    exact inside.2.2

/-- The name loop on such a command. -/
theorem NameEnds.parseName (h : NameEnds a m j) (name : Bytes) :
    (parseName a maxCmdLen 0 name).2 = (decide (j < maxCmdLen ∧ a j = 0x20), j) ∧
      (∀ k < j, (parseName a maxCmdLen 0 name).1 k = a k) ∧
      (j = 0 → (parseName a maxCmdLen 0 name).1 = name) ∧ (0 < j → (parseName a maxCmdLen 0 name).1 j = 0) := by
  have limit : j ≤ 0 + maxCmdLen := by
    have := h.stop
    omega
  obtain ⟨stop, empty, zero⟩ := parseName_ends a maxCmdLen 0 name (fun k _ below => (h.plain k below).2)
    (h.stop.imp (by omega) fun inside => ⟨by omega, inside.2.2⟩) (Nat.zero_le j)
  rw [Nat.zero_add] at stop
  refine ⟨stop, fun k below => ?_, fun first => empty first.symm, zero⟩
  exact parseName_copies a maxCmdLen 0 name (fun i _ before => (h.plain i before).2) limit (Nat.zero_le k) below

theorem parse_executableName (fr : ExecFrame) (a : Bytes) :
    (parse fr a).executableName = (parseName a maxCmdLen 0 fr.executableName).1 := by
  unfold parse
  dsimp only
  split <;> rfl

theorem parse_haveArgs (fr : ExecFrame) (a : Bytes) :
    (parse fr a).haveArgs = (parseName a maxCmdLen 0 fr.executableName).2.1 := by
  unfold parse
  dsimp only
  split
  · next given => exact given.symm
  · next missing => exact (Bool.eq_false_of_not_eq_true missing).symm

/-- Whether there is an argument is decided at the end of the name. -/
theorem NameEnds.haveArgs (h : NameEnds a m j) (fr : ExecFrame) :
    (parse fr a).haveArgs = decide (j < maxCmdLen ∧ a j = 0x20) := by
  rw [parse_haveArgs, (h.parseName fr.executableName).1]

/-- A name of at least one character is the command's. -/
theorem NameEnds.sameName (h : NameEnds a m j) (nonempty : 0 < j) (agree : ∀ k ≤ m, b k = a k) (fr fr' : ExecFrame) :
    SameString (parse fr a).executableName (parse fr' b).executableName := by
  obtain ⟨-, copied, -, zero⟩ := h.parseName fr.executableName
  obtain ⟨-, copied', -, zero'⟩ := (h.congr agree).parseName fr'.executableName
  rw [parse_executableName, parse_executableName]
  refine ⟨j, zero nonempty, fun k upto => ?_⟩
  by_cases last : k = j
  · rw [last, zero nonempty, zero' nonempty]
  · rw [copied k (by omega), copied' k (by omega), agree k (h.plain k (by omega)).1]

/-- An empty one is what the stack held. -/
theorem NameEnds.emptyName (h : NameEnds a m 0) (fr : ExecFrame) : (parse fr a).executableName = fr.executableName := by
  rw [parse_executableName, (h.parseName fr.executableName).2.2.1 rfl]

end Names

/-! ## The argument -/

/-- The argument loop that starts at `c` ends at `e`. -/
structure ArgEnds (a : Bytes) (c e : Nat) : Prop where
  low : c ≤ e
  high : e ≤ maxArgLen
  plain : ∀ k, c ≤ k → k < e → IsPlain (a k)
  stop : e = maxArgLen ∨ ¬ IsPlain (a e)

/-- The bytes of the command from `c` to `e`. -/
def slice (a : Bytes) (c e : Nat) : List UInt8 := (List.range (e - c)).map fun k => a (c + k)

section Args
variable {a b : Bytes} {m j c e : Nat}

theorem slice_congr (agree : ∀ k ≤ m, b k = a k) (upto : e ≤ m) : slice b c e = slice a c e := by
  apply List.map_congr_left
  intro k member
  rw [List.mem_range] at member
  exact agree _ (by omega)

theorem ArgEnds.congr (h : ArgEnds a c e) (agree : ∀ k ≤ m, b k = a k) (upto : e ≤ m) : ArgEnds b c e := by
  refine ⟨h.low, h.high, fun k from_ below => ?_, ?_⟩
  · rw [agree k (by omega)]
    exact h.plain k from_ below
  · rw [agree e upto]
    exact h.stop

/-- The loop ends somewhere. -/
theorem exists_argEnds (a : Bytes) (room : c ≤ maxArgLen) : ∃ e, ArgEnds a c e := by
  have some : ∃ e, c ≤ e ∧ (e = maxArgLen ∨ ¬ IsPlain (a e)) := ⟨maxArgLen, room, Or.inl rfl⟩
  obtain ⟨from_, stop⟩ := Nat.find_spec some
  refine ⟨Nat.find some, from_, Nat.find_min' some ⟨room, Or.inl rfl⟩, fun k after before => ?_, stop⟩
  by_contra stopped
  exact Nat.find_min some before ⟨after, Or.inr stopped⟩

/-- It ends at the end of the command at the latest. -/
theorem EndsAt.argEnds (ends : EndsAt a m) (low : c ≤ m) (room : c ≤ maxArgLen) : ∃ e, ArgEnds a c e ∧ e ≤ m := by
  have stops : ¬ IsPlain (a m) := by
    rintro ⟨-, noLine, noZero⟩
    rcases ends.stop with zero | line
    · exact noZero zero
    · exact noLine line
  obtain ⟨e, args⟩ := exists_argEnds a room
  refine ⟨e, args, ?_⟩
  by_contra beyond
  exact stops (args.plain m low (by omega))

theorem not_isPlain {x : UInt8} (h : ¬ IsPlain x) : x = 0x0A ∨ x = 0 ∨ x = 0x20 := by
  by_contra other
  rw [not_or, not_or] at other
  exact h ⟨other.2.2, other.1, other.2.1⟩

/-- What is stored when the name ends at a blank. -/
theorem NameEnds.storedArgs_blank (h : NameEnds a m j) (blank : j < maxCmdLen ∧ a j = 0x20) (args : ArgEnds a (j + 1) e)
    (fr : ExecFrame) : storedArgs (parse fr a) = some (slice a (j + 1) e) := by
  have high := args.high
  have low := args.low
  have stop : e = j + 1 + (maxArgLen - (j + 1)) ∨
      e < j + 1 + (maxArgLen - (j + 1)) ∧ (a e = 0x0A ∨ a e = 0 ∨ a e = 0x20) := by
    rcases args.stop with full | stopped
    · left
      omega
    · by_cases full : e = maxArgLen
      · left
        omega
      · exact Or.inr ⟨by omega, not_isPlain stopped⟩
  obtain ⟨-, copied, ended⟩ := parseArgs_eq a (j + 1) (maxArgLen - (j + 1)) (j + 1) (Function.update fr.arguments 0 0)
    args.plain stop (Nat.le_refl _) low (by rw [Nat.sub_self, Function.update_self])
  have scanned := (h.parseName fr.executableName).1
  rw [decide_eq_true blank] at scanned
  have arguments : (parse fr a).arguments =
      parseArgs a (j + 1) (maxArgLen - (j + 1)) (j + 1) (Function.update fr.arguments 0 0) := by
    simp only [parse, scanned, if_true]
  rw [storedArgs, h.haveArgs, decide_eq_true blank, if_pos rfl, arguments, Option.some.injEq, text_eq_iff]
  have length : (slice a (j + 1) e).length = e - (j + 1) := by simp [slice]
  refine ⟨by omega, fun k inside => ?_, fun x member => ?_, fun _ => ?_⟩
  · rw [copied k (by omega) (by omega)]
    simp [slice]
  · obtain ⟨k, below, rfl⟩ := List.mem_map.1 member
    rw [List.mem_range] at below
    exact (args.plain (j + 1 + k) (by omega) (by omega)).2.2
  · rw [length]
    exact ended

/-- Otherwise nothing is. -/
theorem NameEnds.storedArgs_none (h : NameEnds a m j) (noBlank : ¬ (j < maxCmdLen ∧ a j = 0x20)) (fr : ExecFrame) :
    storedArgs (parse fr a) = none := by
  rw [storedArgs, h.haveArgs, decide_eq_false noBlank]
  rfl

/-- The argument depends on the command alone if the end of the name does. -/
theorem NameEnds.sameArgs (h : NameEnds a m j) (ends : EndsAt a m) (agree : ∀ k ≤ m, b k = a k) (fr fr' : ExecFrame) :
    storedArgs (parse fr a) = storedArgs (parse fr' b) := by
  have h' := h.congr agree
  by_cases blank : j < maxCmdLen ∧ a j = 0x20
  · have upto : j < m := by
      rcases h.stop with full | ⟨le, -, -⟩
      · omega
      · refine Nat.lt_of_le_of_ne le fun last => ?_
        rw [← last] at ends
        rcases ends.stop with zero | line
        · exact absurd (zero.symm.trans blank.2) (by decide)
        · exact absurd (line.symm.trans blank.2) (by decide)
    obtain ⟨e, args, within⟩ := ends.argEnds (show j + 1 ≤ m by omega) (show j + 1 ≤ maxArgLen by
      have := blank.1
      simp only [maxCmdLen, maxArgLen] at this ⊢
      omega)
    have blank' : j < maxCmdLen ∧ b j = 0x20 := ⟨blank.1, by rw [agree j (by omega)]; exact blank.2⟩
    rw [h.storedArgs_blank blank args, h'.storedArgs_blank blank' (args.congr agree within), slice_congr agree within]
  · have noBlank : ¬ (j < maxCmdLen ∧ b j = 0x20) := by
      rintro ⟨inside, at_j⟩
      rcases h.stop with full | ⟨le, -, -⟩
      · omega
      · exact blank ⟨inside, by rw [← agree j le]; exact at_j⟩
    rw [h.storedArgs_none blank, h'.storedArgs_none noBlank]

end Args

/-! ## The control block -/

/-- An argument that is found leaves room for its terminator. -/
theorem storedArgs_length {fr : ExecFrame} {a : Bytes} {arg : List UInt8} (stored : storedArgs (parse fr a) = some arg) :
    arg.length < maxArgLen ∧ text (parse fr a).arguments maxArgLen = arg := by
  obtain ⟨j, high, plain, stop⟩ := exists_nameStop a
  have name : NameEnds a maxCmdLen j :=
    ⟨fun k below => ⟨by omega, plain k below⟩, stop.imp id fun inside => ⟨by omega, inside⟩⟩
  by_cases blank : j < maxCmdLen ∧ a j = 0x20
  · have room : j + 1 ≤ maxArgLen := by
      simp only [maxCmdLen, maxArgLen] at high ⊢
      omega
    obtain ⟨e, args⟩ := exists_argEnds a room
    have argument := stored.symm.trans (name.storedArgs_blank blank args fr)
    have high' := args.high
    refine ⟨?_, ?_⟩
    · rw [Option.some.inj argument]
      simp only [slice, List.length_map, List.length_range, maxArgLen] at high' ⊢
      omega
    · rw [storedArgs, name.haveArgs, decide_eq_true blank, if_pos rfl] at stored
      exact Option.some.inj stored
  · rw [name.storedArgs_none blank] at stored
    cases stored

/-- The new control block holds what was stored: its length, -1 for no argument, and its bytes. -/
theorem sysExecute_storedArgs {env : Env} {fr : ExecFrame} {command : Bytes} {s s' : Kernel} {newPid : Int} {eip : Nat}
    (launched : sysExecute env fr command s = (.launched newPid eip, s')) :
    (s'.pcb newPid).argLen = ((storedArgs (parse fr command)).map fun arg => (arg.length : Int)).getD (-1) ∧
      ∀ arg, storedArgs (parse fr command) = some arg → ∀ k (inside : k < arg.length), (s'.pcb newPid).args k = arg[k] := by
  obtain ⟨l, pcb, given, arguments, -, argLen, args⟩ := sysExecute_args launched
  cases stored : storedArgs (parse fr command) with
  | none =>
    have missing : l.haveArgs = false := by
      rw [given, ← storedArgs_isSome, stored]
      rfl
    refine ⟨?_, fun arg h => by cases h⟩
    rw [argLen, storeArgs, missing]
    rfl
  | some arg =>
    obtain ⟨short, argument⟩ := storedArgs_length stored
    have haveArgs : l.haveArgs = true := by
      rw [given, ← storedArgs_isSome, stored]
      rfl
    have held := text_eq_iff.1 argument
    rw [← arguments] at held
    obtain ⟨length, bytes⟩ := storeArgs_argument pcb haveArgs short held.nonzero held.cell (held.ended short)
    refine ⟨argLen.trans length, fun arg' same k inside => ?_⟩
    obtain rfl := Option.some.inj same
    rw [args]
    exact bytes k inside

/-! ## The property -/

section Property
variable {a : Bytes} {m : Nat}

/-- The name begins with a character of its own, and the loop meets a blank, a line
feed or its limit before it could pass the end of the command. -/
def ParsedWithin (a : Bytes) (m : Nat) : Prop :=
  a 0 ≠ 0x20 ∧ a 0 ≠ 0x0A ∧ (a m = 0 → maxCmdLen ≤ m + 1 ∨ ∃ j < m, a j = 0x20)

theorem ParsedWithin.nameEnds (within : ParsedWithin a m) (ends : EndsAt a m) : ∃ j, 0 < j ∧ NameEnds a m j := by
  obtain ⟨noBlank, noLine, beyond⟩ := within
  obtain ⟨j, high, plain, stop⟩ := exists_nameStop a
  have early : j ≤ m ∨ j = maxCmdLen ∧ j = m + 1 ∨ j = maxCmdLen ∧ j ≤ m := by
    rcases ends.stop with zero | line
    · rcases beyond zero with limit | ⟨i, before, blank⟩
      · rcases Nat.lt_or_ge m j with above | below
        · right; left; omega
        · exact Or.inl below
      · left
        by_contra above
        exact (plain i (by omega)).1 blank
    · left
      by_contra above
      exact (plain m (by omega)).2 line
  refine ⟨j, ?_, fun k below => ⟨by omega, plain k below⟩, ?_⟩
  · rcases Nat.eq_zero_or_pos j with first | positive
    · rw [first] at stop
      rcases stop with full | ⟨-, blank | line⟩
      · exact absurd full (by decide)
      · exact absurd blank noBlank
      · exact absurd line noLine
    · exact positive
  · rcases stop with full | inside
    · exact Or.inl full
    · exact Or.inr ⟨by omega, inside⟩

/-- An empty name is taken from the stack. -/
theorem not_commandDecides_of_empty (empty : a 0 = 0x20 ∨ a 0 = 0x0A) : ¬ CommandDecides a m := by
  intro decides
  have name : NameEnds a m 0 :=
    ⟨fun k below => absurd below (Nat.not_lt_zero k), Or.inr ⟨Nat.zero_le m, by decide, empty⟩⟩
  obtain ⟨n, -, same⟩ := (decides a (fun _ _ => rfl) ⟨⟨0, 0⟩, fun _ => 0, fun _ => 0, fun _ => 0⟩
    ⟨⟨0, 0⟩, fun _ => 0x61, fun _ => 0, fun _ => 0⟩).name
  have first := same 0 (Nat.zero_le n)
  rw [name.emptyName, name.emptyName] at first
  exact absurd first (show (0 : UInt8) ≠ 0x61 by decide)

/-- The command with another byte behind its end. -/
def withNext (a : Bytes) (m : Nat) (x : UInt8) : Bytes := Function.update a (m + 1) x

/-- Behind the NUL of a short command, the next byte decides whether there is an argument. -/
theorem not_commandDecides_of_short (ends : EndsAt a m) (zero : a m = 0) (short : m + 1 < maxCmdLen)
    (noBlank : ∀ j < m, a j ≠ 0x20) : ¬ CommandDecides a m := by
  intro decides
  have name : ∀ x, x = 0x20 ∨ x = 0x0A → NameEnds (withNext a m x) (m + 1) (m + 1) := by
    intro x stop
    refine ⟨fun k below => ⟨by omega, ?_⟩, Or.inr ⟨Nat.le_refl _, short, by rw [withNext, Function.update_self]; exact stop⟩⟩
    rw [withNext, Function.update_of_ne (by omega)]
    by_cases last : k = m
    · rw [last, zero]
      decide
    · exact ⟨noBlank k (by omega), (ends.before k (by omega)).2⟩
  have agree : ∀ x, ∀ k ≤ m, withNext a m x k = a k := fun x k upto => Function.update_of_ne (by omega) _ _
  have fr : ExecFrame := ⟨⟨0, 0⟩, fun _ => 0, fun _ => 0, fun _ => 0⟩
  have same := (decides _ (agree 0x20) fr fr).args.symm.trans (decides _ (agree 0x0A) fr fr).args
  have given := congrArg Option.isSome same
  rw [storedArgs_isSome, storedArgs_isSome, (name 0x20 (Or.inl rfl)).haveArgs, (name 0x0A (Or.inr rfl)).haveArgs] at given
  simp only [withNext, Function.update_self, and_true, decide_eq_true short] at given
  simp at given

/-- **What a command decides.** What is looked up and stored depends on the bytes
up to the end of the command exactly if its name is not empty and, should the
command end at a NUL, a blank comes before or the name loop reaches its limit
there. -/
theorem commandDecides_iff (ends : EndsAt a m) : CommandDecides a m ↔ ParsedWithin a m := by
  constructor
  · intro decides
    refine ⟨fun blank => ?_, fun line => ?_, fun zero => ?_⟩
    · exact not_commandDecides_of_empty (Or.inl blank) decides
    · exact not_commandDecides_of_empty (Or.inr line) decides
    · by_contra passes
      rw [not_or, not_exists] at passes
      exact not_commandDecides_of_short ends zero (by omega) (fun j before blank => passes.2 j ⟨before, blank⟩) decides
  · intro within b agree fr fr'
    obtain ⟨j, nonempty, name⟩ := within.nameEnds ends
    exact ⟨name.sameName nonempty agree fr fr', name.sameArgs ends agree fr fr'⟩

end Property

/-- `shell` and a line feed decide alone. -/
theorem commandDecides_shell :
    EndsAt (literal "shell\n" fun _ => 0) 5 ∧ CommandDecides (literal "shell\n" fun _ => 0) 5 := by
  have ends : EndsAt (literal "shell\n" fun _ => 0) 5 := ⟨by decide +kernel, by decide +kernel⟩
  exact ⟨ends, (commandDecides_iff ends).2 ⟨by decide +kernel, by decide +kernel, by decide +kernel⟩⟩

/-- What follows the NUL of a command in memory: a blank and `x`. -/
def blankX : Bytes := fun k => if k = 6 then 0x20 else if k = 7 then 0x78 else 0

/-- After boot, the command `shell` and its NUL launch the program without an
argument, or with the argument `x` that follows in memory. -/
theorem argument_behind_terminator :
    EndsAt (literal "shell" fun _ => 0) 5 ∧ ¬ CommandDecides (literal "shell" fun _ => 0) 5 ∧
      (∀ k ≤ 5, literal "shell" blankX k = literal "shell" (fun _ => 0) k) ∧
      ∃ eip s eip' s', sysExecute ⟨shellImage, fun _ => 0⟩ (.blank ⟨kernelStackTop 2, 0⟩) (literal "shell" fun _ => 0) booted =
          (.launched 3 eip, s) ∧ (s.pcb 3).argLen = -1 ∧
        sysExecute ⟨shellImage, fun _ => 0⟩ (.blank ⟨kernelStackTop 2, 0⟩) (literal "shell" blankX) booted =
          (.launched 3 eip', s') ∧ (s'.pcb 3).argLen = 1 := by
  have ends : EndsAt (literal "shell" fun _ => 0) 5 := ⟨by decide +kernel, by decide +kernel⟩
  refine ⟨ends, not_commandDecides_of_short ends (by decide +kernel) (by decide) (by decide +kernel), by decide +kernel, ?_⟩
  have launches : ∀ after : Bytes, checkExecutable shellImage (.blank ⟨kernelStackTop 2, 0⟩)
      (parse (.blank ⟨kernelStackTop 2, 0⟩) (literal "shell" after)) = some 0 →
      ∃ eip s, sysExecute ⟨shellImage, fun _ => 0⟩ (.blank ⟨kernelStackTop 2, 0⟩) (literal "shell" after) booted =
        (.launched 3 eip, s) := by
    intro after check
    obtain ⟨eip, s, launched, -⟩ :=
      @sysExecute_launches ⟨shellImage, fun _ => 0⟩ _ _ _ _ _ check (by decide) booted_afterBoot.getNewPid
    exact ⟨eip, s, launched⟩
  obtain ⟨eip, s, launched⟩ := launches (fun _ => 0) (by decide +kernel)
  obtain ⟨eip', s', launched'⟩ := launches blankX (by decide +kernel)
  refine ⟨eip, s, eip', s', launched, ?_, launched', ?_⟩
  · rw [(sysExecute_storedArgs launched).1]
    decide +kernel
  · rw [(sysExecute_storedArgs launched').1]
    decide +kernel

end BigBrainOS
