import BigBrainOS.Process.Command

/-!
# What the parser touches

The two loops of `sys_execute` again, with a record of the bytes they read and write.
The name loop writes a terminator behind each character, the argument loop too, at the
difference between its index and the length of the name; the stored length then goes
through a signed byte.
-/

namespace BigBrainOS
set_option autoImplicit false

/-! ## Accesses -/

/-- The indices at which the parser reads the command and writes its two arrays. The
index into `arguments` is a difference of two `int`s. -/
structure ParserAccesses where
  command : List Nat
  executableName : List Nat
  arguments : List Int

/-- The reads and writes of the loop "Get program", with `n` bytes left from index `i`. -/
def nameAccesses (command : Bytes) : Nat → Nat → List Nat × List Nat
  | 0, _ => ([], [])
  | n + 1, i =>
    if command i = 0x20 then ([i], [])
    else if command i = 0x0A then ([i], [])
    else
      let (reads, writes) := nameAccesses command n (i + 1)
      (i :: reads, i :: (i + 1) :: writes)

/-- The reads and writes of the loop "Get arguments". -/
def argAccesses (command : Bytes) (cmdNameLen : Nat) : Nat → Nat → List Nat × List Int
  | 0, _ => ([], [])
  | n + 1, i =>
    if command i = 0x0A ∨ command i = 0 ∨ command i = 0x20 then ([i], [])
    else
      let (reads, writes) := argAccesses command cmdNameLen n (i + 1)
      (i :: reads, (i - cmdNameLen : Int) :: (i - cmdNameLen + 1 : Int) :: writes)

/-- The accesses of the part "Parse". -/
def parseAccesses (fr : ExecFrame) (command : Bytes) : ParserAccesses :=
  let (nameReads, nameWrites) := nameAccesses command maxCmdLen 0
  let (_, haveArgs, i) := parseName command maxCmdLen 0 fr.executableName
  if haveArgs then
    let (argReads, argWrites) := argAccesses command (i + 1) (maxArgLen - (i + 1)) (i + 1)
    ⟨nameReads ++ argReads, nameWrites, 0 :: argWrites⟩
  else ⟨nameReads, nameWrites, [0]⟩

/-- `arguments` once the loop "Get arguments" has gone round `n` times, or has ended before. -/
def argumentsAfter (fr : ExecFrame) (command : Bytes) (n : Nat) : Bytes :=
  let (_, haveArgs, i) := parseName command maxCmdLen 0 fr.executableName
  let arguments := Function.update fr.arguments 0 0
  if haveArgs then parseArgs command (i + 1) (min n (maxArgLen - (i + 1))) (i + 1) arguments else arguments

/-- The reads and writes of `strncpy` with `n` bytes left from index `i`: the test
`src[i] != '\0'` stands in front of `i < n`. -/
def strncpyAccesses (src : Bytes) : Nat → Nat → List Nat × List Nat
  | 0, i => ([i], [])
  | n + 1, i =>
    if src i = 0 then ([i], List.range' i (n + 1))
    else
      let (reads, writes) := strncpyAccesses src n (i + 1)
      (i :: reads, i :: writes)

/-! ## The name -/

section
variable {command : Bytes}

theorem nameAccesses_bounds (command : Bytes) : ∀ n i,
    (∀ r ∈ (nameAccesses command n i).1, r < i + n) ∧ ∀ w ∈ (nameAccesses command n i).2, w ≤ i + n := by
  intro n
  induction n with
  | zero =>
    intro i
    refine ⟨fun r member => ?_, fun w member => ?_⟩ <;> cases member
  | succ n ih =>
    intro i
    have last : ∀ r ∈ [i], r < i + (n + 1) := fun r member => by rw [List.mem_singleton.1 member]; omega
    rw [nameAccesses]
    split
    · exact ⟨last, fun w member => by cases member⟩
    split
    · exact ⟨last, fun w member => by cases member⟩
    · obtain ⟨reads, writes⟩ := ih (i + 1)
      dsimp only
      refine ⟨fun r member => ?_, fun w member => ?_⟩
      · rcases List.mem_cons.1 member with rfl | later
        · omega
        · have := reads r later
          omega
      · rcases List.mem_cons.1 member with rfl | later
        · omega
        · rcases List.mem_cons.1 later with rfl | later
          · omega
          · have := writes w later
            omega

/-- The name array changes at the recorded indices only. -/
theorem parseName_kept (k : Nat) : ∀ n i (name : Bytes), k ∉ (nameAccesses command n i).2 →
    (parseName command n i name).1 k = name k := by
  intro n
  induction n with
  | zero => intro i name _; rfl
  | succ n ih =>
    intro i name outside
    rw [nameAccesses] at outside
    rw [parseName]
    split
    · rfl
    split
    · rfl
    · next noBlank noLine =>
      rw [if_neg noBlank, if_neg noLine] at outside
      simp only [List.mem_cons, not_or] at outside
      obtain ⟨first, second, later⟩ := outside
      rw [ih _ _ later, Function.update_of_ne second, Function.update_of_ne first]

/-- No other byte of the command decides what the name loop does. -/
theorem parseName_congr {other : Bytes} : ∀ n i (name : Bytes), (∀ r ∈ (nameAccesses command n i).1, other r = command r) →
    parseName other n i name = parseName command n i name := by
  intro n
  induction n with
  | zero => intro i name _; rfl
  | succ n ih =>
    intro i name agree
    rw [nameAccesses] at agree
    have first : other i = command i := by
      apply agree
      split
      · exact List.mem_singleton_self i
      split
      · exact List.mem_singleton_self i
      · exact List.mem_cons_self
    rw [parseName, parseName, first]
    split
    · rfl
    split
    · rfl
    · next noBlank noLine =>
      rw [if_neg noBlank, if_neg noLine] at agree
      apply ih
      intro r member
      exact agree r (List.mem_cons_of_mem i member)

/-- The index that the name loop leaves behind. -/
theorem parseName_stop (command : Bytes) : ∀ n i (name : Bytes), (parseName command n i name).2.2 ≤ i + n := by
  intro n
  induction n with
  | zero => intro i name; exact Nat.le_refl i
  | succ n ih =>
    intro i name
    rw [parseName]
    split
    · exact Nat.le_add_right i _
    split
    · exact Nat.le_add_right i _
    · exact (ih (i + 1) _).trans (by omega)

/-! ## The argument -/

theorem argAccesses_bounds (command : Bytes) (c : Nat) : ∀ n i, c ≤ i →
    (∀ r ∈ (argAccesses command c n i).1, r < i + n) ∧
      ∀ w ∈ (argAccesses command c n i).2, 0 ≤ w ∧ w ≤ (i : Int) - c + n := by
  intro n
  induction n with
  | zero =>
    intro i _
    refine ⟨fun r member => ?_, fun w member => ?_⟩ <;> cases member
  | succ n ih =>
    intro i low
    rw [argAccesses]
    split
    · refine ⟨fun r member => ?_, fun w member => ?_⟩
      · rw [List.mem_singleton.1 member]
        omega
      · cases member
    · obtain ⟨reads, writes⟩ := ih (i + 1) (by omega)
      dsimp only
      refine ⟨fun r member => ?_, fun w member => ?_⟩
      · rcases List.mem_cons.1 member with rfl | later
        · omega
        · have := reads r later
          omega
      · rcases List.mem_cons.1 member with rfl | later
        · omega
        · rcases List.mem_cons.1 later with rfl | later
          · omega
          · have := writes w later
            omega

/-- The argument array changes at the recorded indices only. -/
theorem parseArgs_kept (c k : Nat) : ∀ n i (args : Bytes), c ≤ i → (k : Int) ∉ (argAccesses command c n i).2 →
    parseArgs command c n i args k = args k := by
  intro n
  induction n with
  | zero => intro i args _ _; rfl
  | succ n ih =>
    intro i args low outside
    rw [argAccesses] at outside
    rw [parseArgs]
    split
    · rfl
    · next goes =>
      rw [if_neg goes] at outside
      simp only [List.mem_cons, not_or] at outside
      obtain ⟨first, second, later⟩ := outside
      rw [ih _ _ (by omega) later, Function.update_of_ne (by omega), Function.update_of_ne (by omega)]

/-- No other byte of the command decides what the argument loop does. -/
theorem parseArgs_congr {other : Bytes} (c : Nat) : ∀ n i (args : Bytes),
    (∀ r ∈ (argAccesses command c n i).1, other r = command r) → parseArgs other c n i args = parseArgs command c n i args := by
  intro n
  induction n with
  | zero => intro i args _; rfl
  | succ n ih =>
    intro i args agree
    rw [argAccesses] at agree
    have first : other i = command i := by
      apply agree
      split
      · exact List.mem_singleton_self i
      · exact List.mem_cons_self
    rw [parseArgs, parseArgs, first]
    split
    · rfl
    · next goes =>
      rw [if_neg goes] at agree
      apply ih
      intro r member
      exact agree r (List.mem_cons_of_mem i member)

/-- Each round leaves a terminator at its end. -/
theorem parseArgs_terminated (command : Bytes) (c : Nat) : ∀ n i (args : Bytes), c ≤ i → args (i - c) = 0 →
    ∃ k ≤ i - c + n, parseArgs command c n i args k = 0 := by
  intro n
  induction n with
  | zero => intro i args _ zero; exact ⟨i - c, Nat.le_refl _, zero⟩
  | succ n ih =>
    intro i args low zero
    rw [parseArgs]
    split
    · exact ⟨i - c, Nat.le_add_right _ _, zero⟩
    · have next : i + 1 - c = i - c + 1 := by omega
      obtain ⟨k, bound, ended⟩ := ih (i + 1) _ (by omega) (show Function.update (Function.update args (i - c) (command i))
        (i - c + 1) 0 (i + 1 - c) = 0 by rw [next, Function.update_self])
      exact ⟨k, by omega, ended⟩

end

/-! ## The parser -/

/-- Every access of the parser is inside the array it is to, and `arguments` keeps a terminator. -/
structure ParserInBounds (fr : ExecFrame) (command : Bytes) : Prop where
  reads : ∀ r ∈ (parseAccesses fr command).command, r ≤ 127
  name : ∀ w ∈ (parseAccesses fr command).executableName, w ≤ 32
  args : ∀ w ∈ (parseAccesses fr command).arguments, 0 ≤ w ∧ w ≤ 127
  terminated : ∀ n, ∃ k < 128, argumentsAfter fr command n k = 0

/-- The recorded accesses are all there are, and the rounds of the argument loop make the result. -/
structure ParserTouches (fr : ExecFrame) (command : Bytes) : Prop where
  reads : ∀ other, (∀ r ∈ (parseAccesses fr command).command, other r = command r) →
    parse fr other = parse fr command
  name : ∀ k ∉ (parseAccesses fr command).executableName,
    (parse fr command).executableName k = fr.executableName k
  args : ∀ k : Nat, (k : Int) ∉ (parseAccesses fr command).arguments →
    (parse fr command).arguments k = fr.arguments k
  rounds : (parse fr command).arguments = argumentsAfter fr command maxArgLen

section
variable (fr : ExecFrame) (command : Bytes)

/-- After all its rounds the argument loop has filled the parser's result. -/
theorem parse_arguments : (parse fr command).arguments = argumentsAfter fr command maxArgLen := by
  unfold parse argumentsAfter
  dsimp only
  rw [Nat.min_eq_right (Nat.sub_le _ _)]
  split <;> rfl

theorem argumentsAfter_terminated (n : Nat) : ∃ k < 128, argumentsAfter fr command n k = 0 := by
  unfold argumentsAfter
  dsimp only
  split
  · generalize (parseName command maxCmdLen 0 fr.executableName).2.2 = i
    obtain ⟨k, bound, zero⟩ := parseArgs_terminated command (i + 1) (min n (maxArgLen - (i + 1))) (i + 1)
      (Function.update fr.arguments 0 0) (Nat.le_refl (i + 1)) (by rw [Nat.sub_self, Function.update_self])
    refine ⟨k, ?_, zero⟩
    simp only [maxArgLen] at bound
    omega
  · exact ⟨0, by decide, Function.update_self 0 0 fr.arguments⟩

/-- The name loop stops at index 32 at the latest. -/
theorem parseAccesses_command : ∀ r ∈ (parseAccesses fr command).command, r ≤ 127 := by
  have name : ∀ r ∈ (nameAccesses command maxCmdLen 0).1, r ≤ 127 := by
    intro r member
    have := (nameAccesses_bounds command maxCmdLen 0).1 r member
    simp only [maxCmdLen] at this
    omega
  have stop : (parseName command maxCmdLen 0 fr.executableName).2.2 ≤ 32 :=
    parseName_stop command maxCmdLen 0 fr.executableName
  unfold parseAccesses
  generalize parseName command maxCmdLen 0 fr.executableName = stopped at stop ⊢
  obtain ⟨_, haveArgs, i⟩ := stopped
  dsimp only at stop ⊢
  split
  · intro r member
    rcases List.mem_append.1 member with early | late
    · exact name r early
    · have := (argAccesses_bounds command _ _ _ (Nat.le_refl _)).1 r late
      simp only [maxArgLen] at this
      omega
  · exact name

theorem parseAccesses_executableName : ∀ w ∈ (parseAccesses fr command).executableName, w ≤ 32 := by
  have name : ∀ w ∈ (nameAccesses command maxCmdLen 0).2, w ≤ 32 := by
    intro w member
    have := (nameAccesses_bounds command maxCmdLen 0).2 w member
    simp only [maxCmdLen] at this
    omega
  unfold parseAccesses
  dsimp only
  split
  · exact name
  · exact name

/-- The argument is shorter than what is left of the command behind the name. -/
theorem parseAccesses_arguments : ∀ w ∈ (parseAccesses fr command).arguments, 0 ≤ w ∧ w ≤ 127 := by
  have zero : ∀ w ∈ [(0 : Int)], 0 ≤ w ∧ w ≤ 127 := by decide
  unfold parseAccesses
  dsimp only
  split
  · intro w member
    rcases List.mem_cons.1 member with rfl | late
    · exact zero 0 (List.mem_singleton_self 0)
    · have := (argAccesses_bounds command _ _ _ (Nat.le_refl _)).2 w late
      simp only [maxArgLen] at this
      omega
  · exact zero

theorem parseAccesses_inBounds : ParserInBounds fr command where
  reads := parseAccesses_command fr command
  name := parseAccesses_executableName fr command
  args := parseAccesses_arguments fr command
  terminated := argumentsAfter_terminated fr command

/-- No other byte of the command decides what is parsed. -/
theorem parse_congr {other : Bytes} (agree : ∀ r ∈ (parseAccesses fr command).command, other r = command r) :
    parse fr other = parse fr command := by
  unfold parseAccesses at agree
  dsimp only at agree
  have name : parseName other maxCmdLen 0 fr.executableName = parseName command maxCmdLen 0 fr.executableName := by
    apply parseName_congr
    intro r member
    apply agree
    split
    · exact List.mem_append_left _ member
    · exact member
  unfold parse
  rw [name]
  dsimp only
  split
  · next given =>
    rw [if_pos given] at agree
    congr 1
    apply parseArgs_congr
    intro r member
    exact agree r (List.mem_append_right _ member)
  · rfl

theorem parse_executableName_kept {k : Nat} (outside : k ∉ (parseAccesses fr command).executableName) :
    (parse fr command).executableName k = fr.executableName k := by
  rw [parse_executableName]
  apply parseName_kept
  intro member
  apply outside
  unfold parseAccesses
  dsimp only
  split
  · exact member
  · exact member

theorem parse_arguments_kept {k : Nat} (outside : (k : Int) ∉ (parseAccesses fr command).arguments) :
    (parse fr command).arguments k = fr.arguments k := by
  have start : ∀ {writes : List Int}, (k : Int) ∉ 0 :: writes → Function.update fr.arguments 0 0 k = fr.arguments k := by
    intro writes outside
    apply Function.update_of_ne
    rintro rfl
    exact outside List.mem_cons_self
  unfold parseAccesses at outside
  unfold parse
  dsimp only at outside ⊢
  split at outside
  · next given =>
    rw [if_pos given]
    dsimp only
    rw [parseArgs_kept _ _ _ _ _ (Nat.le_refl _) fun member => outside (List.mem_cons_of_mem 0 member)]
    exact start outside
  · next missing =>
    rw [if_neg missing]
    exact start outside

theorem parseAccesses_touches : ParserTouches fr command where
  reads _ agree := parse_congr fr command agree
  name _ outside := parse_executableName_kept fr command outside
  args _ outside := parse_arguments_kept fr command outside
  rounds := parse_arguments fr command

end

/-! ## The stored argument -/

/-- `strncpy` writes the first `n` cells, each once. -/
theorem strncpyAccesses_writes (src : Bytes) : ∀ n i, (strncpyAccesses src n i).2 = List.range' i n := by
  intro n
  induction n with
  | zero => intro i; rfl
  | succ n ih =>
    intro i
    rw [strncpyAccesses]
    split
    · rfl
    · dsimp only
      rw [ih, List.range'_succ]

/-- It reads one cell further at most. -/
theorem strncpyAccesses_reads (src : Bytes) : ∀ n i, ∀ r ∈ (strncpyAccesses src n i).1, r ≤ i + n := by
  intro n
  induction n with
  | zero => intro i r member; rw [List.mem_singleton.1 member]; exact Nat.le_refl i
  | succ n ih =>
    intro i r member
    rw [strncpyAccesses] at member
    split at member
    · rw [List.mem_singleton.1 member]
      exact Nat.le_add_right i _
    · rcases List.mem_cons.1 member with rfl | later
      · exact Nat.le_add_right r _
      · have := ih (i + 1) r later
        omega

/-- The length fits the field `arg_len` and differs from the value for no argument, and the copy stays
inside both arrays. -/
structure StoredInBounds (l : Launch) (pcb : Pcb) : Prop where
  length : l.haveArgs = true → (storeArgs l pcb).argLen = strlen l.arguments maxArgLen
  bound : l.haveArgs = true → 0 ≤ (storeArgs l pcb).argLen ∧ (storeArgs l pcb).argLen ≤ 127
  argLen_iff : (storeArgs l pcb).argLen = -1 ↔ l.haveArgs = false
  reads : ∀ r ∈ (strncpyAccesses l.arguments (strlen l.arguments maxArgLen) 0).1, r < 128
  writes : ∀ w ∈ (strncpyAccesses l.arguments (strlen l.arguments maxArgLen) 0).2, w < 128
  kept : ∀ k, 128 ≤ k → (storeArgs l pcb).args k = pcb.args k

/-- A terminated argument is stored within bounds. -/
theorem storeArgs_inBounds {l : Launch} (terminated : ∃ k < 128, l.arguments k = 0) (pcb : Pcb) : StoredInBounds l pcb := by
  obtain ⟨k, inside, zero⟩ := terminated
  obtain ⟨-, nonzero, -⟩ := strlen_spec l.arguments maxArgLen
  have short : strlen l.arguments maxArgLen < 128 := by
    by_contra long
    exact nonzero k (by omega) zero
  have argLen : l.haveArgs = true → (storeArgs l pcb).argLen = strlen l.arguments maxArgLen := by
    intro given
    rw [storeArgs, if_pos given]
    exact toInt8_ofNat short
  refine ⟨argLen, fun given => ?_, ?_, fun r member => ?_, fun w member => ?_, fun j outside => ?_⟩
  · rw [argLen given]
    omega
  · cases given : l.haveArgs with
    | true =>
      rw [argLen given]
      constructor
      · omega
      · intro missing
        cases missing
    | false =>
      rw [storeArgs, given]
      exact ⟨fun _ => rfl, fun _ => rfl⟩
  · have := strncpyAccesses_reads l.arguments _ 0 r member
    omega
  · rw [strncpyAccesses_writes, List.mem_range'_1] at member
    omega
  · unfold storeArgs
    split
    · dsimp only
      rw [toInt8_ofNat short, Int.toNat_natCast, strncpy_apply, if_neg, if_neg]
      · omega
      · have := (strlen_spec l.arguments (strlen l.arguments maxArgLen)).1
        omega
    · exact Function.update_of_ne (by omega) _ _

/-- Parser and stored argument stay in bounds, for every content of the command memory and of the stack. -/
theorem parser_inBounds (fr : ExecFrame) (command : Bytes) :
    ParserInBounds fr command ∧ ParserTouches fr command ∧
      ∀ newPid program pcb,
        StoredInBounds ⟨newPid, program, (parse fr command).haveArgs, (parse fr command).arguments, fr.regs⟩ pcb := by
  refine ⟨parseAccesses_inBounds fr command, parseAccesses_touches fr command, fun newPid program pcb => ?_⟩
  apply storeArgs_inBounds
  rw [parse_arguments]
  exact argumentsAfter_terminated fr command maxArgLen

end BigBrainOS
