import BigBrainOS.Kernel.UserCalls
import BigBrainOS.Process.Boot

/-!
# From the command line to `sys_getargs`

`sys_execute` splits its command by two loops, one over the first 32 bytes for
the name and one over the first 128 for the argument, and keeps the argument in
the new control block. A name of 32 bytes ends the first loop at its limit, in
front of the blank, and the argument is not looked for.
-/

namespace BigBrainOS
set_option autoImplicit false

/-- A byte that ends neither a name nor an argument. -/
def IsPlain (b : UInt8) : Prop := b ≠ 0x20 ∧ b ≠ 0x0A ∧ b ≠ 0

instance (b : UInt8) : Decidable (IsPlain b) := inferInstanceAs (Decidable (_ ∧ _ ∧ _))

/-- A command line with one argument, and the byte that ends it. -/
structure CommandLine where
  name : List UInt8
  arg : List UInt8
  stop : UInt8
  name_nonempty : 1 ≤ name.length
  name_short : name.length ≤ maxCmdLen
  name_plain : ∀ b ∈ name, IsPlain b
  arg_nonempty : arg ≠ []
  arg_plain : ∀ b ∈ arg, IsPlain b
  stop_ends : stop = 0x0A ∨ stop = 0 ∨ stop = 0x20
  room : name.length + 1 + arg.length ≤ maxArgLen

namespace CommandLine
variable (line : CommandLine)

/-- The characters up to the end of the line. -/
def text : List UInt8 := line.name ++ 0x20 :: (line.arg ++ [line.stop])

/-- The command in memory, with anything behind it. -/
def bytes (rest : Bytes) : Bytes := store rest line.text

theorem bytes_name (rest : Bytes) {k : Nat} (h : k < line.name.length) :
    line.bytes rest k = line.name[k] := by
  simp only [bytes, store, text, List.getElem?_append_left h, List.getElem?_eq_getElem h, Option.getD_some]

theorem bytes_blank (rest : Bytes) : line.bytes rest line.name.length = 0x20 := by
  simp [bytes, store, text]

theorem bytes_arg (rest : Bytes) {k : Nat} (h : k < line.arg.length) :
    line.bytes rest (line.name.length + 1 + k) = line.arg[k] := by
  have index : line.name.length + 1 + k = line.name.length + (k + 1) := by omega
  simp only [bytes, store, text, index]
  rw [List.getElem?_append_right (by omega), Nat.add_sub_cancel_left, List.getElem?_cons_succ,
    List.getElem?_append_left h, List.getElem?_eq_getElem h, Option.getD_some]

theorem bytes_stop (rest : Bytes) : line.bytes rest (line.name.length + 1 + line.arg.length) = line.stop := by
  have index : line.name.length + 1 + line.arg.length = line.name.length + (line.arg.length + 1) := by omega
  simp only [bytes, store, text, index]
  rw [List.getElem?_append_right (by omega), Nat.add_sub_cancel_left, List.getElem?_cons_succ]
  simp

theorem bytes_name_plain (rest : Bytes) {k : Nat} (h : k < line.name.length) : IsPlain (line.bytes rest k) := by
  rw [line.bytes_name rest h]
  exact line.name_plain _ (List.getElem_mem h)

theorem bytes_arg_plain (rest : Bytes) {k : Nat} (h : k < line.arg.length) :
    IsPlain (line.bytes rest (line.name.length + 1 + k)) := by
  rw [line.bytes_arg rest h]
  exact line.arg_plain _ (List.getElem_mem h)

end CommandLine

/-! ## The two loops -/

/-- The name loop ends at index `j`: at the first blank or line feed, or at its limit. -/
theorem parseName_ends (command : Bytes) {j : Nat} : ∀ n i (name : Bytes),
    (∀ k, i ≤ k → k < j → command k ≠ 0x20 ∧ command k ≠ 0x0A) →
    j = i + n ∨ j < i + n ∧ (command j = 0x20 ∨ command j = 0x0A) → i ≤ j →
      (parseName command n i name).2 = (decide (j < i + n ∧ command j = 0x20), j) ∧
        (i = j → (parseName command n i name).1 = name) ∧ (i < j → (parseName command n i name).1 j = 0) := by
  intro n
  induction n with
  | zero =>
    intro i name _ ends low
    have last : i = j := by omega
    subst last
    exact ⟨by simp [parseName], fun _ => rfl, fun below => absurd below (Nat.lt_irrefl i)⟩
  | succ n ih =>
    intro i name plain ends low
    by_cases last : i = j
    · subst last
      rcases ends with full | ⟨inside, blank | line⟩
      · omega
      · rw [parseName, if_pos blank]
        exact ⟨by simp [blank], fun _ => rfl, fun below => absurd below (Nat.lt_irrefl i)⟩
      · rw [parseName, if_neg (by rw [line]; decide), if_pos line]
        exact ⟨by simp [line], fun _ => rfl, fun below => absurd below (Nat.lt_irrefl i)⟩
    · obtain ⟨noBlank, noLine⟩ := plain i (Nat.le_refl i) (by omega)
      have shift : i + (n + 1) = i + 1 + n := by omega
      rw [parseName, if_neg noBlank, if_neg noLine, shift]
      obtain ⟨stop, same, zero⟩ := ih (i + 1) (Function.update (Function.update name i (command i)) (i + 1) 0)
        (fun k from_ => plain k (by omega)) (by rw [← shift]; exact ends) (by omega)
      refine ⟨stop, fun first => absurd first last, fun _ => ?_⟩
      by_cases next : i + 1 = j
      · rw [same next, next, Function.update_self]
      · exact zero (by omega)

/-- The argument loop, from index `i` on, copies the bytes up to `m` and keeps
the copy terminated. -/
theorem parseArgs_eq (command : Bytes) (c : Nat) {m : Nat} :
    ∀ n i (args : Bytes), (∀ j, i ≤ j → j < m → IsPlain (command j)) →
      m = i + n ∨ m < i + n ∧ (command m = 0x0A ∨ command m = 0 ∨ command m = 0x20) → c ≤ i → i ≤ m →
      args (i - c) = 0 →
      (∀ k, c + k < i → parseArgs command c n i args k = args k) ∧
        (∀ k, i ≤ c + k → c + k < m → parseArgs command c n i args k = command (c + k)) ∧
        parseArgs command c n i args (m - c) = 0 := by
  intro n
  induction n with
  | zero =>
    intro i args _ stop low high zero
    have last : m = i := by omega
    refine ⟨fun k _ => rfl, fun k _ _ => by omega, ?_⟩
    rw [last]
    exact zero
  | succ n ih =>
    intro i args plain stop low high zero
    by_cases last : i = m
    · have ends : command i = 0x0A ∨ command i = 0 ∨ command i = 0x20 := by
        rcases stop with full | ⟨-, ends⟩
        · omega
        · rw [last]; exact ends
      rw [parseArgs, if_pos ends, ← last]
      exact ⟨fun k _ => rfl, fun k _ _ => by omega, zero⟩
    · obtain ⟨noBlank, noLine, noZero⟩ := plain i (Nat.le_refl i) (by omega)
      have next : i - c + 1 = i + 1 - c := by omega
      rw [parseArgs, if_neg (by rintro (h | h | h) <;> contradiction)]
      obtain ⟨before, copied, ended⟩ := ih (i + 1)
        (Function.update (Function.update args (i - c) (command i)) (i - c + 1) 0)
        (fun j hj => plain j (by omega)) (stop.imp (by omega) fun h => ⟨by omega, h.2⟩) (by omega) (by omega)
        (by rw [next, Function.update_self])
      refine ⟨fun k below => ?_, fun k above below => ?_, ended⟩
      · rw [before k (by omega), Function.update_of_ne (by omega), Function.update_of_ne (by omega)]
      · by_cases first : c + k = i
        · have index : k = i - c := by omega
          rw [before k (by omega), Function.update_of_ne (by omega), index, Function.update_self]
          congr 1
          omega
        · exact copied k (by omega) below

/-- What `sys_execute` knows of the line's argument after its two loops. -/
theorem parse_argument (line : CommandLine) (rest : Bytes) (fr : ExecFrame) (short : line.name.length ≤ 31) :
    (parse fr (line.bytes rest)).haveArgs = true ∧
      (∀ k (h : k < line.arg.length), (parse fr (line.bytes rest)).arguments k = line.arg[k]) ∧
      (parse fr (line.bytes rest)).arguments line.arg.length = 0 := by
  have inside : line.name.length < 0 + maxCmdLen := by simp only [maxCmdLen]; omega
  have scanned := (parseName_ends (line.bytes rest) maxCmdLen 0 fr.executableName
    (fun j _ hj => ⟨(line.bytes_name_plain rest hj).1, (line.bytes_name_plain rest hj).2.1⟩)
    (Or.inr ⟨inside, Or.inl (line.bytes_blank rest)⟩) (Nat.zero_le _)).1
  rw [decide_eq_true ⟨inside, line.bytes_blank rest⟩] at scanned
  have room := line.room
  have plain : ∀ j, line.name.length + 1 ≤ j → j < line.name.length + 1 + line.arg.length →
      IsPlain (line.bytes rest j) := by
    intro j low high
    have at_j := line.bytes_arg_plain rest (show j - (line.name.length + 1) < line.arg.length by omega)
    rwa [show line.name.length + 1 + (j - (line.name.length + 1)) = j by omega] at at_j
  have stops : line.name.length + 1 + line.arg.length = line.name.length + 1 + (maxArgLen - (line.name.length + 1)) ∨
      line.name.length + 1 + line.arg.length < line.name.length + 1 + (maxArgLen - (line.name.length + 1)) ∧
        (line.bytes rest (line.name.length + 1 + line.arg.length) = 0x0A ∨
          line.bytes rest (line.name.length + 1 + line.arg.length) = 0 ∨
          line.bytes rest (line.name.length + 1 + line.arg.length) = 0x20) := by
    rw [line.bytes_stop]
    by_cases full : line.name.length + 1 + line.arg.length = maxArgLen
    · left; omega
    · exact Or.inr ⟨by omega, line.stop_ends⟩
  obtain ⟨-, copied, ended⟩ := parseArgs_eq (line.bytes rest) (line.name.length + 1)
    (maxArgLen - (line.name.length + 1)) (line.name.length + 1) (Function.update fr.arguments 0 0)
    plain stops (Nat.le_refl _) (by omega) (by rw [Nat.sub_self, Function.update_self])
  simp only [parse, scanned, if_true]
  refine ⟨trivial, fun k h => ?_, ?_⟩
  · rw [copied k (by omega) (by omega), line.bytes_arg rest h]
  · rwa [Nat.add_sub_cancel_left] at ended

/-- A name of 32 bytes hides the argument. -/
theorem parse_long_name (line : CommandLine) (rest : Bytes) (fr : ExecFrame) (long : line.name.length = maxCmdLen) :
    (parse fr (line.bytes rest)).haveArgs = false := by
  have plain : ∀ j, 0 ≤ j → j < maxCmdLen → line.bytes rest j ≠ 0x20 ∧ line.bytes rest j ≠ 0x0A := by
    intro j _ below
    have at_j := line.bytes_name_plain rest (show j < line.name.length by omega)
    exact ⟨at_j.1, at_j.2.1⟩
  have scanned := (parseName_ends (line.bytes rest) maxCmdLen 0 fr.executableName plain
    (Or.inl (Nat.zero_add _).symm) (Nat.zero_le _)).1
  simp [parse, scanned]

/-! ## The new control block -/

/-- What `sys_execute` stores of the argument when it launches a program. -/
theorem sysExecute_args {env : Env} {fr : ExecFrame} {command : Bytes} {s s' : Kernel} {newPid : Int} {eip : Nat}
    (launched : sysExecute env fr command s = (.launched newPid eip, s')) :
    ∃ (l : Launch) (pcb : Pcb), l.haveArgs = (parse fr command).haveArgs ∧
      l.arguments = (parse fr command).arguments ∧ ValidPid newPid ∧
      (s'.pcb newPid).argLen = (storeArgs l pcb).argLen ∧ (s'.pcb newPid).args = (storeArgs l pcb).args := by
  obtain ⟨l, s₁, pcb, -, haveArgs, arguments, -, alloc, clock⟩ := sysExecute_block launched
  have block : s'.pcb newPid = { l.newPcb s₁ pcb with regs := ⟨userEsp, userEsp⟩ } :=
    (congrFun (congrArg ClockView.pcbs clock) _).trans (Function.update_self _ _ _)
  refine ⟨l, pcb, haveArgs, arguments, (getNewPid_eq_some.1 alloc).1, ?_, ?_⟩
  · rw [block]; rfl
  · rw [block]; rfl

/-- A length below 128 passes the signed byte unchanged. -/
theorem toInt8_ofNat {n : Nat} (small : n < 128) : (UInt8.ofNat n).toInt8.toInt = (n : Int) := by
  have all : ∀ n < 128, (UInt8.ofNat n).toInt8.toInt = (n : Int) := by decide
  exact all n small

/-- A stored argument is the line's, with its length. -/
theorem storeArgs_argument {l : Launch} {arg : List UInt8} (pcb : Pcb) (given : l.haveArgs = true)
    (short : arg.length < maxArgLen) (chars : ∀ b ∈ arg, b ≠ 0)
    (copied : ∀ k (h : k < arg.length), l.arguments k = arg[k]) (ended : l.arguments arg.length = 0) :
    (storeArgs l pcb).argLen = arg.length ∧ ∀ k (h : k < arg.length), (storeArgs l pcb).args k = arg[k] := by
  have nonzero : ∀ k < arg.length, l.arguments k ≠ 0 := by
    intro k h
    rw [copied k h]
    exact chars _ (List.getElem_mem h)
  have length : strlen l.arguments maxArgLen = arg.length := strlen_eq nonzero ended short
  simp only [storeArgs, given, if_true, length, toInt8_ofNat short, Int.toNat_natCast]
  refine ⟨trivial, fun k h => ?_⟩
  rw [strncpy_eq _ nonzero, memcpy, if_pos h, copied k h]

/-! ## The round trip -/

/-- Process `pid` calls `sys_getargs` with more than `|arg|` bytes: it gets 0,
and a buffer that starts with `arg` and a zero. -/
def GetsArgument (s : Kernel) (pid : Int) (arg : List UInt8) : Prop :=
  ∀ (r : Regs) (buf : Bytes) (nbytes : Int), OnStack (kernelStackTop pid) r.esp → (arg.length : Int) < nbytes →
    ∃ buf', sysGetargs r (some buf) nbytes s = (0, some buf') ∧
      (∀ k (h : k < arg.length), buf' k = arg[k]) ∧ buf' arg.length = 0

/-- The argument in the block of `pid` is still the one it had. -/
def SameArgument (pid : Int) (s s' : Kernel) : Prop :=
  (s'.pcb pid).argLen = (s.pcb pid).argLen ∧ (s'.pcb pid).args = (s.pcb pid).args

section RoundTrip
variable {env : Env} {fr : ExecFrame} {line : CommandLine} {rest : Bytes} {s s' : Kernel} {newPid : Int} {eip : Nat}

theorem getsArgument_of_short (launched : sysExecute env fr (line.bytes rest) s = (.launched newPid eip, s'))
    (short : line.name.length ≤ 31) {s'' : Kernel} (same : SameArgument newPid s' s'') :
    GetsArgument s'' newPid line.arg := by
  obtain ⟨l, pcb, given, arguments, valid, argLen, args⟩ := sysExecute_args launched
  obtain ⟨haveArgs, copied, ended⟩ := parse_argument line rest fr short
  rw [← arguments] at copied ended
  have room : line.name.length + 1 + line.arg.length ≤ 128 := line.room
  have chars : ∀ b ∈ line.arg, b ≠ 0 := fun b member => (line.arg_plain b member).2.2
  obtain ⟨length, stored⟩ := storeArgs_argument pcb (given.trans haveArgs) (show _ < 128 by omega) chars copied ended
  intro r buf nbytes stack enough
  have block : s''.currPcb r = s''.pcb newPid := s''.currPcb_eq (getCurrPcb_of_onStack valid stack)
  have argLen' : (s''.currPcb r).argLen = line.arg.length := by rw [block, same.1, argLen, length]
  obtain ⟨buf', returned, filled, zero⟩ := sysGetargs_ok argLen' (by omega) buf enough
  refine ⟨buf', returned, fun k h => ?_, zero⟩
  rw [filled k h, block, same.2, args, stored k h]

theorem not_getsArgument_of_long (launched : sysExecute env fr (line.bytes rest) s = (.launched newPid eip, s'))
    (long : line.name.length = maxCmdLen) : ¬ GetsArgument s' newPid line.arg := by
  obtain ⟨l, pcb, given, -, valid, argLen, -⟩ := sysExecute_args launched
  have hidden : l.haveArgs = false := given.trans (parse_long_name line rest fr long)
  have stack : OnStack (kernelStackTop newPid) (kernelStackTop newPid) := ⟨Nat.le_refl _, by omega⟩
  have block : s'.currPcb ⟨kernelStackTop newPid, 0⟩ = s'.pcb newPid :=
    s'.currPcb_eq (getCurrPcb_of_onStack valid stack)
  have none : (s'.currPcb ⟨kernelStackTop newPid, 0⟩).argLen = error := by
    rw [block, argLen, storeArgs, hidden]; rfl
  intro gets
  obtain ⟨buf', returned, -⟩ := gets ⟨kernelStackTop newPid, 0⟩ (fun _ => 0) (line.arg.length + 1) stack (by omega)
  rw [sysGetargs_none none] at returned
  exact absurd (congrArg Prod.fst returned) (show error ≠ 0 by decide)

/-- **The argument reaches the program exactly when the name leaves room for the
blank** among the bytes that the name loop looks at. -/
theorem getsArgument_iff (launched : sysExecute env fr (line.bytes rest) s = (.launched newPid eip, s')) :
    (∀ s'', SameArgument newPid s' s'' → GetsArgument s'' newPid line.arg) ↔ line.name.length ≤ 31 := by
  constructor
  · intro gets
    by_contra long
    have full : line.name.length = maxCmdLen := by
      have := line.name_short
      simp only [maxCmdLen] at this ⊢
      omega
    exact not_getsArgument_of_long launched full (gets s' ⟨rfl, rfl⟩)
  · intro short s'' same
    exact getsArgument_of_short launched short same

end RoundTrip

/-- The file system of the shell with a second name for its file: 32 times `a`. -/
def longNameImage : Image where
  byte a := if a = 0 then 2 else if 128 ≤ a ∧ a < 160 then 0x61 else if a = 160 then 2 else shellImage.byte a

theorem shell_plain : ∀ b ∈ message "shell", IsPlain b := by decide +kernel

theorem long_plain : ∀ b ∈ List.replicate 32 (0x61 : UInt8), IsPlain b := by
  intro b member
  rw [List.eq_of_mem_replicate member]
  decide

theorem x_plain : ∀ b ∈ message "x", IsPlain b := by decide +kernel

/-- The command line `shell x`. -/
def shellLine : CommandLine :=
  ⟨message "shell", message "x", 0x0A, by decide, by decide, shell_plain, by decide, x_plain, Or.inl rfl, by decide⟩

/-- The command line with the long name. -/
def longLine : CommandLine :=
  ⟨List.replicate 32 0x61, message "x", 0x0A, by decide, by decide, long_plain, by decide, x_plain, Or.inl rfl, by decide⟩

/-- With a file system that has both names, both lines launch the program. -/
theorem sysExecute_longNameImage (line : CommandLine) {s : Kernel} (boot : AfterBoot s)
    (check : checkExecutable longNameImage (.blank ⟨kernelStackTop 2, 0⟩)
      (parse (.blank ⟨kernelStackTop 2, 0⟩) (line.bytes fun _ => 0)) = some 0) :
    ∃ eip s', sysExecute ⟨longNameImage, fun _ => 0⟩ (.blank ⟨kernelStackTop 2, 0⟩) (line.bytes fun _ => 0) s =
      (.launched 3 eip, s') := by
  obtain ⟨eip, s', launched, -⟩ := @sysExecute_launches ⟨longNameImage, fun _ => 0⟩ _ _ _ _ _ check (by decide) boot.getNewPid
  exact ⟨eip, s', launched⟩

/-- After boot, `shell x` finds its argument. -/
theorem getsArgument_shell :
    ∃ eip s', sysExecute ⟨longNameImage, fun _ => 0⟩ (.blank ⟨kernelStackTop 2, 0⟩) (shellLine.bytes fun _ => 0) booted =
      (.launched 3 eip, s') ∧ GetsArgument s' 3 (message "x") := by
  obtain ⟨eip, s', launched⟩ := sysExecute_longNameImage shellLine booted_afterBoot (by decide)
  exact ⟨eip, s', launched, (getsArgument_iff launched).2 (by decide) s' ⟨rfl, rfl⟩⟩

/-- After boot, the same program under its long name does not. -/
theorem getsArgument_long_name :
    ∃ eip s', sysExecute ⟨longNameImage, fun _ => 0⟩ (.blank ⟨kernelStackTop 2, 0⟩) (longLine.bytes fun _ => 0) booted =
      (.launched 3 eip, s') ∧ ¬ GetsArgument s' 3 (message "x") := by
  obtain ⟨eip, s', launched⟩ := sysExecute_longNameImage longLine booted_afterBoot (by decide)
  exact ⟨eip, s', launched, not_getsArgument_of_long launched (by decide)⟩

end BigBrainOS
