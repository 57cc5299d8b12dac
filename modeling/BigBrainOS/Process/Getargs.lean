import BigBrainOS.Process.Command

/-!
# The buffer of `sys_getargs`

The loop "Clear buffer" of `sys_getargs` stores its zero `nbytes` times at the same
place, the one behind the argument. So the rest of the buffer keeps what it held,
and where the argument fills the buffer the zero lands behind it.
-/

namespace BigBrainOS
set_option autoImplicit false

/-- What `sys_getargs` is to do with a buffer of `nbytes` bytes: it fills it with the
argument and zeros, or it fails and stores nothing. -/
def FillsBuffer (arg : Option (List UInt8)) (buf : Bytes) (nbytes : Int) (result : Int × Option Bytes) : Prop :=
  match arg with
  | none => result = (error, some buf)
  | some arg =>
    if nbytes < arg.length then result = (error, some buf)
    else
      ∃ buf', result = (0, some buf') ∧ (∀ k (h : k < arg.length), buf' k = arg[k]) ∧
        (∀ k, arg.length ≤ k → (k : Int) < nbytes → buf' k = 0) ∧ ∀ k : Nat, nbytes ≤ k → buf' k = buf k

/-- The bytes that the loop should have cleared are zero already, and so is the
byte behind the buffer if an argument fills it. -/
structure ClearBehind (arg : List UInt8) (buf : Bytes) (nbytes : Int) : Prop where
  rest : ∀ k, arg.length < k → (k : Int) < nbytes → buf k = 0
  behind : nbytes = arg.length → arg ≠ [] → buf arg.length = 0

/-- The one byte that the loop clears is enough exactly if the others are clear. -/
theorem fillsBuffer_some_iff {r : Regs} {s : Kernel} {arg : List UInt8} (length : (s.currPcb r).argLen = arg.length)
    (short : arg.length < maxArgLen) (args : ∀ k (h : k < arg.length), (s.currPcb r).args k = arg[k]) (buf : Bytes)
    (nbytes : Int) :
    FillsBuffer (some arg) buf nbytes (sysGetargs r (some buf) nbytes s) ↔
      (arg.length ≤ nbytes → ClearBehind arg buf nbytes) := by
  have small : arg.length < 2 ^ 32 := Nat.lt_trans short (by decide)
  unfold FillsBuffer
  dsimp only
  by_cases few : nbytes < arg.length
  · rw [if_pos few]
    exact ⟨fun _ room => absurd room (by omega), fun _ => sysGetargs_refused buf (by rw [length]; exact few)⟩
  · have room : (arg.length : Int) ≤ nbytes := by omega
    rw [if_neg few, sysGetargs_eq length small buf room]
    constructor
    · rintro ⟨buf', result, -, zeros, kept⟩ -
      obtain rfl := Option.some.inj (Prod.mk.inj result).2
      dsimp only at zeros kept
      refine ⟨fun k behind inside => ?_, fun full nonempty => ?_⟩
      · have zero := zeros k (by omega) inside
        rw [if_neg (by omega), if_neg (by omega)] at zero
        exact zero
      · -- the zero goes to the first byte behind the buffer
        have positive : 0 < arg.length := List.length_pos_iff.2 nonempty
        have same := kept arg.length (by omega)
        rw [if_neg (Nat.lt_irrefl _), if_pos ⟨rfl, by omega⟩] at same
        exact same.symm
    · intro clear
      obtain ⟨rest, behind⟩ := clear room
      refine ⟨_, rfl, fun k h => ?_, fun k from_ inside => ?_, fun k beyond => ?_⟩
      · rw [if_pos h, args k h]
      · rw [if_neg (by omega)]
        by_cases first : k = arg.length
        · rw [if_pos ⟨first, by omega⟩]
        · rw [if_neg fun h => first h.1]
          exact rest k (by omega) inside
      · rw [if_neg (by omega)]
        by_cases cleared : k = arg.length ∧ 0 < nbytes
        · obtain ⟨rfl, positive⟩ := cleared
          have full : nbytes = arg.length := by omega
          rw [if_pos ⟨rfl, positive⟩, behind full]
          rintro rfl
          rw [full] at positive
          exact absurd positive (by decide)
        · rw [if_neg cleared]

/-- **When `sys_getargs` fills exactly the caller's buffer.** The process was started
by `command`, and its argument is still the one that was stored. -/
theorem getargs_fills_iff {env : Env} {fr : ExecFrame} {command : Bytes} {s s' s'' : Kernel} {newPid : Int} {eip : Nat}
    (launched : sysExecute env fr command s = (.launched newPid eip, s')) (same : SameArgument newPid s' s'') {r : Regs}
    (stack : OnStack (kernelStackTop newPid) r.esp) (buf : Bytes) (nbytes : Int) :
    FillsBuffer (storedArgs (parse fr command)) buf nbytes (sysGetargs r (some buf) nbytes s'') ↔
      ∀ arg, storedArgs (parse fr command) = some arg → arg.length ≤ nbytes → ClearBehind arg buf nbytes := by
  obtain ⟨-, -, -, -, valid, -, -⟩ := sysExecute_args launched
  obtain ⟨argLen, args⟩ := sysExecute_storedArgs launched
  have block : s''.currPcb r = s''.pcb newPid := s''.currPcb_eq (getCurrPcb_of_onStack valid stack)
  cases stored : storedArgs (parse fr command) with
  | none =>
    have none : (s''.currPcb r).argLen = error := by rw [block, same.1, argLen, stored]; rfl
    rw [sysGetargs_none none]
    constructor
    · intro _ arg given
      cases given
    · intro _
      rfl
  | some arg =>
    have length : (s''.currPcb r).argLen = arg.length := by rw [block, same.1, argLen, stored]; rfl
    rw [fillsBuffer_some_iff length (storedArgs_length stored).1 fun k h => by rw [block, same.2, args arg stored k h]]
    constructor
    · intro clear arg' given
      obtain rfl := Option.some.inj given
      exact clear
    · intro clear
      exact clear arg rfl

/-- The command line `shell x` stores the argument `x`. -/
theorem storedArgs_shellLine :
    storedArgs (parse (.blank ⟨kernelStackTop 2, 0⟩) (shellLine.bytes fun _ => 0)) = some (message "x") := by
  decide +kernel

/-- After boot, `shell x` asks with two bytes: one for the argument and one for the zero. -/
theorem getargs_fills_two :
    ∃ eip s', sysExecute ⟨longNameImage, fun _ => 0⟩ (.blank ⟨kernelStackTop 2, 0⟩) (shellLine.bytes fun _ => 0) booted =
      (.launched 3 eip, s') ∧
      FillsBuffer (some (message "x")) (fun _ => 0x41) 2 (sysGetargs ⟨kernelStackTop 3, 0⟩ (some fun _ => 0x41) 2 s') := by
  obtain ⟨eip, s', launched⟩ := sysExecute_longNameImage shellLine booted_afterBoot (by decide)
  have stack : OnStack (kernelStackTop 3) (kernelStackTop 3) := ⟨Nat.le_refl _, by omega⟩
  have filled := getargs_fills_iff launched ⟨rfl, rfl⟩ (r := ⟨kernelStackTop 3, 0⟩) stack (fun _ => 0x41) 2
  rw [storedArgs_shellLine] at filled
  refine ⟨eip, s', launched, filled.2 fun arg given _ => ?_⟩
  obtain rfl := Option.some.inj given
  have length : (message "x").length = 1 := by decide +kernel
  refine ⟨fun k behind inside => ?_, fun full => ?_⟩
  · rw [length] at behind
    omega
  · rw [length] at full
    exact absurd full (by decide)

/-- With four bytes it gets back the third one as it was. -/
theorem getargs_leaves_rest :
    ∃ eip s', sysExecute ⟨longNameImage, fun _ => 0⟩ (.blank ⟨kernelStackTop 2, 0⟩) (shellLine.bytes fun _ => 0) booted =
      (.launched 3 eip, s') ∧
      ¬ FillsBuffer (some (message "x")) (fun _ => 0x41) 4 (sysGetargs ⟨kernelStackTop 3, 0⟩ (some fun _ => 0x41) 4 s') := by
  obtain ⟨eip, s', launched⟩ := sysExecute_longNameImage shellLine booted_afterBoot (by decide)
  obtain ⟨-, -, -, -, valid, -, -⟩ := sysExecute_args launched
  have stack : OnStack (kernelStackTop 3) (kernelStackTop 3) := ⟨Nat.le_refl _, by omega⟩
  obtain ⟨argLen, args⟩ := sysExecute_storedArgs launched
  have block : s'.currPcb ⟨kernelStackTop 3, 0⟩ = s'.pcb 3 := s'.currPcb_eq (getCurrPcb_of_onStack valid stack)
  have short : (message "x").length < maxArgLen := by decide +kernel
  have length : (s'.currPcb ⟨kernelStackTop 3, 0⟩).argLen = (message "x").length := by
    rw [block, argLen, storedArgs_shellLine]
    rfl
  refine ⟨eip, s', launched, fun filled => ?_⟩
  have clear := (fillsBuffer_some_iff length short (fun k h => by rw [block, args _ storedArgs_shellLine k h]) _ _).1 filled
    (by decide +kernel)
  exact absurd (clear.rest 2 (by decide +kernel) (by decide)) (by decide)

end BigBrainOS
