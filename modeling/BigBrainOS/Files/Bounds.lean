import BigBrainOS.Kernel.Descriptors

/-!
# Descriptors outside the table

A descriptor call on a descriptor of the table does what the record of its entry
says. Outside the table the only checks are the sign of the descriptor and one
bit of whatever byte of memory lies where the entry would be, so the call is
refused exactly when these checks happen to refuse it.
-/

namespace BigBrainOS.Raw
set_option autoImplicit false

/-- The call returned `ERROR`, called no handler and changed nothing. -/
def Rejected (mem : Memory) (out : Outcome × Memory) : Prop := out = (.ret error, mem)

/-- The byte that is read as the entry's flags is mapped and says "not enabled". -/
def Disabled (mem : Memory) (esp fd : Word) : Prop := ∃ flags, mem (flagsAddr esp fd) = some flags ∧ flags &&& 1 = 0

/-- The descriptor has no entry in the table. -/
def OutOfRange (fd : Word) : Prop := fd.toInt < 0 ∨ (fdtMaxEntries : Int) ≤ fd.toInt

section Calls
variable {mem : Memory} {esp fd buf nbytes : Word}

/-- A handler call is no return. -/
theorem callHandler_ne_ret (mem : Memory) (esp fd offset : Word) (args : List Word) (v : Int) :
    callHandler mem esp fd offset args ≠ .ret v := by
  unfold callHandler
  split
  · exact fun h => by cases h
  · split <;> exact fun h => by cases h

/-- The test of the bit `enabled`, in front of anything that does not return. -/
theorem checked_iff {go : UInt8 → Outcome × Memory} (goes : ∀ flags, ¬ Rejected mem (go flags)) :
    Rejected mem (match mem (flagsAddr esp fd) with
      | none => (.pageFault, mem)
      | some flags => if flags &&& 1 = 0 then (.ret error, mem) else go flags) ↔ Disabled mem esp fd := by
  unfold Disabled
  cases found : mem (flagsAddr esp fd) with
  | none =>
    constructor
    · intro h; cases congrArg Prod.fst h
    · rintro ⟨flags, h, -⟩; cases h
  | some flags =>
    dsimp only
    split
    · next clear => exact ⟨fun _ => ⟨flags, rfl, clear⟩, fun _ => rfl⟩
    · next set =>
      constructor
      · intro h; exact absurd h (goes flags)
      · rintro ⟨flags', same, clear⟩
        obtain rfl := Option.some.inj same
        exact absurd clear set

theorem call_not_rejected {mem' : Memory} {offset : Word} {args : List Word} (m : Memory) :
    ¬ Rejected mem (callHandler m esp fd offset args, mem') :=
  fun h => callHandler_ne_ret _ _ _ _ _ _ (congrArg Prod.fst h)

theorem sysRead_rejected_iff :
    Rejected mem (sysRead mem esp fd buf nbytes) ↔ fd.toInt < 0 ∨ buf = 0 ∨ Disabled mem esp fd := by
  unfold sysRead
  by_cases null : buf = 0
  · simp only [null, if_true, true_or, or_true, iff_true]; rfl
  · by_cases negative : fd.toInt < 0
    · simp only [if_neg null, negative, if_true, true_or, iff_true]; rfl
    · simp only [null, negative, if_false, false_or]
      exact checked_iff fun flags => call_not_rejected mem

theorem sysWrite_rejected_iff :
    Rejected mem (sysWrite mem esp fd buf nbytes) ↔ fd.toInt < 0 ∨ buf = 0 ∨ Disabled mem esp fd := by
  unfold sysWrite
  by_cases negative : fd.toInt < 0
  · simp only [negative, if_true, true_or, iff_true]; rfl
  · by_cases null : buf = 0
    · simp only [if_neg negative, null, if_true, true_or, or_true, iff_true]; rfl
    · simp only [null, negative, if_false, false_or]
      exact checked_iff fun flags => call_not_rejected mem

theorem sysClose_rejected_iff : Rejected mem (sysClose mem esp fd) ↔ fd.toInt < 2 ∨ Disabled mem esp fd := by
  unfold sysClose
  by_cases low : fd.toInt < 2
  · simp only [low, if_true, true_or, iff_true]; rfl
  · simp only [low, if_false, false_or]
    exact checked_iff fun flags => call_not_rejected _

end Calls

/-! ## The table itself -/

/-- The bytes of memory agree with the records of a process's table on which
descriptors are enabled. -/
def HoldsTable (mem : Memory) (esp : Word) (fdt : Fd → FdtEntry) : Prop :=
  ∀ i : Fd, ∃ flags, mem (flagsAddr esp (BitVec.ofNat 32 i.val)) = some flags ∧
    ((flags &&& 1 = 0) ↔ (fdt i).enabled = false)

/-- On descriptors of the table, the bytes decide as the records do. -/
theorem sysRead_of_table {mem : Memory} {esp buf nbytes : Word} {s : Kernel} {r : Regs}
    (table : HoldsTable mem esp (s.currPcb r).fdt) (fd : Fd) :
    Rejected mem (sysRead mem esp (BitVec.ofNat 32 fd.val) buf nbytes) ↔
      BigBrainOS.sysRead r fd (buf = 0) s = .ret error := by
  obtain ⟨flags, found, bit⟩ := table fd
  have nonneg : ∀ i : Fd, ¬ (BitVec.ofNat 32 i.val).toInt < 0 := by decide
  have clear : Disabled mem esp (BitVec.ofNat 32 fd.val) ↔ ((s.currPcb r).fdt fd).enabled = false := by
    rw [← bit]
    constructor
    · rintro ⟨flags', same, clear⟩
      rw [found] at same
      obtain rfl := Option.some.inj same
      exact clear
    · exact fun clear => ⟨flags, found, clear⟩
  rw [sysRead_rejected_iff, clear]
  simp only [nonneg fd, false_or, BigBrainOS.sysRead]
  by_cases null : buf = 0
  · simp [null]
  · cases enabled : ((s.currPcb r).fdt fd).enabled <;> simp

/-- **Descriptor bounds.** On a descriptor outside the table, `sys_read` and
`sys_write` refuse the call exactly if the descriptor is negative, the buffer is
NULL or the byte behind the table says so, and `sys_close` exactly if the
descriptor is negative or the byte says so. -/
theorem fd_bounds (mem : Memory) (esp fd buf nbytes : Word) (outside : OutOfRange fd) :
    (Rejected mem (sysRead mem esp fd buf nbytes) ↔ fd.toInt < 0 ∨ buf = 0 ∨ Disabled mem esp fd) ∧
      (Rejected mem (sysWrite mem esp fd buf nbytes) ↔ fd.toInt < 0 ∨ buf = 0 ∨ Disabled mem esp fd) ∧
      (Rejected mem (sysClose mem esp fd) ↔ fd.toInt < 0 ∨ Disabled mem esp fd) := by
  refine ⟨sysRead_rejected_iff, sysWrite_rejected_iff, ?_⟩
  rw [sysClose_rejected_iff]
  have sign : fd.toInt < 2 ↔ fd.toInt < 0 := by
    unfold OutOfRange at outside
    simp only [fdtMaxEntries] at outside
    omega
  rw [sign]

/-- The kernel's page, with the argument string `aaaaaaaaaaaaa` in the control
block of process 0 and zeros elsewhere. -/
def argsMemory : Memory := fun a =>
  if 0x400000 ≤ a ∧ a < 0x800000 then
    some (if 0x7FE000 + 136 ≤ a ∧ a < 0x7FE000 + 136 + 13 then 0x61 else 0)
  else none

/-- On the descriptor behind the last one of a table with empty arguments, all three calls are refused. -/
theorem fd_bounds_empty_args :
    OutOfRange 8 ∧ Rejected (fun _ => some 0) (sysRead (fun _ => some 0) 0x7FFF00 8 0x8048000 1) ∧
      Rejected (fun _ => some 0) (sysWrite (fun _ => some 0) 0x7FFF00 8 0x8048000 1) ∧
      Rejected (fun _ => some 0) (sysClose (fun _ => some 0) 0x7FFF00 8) := by
  have outside : OutOfRange 8 := Or.inr (by decide)
  have disabled : Disabled (fun _ => some 0) 0x7FFF00 8 := ⟨0, rfl, by decide⟩
  obtain ⟨read, write, close⟩ := fd_bounds (fun _ => some 0) 0x7FFF00 8 0x8048000 1 outside
  exact ⟨outside, read.2 (Or.inr (Or.inr disabled)), write.2 (Or.inr (Or.inr disabled)), close.2 (Or.inr disabled)⟩

/-- The thirteenth argument byte `a` is taken for the flags of an enabled
descriptor 8: `sys_read` goes on to follow the argument bytes as a pointer, and
`sys_close` has changed an argument byte before it does the same. -/
theorem fd_eight_not_rejected :
    ¬ Rejected argsMemory (sysRead argsMemory 0x7FFF00 8 0x8048000 1) ∧
      (sysRead argsMemory 0x7FFF00 8 0x8048000 1).1 = .pageFault ∧
      ¬ Rejected argsMemory (sysClose argsMemory 0x7FFF00 8) ∧
      (sysClose argsMemory 0x7FFF00 8).2 (0x7FE000 + 136 + 12) = some 0x60 := by
  have enabled : ¬ Disabled argsMemory 0x7FFF00 8 := by
    rintro ⟨flags, found, clear⟩
    have a : argsMemory (flagsAddr 0x7FFF00 8) = some 0x61 := by decide
    rw [a] at found
    obtain rfl := Option.some.inj found
    exact absurd clear (by decide)
  refine ⟨?_, by decide, ?_, by decide⟩
  · rw [sysRead_rejected_iff]
    rintro (negative | null | disabled)
    · exact absurd negative (by decide)
    · exact absurd null (by decide)
    · exact enabled disabled
  · rw [sysClose_rejected_iff]
    rintro (low | disabled)
    · exact absurd low (by decide)
    · exact enabled disabled

end BigBrainOS.Raw
