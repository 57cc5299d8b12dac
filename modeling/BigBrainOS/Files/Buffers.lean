import BigBrainOS.Files.Table

/-!
# How much of the buffer a read may touch

`sys_read` hands `nbytes` to four handlers that treat it differently: the file
handler casts it to unsigned, the directory handler ignores it, the terminal
handler cuts it at 128 and returns the length of the whole line, and the RTC
handler needs no buffer. For each of them it is decided exactly when the call
stays within `nbytes` bytes.
-/

namespace BigBrainOS
set_option autoImplicit false

/-! ## A complete read -/

/-- The memory around a buffer after its bytes were overwritten. -/
def writeBack (mem : Int → UInt8) (buf : Int) (bytes : Bytes) : Int → UInt8 := fun a =>
  if buf ≤ a then bytes (a - buf).toNat else mem a

/-- What a buffer holds. -/
def bufferAt (mem : Int → UInt8) (buf : Int) : Bytes := fun k => mem (buf + k)

/-- `terminal_read` with the line it waited for: the value returned and the
buffer. A negative `nbytes` is a length of over 2 GB for the first `memcpy`, which
runs off the kernel's page: the call does not return. -/
def terminalRead (line : TerminalState) (old : Bytes) (buf : Bytes) (nbytes : Int) : Option (Int × Bytes) :=
  let n := clampRead nbytes
  if n < 0 then none else some (line.writtenBytes, memcpy buf (finalBuf old line.typed n.toNat) n.toNat)

/-- What a read brings with it: the caller's memory, the pointer and the length,
the line that `terminal_read` finds and what its stack held. -/
structure ReadArgs where
  mem : Int → UInt8
  buf : Int
  nbytes : Int
  line : TerminalState
  old : Bytes
  /-- `nbytes` is an `int32_t`. -/
  nbytes_low : -2 ^ 31 ≤ nbytes
  nbytes_high : nbytes < 2 ^ 31

/-- `sys_read` to its return: the value and the caller's memory; `none` if it does not return. -/
def readReturn (img : Image) (r : Regs) (fd : Fd) (x : ReadArgs) (s : Kernel) : Option (Int × (Int → UInt8)) :=
  match sysRead r fd (decide (x.buf = 0)) s with
  | .ret value => some (value, x.mem)
  | .call none => none
  | .call (some .fileFot) =>
    let (value, bytes, _) := fileRead img r fd (bufferAt x.mem x.buf) x.nbytes s
    some (value, writeBack x.mem x.buf bytes)
  | .call (some .dirFot) =>
    let (value, bytes, _) := dirRead img r fd (bufferAt x.mem x.buf) s
    some (value, writeBack x.mem x.buf bytes)
  | .call (some .stdinFot) =>
    (terminalRead x.line x.old (bufferAt x.mem x.buf) x.nbytes).map fun (value, bytes) =>
      (value, writeBack x.mem x.buf bytes)
  | .call (some .stdoutFot) => some (error, x.mem)
  | .call (some .rtcFot) => some (0, x.mem)

/-- The call returns at most `max(nbytes, 0)` and leaves every byte alone that is
before the buffer or from that offset on. -/
def StaysWithin (x : ReadArgs) (result : Option (Int × (Int → UInt8))) : Prop :=
  ∃ value mem', result = some (value, mem') ∧ value ≤ max x.nbytes 0 ∧
    ∀ a, a < x.buf ∨ x.buf + max x.nbytes 0 ≤ a → mem' a = x.mem a

/-! ## When it stays within -/

/-- The length of the name that `dir_read` returns. -/
def nameLength (e : DirEntry) : Nat := strlen e.fileName fileNameSize

/-- The condition for each operation table, on the descriptor, the buffer and
the length. -/
def FitsBuffer (img : Image) (e : FdtEntry) (x : ReadArgs) : Fot → Prop
  /- the line fits -/
  | .stdinFot => 0 ≤ x.nbytes ∧ (x.line.writtenBytes : Int) ≤ x.nbytes
  /- a negative length finds nothing to read -/
  | .fileFot => 0 ≤ x.nbytes ∨ img.numInodes ≤ e.inodeIdx ∨ img.lengthInBytes e.inodeIdx ≤ e.filePosition
  /- no entry is left, or the name fits and its padding lands on zeros -/
  | .dirFot =>
    img.numDirEntries ≤ signed e.filePosition ∨ img.numDirEntriesWord < e.filePosition ∨
      (nameLength (img.dirEntry e.filePosition) : Int) ≤ max x.nbytes 0 ∧
        ∀ k : Nat, max x.nbytes 0 ≤ k → k < fileNameSize → bufferAt x.mem x.buf k = 0
  | .stdoutFot => True
  | .rtcFot => True

theorem staysWithin_same (x : ReadArgs) {value : Int} (small : value ≤ 0) : StaysWithin x (some (value, x.mem)) :=
  ⟨value, x.mem, rfl, by omega, fun _ _ => rfl⟩

/-- For bytes written from the buffer on, only offsets from `max(nbytes, 0)` on matter. -/
theorem staysWithin_writeBack (x : ReadArgs) (value : Int) (bytes : Bytes) :
    StaysWithin x (some (value, writeBack x.mem x.buf bytes)) ↔
      value ≤ max x.nbytes 0 ∧ ∀ k : Nat, max x.nbytes 0 ≤ k → bytes k = bufferAt x.mem x.buf k := by
  constructor
  · rintro ⟨value', mem', result, small, same⟩
    obtain ⟨rfl, rfl⟩ := Prod.mk.inj (Option.some.inj result)
    refine ⟨small, fun k above => ?_⟩
    have at_k := same (x.buf + k) (Or.inr (by omega))
    have offset : (x.buf + (k : Int) - x.buf).toNat = k := by omega
    rw [writeBack, if_pos (by omega), offset] at at_k
    exact at_k
  · rintro ⟨small, same⟩
    refine ⟨value, _, rfl, small, fun a outside => ?_⟩
    unfold writeBack
    split
    · next inside =>
      rw [same (a - x.buf).toNat (by omega), bufferAt]
      congr 1
      omega
    · rfl

/-! ### Each handler -/

section Handlers
variable {img : Image} {r : Regs} {fd : Fd} {s : Kernel} {x : ReadArgs}

theorem terminalRead_within :
    StaysWithin x ((terminalRead x.line x.old (bufferAt x.mem x.buf) x.nbytes).map fun (value, bytes) =>
      (value, writeBack x.mem x.buf bytes)) ↔ 0 ≤ x.nbytes ∧ (x.line.writtenBytes : Int) ≤ x.nbytes := by
  by_cases negative : x.nbytes < 0
  · have clamped : clampRead x.nbytes < 0 := by
      simp only [clampRead, bufSize]
      split <;> omega
    simp only [terminalRead, if_pos clamped, Option.map_none]
    constructor
    · rintro ⟨_, _, result, -⟩; cases result
    · rintro ⟨nonneg, -⟩; omega
  · have bounds : 0 ≤ clampRead x.nbytes ∧ clampRead x.nbytes ≤ x.nbytes := by
      simp only [clampRead, bufSize]
      split <;> omega
    simp only [terminalRead, if_neg (show ¬ clampRead x.nbytes < 0 by omega), Option.map_some]
    rw [staysWithin_writeBack]
    have untouched : ∀ k : Nat, max x.nbytes 0 ≤ k → ¬ k < (clampRead x.nbytes).toNat := fun k above => by omega
    constructor
    · rintro ⟨small, -⟩; omega
    · rintro ⟨-, small⟩
      refine ⟨by omega, fun k above => ?_⟩
      rw [memcpy, if_neg (untouched k above)]

theorem fileRead_within :
    StaysWithin x (some ((fileRead img r fd (bufferAt x.mem x.buf) x.nbytes s).1,
      writeBack x.mem x.buf (fileRead img r fd (bufferAt x.mem x.buf) x.nbytes s).2.1)) ↔
    FitsBuffer img ((s.currPcb r).fdt fd) x .fileFot := by
  have low := x.nbytes_low
  have high := x.nbytes_high
  rw [staysWithin_writeBack]
  simp only [FitsBuffer]
  generalize entry : (s.currPcb r).fdt fd = e
  by_cases invalid : img.numInodes ≤ e.inodeIdx
  · simp only [fileRead, entry, Image.readData_none invalid]
    exact ⟨fun _ => Or.inr (Or.inl invalid), fun _ => ⟨by simp only [error]; omega, fun _ _ => trivial⟩⟩
  · simp only [fileRead, entry, Image.readData_eq (show e.inodeIdx < img.numInodes by omega)]
    generalize delivered : ((img.fileContent e.inodeIdx).drop e.filePosition).take (x.nbytes % 2 ^ 32).toNat = bytes
    have length : bytes.length = min (x.nbytes % 2 ^ 32).toNat (img.lengthInBytes e.inodeIdx - e.filePosition) := by
      rw [← delivered, List.length_take, List.length_drop, Image.fileContent_length]
    have outside : ∀ k : Nat, (bytes.length : Int) ≤ k → store (bufferAt x.mem x.buf) bytes k = bufferAt x.mem x.buf k := by
      intro k above
      rw [store, List.getElem?_eq_none (by omega)]
      rfl
    constructor
    · rintro ⟨small, -⟩; omega
    · intro fits
      exact ⟨by omega, fun k above => outside k (by omega)⟩

/-- The value that `dir_read` returns is the length of the name. -/
theorem dirRead_length (name : Bytes) :
    strlen (Function.update (strncpy (fun _ => 0) name fileNameSize) fileNameSize 0) (fileNameSize + 1) =
      strlen name fileNameSize := by
  obtain ⟨bound, nonzero, -⟩ := strlen_spec name fileNameSize
  apply strlen_eq
  · intro k below
    rw [Function.update_of_ne (by omega), strncpy_apply, if_pos below]
    exact nonzero k below
  · by_cases full : strlen name fileNameSize = fileNameSize
    · rw [full, Function.update_self]
    · rw [Function.update_of_ne full, strncpy_apply, if_neg (Nat.lt_irrefl _), if_pos (by omega)]
  · omega

theorem dirRead_within :
    StaysWithin x (some ((dirRead img r fd (bufferAt x.mem x.buf) s).1,
      writeBack x.mem x.buf (dirRead img r fd (bufferAt x.mem x.buf) s).2.1)) ↔
    FitsBuffer img ((s.currPcb r).fdt fd) x .dirFot := by
  rw [staysWithin_writeBack]
  simp only [FitsBuffer]
  generalize entry : (s.currPcb r).fdt fd = e
  by_cases ended : img.numDirEntries ≤ signed e.filePosition
  · simp only [dirRead, entry, if_pos ended]
    exact ⟨fun _ => Or.inl ended, fun _ => ⟨by omega, fun _ _ => trivial⟩⟩
  by_cases beyond : img.numDirEntriesWord < e.filePosition
  · simp only [dirRead, entry, if_neg ended, Image.readDentryByIndex, if_pos beyond]
    exact ⟨fun _ => Or.inr (Or.inl beyond), fun _ => ⟨by simp only [error]; omega, fun _ _ => trivial⟩⟩
  · simp only [dirRead, entry, if_neg ended, Image.readDentryByIndex, if_neg beyond, dirRead_length]
    obtain ⟨bound, -, -⟩ := strlen_spec (img.dirEntry e.filePosition).fileName fileNameSize
    simp only [nameLength]
    constructor
    · rintro ⟨small, same⟩
      refine Or.inr (Or.inr ⟨small, fun k above below => ?_⟩)
      have padded := same k above
      rw [strncpy_apply, if_neg (by omega), if_pos below] at padded
      exact padded.symm
    · rintro (h | h | ⟨small, zeros⟩)
      · exact absurd h ended
      · exact absurd h beyond
      · refine ⟨small, fun k above => ?_⟩
        rw [strncpy_apply, if_neg (by omega)]
        by_cases below : k < fileNameSize
        · rw [if_pos below, zeros k above below]
        · rw [if_neg below]

end Handlers

/-- **The buffer bound, handler by handler.** A read through an enabled descriptor
stays within `max(nbytes, 0)` bytes exactly when its arguments fit its handler. -/
theorem read_within_iff (img : Image) (r : Regs) (fd : Fd) (x : ReadArgs) (s : Kernel) {fot : Fot}
    (enabled : ((s.currPcb r).fdt fd).enabled = true) (table : ((s.currPcb r).fdt fd).fotPtr = some fot) :
    StaysWithin x (readReturn img r fd x s) ↔ x.buf = 0 ∨ FitsBuffer img ((s.currPcb r).fdt fd) x fot := by
  by_cases null : x.buf = 0
  · have refused : readReturn img r fd x s = some (error, x.mem) := by
      simp only [readReturn, sysRead, null, decide_true, if_true]
    rw [refused]
    exact ⟨fun _ => Or.inl null, fun _ => staysWithin_same x (by decide)⟩
  · have dispatch : sysRead r fd (decide (x.buf = 0)) s = .call (some fot) := by
      simp [sysRead, null, enabled, table]
    have fits : (x.buf = 0 ∨ FitsBuffer img ((s.currPcb r).fdt fd) x fot) ↔
        FitsBuffer img ((s.currPcb r).fdt fd) x fot := or_iff_right null
    rw [fits]
    simp only [readReturn, dispatch]
    cases fot with
    | stdinFot => exact terminalRead_within
    | fileFot => exact fileRead_within
    | dirFot => exact dirRead_within
    | stdoutFot => exact iff_of_true (staysWithin_same x (by decide)) trivial
    | rtcFot => exact iff_of_true (staysWithin_same x (Int.le_refl 0)) trivial

/-- A terminal whose user has entered a line of four characters. -/
def fourTyped : TerminalState := { initTerminal with typed := fun i => if i < 4 then 0x61 else 0, writtenBytes := 5 }

/-- A machine whose control blocks have the table of a new process. -/
def freshTables : Kernel := entry ⟨fun _ => 0, fun _ => { Pcb.zero with fdt := initFdt }, 0x26, 0⟩

/-- A read of `nbytes` from the terminal to a buffer at 128 MB. -/
def lineRead (nbytes : Int) (low : -2 ^ 31 ≤ nbytes) (high : nbytes < 2 ^ 31) : ReadArgs :=
  ⟨fun _ => 0, 0x8000000, nbytes, fourTyped, fun _ => 0, low, high⟩

/-- A buffer of 128 bytes holds the line. -/
theorem read_within_line :
    StaysWithin (lineRead 128 (by decide) (by decide))
      (readReturn shellImage ⟨kernelStackTop 0, 0⟩ 0 (lineRead 128 (by decide) (by decide)) freshTables) :=
  (read_within_iff shellImage ⟨kernelStackTop 0, 0⟩ 0 _ freshTables rfl rfl).2 (Or.inr ⟨by decide, by decide⟩)

/-- A buffer of two bytes does not: the call returns 5. -/
theorem read_not_within_line :
    ¬ StaysWithin (lineRead 2 (by decide) (by decide))
      (readReturn shellImage ⟨kernelStackTop 0, 0⟩ 0 (lineRead 2 (by decide) (by decide)) freshTables) := by
  rintro ⟨value, mem', result, small, -⟩
  have returned : (readReturn shellImage ⟨kernelStackTop 0, 0⟩ 0 (lineRead 2 (by decide) (by decide)) freshTables).map
      Prod.fst = some 5 := rfl
  rw [result] at returned
  obtain rfl : value = 5 := Option.some.inj returned
  exact absurd small (by decide)

end BigBrainOS
