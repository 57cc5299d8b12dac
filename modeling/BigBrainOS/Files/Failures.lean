import BigBrainOS.Files.Buffers

/-!
# Reads that fail

A read that returns `ERROR` has stored nothing in the buffer. The directory handler
returns before it moves the position, but the file handler adds what `read_data`
returns to the position, and for a file whose inode does not exist that is -1.
-/

namespace BigBrainOS
set_option autoImplicit false

/-- The pointer as the handlers see it. -/
def ReadArgs.buffer (x : ReadArgs) : Option Bytes := if x.buf = 0 then none else some (bufferAt x.mem x.buf)

/-- If the read returns `ERROR`, the caller's memory and all descriptors are as before. -/
def FailsQuietly (img : Image) (r : Regs) (fd : Fd) (x : ReadArgs) (s : Kernel) : Prop :=
  ∀ mem', readReturn img r fd x s = some (error, mem') →
    mem' = x.mem ∧ ∀ a, ((readCall img r fd x.buffer x.nbytes s).pcbs a).fdt = (s.pcbs a).fdt

/-- The descriptor of a regular file whose inode does not exist. -/
def StrayFile (img : Image) (e : FdtEntry) : Prop := e.fotPtr = some .fileFot ∧ img.numInodes ≤ e.inodeIdx

section Reads
variable {img : Image} {r : Regs} {fd : Fd} {x : ReadArgs} {s : Kernel}

theorem writeBack_bufferAt (mem : Int → UInt8) (buf : Int) : writeBack mem buf (bufferAt mem buf) = mem := by
  funext a
  unfold writeBack
  split
  · next inside =>
    rw [bufferAt]
    congr 1
    omega
  · rfl

/-- A call that goes on to a handler. -/
theorem sysRead_dispatch {fot : Option Fot} (enabled : ((s.currPcb r).fdt fd).enabled = true)
    (table : ((s.currPcb r).fdt fd).fotPtr = fot) : sysRead r fd false s = .call fot := by
  simp [sysRead, enabled, table]

/-- `file_read` returns `ERROR` for a stray file only. -/
theorem fileRead_failed (buf : Bytes) (nbytes : Int) (failed : (fileRead img r fd buf nbytes s).1 = error) :
    img.numInodes ≤ ((s.currPcb r).fdt fd).inodeIdx := by
  by_contra valid
  simp only [fileRead, Image.readData_eq (show ((s.currPcb r).fdt fd).inodeIdx < img.numInodes by omega)] at failed
  simp only [error] at failed
  omega

/-- A `dir_read` that returns `ERROR` has done nothing. -/
theorem dirRead_failed (buf : Bytes) (failed : (dirRead img r fd buf s).1 = error) : dirRead img r fd buf s = (error, buf, s) := by
  by_cases ended : signed ((s.currPcb r).fdt fd).filePosition ≥ img.numDirEntries
  · simp only [dirRead, if_pos ended] at failed
    exact absurd failed (show (0 : Int) ≠ error by decide)
  · cases entry : img.readDentryByIndex ((s.currPcb r).fdt fd).filePosition with
    | none => simp only [dirRead, if_neg ended, entry]
    | some e =>
      simp only [dirRead, if_neg ended, entry, error] at failed
      omega

/-- For a stray file, `file_read` moves the position back by one. -/
theorem fileRead_stray (stray : img.numInodes ≤ ((s.currPcb r).fdt fd).inodeIdx) (buf : Bytes) (nbytes : Int) :
    (fileRead img r fd buf nbytes s).1 = error ∧ (fileRead img r fd buf nbytes s).2.1 = buf ∧
      (((fileRead img r fd buf nbytes s).2.2.currPcb r).fdt fd).filePosition =
        (((s.currPcb r).fdt fd).filePosition + (2 ^ 32 - 1)) % 2 ^ 32 := by
  simp only [fileRead, Image.readData_none stray, setFd_fdt_self, and_self]

/-- A stray file does not fail quietly. -/
theorem not_failsQuietly_of_stray (enabled : ((s.currPcb r).fdt fd).enabled = true) (nonnull : x.buf ≠ 0)
    (stray : StrayFile img ((s.currPcb r).fdt fd)) : ¬ FailsQuietly img r fd x s := by
  intro quiet
  have dispatch := sysRead_dispatch enabled stray.1
  have buffer : x.buffer = some (bufferAt x.mem x.buf) := if_neg nonnull
  obtain ⟨value, bytes, position⟩ := fileRead_stray stray.2 (bufferAt x.mem x.buf) x.nbytes
  have returned : readReturn img r fd x s = some (error, x.mem) := by
    simp only [readReturn, decide_eq_false nonnull, dispatch, value, bytes, writeBack_bufferAt]
  have moved : readCall img r fd x.buffer x.nbytes s = (fileRead img r fd (bufferAt x.mem x.buf) x.nbytes s).2.2 := by
    simp only [readCall, buffer, Option.isNone_some, dispatch]
  have same := congrFun ((quiet x.mem returned).2 (getCurrPcb r.esp)) fd
  rw [moved] at same
  have kept := position.symm.trans (congrArg FdtEntry.filePosition same)
  rw [Kernel.currPcb] at kept
  omega

end Reads

/-- **When a failed read changes nothing.** A read through an enabled descriptor fails
quietly exactly if its pointer is null or the descriptor is not that of a stray file. -/
theorem failsQuietly_iff (img : Image) (r : Regs) (fd : Fd) (x : ReadArgs) (s : Kernel)
    (enabled : ((s.currPcb r).fdt fd).enabled = true) :
    FailsQuietly img r fd x s ↔ x.buf = 0 ∨ ¬ StrayFile img ((s.currPcb r).fdt fd) := by
  constructor
  · intro quiet
    by_contra neither
    rw [not_or, not_not] at neither
    exact not_failsQuietly_of_stray enabled neither.1 neither.2 quiet
  · intro harmless mem' failed
    by_cases null : x.buf = 0
    · have buffer : x.buffer = none := if_pos null
      have refused : readReturn img r fd x s = some (error, x.mem) := by
        simp only [readReturn, sysRead, null, decide_true, if_true]
      rw [refused] at failed
      refine ⟨(Prod.mk.inj (Option.some.inj failed)).2.symm, fun a => ?_⟩
      simp only [readCall, buffer]
    · have buffer : x.buffer = some (bufferAt x.mem x.buf) := if_neg null
      have regular := harmless.resolve_left null
      cases table : ((s.currPcb r).fdt fd).fotPtr with
      | none =>
        simp only [readReturn, decide_eq_false null, sysRead_dispatch enabled table] at failed
        cases failed
      | some fot =>
        have dispatch := sysRead_dispatch enabled table
        simp only [readReturn, decide_eq_false null, dispatch] at failed
        simp only [readCall, buffer, Option.isNone_some, dispatch]
        cases fot with
        | fileFot =>
          obtain ⟨value, -⟩ := Prod.mk.inj (Option.some.inj failed)
          exact absurd ⟨table, fileRead_failed _ _ value⟩ regular
        | dirFot =>
          obtain ⟨value, memory⟩ := Prod.mk.inj (Option.some.inj failed)
          have nothing := dirRead_failed _ value
          rw [nothing, writeBack_bufferAt] at memory
          refine ⟨memory.symm, fun a => ?_⟩
          show ((dirRead img r fd (bufferAt x.mem x.buf) s).2.2.pcbs a).fdt = _
          rw [nothing]
        | stdinFot =>
          -- the number of bytes entered is never -1
          obtain ⟨⟨count, bytes⟩, read, returned⟩ := Option.map_eq_some_iff.1 failed
          have value := (Prod.mk.inj returned).1
          unfold terminalRead at read
          dsimp only at read value
          split at read
          · cases read
          · have count_eq := (Prod.mk.inj (Option.some.inj read)).1
            rw [← count_eq] at value
            simp only [error] at value
            omega
        | stdoutFot => exact ⟨(Prod.mk.inj (Option.some.inj failed)).2.symm, fun _ => rfl⟩
        | rtcFot =>
          have value := (Prod.mk.inj (Option.some.inj failed)).1
          exact absurd value (by decide)

/-- The file system of the shell, whose one file has the number of an inode that does not exist. -/
def strayImage : Image where
  byte a := if a = 100 then 1 else shellImage.byte a

/-- A read of four bytes to a buffer at 128 MB. -/
def fourBytes : ReadArgs := ⟨fun _ => 0, 0x8000000, 4, initTerminal, fun _ => 0, by decide, by decide⟩

/-- The first process opens `shell`. -/
def openedShell (img : Image) : Int × Kernel :=
  sysOpen img ⟨kernelStackTop 0, 0⟩ (literal "shell" fun _ => 0) freshTables

/-- A file with an inode of its own is read quietly. -/
theorem failsQuietly_shell : (openedShell shellImage).1 = 2 ∧
    FailsQuietly shellImage ⟨kernelStackTop 0, 0⟩ 2 fourBytes (openedShell shellImage).2 := by
  refine ⟨by decide +kernel, (failsQuietly_iff _ _ _ _ _ (by decide +kernel)).2 (Or.inr fun stray => ?_)⟩
  exact absurd stray.2 (by decide +kernel)

/-- The stray file is opened and read, and the read that fails moves its position. -/
theorem stray_read_moves : (openedShell strayImage).1 = 2 ∧
    ¬ FailsQuietly strayImage ⟨kernelStackTop 0, 0⟩ 2 fourBytes (openedShell strayImage).2 :=
  ⟨by decide +kernel, not_failsQuietly_of_stray (by decide +kernel) (by decide) ⟨by decide +kernel, by decide +kernel⟩⟩

end BigBrainOS
