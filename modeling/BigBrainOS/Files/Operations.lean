import BigBrainOS.Files.Sequential
import BigBrainOS.Files.Buffers

/-!
# The operations of an opened file

`sys_open` gives a directory the directory operations by its type. Every other
file it tells apart by name: the file `rtc` gets the operations of the clock, and
other files those of regular files, whatever type their entries have.
-/

namespace BigBrainOS
set_option autoImplicit false

open FixedText (text Terminated text_eq_iff)

/-- `isRTC` compares over the length of the name, so it accepts the prefixes of `rtc`. -/
theorem isRtc_iff {filename : Bytes} {name : List UInt8} (terminated : Terminated filename name)
    (fits : name.length ≤ fileNameSize) : isRtc filename = true ↔ name <+: message "rtc" := by
  have length : strlen filename (fileNameSize + 1) = name.length := by
    rw [strlen_terminated terminated]
    omega
  have literal := (literal_terminated "rtc" (fun _ => 0) (by decide +kernel)).holds_take name.length
  rw [isRtc, decide_eq_true_iff, length, strncmp_eq_zero, text_eq_iff.2 (terminated.holds_take _), text_eq_iff.2 literal,
    List.take_length, List.prefix_iff_eq_take]

/-- A name that is found fits the field. -/
theorem Image.found_fits {img : Image} {filename : Bytes} {name : List UInt8} {file : DirEntry}
    (terminated : Terminated filename name) (found : img.readDentryByName filename = some file) :
    name.length ≤ fileNameSize := by
  by_contra long
  rw [readDentryByName, if_pos ((strlen_fits terminated).2 long)] at found
  cases found

/-- The operation table says which of the three types the entry has. -/
def MatchesType (fot : Option Fot) (file : DirEntry) : Prop :=
  (fot = some .rtcFot ↔ file.fileType = 0) ∧ (fot = some .dirFot ↔ file.fileType = 1) ∧
    (fot = some .fileFot ↔ file.fileType = 2)

/-- Every descriptor that is opened has the operations of its file's type. -/
def OperationsMatch (img : Image) : Prop :=
  ∀ (r : Regs) (filename : Bytes) (s s' : Kernel) (fd : Fd) (file : DirEntry),
    sysOpen img r filename s = ((fd.val : Int), s') → img.readDentryByName filename = some file →
      MatchesType ((s'.currPcb r).fdt fd).fotPtr file

/-- **The operations of an opened file.** They are those of directories exactly if
the entry found has type 1. For any other type, the name `rtc` gets the operations
of the clock, and a name that is no prefix of `rtc` those of regular files. -/
theorem opened_operations {img : Image} {r : Regs} {filename : Bytes} {name : List UInt8} {s s' : Kernel} {fd : Fd}
    (terminated : Terminated filename name) (opened : sysOpen img r filename s = ((fd.val : Int), s')) :
    ∃ file, img.readDentryByName filename = some file ∧
      (((s'.currPcb r).fdt fd).fotPtr = some .dirFot ↔ file.fileType = 1) ∧
      (name = message "rtc" → file.fileType ≠ 1 → ((s'.currPcb r).fdt fd).fotPtr = some .rtcFot) ∧
      (¬ name <+: message "rtc" → file.fileType ≠ 1 → ((s'.currPcb r).fdt fd).fotPtr = some .fileFot) := by
  obtain ⟨file, found, entry⟩ := sysOpen_returned opened
  have fot : ((s'.currPcb r).fdt fd).fotPtr = some (openFot filename file) := by rw [entry]
  have byName := isRtc_iff terminated (Image.found_fits terminated found)
  refine ⟨file, found, ?_, fun clock other => ?_, fun regular other => ?_⟩
  · rw [fot, openFot]
    constructor
    · intro directory
      by_contra other
      rw [if_neg other] at directory
      split at directory <;> cases directory
    · intro directory
      rw [if_pos directory]
  · rw [fot, openFot, if_neg other, if_pos (byName.2 (by rw [clock]))]
  · rw [fot, openFot, if_neg other, if_neg (fun isClock => regular (byName.1 isClock))]

/-- A file system with one entry: its name, of at most five characters, and its type. -/
def oneEntry (name : String) (fileType : UInt8) : Image where
  byte a :=
    if a = 0 then 1
    else if 64 ≤ a ∧ a < 69 then (message name).getD (a - 64) 0
    else if a = 96 then fileType
    else 0

/-- `sys_open` in a new process, for an entry that is there. -/
theorem sysOpen_fresh {img : Image} {filename : Bytes} {file : DirEntry} (found : img.readDentryByName filename = some file) :
    ∃ s', sysOpen img ⟨kernelStackTop 0, 0⟩ filename freshTables = (((2 : Fd).val : Int), s') := by
  have free : getNewFd (freshTables.currPcb ⟨kernelStackTop 0, 0⟩) = some 2 := by decide +kernel
  simp only [sysOpen, found, free]
  exact ⟨_, rfl⟩

/-- The clock under its name. -/
theorem opened_operations_rtc :
    ∃ s', sysOpen (oneEntry "rtc" 0) ⟨kernelStackTop 0, 0⟩ (literal "rtc" fun _ => 0) freshTables = (2, s') ∧
      ((s'.currPcb ⟨kernelStackTop 0, 0⟩).fdt 2).fotPtr = some .rtcFot := by
  have terminated := literal_terminated "rtc" (fun _ => 0) (by decide +kernel)
  have named : (oneEntry "rtc" 0).readDentryByName (literal "rtc" fun _ => 0) = some ((oneEntry "rtc" 0).dirEntry 0) :=
    Image.readDentryByName_found (by decide) terminated (by decide) (by decide +kernel)
      fun j below => absurd below (Nat.not_lt_zero j)
  obtain ⟨s', opened⟩ := sysOpen_fresh named
  obtain ⟨file, found, -, clock, -⟩ := opened_operations terminated opened
  rw [named] at found
  obtain rfl := Option.some.inj found
  exact ⟨s', opened, clock rfl (by decide +kernel)⟩

/-- An entry `clock` of the clock's type gets the operations of regular files. -/
theorem clock_opened_as_file :
    (∀ i < (oneEntry "clock" 0).numDirEntriesWord, ((oneEntry "clock" 0).dirEntry i).fileType ≤ 2) ∧
      ¬ OperationsMatch (oneEntry "clock" 0) := by
  refine ⟨by decide +kernel, fun all => ?_⟩
  have terminated := literal_terminated "clock" (fun _ => 0) (by decide +kernel)
  have named : (oneEntry "clock" 0).readDentryByName (literal "clock" fun _ => 0) =
      some ((oneEntry "clock" 0).dirEntry 0) :=
    Image.readDentryByName_found (by decide) terminated (by decide) (by decide +kernel)
      fun j below => absurd below (Nat.not_lt_zero j)
  obtain ⟨s', opened⟩ := sysOpen_fresh named
  obtain ⟨file, found, entry⟩ := sysOpen_returned opened
  rw [named] at found
  obtain rfl := Option.some.inj found
  have clock := (all _ _ _ _ _ _ opened named).1.2 (by decide +kernel)
  rw [entry] at clock
  exact absurd clock (by decide +kernel)

end BigBrainOS
