import BigBrainOS.Files.Sequential
import BigBrainOS.Files.Buffers

/-!
# Listing a directory

A process opens a directory and reads it again and again; between two reads it
may do anything that leaves the descriptor alone. Each read delivers the next
name, and from the number of entries on the reads deliver nothing.
-/

namespace BigBrainOS
set_option autoImplicit false

open FixedText (text holds_text)

/-- A name in a field of 32 bytes, filled up with zeros; the buffer behind it stays. -/
def padName (name : List UInt8) (buf : Bytes) : Bytes := fun j => if j < fileNameSize then name.getD j 0 else buf j

theorem strncpy_eq_padName (buf src : Bytes) :
    strncpy buf src fileNameSize = padName (text src fileNameSize) buf := by
  have held := holds_text src fileNameSize
  have length := held.length
  funext j
  rw [strncpy_apply, strlen_eq_length, padName]
  by_cases inside : j < (text src fileNameSize).length
  · rw [if_pos inside, if_pos (by omega), held.cell j inside, List.getD_eq_getElem?_getD, List.getElem?_eq_getElem inside,
      Option.getD_some]
  · rw [if_neg inside, List.getD_eq_getElem?_getD, List.getElem?_eq_none (by omega), Option.getD_none]

section Reads
variable {img : Image} {r : Regs} {fd : Fd}

/-- The position of a descriptor of the calling process. -/
def positionOf (r : Regs) (fd : Fd) (s : Kernel) : Nat := ((s.currPcb r).fdt fd).filePosition

/-- A read in front of an entry delivers its name and moves on by one. -/
theorem dirRead_inside (few : img.numDirEntriesWord ≤ 63) {s : Kernel} (inside : positionOf r fd s < img.numDirEntriesWord)
    (buf : Bytes) :
    (dirRead img r fd buf s).1 = (img.entryName (positionOf r fd s)).length ∧
      (dirRead img r fd buf s).2.1 = padName (img.entryName (positionOf r fd s)) buf ∧
      positionOf r fd (dirRead img r fd buf s).2.2 = positionOf r fd s + 1 := by
  have position : signed (positionOf r fd s) = positionOf r fd s := if_pos (by omega)
  unfold dirRead
  dsimp only
  rw [← positionOf, position, Image.numDirEntries_eq few, if_neg (by omega), Image.readDentryByIndex, if_neg (by omega)]
  dsimp only
  refine ⟨?_, strncpy_eq_padName _ _, ?_⟩
  · rw [dirRead_length, strlen_eq_length]
    rfl
  · rw [positionOf, setFd_fdt_self]
    exact Nat.mod_eq_of_lt (by rw [← positionOf]; omega)

/-- A read behind the last entry delivers nothing and changes nothing. -/
theorem dirRead_ended (few : img.numDirEntriesWord ≤ 63) {s : Kernel} (ended : positionOf r fd s = img.numDirEntriesWord)
    (buf : Bytes) : dirRead img r fd buf s = (0, buf, s) := by
  have position : signed (positionOf r fd s) = positionOf r fd s := if_pos (by omega)
  unfold dirRead
  dsimp only
  rw [← positionOf, position, Image.numDirEntries_eq few, if_pos (by omega)]

/-- The states in front of the reads of one listing, `bufs k` being the buffer of
read `k`: `sys_open` on a directory leads to the first one, and from the end of a
read to the next read nothing touches the descriptor. -/
structure Listing (img : Image) (r : Regs) (fd : Fd) (bufs : Nat → Bytes) (before : Nat → Kernel) : Prop where
  opened : ∃ filename file s, img.readDentryByName filename = some file ∧ file.fileType = 1 ∧
    sysOpen img r filename s = ((fd.val : Int), before 0)
  next : ∀ k, ((before (k + 1)).currPcb r).fdt fd = ((dirRead img r fd (bufs k) (before k)).2.2.currPcb r).fdt fd

variable {bufs : Nat → Bytes} {before : Nat → Kernel}

/-- A descriptor that was just opened is at position 0. -/
theorem Listing.first (listing : Listing img r fd bufs before) : positionOf r fd (before 0) = 0 := by
  obtain ⟨filename, file, s, -, -, opened⟩ := listing.opened
  obtain ⟨file', -, entry⟩ := sysOpen_returned opened
  rw [positionOf, entry]

/-- Read `k` stands in front of entry `k`, until the entries end. -/
theorem Listing.position (few : img.numDirEntriesWord ≤ 63) (listing : Listing img r fd bufs before) (k : Nat) :
    positionOf r fd (before k) = min k img.numDirEntriesWord := by
  induction k with
  | zero => rw [listing.first, Nat.zero_min]
  | succ k ih =>
    rw [positionOf, listing.next k, ← positionOf]
    by_cases inside : k < img.numDirEntriesWord
    · obtain ⟨-, -, moved⟩ := dirRead_inside few (show positionOf r fd (before k) < _ by omega) (bufs k)
      rw [moved]
      omega
    · rw [dirRead_ended few (by omega), ih]
      omega

/-- Read `k` delivers entry `k`. -/
theorem Listing.delivers (few : img.numDirEntriesWord ≤ 63) (listing : Listing img r fd bufs before) {k : Nat}
    (inside : k < img.numDirEntriesWord) :
    (dirRead img r fd (bufs k) (before k)).1 = (img.entryName k).length ∧
      (dirRead img r fd (bufs k) (before k)).2.1 = padName (img.entryName k) (bufs k) ∧
      positionOf r fd (before k) = k ∧ positionOf r fd (dirRead img r fd (bufs k) (before k)).2.2 = k + 1 := by
  have at_k : positionOf r fd (before k) = k := by
    rw [listing.position few]
    omega
  obtain ⟨value, name, moved⟩ := dirRead_inside few (show positionOf r fd (before k) < _ by omega) (bufs k)
  rw [at_k] at value name moved
  exact ⟨value, name, at_k, moved⟩

/-- Read `k` finds the entries listed. -/
theorem Listing.ends (few : img.numDirEntriesWord ≤ 63) (listing : Listing img r fd bufs before) {k : Nat}
    (ended : img.numDirEntriesWord ≤ k) :
    dirRead img r fd (bufs k) (before k) = (0, bufs k, before k) ∧
      positionOf r fd (before k) = img.numDirEntriesWord := by
  have at_end : positionOf r fd (before k) = img.numDirEntriesWord := by
    rw [listing.position few]
    omega
  exact ⟨dirRead_ended few at_end (bufs k), at_end⟩

/-- **Directory enumeration.** Read `k` of a listing delivers the name of entry
`k`, padded to 32 bytes, with its length, and moves on by one; from the number of
entries on, a read returns 0 and leaves buffer and position alone. If no name is
empty, the value 0 marks the end. -/
theorem listing_complete (few : img.numDirEntriesWord ≤ 63) (listing : Listing img r fd bufs before) (k : Nat) :
    (k < img.numDirEntriesWord →
      (dirRead img r fd (bufs k) (before k)).1 = (img.entryName k).length ∧
        (dirRead img r fd (bufs k) (before k)).2.1 = padName (img.entryName k) (bufs k) ∧
        positionOf r fd (before k) = k ∧ positionOf r fd (dirRead img r fd (bufs k) (before k)).2.2 = k + 1) ∧
      (img.numDirEntriesWord ≤ k →
        dirRead img r fd (bufs k) (before k) = (0, bufs k, before k) ∧
          positionOf r fd (before k) = img.numDirEntriesWord) ∧
      ((∀ i < img.numDirEntriesWord, img.entryName i ≠ []) →
        ((dirRead img r fd (bufs k) (before k)).1 = 0 ↔ img.numDirEntriesWord ≤ k)) := by
  refine ⟨listing.delivers few, listing.ends few, fun named => ⟨fun zero => ?_, fun ended => ?_⟩⟩
  · by_contra inside
    rw [(listing.delivers few (by omega)).1, Int.natCast_eq_zero, List.length_eq_zero_iff] at zero
    exact named k (by omega) zero
  · rw [(listing.ends few ended).1]

/-- The directory itself and a file whose name fills its field. -/
def twoNames : Image where
  byte a :=
    if a = 0 then 2
    else if a = 64 then 0x2E
    else if a = 96 then 1
    else if 128 ≤ a ∧ a < 160 then 0x61
    else if a = 160 then 2
    else 0

/-- The reads of a listing, one right after the other. -/
def readsFrom (img : Image) (r : Regs) (fd : Fd) (bufs : Nat → Bytes) (s : Kernel) : Nat → Kernel
  | 0 => s
  | k + 1 => (dirRead img r fd (bufs k) (readsFrom img r fd bufs s k)).2.2

/-- The second read delivers the long name, the third one ends the listing. -/
theorem listing_complete_twoNames :
    let s := (sysOpen twoNames ⟨kernelStackTop 0, 0⟩ (literal "." fun _ => 0) freshTables).2
    let before := readsFrom twoNames ⟨kernelStackTop 0, 0⟩ 2 (fun _ _ => 0xFF) s
    (dirRead twoNames ⟨kernelStackTop 0, 0⟩ 2 (fun _ => 0xFF) (before 1)).1 = 32 ∧
      (dirRead twoNames ⟨kernelStackTop 0, 0⟩ 2 (fun _ => 0xFF) (before 2)).1 = 0 := by
  intro s before
  have few : twoNames.numDirEntriesWord ≤ 63 := by decide
  have found : twoNames.readDentryByName (literal "." fun _ => 0) = some (twoNames.dirEntry 0) :=
    Image.readDentryByName_found few (literal_terminated "." _ (by decide +kernel)) (by decide) (by decide +kernel)
      fun j below => absurd below (Nat.not_lt_zero j)
  have free : getNewFd (freshTables.currPcb ⟨kernelStackTop 0, 0⟩) = some 2 := by decide +kernel
  have value : (sysOpen twoNames ⟨kernelStackTop 0, 0⟩ (literal "." fun _ => 0) freshTables).1 = 2 := by
    simp only [sysOpen, found, free]
    rfl
  have listing : Listing twoNames ⟨kernelStackTop 0, 0⟩ 2 (fun _ _ => 0xFF) before :=
    ⟨⟨_, _, freshTables, found, by decide, Prod.ext value rfl⟩, fun _ => rfl⟩
  have long := ((listing_complete few listing 1).1 (by decide)).1
  have ended := (listing_complete few listing 2).2.1 (by decide)
  have length : (twoNames.entryName 1).length = 32 := by decide +kernel
  rw [length] at long
  exact ⟨long, congrArg Prod.fst ended.1⟩

end Reads

end BigBrainOS
