import BigBrainOS.Theory.FixedText
import BigBrainOS.Kernel.FileSystem

/-!
# Directory lookup

`read_dentry_by_name` finds the first entry of a name and nothing else: the
bounded comparison stops at the terminator of either name, and a name that fills
its 32 bytes has none. `read_dentry_by_index` accepts one index too many, so the
two lookups agree everywhere but there.
-/

namespace BigBrainOS
set_option autoImplicit false

open FixedText (text Holds Terminated holds_text text_eq_iff)

/-! ## Comparing and measuring names -/

/-- Two characters are the same if their difference as signed characters is zero. -/
theorem charDifference_eq_zero (a b : UInt8) : a.toInt8.toInt - b.toInt8.toInt = 0 ↔ a = b := by
  rw [Int.sub_eq_zero, Int8.toInt_inj]
  constructor
  · intro h
    have := congrArg Int8.toUInt8 h
    simpa using this
  · exact fun h => by rw [h]

/-- The loop of `strncmp` from index `i` finds no difference exactly if the rest agrees up to a terminator. -/
theorem strncmpFrom_eq_zero {a b : Bytes} : ∀ n i,
    strncmpFrom a b n i = 0 ↔ ∀ k < i + n, i ≤ k → (∀ j, i ≤ j → j < k → a j ≠ 0) → a k = b k := by
  intro n
  induction n with
  | zero =>
    intro i
    simp only [strncmpFrom, true_iff]
    omega
  | succ n ih =>
    intro i
    rw [strncmpFrom]
    split
    · next stops =>
      rw [charDifference_eq_zero]
      constructor
      · intro first k inside from_ nonzero
        by_cases at_i : k = i
        · rw [at_i]
          exact first
        · rcases stops with differ | zero
          · exact absurd first differ
          · exact absurd zero (nonzero i (Nat.le_refl i) (by omega))
      · intro agree
        exact agree i (by omega) (Nat.le_refl i) (fun j low high => absurd high (Nat.not_lt.2 low))
    · next goes =>
      rw [not_or, not_not] at goes
      obtain ⟨same, nonzero⟩ := goes
      rw [ih (i + 1)]
      constructor
      · intro later k inside from_ before
        by_cases at_i : k = i
        · rw [at_i]
          exact same
        · exact later k (by omega) (by omega) (fun j low high => before j (by omega) high)
      · intro all k inside from_ before
        refine all k (by omega) (by omega) (fun j low high => ?_)
        by_cases at_i : j = i
        · rw [at_i]
          exact nonzero
        · exact before j (by omega) high

/-- `strncmp` compares the texts of two fields. -/
theorem strncmp_eq_zero {a b : Bytes} {n : Nat} : strncmp a b n = 0 ↔ text a n = text b n := by
  have held := holds_text a n
  have length := held.length
  rw [strncmp, strncmpFrom_eq_zero, eq_comm, text_eq_iff, held.iff_agree]
  constructor
  · intro agree k inside upto
    refine agree k (by omega) (Nat.zero_le k) (fun j _ before => ?_)
    rw [held.cell j (by omega)]
    exact held.nonzero _ (List.getElem_mem _)
  · intro agree k inside _ before
    refine agree k (by omega) ?_
    by_contra beyond
    exact before _ (Nat.zero_le _) (by omega : (text a n).length < k) (held.ended (by omega))

namespace Image
variable {img : Image}

/-- The name of entry `i`: its 32 bytes, cut at the first NUL. -/
def entryName (img : Image) (i : Nat) : List UInt8 := text (img.dirEntry i).fileName fileNameSize

/-- The loop of `read_dentry_by_name` breaks at the first entry of the name. -/
theorem searchName_spec (img : Image) (fname : Bytes) : ∀ n i,
    i ≤ img.searchName fname n i ∧ img.searchName fname n i ≤ i + n ∧
      (∀ j, i ≤ j → j < img.searchName fname n i → img.entryName j ≠ text fname fileNameSize) ∧
      (img.searchName fname n i < i + n → img.entryName (img.searchName fname n i) = text fname fileNameSize) := by
  intro n
  induction n with
  | zero =>
    intro i
    exact ⟨Nat.le_refl i, Nat.le_refl i, fun j low high => absurd high (Nat.not_lt.2 low),
      fun short => absurd short (Nat.lt_irrefl i)⟩
  | succ n ih =>
    intro i
    rw [searchName]
    split
    · next found =>
      rw [strncmp_eq_zero] at found
      exact ⟨Nat.le_refl i, by omega, fun j low high => absurd high (Nat.not_lt.2 low), fun _ => found.symm⟩
    · next other =>
      rw [strncmp_eq_zero] at other
      obtain ⟨low, high, before, found⟩ := ih (i + 1)
      refine ⟨by omega, by omega, fun j from_ below => ?_, fun short => found (by omega)⟩
      by_cases first : j = i
      · rw [first]
        exact fun same => other same.symm
      · exact before j (by omega) below

/-- A count of at most 63 is the same as `int32_t`. -/
theorem numDirEntries_eq (few : img.numDirEntriesWord ≤ 63) : img.numDirEntries = img.numDirEntriesWord := by
  rw [numDirEntries, if_pos (by omega)]

/-- A terminated name is an entry's name exactly if it is not too long and the fields hold the same text. -/
theorem entryName_eq_iff {fname : Bytes} {name : List UInt8} (terminated : Terminated fname name) (i : Nat) :
    img.entryName i = name ↔ name.length ≤ fileNameSize ∧ img.entryName i = text fname fileNameSize := by
  have held := terminated.holds_take fileNameSize
  rw [text_eq_iff.2 held]
  constructor
  · intro same
    have short : name.length ≤ fileNameSize := by
      rw [← same]
      exact (holds_text _ _).length
    exact ⟨short, by rw [same, List.take_of_length_le short]⟩
  · rintro ⟨short, same⟩
    rw [same, List.take_of_length_le short]

/-- The length test passes exactly the names that fit the field. -/
theorem strlen_fits {fname : Bytes} {name : List UInt8} (terminated : Terminated fname name) :
    strlen fname (fileNameSize + 1) > fileNameSize ↔ ¬ name.length ≤ fileNameSize := by
  rw [strlen_terminated terminated]
  omega

section Search
variable {fname : Bytes} {name : List UInt8}

/-- The lookup stops at the least index of the name. -/
theorem readDentryByName_found (few : img.numDirEntriesWord ≤ 63) (terminated : Terminated fname name) {i : Nat}
    (inside : i < img.numDirEntriesWord) (named : img.entryName i = name) (least : ∀ j < i, img.entryName j ≠ name) :
    img.readDentryByName fname = some (img.dirEntry i) := by
  obtain ⟨fits, same⟩ := (entryName_eq_iff terminated i).1 named
  obtain ⟨-, high, before, found⟩ := searchName_spec img fname img.numDirEntriesWord 0
  have stops : img.searchName fname img.numDirEntriesWord 0 = i := by
    rcases Nat.lt_trichotomy (img.searchName fname img.numDirEntriesWord 0) i with early | at_i | late
    · exact absurd ((entryName_eq_iff terminated _).2 ⟨fits, found (by omega)⟩) (least _ early)
    · exact at_i
    · exact absurd same (before i (Nat.zero_le i) late)
  rw [readDentryByName, if_neg (by rw [strlen_fits terminated]; omega), numDirEntries_eq few]
  dsimp only
  rw [Int.toNat_natCast, stops, if_neg (by omega)]

/-- A name that no entry has is not found. -/
theorem readDentryByName_absent (few : img.numDirEntriesWord ≤ 63) (terminated : Terminated fname name)
    (absent : ∀ i < img.numDirEntriesWord, img.entryName i ≠ name) : img.readDentryByName fname = none := by
  by_cases fits : name.length ≤ fileNameSize
  · obtain ⟨-, high, -, found⟩ := searchName_spec img fname img.numDirEntriesWord 0
    have stops : img.searchName fname img.numDirEntriesWord 0 = img.numDirEntriesWord := by
      by_contra short
      have inside : img.searchName fname img.numDirEntriesWord 0 < img.numDirEntriesWord := by omega
      exact absent _ inside ((entryName_eq_iff terminated _).2 ⟨fits, found (by omega)⟩)
    rw [readDentryByName, if_neg (by rw [strlen_fits terminated]; omega), numDirEntries_eq few]
    dsimp only
    rw [Int.toNat_natCast, stops, if_pos rfl]
  · rw [readDentryByName, if_pos ((strlen_fits terminated).2 fits)]

end Search

/-- **Lookup by name is exact.** `read_dentry_by_name` succeeds on a terminated
name of any length exactly if an entry has that name, with the 64 bytes of the
first such entry; else it returns -1 and leaves the output entry alone. -/
theorem lookup_exact (few : img.numDirEntriesWord ≤ 63) {fname : Bytes} {name : List UInt8}
    (terminated : Terminated fname name) (out : DirEntry) :
    ((img.readDentryByNameInto fname out).1 = 0 ↔ ∃ i < img.numDirEntriesWord, img.entryName i = name) ∧
      (∀ i < img.numDirEntriesWord, img.entryName i = name → (∀ j < i, img.entryName j ≠ name) →
        img.readDentryByNameInto fname out = (0, ⟨memcpy out.val (img.dirEntry i).val dirEntrySizeBytes⟩)) ∧
      ((∀ i < img.numDirEntriesWord, img.entryName i ≠ name) → img.readDentryByNameInto fname out = (-1, out)) := by
  have first : ∀ i < img.numDirEntriesWord, img.entryName i = name → (∀ j < i, img.entryName j ≠ name) →
      img.readDentryByNameInto fname out = (0, ⟨memcpy out.val (img.dirEntry i).val dirEntrySizeBytes⟩) := by
    intro i inside named least
    rw [readDentryByNameInto, readDentryByName_found few terminated inside named least]
    rfl
  have absent : (∀ i < img.numDirEntriesWord, img.entryName i ≠ name) →
      img.readDentryByNameInto fname out = (-1, out) := by
    intro none
    rw [readDentryByNameInto, readDentryByName_absent few terminated none]
    rfl
  refine ⟨⟨fun zero => ?_, fun some => ?_⟩, first, absent⟩
  · by_contra none
    rw [absent fun i inside named => none ⟨i, inside, named⟩] at zero
    exact absurd zero (show (-1 : Int) ≠ 0 by decide)
  · obtain ⟨inside, named⟩ := Nat.find_spec some
    have least : ∀ j < Nat.find some, img.entryName j ≠ name := by
      intro j before same
      exact Nat.find_min some before ⟨by omega, same⟩
    rw [first _ inside named least]

/-- The name `shell` in a buffer is found. -/
theorem lookup_exact_shell :
    Terminated (literal "shell" fun _ => 0xFF) (message "shell") ∧
      (shellImage.readDentryByNameInto (literal "shell" fun _ => 0xFF) ⟨fun _ => 0⟩).1 = 0 := by
  have terminated := literal_terminated "shell" (fun _ => 0xFF) (by decide +kernel)
  have named : ∃ i < shellImage.numDirEntriesWord, shellImage.entryName i = message "shell" :=
    ⟨0, by decide, by decide +kernel⟩
  have lookup := lookup_exact (show shellImage.numDirEntriesWord ≤ 63 by decide) terminated ⟨fun _ => 0⟩
  exact ⟨terminated, lookup.1.2 named⟩

/-! ## Lookup by index -/

/-- The name in an entry, cut at 32 bytes and terminated. -/
def cutName (e : DirEntry) : Bytes := fun k => if k < fileNameSize then e.fileName k else 0

theorem cutName_terminated (e : DirEntry) : Terminated (cutName e) (text e.fileName fileNameSize) := by
  have held := holds_text e.fileName fileNameSize
  have length := held.length
  refine ⟨Nat.le_succ _, fun k inside => ?_, held.nonzero, fun _ => ?_⟩
  · rw [cutName, if_pos (by omega)]
    exact held.cell k inside
  · rw [cutName]
    split
    · next short => exact held.ended short
    · rfl

/-- At index `i` the two lookups agree: the index is accepted exactly if it is an
entry's, and the entry that it gives is found again by its name. -/
def LookupsAgree (img : Image) (i : Nat) : Prop :=
  ∀ out out', let byIndex := img.readDentryByIndexInto i out
    let byName := img.readDentryByNameInto (cutName byIndex.2) out'
    (byIndex.1 = 0 ↔ i < img.numDirEntriesWord) ∧
      (byIndex.1 = 0 → byName.1 = 0 ∧ ∀ k < dirEntrySizeBytes, byName.2.val k = byIndex.2.val k)

/-- The index lookup lets everything up to the count pass. -/
theorem readDentryByIndexInto_value (img : Image) (i : Nat) (out : DirEntry) :
    (img.readDentryByIndexInto i out).1 = 0 ↔ i ≤ img.numDirEntriesWord := by
  rw [readDentryByIndexInto, readDentryByIndex]
  split
  · next beyond => simp [fillEntry]; omega
  · next inside => simp [fillEntry]; omega

/-- **Lookup by index and by name.** In a directory of distinct names the lookups
agree at every index but the number of entries itself. -/
theorem lookupsAgree_iff (few : img.numDirEntriesWord ≤ 63)
    (distinct : ∀ i < img.numDirEntriesWord, ∀ j < img.numDirEntriesWord, img.entryName i = img.entryName j → i = j)
    (i : Nat) : img.LookupsAgree i ↔ i ≠ img.numDirEntriesWord := by
  constructor
  · intro agree last
    obtain ⟨accepted, -⟩ := agree ⟨fun _ => 0⟩ ⟨fun _ => 0⟩
    have upto := (readDentryByIndexInto_value img i ⟨fun _ => 0⟩).2 (by omega)
    have below := accepted.1 upto
    omega
  · intro other out out'
    have value := readDentryByIndexInto_value img i out
    refine ⟨value.trans (by omega), fun accepted => ?_⟩
    have inside : i < img.numDirEntriesWord := by
      have upto := value.1 accepted
      omega
    have entry : img.readDentryByIndexInto i out = (0, ⟨memcpy out.val (img.dirEntry i).val dirEntrySizeBytes⟩) := by
      rw [readDentryByIndexInto, readDentryByIndex, if_neg (by omega)]
      rfl
    have name : text (DirEntry.mk (memcpy out.val (img.dirEntry i).val dirEntrySizeBytes)).fileName fileNameSize =
        img.entryName i := by
      rw [text_eq_iff]
      refine (holds_text (img.dirEntry i).fileName fileNameSize).congr fun k below => ?_
      exact if_pos (Nat.lt_trans below (by decide))
    have least : ∀ j < i, img.entryName j ≠ img.entryName i := by
      intro j before same
      have := distinct j (by omega) i inside same
      omega
    have terminated := cutName_terminated ⟨memcpy out.val (img.dirEntry i).val dirEntrySizeBytes⟩
    rw [name] at terminated
    rw [entry, readDentryByNameInto, readDentryByName_found few terminated inside rfl least]
    refine ⟨rfl, fun k below => ?_⟩
    simp only [fillEntry, memcpy, if_pos below]

/-- The one entry of the shell's image. -/
theorem lookupsAgree_shell : shellImage.numDirEntriesWord = 1 ∧ shellImage.LookupsAgree 0 := by
  have one : shellImage.numDirEntriesWord = 1 := by decide
  refine ⟨one, (lookupsAgree_iff (by omega) (fun i inside j inside' _ => ?_) 0).2 (by omega)⟩
  omega

/-- Index 1 is accepted there, although there is no such entry. -/
theorem lookups_disagree : ¬ shellImage.LookupsAgree 1 := by
  intro agree
  have accepted := (agree ⟨fun _ => 0⟩ ⟨fun _ => 0⟩).1.1
  exact absurd (accepted (by decide)) (by decide)

end Image

end BigBrainOS
