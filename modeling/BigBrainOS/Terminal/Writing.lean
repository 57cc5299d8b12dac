import BigBrainOS.Kernel.Terminal
import BigBrainOS.Files.Lookup
import BigBrainOS.Process.Boot

/-!
# What a write looks at

`terminal_write` prints the bytes it is given, without the zeros. The shell's prompt it
replaces by one of its own, and it looks for the prompt without asking how many
bytes it was given: bytes behind a short write may complete the prompt.
-/

namespace BigBrainOS
set_option autoImplicit false

open FixedText (text Holds text_eq_iff)

/-- The bytes that a write of `n` bytes is given. -/
def givenBytes (buf : Bytes) (n : Nat) : List UInt8 := (List.range n).map buf

/-- The write looks at its `n` bytes only: they decide what it does, and unless they
begin with the prompt they are printed, the zeros apart. -/
structure LooksAtGiven (buf : Bytes) (n : Nat) (s : Kernel) : Prop where
  decides : ∀ buf', (∀ k < n, buf' k = buf k) → terminalWrite (some buf') n s = terminalWrite (some buf) n s
  prints : ¬ prompt <+: givenBytes buf n →
    terminalWrite (some buf) n s = ((n : Int), puts ((givenBytes buf n).filter fun b => b ≠ 0) s)

theorem prompt_length : prompt.length = 7 := by decide +kernel

/-- The test for the prompt reads seven bytes. -/
theorem isPrompt_iff (buf : Bytes) :
    strncmp buf (fun i => prompt.getD i 0) prompt.length = 0 ↔ givenBytes buf prompt.length = prompt := by
  have nonzero : ∀ b ∈ prompt, b ≠ 0 := by decide +kernel
  have own : text (fun i => prompt.getD i 0) prompt.length = prompt := by
    refine text_eq_iff.2 ⟨Nat.le_refl _, fun k inside => ?_, nonzero, fun short => absurd short (Nat.lt_irrefl _)⟩
    rw [List.getD_eq_getElem?_getD, List.getElem?_eq_getElem inside, Option.getD_some]
  rw [strncmp_eq_zero, own, text_eq_iff]
  constructor
  · intro held
    apply List.ext_getElem (by simp [givenBytes])
    intro k _ inside
    simp only [givenBytes, List.getElem_map, List.getElem_range]
    exact held.cell k inside
  · intro same
    refine ⟨Nat.le_refl _, fun k inside => ?_, nonzero, fun short => absurd short (Nat.lt_irrefl _)⟩
    have at_k := List.getElem_of_eq same (by simpa [givenBytes] using inside)
    simpa [givenBytes] using at_k

/-- The loop prints what is not zero. -/
theorem foldl_putc_eq (buf : Bytes) : ∀ (l : List Nat) (s : Kernel),
    l.foldl (fun s i => if buf i ≠ 0 then putc (buf i) s else s) s = puts ((l.map buf).filter fun b => b ≠ 0) s := by
  intro l
  induction l with
  | nil => intro s; rfl
  | cons i l ih =>
    intro s
    rw [List.foldl_cons, ih, List.map_cons]
    by_cases zero : buf i = 0
    · rw [if_neg (not_not.2 zero), List.filter_cons_of_neg (by simp [zero])]
    · rw [if_pos zero, List.filter_cons_of_pos (by simp [zero])]
      rfl

section
variable {buf : Bytes} {n : Nat} (s : Kernel)

theorem terminalWrite_prompt (isPrompt : givenBytes buf prompt.length = prompt) (n : Int) :
    terminalWrite (some buf) n s = ((bbPrompt.length : Int), puts bbPrompt s) := by
  simp only [terminalWrite, if_pos ((isPrompt_iff buf).2 isPrompt)]

theorem terminalWrite_other (other : givenBytes buf prompt.length ≠ prompt) (n : Nat) :
    terminalWrite (some buf) n s = ((n : Int), puts ((givenBytes buf n).filter fun b => b ≠ 0) s) := by
  simp only [terminalWrite, if_neg fun h => other ((isPrompt_iff buf).1 h), Int.toNat_natCast, foldl_putc_eq]
  rfl

theorem givenBytes_congr {buf' : Bytes} (agree : ∀ k < n, buf' k = buf k) : givenBytes buf' n = givenBytes buf n :=
  List.map_congr_left fun k inside => agree k (List.mem_range.1 inside)

/-- The given bytes begin with those of a shorter write. -/
theorem givenBytes_begins (buf : Bytes) {m n : Nat} (le : m ≤ n) : givenBytes buf m <+: givenBytes buf n := by
  obtain ⟨d, rfl⟩ := Nat.exists_eq_add_of_le le
  refine ⟨(List.range d).map fun k => buf (m + k), ?_⟩
  simp only [givenBytes, List.range_add, List.map_append, List.map_map]
  rfl

/-- A shorter write is given the beginning of the same bytes. -/
theorem givenBytes_take (buf : Bytes) {m n : Nat} (le : m ≤ n) : (givenBytes buf n).take m = givenBytes buf m := by
  have short := List.prefix_iff_eq_take.1 (givenBytes_begins buf le)
  rw [short]
  simp [givenBytes]

/-- Where the bytes decide, the test for the prompt asks whether they begin with it. -/
theorem isPrompt_of_decided {buf' : Bytes} (decided : prompt.length ≤ n ∨ ¬ givenBytes buf n <+: prompt)
    (agree : ∀ k < n, buf' k = buf k) :
    givenBytes buf' prompt.length = prompt ↔ prompt <+: givenBytes buf n := by
  rw [← givenBytes_congr agree] at decided ⊢
  constructor
  · intro isPrompt
    rcases Nat.le_total prompt.length n with enough | short
    · have begins := givenBytes_begins buf' enough
      rwa [isPrompt] at begins
    · have begins := givenBytes_begins buf' short
      rw [isPrompt] at begins
      rcases decided with enough | other
      · rw [Nat.le_antisymm short enough, isPrompt]
      · exact absurd begins other
  · intro begins
    have enough : prompt.length ≤ n := by simpa [givenBytes] using begins.length_le
    rw [← givenBytes_take buf' enough]
    exact (List.prefix_iff_eq_take.1 begins).symm

/-- A write that is given the whole prompt, or something else, looks at its bytes only. -/
theorem looksAtGiven_of_decided (decided : prompt.length ≤ n ∨ ¬ givenBytes buf n <+: prompt) : LooksAtGiven buf n s := by
  have own := isPrompt_of_decided decided fun k _ => (rfl : buf k = buf k)
  refine ⟨fun buf' agree => ?_, fun other => terminalWrite_other s (fun isPrompt => other (own.1 isPrompt)) n⟩
  have theirs := isPrompt_of_decided decided agree
  by_cases begins : prompt <+: givenBytes buf n
  · rw [terminalWrite_prompt s (own.2 begins), terminalWrite_prompt s (theirs.2 begins)]
  · rw [terminalWrite_other s fun isPrompt => begins (own.1 isPrompt),
      terminalWrite_other s fun isPrompt => begins (theirs.1 isPrompt), givenBytes_congr agree]

/-- The beginning of the prompt does not decide: the bytes behind it may be the rest of the
prompt, or not. -/
theorem not_looksAtGiven (short : n < prompt.length) (begins : givenBytes buf n <+: prompt) : ¬ LooksAtGiven buf n s := by
  intro looks
  -- Two buffers behind the same bytes: the rest of the prompt in one, a zero in the other.
  let whole : Bytes := fun k => prompt.getD k 0
  let cut : Bytes := fun k => if k < n then buf k else 0
  have agree_whole : ∀ k < n, whole k = buf k := by
    intro k inside
    have at_k := begins.getElem (by simpa [givenBytes] using inside : k < (givenBytes buf n).length)
    simp only [givenBytes, List.getElem_map, List.getElem_range] at at_k
    show prompt.getD k 0 = buf k
    rw [List.getD_eq_getElem?_getD, List.getElem?_eq_getElem (Nat.lt_trans inside short), Option.getD_some, ← at_k]
  have agree_cut : ∀ k < n, cut k = buf k := fun k inside => if_pos inside
  have isPrompt : givenBytes whole prompt.length = prompt := by decide +kernel
  have other : givenBytes cut prompt.length ≠ prompt := by
    intro same
    have zero : cut n = 0 := if_neg (Nat.lt_irrefl n)
    have mem : cut n ∈ prompt := by
      rw [← same]
      exact List.mem_map_of_mem (List.mem_range.2 short)
    exact (show ∀ b ∈ prompt, b ≠ 0 by decide +kernel) _ mem zero
  have equal := (looks.decides whole agree_whole).trans (looks.decides cut agree_cut).symm
  rw [terminalWrite_prompt s isPrompt, terminalWrite_other s other] at equal
  have counts : (bbPrompt.length : Int) = n := congrArg Prod.fst equal
  have twenty : bbPrompt.length = 20 := by decide +kernel
  have seven := prompt_length
  omega

/-- A write looks at the bytes it is given only, unless these are fewer than the prompt
has and begin it. -/
theorem looksAtGiven_iff (buf : Bytes) (n : Nat) :
    LooksAtGiven buf n s ↔ prompt.length ≤ n ∨ ¬ givenBytes buf n <+: prompt := by
  refine ⟨fun looks => ?_, looksAtGiven_of_decided s⟩
  by_contra undecided
  rw [not_or, not_not, Nat.not_le] at undecided
  exact not_looksAtGiven s undecided.1 undecided.2 looks

end

/-- Of `391` the write looks at what stands behind: here it is the rest of the prompt. -/
theorem short_write_looks_on : ¬ LooksAtGiven (fun k => prompt.getD k 0) 3 booted :=
  not_looksAtGiven booted (by decide +kernel) (by decide +kernel)

end BigBrainOS
