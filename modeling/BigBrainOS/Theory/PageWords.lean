import Mathlib

/-!
# Two-level paging on 32-bit words

Entries of a page directory and of page tables are words whose low bits are
flags and whose high 20 bits are a frame number. Setters change one field of a
word; the lemmas say what each of them does to every field. `userTranslate` is
the walk of the processor for an access from user mode.
-/

namespace PageWord
set_option autoImplicit false

/-- An entry of a directory or of a table. -/
abbrev Entry := BitVec 32

/-! ## Fields -/

/-- One flag of an entry. -/
def flag (i : Nat) (e : Entry) : Bool := e.getLsbD i

abbrev present (e : Entry) : Bool := flag 0 e
abbrev readWrite (e : Entry) : Bool := flag 1 e
abbrev userSupervisor (e : Entry) : Bool := flag 2 e
/-- In a directory, the entry maps a page of 4 MB. -/
abbrev largePage (e : Entry) : Bool := flag 7 e

/-- The frame number. -/
def address (e : Entry) : BitVec 20 := e.extractLsb' 12 20

/-- Set one flag. -/
def setFlag (i : Nat) (e : Entry) : Entry := e ||| (1#32 <<< i)

abbrev setPresent (e : Entry) : Entry := setFlag 0 e
abbrev setReadWrite (e : Entry) : Entry := setFlag 1 e
abbrev setUserSupervisor (e : Entry) : Entry := setFlag 2 e
abbrev setLargePage (e : Entry) : Entry := setFlag 7 e

/-- Overwrite the frame number. -/
def setAddress (a : BitVec 20) (e : Entry) : Entry := a ++ e.extractLsb' 0 12

@[simp] theorem flag_setFlag {i : Nat} (small : i < 32) (e : Entry) (j : Nat) :
    flag j (setFlag i e) = (decide (j = i) || flag j e) := by
  have one : (1#32 <<< i).getLsbD j = decide (j = i) := by
    rw [BitVec.getLsbD_shiftLeft, BitVec.getLsbD_one]
    by_cases low : j < i
    · have other : j ≠ i := by omega
      simp [low, other]
    · by_cases same : j = i
      · subst same; simp [small]
      · have above : j - i ≠ 0 := by omega
        simp [same, above]
  rw [flag, setFlag, BitVec.getLsbD_or, one, Bool.or_comm, flag]

@[simp] theorem flag_setAddress (a : BitVec 20) (e : Entry) {j : Nat} (low : j < 12) :
    flag j (setAddress a e) = flag j e := by
  rw [flag, setAddress, BitVec.getLsbD_append]
  simp [low, flag]

@[simp] theorem address_setAddress (a : BitVec 20) (e : Entry) : address (setAddress a e) = a :=
  BitVec.extractLsb'_append_eq_left

/-- Flags do not reach into the frame number. -/
@[simp] theorem address_setFlag {i : Nat} (low : i < 12) (e : Entry) : address (setFlag i e) = address e := by
  apply BitVec.eq_of_getLsbD_eq
  intro j inside
  have other : ¬ 12 + j = i := by omega
  have same := flag_setFlag (show i < 32 by omega) e (12 + j)
  simp only [flag, other, decide_false, Bool.false_or] at same
  simp only [address, BitVec.getLsbD_extractLsb', same]

@[simp] theorem flag_zero (i : Nat) : flag i 0#32 = false := BitVec.getLsbD_zero

@[simp] theorem address_zero : address 0#32 = 0#20 := by decide

/-! ## The walk -/

/-- Where an access from user mode goes, `none` if it faults. `tables` gives the
page table in each frame. Present and user bits are needed at every level used;
an entry for a page of 4 MB contributes its upper ten bits. -/
def userTranslate (dir : Nat → Entry) (tables : BitVec 20 → Nat → Entry) (lin : BitVec 32) : Option Nat :=
  let pde := dir (lin.toNat / 2 ^ 22)
  if present pde = false ∨ userSupervisor pde = false then none
  else if largePage pde then some ((address pde).toNat / 2 ^ 10 * 2 ^ 22 + lin.toNat % 2 ^ 22)
  else
    let pte := tables (address pde) (lin.toNat / 2 ^ 12 % 2 ^ 10)
    if present pte = false ∨ userSupervisor pte = false then none
    else some ((address pte).toNat * 2 ^ 12 + lin.toNat % 2 ^ 12)

/-- An access that does not fault goes through a page of 4 MB or a page table. -/
theorem userTranslate_cases {dir : Nat → Entry} {tables : BitVec 20 → Nat → Entry} {lin : BitVec 32} {phys : Nat}
    (h : userTranslate dir tables lin = some phys) :
    let pde := dir (lin.toNat / 2 ^ 22)
    present pde = true ∧ userSupervisor pde = true ∧
      (largePage pde = true ∧ phys = (address pde).toNat / 2 ^ 10 * 2 ^ 22 + lin.toNat % 2 ^ 22 ∨
        largePage pde = false ∧
          let pte := tables (address pde) (lin.toNat / 2 ^ 12 % 2 ^ 10)
          present pte = true ∧ userSupervisor pte = true ∧
            phys = (address pte).toNat * 2 ^ 12 + lin.toNat % 2 ^ 12) := by
  unfold userTranslate at h
  dsimp only at h ⊢
  split at h
  · cases h
  next allowed =>
  rw [not_or, Bool.not_eq_false, Bool.not_eq_false] at allowed
  refine ⟨allowed.1, allowed.2, ?_⟩
  split at h
  · next large => exact Or.inl ⟨large, (Option.some.inj h).symm⟩
  next small =>
  split at h
  · cases h
  next mapped =>
  rw [not_or, Bool.not_eq_false, Bool.not_eq_false] at mapped
  exact Or.inr ⟨by simpa using small, mapped.1, mapped.2, (Option.some.inj h).symm⟩

end PageWord
