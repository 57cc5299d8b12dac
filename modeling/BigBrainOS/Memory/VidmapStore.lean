import BigBrainOS.Display.Vidmap

/-!
# Where `sys_vidmap` stores

`sys_vidmap` takes the pointers from 128 MB to 132 MB, both included, and stores
four bytes through them. The last four of these pointers lead out of the program page.
-/

namespace BigBrainOS
set_option autoImplicit false

/-- The linear addresses of a store of `n` bytes. -/
def storeTargets (lin n : Nat) : List Nat := (List.range n).map fun k => lin + k

/-- The addresses that `sys_vidmap` stores to. -/
def vidmapTargets (screenStart : BitVec 32) : List Nat :=
  if screenStart = 0 then []
  else if screenStart.toInt < mb128 ∨ screenStart.toInt > mb132 then []
  else storeTargets screenStart.toNat 4

/-- Memory that no target leads to is as it was. -/
def OnlyTargets (s s' : Kernel) (targets : List Nat) : Prop :=
  ∀ a, (∀ lin ∈ targets, s.translate lin ≠ some a) → s'.phys a = s.phys a

/-- What `sys_vidmap` is to do with a pointer: refuse it and change nothing, or
return 0 and store in the program page only. -/
def VidmapSafe (tableAddr : Nat) (screenStart : BitVec 32) (s : Kernel) : Prop :=
  sysVidmap tableAddr screenStart s = (some error, s) ∨
    ∃ s', sysVidmap tableAddr screenStart s = (some 0, s') ∧
      OnlyTargets (getVidmem tableAddr s) s' (vidmapTargets screenStart) ∧
      ∀ a ∈ vidmapTargets screenStart, 0x8000000 ≤ a ∧ a < 0x8400000

section
variable {s : Kernel}

theorem vidmapTargets_taken {screenStart : BitVec 32} (taken : InProgramPage screenStart) :
    vidmapTargets screenStart = storeTargets screenStart.toNat 4 := by
  obtain ⟨nonzero, low, high⟩ := taken
  rw [vidmapTargets, if_neg nonzero, if_neg (by omega)]

/-- A store changes the memory behind its targets only. -/
theorem storeBytes_onlyTargets {lin w : Nat} : ∀ {n : Nat} {s' : Kernel}, s.storeBytes lin w n = some s' →
    OnlyTargets s s' (storeTargets lin n) := by
  intro n
  induction n with
  | zero =>
    intro s' stored a _
    obtain rfl := Option.some.inj stored
    rfl
  | succ n ih =>
    intro s' stored a outside
    obtain ⟨s₁, first, last⟩ := Option.bind_eq_some_iff.1 stored
    obtain ⟨address, found, rfl⟩ := Option.map_eq_some_iff.1 last
    have before : s₁.phys a = s.phys a := by
      apply ih first
      intro target member
      apply outside
      simp only [storeTargets, List.range_succ, List.map_append, List.mem_append]
      exact Or.inl member
    obtain ⟨m, rfl⟩ := storeBytes_stored first
    have other : a ≠ address := by
      rintro rfl
      refine outside (lin + n) ?_ found
      simp only [storeTargets, List.range_succ, List.map_append, List.mem_append]
      exact Or.inr (List.mem_singleton.2 rfl)
    exact (Function.update_of_ne other _ _).trans before

/-- A pointer as an `int`, in the range that is tested. -/
theorem inProgramPage_iff {screenStart : BitVec 32} :
    InProgramPage screenStart ↔ 0x8000000 ≤ screenStart.toNat ∧ screenStart.toNat ≤ 0x8400000 := by
  have range := screenStart.isLt
  have zero : screenStart = 0 ↔ screenStart.toNat = 0 := BitVec.toNat_inj.symm
  unfold InProgramPage
  rw [ne_eq, zero]
  simp only [mb128, mb132, BitVec.toInt]
  split <;> omega

/-- The last four pointers that `sys_vidmap` takes. -/
theorem not_vidmapSafe_of_last {screenStart : BitVec 32} (high : 0x83FFFFC < screenStart.toNat)
    (limit : screenStart.toNat ≤ 0x8400000) (tableAddr : Nat) : ¬ VidmapSafe tableAddr screenStart s := by
  have taken : InProgramPage screenStart := inProgramPage_iff.2 ⟨by omega, limit⟩
  rintro (refused | ⟨s', -, -, inside⟩)
  · -- a pointer that is taken ends in 0 or in a page fault
    obtain ⟨nonzero, low, below⟩ := taken
    have value := congrArg Prod.fst refused
    rw [sysVidmap, if_neg nonzero, if_neg (by omega)] at value
    dsimp only at value
    split at value
    · cases value
    · exact absurd (Option.some.inj value) (by decide)
  · rw [vidmapTargets_taken taken] at inside
    have last := inside (screenStart.toNat + 3) (List.mem_map_of_mem (List.mem_range.2 (by decide)))
    omega

end

/-- **Where `sys_vidmap` stores.** With the page of its caller in place, the call is
safe exactly if the pointer is not one of the last four that it takes. -/
theorem vidmapSafe_iff {s : Kernel} {pid : Int} (maps : s.MapsProgram pid) (tableAddr : Nat) (screenStart : BitVec 32) :
    VidmapSafe tableAddr screenStart s ↔ ¬ (0x83FFFFC < screenStart.toNat ∧ screenStart.toNat ≤ 0x8400000) := by
  constructor
  · rintro safe ⟨high, limit⟩
    exact not_vidmapSafe_of_last high limit tableAddr safe
  · intro notLast
    by_cases taken : InProgramPage screenStart
    · have range := inProgramPage_iff.1 taken
      have maps' : (getVidmem tableAddr s).MapsProgram pid := maps
      obtain ⟨s', stored⟩ := storeBytes_ok maps' (w := mb132.toNat) range.1 4 (by omega)
      have targets := vidmapTargets_taken taken
      obtain ⟨nonzero, above, below⟩ := taken
      refine Or.inr ⟨s', ?_, ?_, ?_⟩
      · rw [sysVidmap, if_neg nonzero, if_neg (by omega)]
        simp only [stored]
      · rw [targets]
        exact storeBytes_onlyTargets stored
      · rw [targets]
        intro a member
        obtain ⟨k, inside, rfl⟩ := List.mem_map.1 member
        have := List.mem_range.1 inside
        omega
    · exact Or.inl (sysVidmap_refused taken tableAddr s)

/-- After boot, a pointer to the last word of the program page is safe. -/
theorem vidmapSafe_last_word : VidmapSafe 0x406000 0x83FFFFC booted :=
  (vidmapSafe_iff (afterBoot_iff.1 booted_afterBoot).2.page 0x406000 0x83FFFFC).2 (by decide)

/-- A pointer to the byte behind the page is taken too. -/
theorem vidmap_behind_page : vidmapTargets 0x8400000 = [0x8400000, 0x8400001, 0x8400002, 0x8400003] ∧
    ¬ VidmapSafe 0x406000 0x8400000 booted :=
  ⟨by decide, not_vidmapSafe_of_last (by decide) (by decide) 0x406000⟩

end BigBrainOS
