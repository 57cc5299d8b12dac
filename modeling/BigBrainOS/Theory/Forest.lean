import Mathlib

/-!
# Forests of parent pointers

A family of trees is given by a parent function: every root is its own parent,
and each index `i` of the family has a current leaf `cur i` whose ancestors end
in `root i`. `Forest` bundles such a family with the proofs that the ancestor
chains are pairwise apart and cover exactly the live nodes, so that a forest
with a shared or a leaked node cannot be built. `push` hangs a fresh leaf under
a current leaf, `pop` removes a current leaf that is not a root.
-/

section
set_option autoImplicit false

variable {ι α : Type}

/-- The nodes met when the parent function is followed from `a`. -/
def ancestors (par : α → α) (a : α) : Set α :=
  {b | ∃ n, par^[n] a = b}

theorem self_mem_ancestors (par : α → α) (a : α) : a ∈ ancestors par a := ⟨0, rfl⟩

theorem ancestors_eq_insert (par : α → α) (a : α) : ancestors par a = insert a (ancestors par (par a)) := by
  ext b
  constructor
  · rintro ⟨n, hn⟩
    cases n with
    | zero => exact Or.inl hn.symm
    | succ n => exact Or.inr ⟨n, hn⟩
  · rintro (rfl | ⟨n, hn⟩)
    · exact self_mem_ancestors par b
    · exact ⟨n + 1, hn⟩

/-- The ancestors of a node depend only on the parents of its ancestors. -/
theorem ancestors_congr {par par' : α → α} {a : α} (agree : ∀ b ∈ ancestors par a, par' b = par b) :
    ancestors par' a = ancestors par a := by
  have same : ∀ n, par'^[n] a = par^[n] a := by
    intro n
    induction n with
    | zero => rfl
    | succ n ih =>
      rw [Function.iterate_succ_apply', Function.iterate_succ_apply', ih]
      exact agree _ ⟨n, rfl⟩
  ext b
  simp only [ancestors, Set.mem_ofPred_eq, same]

theorem ancestors_root {par : α → α} {r : α} (fixed : par r = r) : ancestors par r = {r} := by
  ext b
  constructor
  · rintro ⟨n, rfl⟩
    exact Function.iterate_fixed fixed n
  · rintro rfl
    exact self_mem_ancestors par b

/-- A node above which a root lies is not among the ancestors of its parent,
unless it is that root: a cycle through it would never reach the root. -/
theorem not_mem_ancestors_par {par : α → α} {a r : α} (fixed : par r = r) (above : r ∈ ancestors par a)
    (other : a ≠ r) : a ∉ ancestors par (par a) := by
  rintro ⟨m, cycle⟩
  obtain ⟨n, reach⟩ := above
  have turn : par^[m + 1] a = a := by rw [Function.iterate_succ_apply]; exact cycle
  have around : ∀ k, par^[(m + 1) * k] a = a := by
    intro k
    rw [Function.iterate_mul]
    exact Function.iterate_fixed turn k
  have beyond : par^[(m + 1) * n] a = r := by
    rw [Nat.succ_mul, Function.iterate_add_apply, reach]
    exact Function.iterate_fixed fixed _
  exact other ((around n).symm.trans beyond)

/-- Trees of parent pointers with one current leaf each: no node is shared by
two chains and none of the live nodes is outside them. -/
structure Forest (ι α : Type) where
  par : α → α
  cur : ι → α
  root : ι → α
  live : Set α
  fixed : ∀ i, par (root i) = root i
  rooted : ∀ i, root i ∈ ancestors par (cur i)
  apart : ∀ i j, i ≠ j → Disjoint (ancestors par (cur i)) (ancestors par (cur j))
  cover : ⋃ i, ancestors par (cur i) = live

namespace Forest

variable (F : Forest ι α)

/-- The chain of an index: its current leaf and everything above it. -/
def chain (i : ι) : Set α := ancestors F.par (F.cur i)

theorem mem_live {i : ι} {a : α} (h : a ∈ F.chain i) : a ∈ F.live := by
  rw [← F.cover]
  exact Set.mem_iUnion.2 ⟨i, h⟩

theorem exists_chain {a : α} (h : a ∈ F.live) : ∃ i, a ∈ F.chain i := by
  rw [← F.cover] at h
  exact Set.mem_iUnion.1 h

theorem cur_live (i : ι) : F.cur i ∈ F.live := F.mem_live (self_mem_ancestors _ _)

theorem root_live (i : ι) : F.root i ∈ F.live := F.mem_live (F.rooted i)

theorem chain_unique {i j : ι} {a : α} (hi : a ∈ F.chain i) (hj : a ∈ F.chain j) : i = j := by
  by_contra different
  exact Set.disjoint_left.1 (F.apart i j different) hi hj

theorem par_mem_chain {i : ι} {a : α} (h : a ∈ F.chain i) : F.par a ∈ F.chain i := by
  obtain ⟨n, rfl⟩ := h
  exact ⟨n + 1, Function.iterate_succ_apply' _ _ _⟩

theorem par_live {a : α} (h : a ∈ F.live) : F.par a ∈ F.live := by
  obtain ⟨i, hi⟩ := F.exists_chain h
  exact F.mem_live (F.par_mem_chain hi)

theorem cur_inj {i j : ι} (h : F.cur i = F.cur j) : i = j :=
  F.chain_unique (self_mem_ancestors _ _) (h ▸ self_mem_ancestors F.par (F.cur j))

/-- A root is on its own chain only. -/
theorem root_chain {i j : ι} (h : F.root j ∈ F.chain i) : i = j := F.chain_unique h (F.rooted j)

section Push

variable {F} [DecidableEq α] {n : α}

theorem push_chain (i : ι) (fresh : n ∉ F.live) (j : ι) :
    ancestors (Function.update F.par n (F.cur i)) (F.cur j) = F.chain j := by
  apply ancestors_congr
  intro b hb
  have known : b ≠ n := fun e => fresh (e ▸ F.mem_live hb)
  exact Function.update_of_ne known _ _

theorem push_chain_new (i : ι) (fresh : n ∉ F.live) :
    ancestors (Function.update F.par n (F.cur i)) n = insert n (F.chain i) := by
  rw [ancestors_eq_insert, Function.update_self, push_chain i fresh i]

variable [DecidableEq ι]

theorem push_chain_at (i : ι) (fresh : n ∉ F.live) (j : ι) :
    ancestors (Function.update F.par n (F.cur i)) (Function.update F.cur i n j) =
      if j = i then insert n (F.chain i) else F.chain j := by
  by_cases h : j = i
  · subst h
    rw [Function.update_self, if_pos rfl, push_chain_new j fresh]
  · rw [Function.update_of_ne h, if_neg h, push_chain i fresh j]

variable (F)

/-- Hang the fresh node `n` under the current leaf of `i` and make it current. -/
def push (i : ι) (n : α) (fresh : n ∉ F.live) : Forest ι α where
  par := Function.update F.par n (F.cur i)
  cur := Function.update F.cur i n
  root := F.root
  live := insert n F.live
  fixed j := by
    have known : F.root j ≠ n := fun e => fresh (e ▸ F.root_live j)
    rw [Function.update_of_ne known]
    exact F.fixed j
  rooted j := by
    rw [push_chain_at i fresh]
    split
    · next h => exact Set.mem_insert_of_mem _ (h ▸ F.rooted j)
    · exact F.rooted j
  apart j k different := by
    have outside : ∀ l, n ∉ F.chain l := fun l h => fresh (F.mem_live h)
    rw [push_chain_at i fresh, push_chain_at i fresh]
    split <;> split
    · next hj hk => exact absurd (hj.trans hk.symm) different
    · next hj _ => exact Set.disjoint_insert_left.2 ⟨outside k, F.apart i k (hj ▸ different)⟩
    · next _ hk => exact Set.disjoint_insert_right.2 ⟨outside j, F.apart j i (hk ▸ different)⟩
    · exact F.apart j k different
  cover := by
    ext a
    simp only [push_chain_at i fresh, Set.mem_iUnion, Set.mem_insert_iff]
    constructor
    · rintro ⟨j, hj⟩
      split at hj
      · exact hj.imp_right F.mem_live
      · exact Or.inr (F.mem_live hj)
    · rintro (rfl | ha)
      · exact ⟨i, by rw [if_pos rfl]; exact Set.mem_insert _ _⟩
      · obtain ⟨j, hj⟩ := F.exists_chain ha
        refine ⟨j, ?_⟩
        split
        · next h => exact Or.inr (h ▸ hj)
        · exact hj

theorem push_par_self (i : ι) (fresh : n ∉ F.live) : (F.push i n fresh).par n = F.cur i := Function.update_self _ _ _

theorem push_par_of_ne (i : ι) (fresh : n ∉ F.live) {a : α} (other : a ≠ n) : (F.push i n fresh).par a = F.par a :=
  Function.update_of_ne other _ _

end Push

section Pop

variable {F} {i : ι}

theorem cur_not_mem_par (inner : F.cur i ≠ F.root i) : F.cur i ∉ ancestors F.par (F.par (F.cur i)) :=
  not_mem_ancestors_par (F.fixed i) (F.rooted i) inner

theorem chain_eq_insert (i : ι) : F.chain i = insert (F.cur i) (ancestors F.par (F.par (F.cur i))) :=
  ancestors_eq_insert _ _

variable [DecidableEq ι]

theorem pop_chain_at (inner : F.cur i ≠ F.root i) (j : ι) :
    ancestors F.par (Function.update F.cur i (F.par (F.cur i)) j) = F.chain j \ {F.cur i} := by
  by_cases h : j = i
  · subst h
    rw [Function.update_self, chain_eq_insert j, Set.insert_sdiff_self_of_notMem (cur_not_mem_par inner)]
  · rw [Function.update_of_ne h]
    refine (Set.sdiff_singleton_eq_self fun mem => h ?_).symm
    exact F.chain_unique mem (self_mem_ancestors _ _)

variable (F)

/-- Remove the current leaf of `i`, which is not a root; its parent becomes current. -/
def pop (i : ι) (inner : F.cur i ≠ F.root i) : Forest ι α where
  par := F.par
  cur := Function.update F.cur i (F.par (F.cur i))
  root := F.root
  live := F.live \ {F.cur i}
  fixed := F.fixed
  rooted j := by
    rw [pop_chain_at inner]
    refine ⟨F.rooted j, fun e => inner ?_⟩
    have same : i = j := F.root_chain (e ▸ self_mem_ancestors F.par (F.cur i) : F.root j ∈ F.chain i)
    exact (same ▸ e : F.root i = F.cur i).symm
  apart j k different := by
    rw [pop_chain_at inner, pop_chain_at inner]
    exact (F.apart j k different).mono Set.sdiff_subset Set.sdiff_subset
  cover := by
    simp only [pop_chain_at inner]
    rw [← Set.iUnion_sdiff]
    exact congrArg (· \ {F.cur i}) F.cover

end Pop

end Forest

end
