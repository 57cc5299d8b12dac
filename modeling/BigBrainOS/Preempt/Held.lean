import BigBrainOS.Process.Tree

/-!
# The pids that calls hold

Each terminal has a list of the pids its calls hold. Between critical sections the
lists are the chains of the process tree; a launch puts a fresh pid in front, a
halt takes the halting one out, and the restart of a base shell does both. Either
way no pid is held twice.
-/

namespace BigBrainOS
set_option autoImplicit false

/-- The held pids without one of a terminal's. -/
def without (held : Term → List Int) (t : Term) (p : Int) : Term → List Int :=
  Function.update held t ((held t).erase p)

/-- The held pids with a new one on a terminal. -/
def withNew (held : Term → List Int) (t : Term) (n : Int) : Term → List Int := Function.update held t (n :: held t)

/-- No pid is held twice, by one terminal or by two. -/
structure HeldOnce (held : Term → List Int) : Prop where
  nodup : ∀ t, (held t).Nodup
  apart : ∀ t u p, p ∈ held t → p ∈ held u → t = u

/-- The lists of held pids are the chains of the tree. -/
structure Holding (F : Forest Term Int) (held : Term → List Int) : Prop where
  chain : ∀ t p, p ∈ held t ↔ p ∈ F.chain t
  nodup : ∀ t, (held t).Nodup

section Lists
variable {held : Term → List Int} {t u : Term} {p q n : Int}

theorem mem_withNew : q ∈ withNew held t n u ↔ (u = t ∧ q = n) ∨ q ∈ held u := by
  unfold withNew
  by_cases same : u = t
  · subst same; simp
  · simp [same]

theorem mem_without (nodup : ∀ t, (held t).Nodup) : q ∈ without held t p u ↔ ¬ (u = t ∧ q = p) ∧ q ∈ held u := by
  unfold without
  by_cases same : u = t
  · subst same; simp [(nodup u).mem_erase_iff]
  · simp [same]

theorem nodup_withNew (nodup : ∀ t, (held t).Nodup) (new : n ∉ held t) (u : Term) : (withNew held t n u).Nodup := by
  revert u
  apply (Function.forall_update_iff held fun _ l => l.Nodup).2
  exact ⟨List.nodup_cons.2 ⟨new, nodup t⟩, fun u _ => nodup u⟩

theorem nodup_without (nodup : ∀ t, (held t).Nodup) (p : Int) (u : Term) : (without held t p u).Nodup := by
  revert u
  apply (Function.forall_update_iff held fun _ l => l.Nodup).2
  exact ⟨(nodup t).erase p, fun u _ => nodup u⟩

/-- A pid that nobody holds can be handed out. -/
theorem HeldOnce.withNew (once : HeldOnce held) (free : ∀ u, n ∉ held u) (t : Term) : HeldOnce (withNew held t n) where
  nodup := nodup_withNew once.nodup (free t)
  apart u v p hu hv := by
    rw [mem_withNew] at hu hv
    rcases hu with ⟨rfl, rfl⟩ | hu <;> rcases hv with ⟨rfl, hv⟩ | hv
    · rfl
    · exact absurd hv (free v)
    · exact absurd (hv ▸ hu) (free u)
    · exact once.apart u v p hu hv

theorem HeldOnce.without (once : HeldOnce held) (t : Term) (p : Int) : HeldOnce (without held t p) where
  nodup := nodup_without once.nodup p
  apart u v q hu hv := once.apart u v q ((mem_without once.nodup).1 hu).2 ((mem_without once.nodup).1 hv).2

/-- The pid that a halt has released is not held. -/
theorem HeldOnce.released (once : HeldOnce held) (own : p ∈ held t) (u : Term) : p ∉ BigBrainOS.without held t p u := by
  intro member
  obtain ⟨other, member⟩ := (mem_without once.nodup).1 member
  exact other ⟨once.apart u t p member own, rfl⟩

end Lists

namespace Holding
variable {F : Forest Term Int} {held : Term → List Int} {t : Term} {n p : Int}

theorem once (holding : Holding F held) : HeldOnce held where
  nodup := holding.nodup
  apart t u p ht hu := F.chain_unique ((holding.chain t p).1 ht) ((holding.chain u p).1 hu)

/-- A pid outside the tree is not held. -/
theorem free (holding : Holding F held) (fresh : n ∉ F.live) (u : Term) : n ∉ held u :=
  fun member => fresh (F.mem_live ((holding.chain u n).1 member))

theorem cur_mem (holding : Holding F held) (t : Term) : F.cur t ∈ held t :=
  (holding.chain t _).2 (self_mem_ancestors _ _)

theorem push (holding : Holding F held) (fresh : n ∉ F.live) (t : Term) :
    Holding (F.push t n fresh) (withNew held t n) where
  chain u p := by
    have chain : (F.push t n fresh).chain u = if u = t then insert n (F.chain t) else F.chain u :=
      Forest.push_chain_at t fresh u
    rw [mem_withNew, chain, holding.chain]
    by_cases same : u = t
    · subst same; simp
    · simp [same]
  nodup := nodup_withNew holding.nodup (holding.free fresh t)

theorem pop (holding : Holding F held) (inner : F.cur t ≠ F.root t) :
    Holding (F.pop t inner) (without held t (F.cur t)) where
  chain u p := by
    have chain : (F.pop t inner).chain u = F.chain u \ {F.cur t} := Forest.pop_chain_at inner u
    rw [mem_without holding.nodup, chain, holding.chain]
    constructor
    · rintro ⟨other, member⟩
      refine ⟨member, fun same => other ⟨?_, same⟩⟩
      exact F.chain_unique member (same ▸ self_mem_ancestors _ _)
    · rintro ⟨member, other⟩
      exact ⟨fun same => other same.2, member⟩
  nodup := nodup_without holding.nodup _

theorem restart (holding : Holding F held) (t : Term) :
    Holding F (withNew (without held t (F.cur t)) t (F.cur t)) where
  chain u p := by
    rw [mem_withNew, mem_without holding.nodup, holding.chain]
    constructor
    · rintro (⟨rfl, rfl⟩ | ⟨-, member⟩)
      · exact self_mem_ancestors _ _
      · exact member
    · intro member
      by_cases same : u = t ∧ p = F.cur t
      · exact Or.inl same
      · exact Or.inr ⟨same, member⟩
  nodup := nodup_withNew (nodup_without holding.nodup _) (holding.once.released (holding.cur_mem t) t)

end Holding

end BigBrainOS
