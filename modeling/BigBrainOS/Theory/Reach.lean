/-!
# Guarded transition systems and their runs

A `TransitionSystem` is a deterministic step function with a guard: `ok s a` says that
action `a` can be taken in state `s`, and `next s a` is where it leads. `Reach`
is the set of states a run can visit. Every safety result of the development is
an instance of `Reach.invariant`: an invariant of the initial states that each
allowed step preserves.
-/

section
set_option autoImplicit false

/-- A deterministic transition system whose actions are guarded. -/
structure TransitionSystem (σ α : Type) where
  ok : σ → α → Prop
  next : σ → α → σ

namespace TransitionSystem

variable {σ α : Type} {M : TransitionSystem σ α} {start : σ → Prop}

/-- The states visited by the runs that begin in `start`. -/
inductive Reach (M : TransitionSystem σ α) (start : σ → Prop) : σ → Prop where
  | base {s : σ} : start s → Reach M start s
  | step {s : σ} (a : α) : Reach M start s → M.ok s a → Reach M start (M.next s a)

/-- A step to a state that is known. -/
theorem Reach.step_to {s s' : σ} (h : Reach M start s) (a : α) (ok : M.ok s a) (next : M.next s a = s') :
    Reach M start s' :=
  next ▸ h.step a ok

/-- Run a list of actions, without looking at the guards. -/
def exec (M : TransitionSystem σ α) (s : σ) (as : List α) : σ :=
  as.foldl M.next s

/-- The guards of a list of actions, each in the state where it is taken. -/
def Allowed (M : TransitionSystem σ α) : σ → List α → Prop
  | _, [] => True
  | s, a :: as => M.ok s a ∧ Allowed M (M.next s a) as

@[simp] theorem exec_nil (s : σ) : M.exec s [] = s := rfl

@[simp] theorem exec_cons (s : σ) (a : α) (as : List α) : M.exec s (a :: as) = M.exec (M.next s a) as := rfl

/-- A listed run with its guards visits reachable states only. -/
theorem Reach.exec {s : σ} (h : Reach M start s) : ∀ {as : List α}, M.Allowed s as → Reach M start (M.exec s as)
  | [], _ => h
  | a :: _, allowed => Reach.exec (h.step a allowed.1) allowed.2

/-- **The invariant rule.** What holds at the start and survives each allowed
step holds in every reachable state. -/
theorem Reach.invariant {P : σ → Prop} (init : ∀ s, start s → P s)
    (step : ∀ s a, P s → M.ok s a → P (M.next s a)) {s : σ} (h : Reach M start s) : P s := by
  induction h with
  | base hs => exact init _ hs
  | step a _ ok ih => exact step _ a ih ok

/-- **The simulation rule.** A relation to a second machine that each allowed
step preserves holds after every run of both on the same actions. -/
theorem exec_related {τ : Type} {step : τ → α → τ} {R : σ → τ → Prop}
    (preserve : ∀ s d a, R s d → M.ok s a → R (M.next s a) (step d a)) {as : List α} {s : σ} {d : τ} (related : R s d)
    (allowed : M.Allowed s as) : R (M.exec s as) (as.foldl step d) := by
  induction as generalizing s d with
  | nil => exact related
  | cons a as ih => exact ih (preserve s d a related allowed.1) allowed.2

/-- Restrict a system to the steps that also meet `also`. -/
def restrict (M : TransitionSystem σ α) (also : σ → α → Prop) : TransitionSystem σ α where
  ok s a := M.ok s a ∧ also s a
  next := M.next

/-- A run of the restricted system is a run of the system. -/
theorem Reach.of_restrict {also : σ → α → Prop} {s : σ} (h : Reach (M.restrict also) start s) : Reach M start s := by
  induction h with
  | base hs => exact .base hs
  | step a _ ok ih => exact ih.step a ok.1

/-- A weaker restriction has more runs. -/
theorem Reach.weaken {P Q : σ → α → Prop} (weaker : ∀ s a, P s a → Q s a) {s : σ} (h : Reach (M.restrict P) start s) :
    Reach (M.restrict Q) start s := by
  induction h with
  | base hs => exact .base hs
  | step a _ ok ih => exact ih.step a ⟨ok.1, weaker _ a ok.2⟩

end TransitionSystem

end
