/-!
# Transition systems

A system is given by its initial states and a partial step function. `Reach p` is the set of states
a system reaches by steps that all meet the condition `p`, a condition on the state before the step
and the action. `Reach.invariant` is the induction over such a run.
-/

namespace HeadlessErp

/-- A transition system: where it may start, and the state after an action, where the action is
enabled. -/
structure System (σ α : Type) where
  init : σ → Prop
  step : σ → α → Option σ

namespace System
variable {σ α : Type} {S : System σ α} {p q : σ → α → Prop} {I : σ → Prop} {s : σ}

/-- The states of the runs whose steps all meet a condition. -/
inductive Reach (S : System σ α) (p : σ → α → Prop) : σ → Prop where
  | init {s : σ} : S.init s → Reach S p s
  | step {s s' : σ} {a : α} : Reach S p s → p s a → S.step s a = some s' → Reach S p s'

/-- The states of all runs. -/
abbrev Reachable (S : System σ α) : σ → Prop := S.Reach fun _ _ => True

/-- The state after a list of actions. -/
def run (S : System σ α) : σ → List α → Option σ
  | s, [] => some s
  | s, a :: as => (S.step s a).bind fun s => run S s as

/-- The state a list of actions leads to is reachable. -/
theorem Reach.run {s' : σ} (h : S.Reachable s) {as : List α} (hrun : S.run s as = some s') :
    S.Reachable s' := by
  induction as generalizing s with
  | nil =>
    cases hrun
    exact h
  | cons a as ih =>
    obtain ⟨t, ht, hrest⟩ := Option.bind_eq_some_iff.1 hrun
    exact ih (h.step trivial ht) hrest

/-- What holds at the start, and is preserved by the steps that meet the condition, holds in every
state of such a run. -/
theorem Reach.invariant (h : S.Reach p s) (init : ∀ s, S.init s → I s)
    (step : ∀ s a s', I s → p s a → S.step s a = some s' → I s') : I s := by
  induction h with
  | init hs => exact init _ hs
  | step _ hp hstep ih => exact step _ _ _ ih hp hstep

/-- A run whose steps meet a condition meets a weaker one. -/
theorem Reach.mono (h : S.Reach p s) (hpq : ∀ s a, p s a → q s a) : S.Reach q s := by
  induction h with
  | init hs => exact .init hs
  | step _ hp hstep ih => exact ih.step (hpq _ _ hp) hstep

end System

end HeadlessErp
