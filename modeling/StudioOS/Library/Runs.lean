import Mathlib.Logic.Function.Basic

/-!
# Runs — finite runs of a partial step function

A transition system is a function `step : σ → α → Option σ`: the action `a` is
enabled in `s` exactly when `step s a` is a state.
-/

namespace Runs

variable {σ α : Type*} {step : σ → α → Option σ} {G : σ → α → Prop} {s t : σ} {as : List α}

/-- `Run step G s as t`: the actions `as`, each enabled and each taken
in a state where it meets `G`, lead from `s` to `t`. -/
inductive Run (step : σ → α → Option σ) (G : σ → α → Prop) : σ → List α → σ → Prop where
  | nil (s : σ) : Run step G s [] s
  | cons {s t u a as} (guard : G s a) (fires : step s a = some t)
      (rest : Run step G t as u) : Run step G s (a :: as) u

/-- The guard that forbids nothing. -/
def Free : σ → α → Prop := fun _ _ => True

instance (s : σ) (a : α) : Decidable (Free s a) := .isTrue trivial

/-- **The invariant rule**: what every guarded step keeps, every guarded
run keeps. -/
theorem Run.invariant {I : σ → Prop} (hstep : ∀ {s a t}, I s → G s a → step s a = some t → I t)
    {s t : σ} {as : List α} (h : Run step G s as t) (hs : I s) : I t := by
  induction h with
  | nil s => exact hs
  | cons guard fires _ ih => exact ih (hstep hs guard fires)

theorem Run.of_forall {H : σ → α → Prop} (h : Run step G s as t)
    (hall : ∀ a ∈ as, ∀ s, H s a) : Run step H s as t := by
  induction h with
  | nil s => exact .nil s
  | cons _ fires _ ih =>
    refine .cons (hall _ (.head _) _) fires (ih ?_)
    intro a ha
    exact hall a (.tail _ ha)

/-- Runs a concrete list of actions, checking the guard at every step. -/
def execWithin (step : σ → α → Option σ) (G : σ → α → Prop) [∀ s a, Decidable (G s a)] :
    σ → List α → Option σ
  | s, [] => some s
  | s, a :: as => if G s a then (step s a).bind (execWithin step G · as) else none

theorem Run.of_execWithin [∀ s a, Decidable (G s a)]
    (h : execWithin step G s as = some t) : Run step G s as t := by
  induction as generalizing s with
  | nil =>
    cases h
    exact .nil _
  | cons a as ih =>
    simp only [execWithin] at h
    split at h
    · rename_i guard
      obtain ⟨u, fires, hu⟩ := Option.bind_eq_some_iff.mp h
      exact .cons guard fires (ih hu)
    · cases h

theorem Run.of_any [∀ s a, Decidable (G s a)] {p : σ → Bool}
    (h : (execWithin step G s as).any p = true) : ∃ t, Run step G s as t ∧ p t = true := by
  obtain ⟨t, ht, hp⟩ := (Option.any_eq_true _ _).mp h
  exact ⟨t, .of_execWithin ht, hp⟩

theorem Run.of_isSome_execWithin [∀ s a, Decidable (G s a)] {d : σ}
    (h : (execWithin step G s as).isSome = true) :
    Run step G s as ((execWithin step G s as).getD d) := by
  obtain ⟨t, ht⟩ := Option.isSome_iff_exists.mp h
  rw [ht]
  exact .of_execWithin ht

theorem Run.execWithin_eq [∀ s a, Decidable (G s a)]
    (h : Run step G s as t) : execWithin step G s as = some t := by
  induction h with
  | nil s => rfl
  | cons guard fires _ ih => rw [execWithin, if_pos guard, fires, Option.bind_some, ih]

end Runs
