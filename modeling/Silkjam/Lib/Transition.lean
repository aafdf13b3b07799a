import Mathlib.Data.List.Basic
import Mathlib.Tactic.Common

/-!
# Runs of a partial step function

A system is a function `step : σ → α → Option σ`: in state `s` the action `a` is either not enabled
or leads to one state. `Reach step ok s₀ s` says that some run leads from `s₀` to `s` and that `ok`
held of every step of it, at the state before the step. A safety property over all runs, or over the
runs whose steps all meet a condition, is then one induction (`Reach.invariant`), and a property of
what follows a given moment is a statement about `Reach` from the state of that moment.
-/

namespace Transition

variable {σ α : Type*} {step : σ → α → Option σ} {ok : σ → α → Prop} {P Q : σ → Prop}
  {s₀ s₁ s₂ s : σ}

inductive Reach (step : σ → α → Option σ) (ok : σ → α → Prop) (s₀ : σ) : σ → Prop where
  | refl : Reach step ok s₀ s₀
  | tail {s s' : σ} (a : α) :
      Reach step ok s₀ s → ok s a → step s a = some s' → Reach step ok s₀ s'

theorem Reach.trans (h₁ : Reach step ok s₀ s₁) (h₂ : Reach step ok s₁ s₂) :
    Reach step ok s₀ s₂ := by
  induction h₂ with
  | refl => exact h₁
  | tail a _ hok hstep ih => exact .tail a ih hok hstep

theorem Reach.single {a : α} (hok : ok s a) (hstep : step s a = some s₁) : Reach step ok s s₁ :=
  .tail a .refl hok hstep

/-- **The invariant rule**: what holds at the start and is kept by every allowed step holds of
every state reached. -/
theorem Reach.invariant (h : Reach step ok s₀ s) (hinit : P s₀)
    (hstep : ∀ s a s', P s → ok s a → step s a = some s' → P s') : P s := by
  induction h with
  | refl => exact hinit
  | tail a _ hok hs ih => exact hstep _ a _ ih hok hs

/-- The invariant rule relative to an invariant `Q` that is already known along the run. -/
theorem Reach.invariant_of (h : Reach step ok s₀ s) (hQ : ∀ s, Reach step ok s₀ s → Q s)
    (hinit : P s₀) (hstep : ∀ s a s', Q s → P s → ok s a → step s a = some s' → P s') : P s := by
  induction h with
  | refl => exact hinit
  | tail a hr hok hs ih => exact hstep _ a _ (hQ _ hr) ih hok hs

theorem Reach.mono {ok' : σ → α → Prop} (h : Reach step ok s₀ s)
    (himp : ∀ s a, ok s a → ok' s a) : Reach step ok' s₀ s := by
  induction h with
  | refl => exact .refl
  | tail a _ hok hs ih => exact .tail a ih (himp _ a hok) hs

/-- What held at the start and does not hold any more was ended by a step. -/
theorem Reach.crossing (h : Reach step ok s₀ s) (hinit : P s₀) (hend : ¬ P s) :
    ∃ s₁ a s₂, Reach step ok s₀ s₁ ∧ P s₁ ∧ ok s₁ a ∧ step s₁ a = some s₂ ∧ ¬ P s₂ ∧
      Reach step ok s₂ s := by
  induction h with
  | refl => exact absurd hinit hend
  | @tail s s' a hr hok hs ih =>
    by_cases hP : P s
    · exact ⟨s, a, s', hr, hP, hok, hs, hend, .refl⟩
    · obtain ⟨s₁, b, s₂, h₁, hP₁, hb, hs₁, hP₂, h₂⟩ := ih hP
      exact ⟨s₁, b, s₂, h₁, hP₁, hb, hs₁, hP₂, .tail a h₂ hok hs⟩

/-- The run of a list of actions, if each is enabled and allowed. -/
def runIn (step : σ → α → Option σ) (ok : σ → α → Prop) [∀ s a, Decidable (ok s a)] (s₀ : σ)
    (as : List α) : Option σ :=
  as.foldlM (fun s a => if ok s a then step s a else none) s₀

theorem Reach.of_runIn [∀ s a, Decidable (ok s a)] (as : List α)
    (h : runIn step ok s₀ as = some s) : Reach step ok s₀ s := by
  induction as generalizing s₀ with
  | nil => cases h; exact .refl
  | cons a as ih =>
    rw [runIn, List.foldlM_cons, Option.bind_eq_bind, Option.bind_eq_some_iff] at h
    obtain ⟨s₁, hstep, hrun⟩ := h
    split at hstep
    · next hok => exact (Reach.single hok hstep).trans (ih hrun)
    · cases hstep

theorem Reach.exists_of_runIn (step : σ → α → Option σ) (ok : σ → α → Prop)
    [∀ s a, Decidable (ok s a)] (s₀ : σ) (as : List α) {p : σ → Prop} [DecidablePred p]
    (h : (runIn step ok s₀ as).any (fun s => decide (p s)) = true) :
    ∃ s, Reach step ok s₀ s ∧ p s := by
  obtain ⟨s, hs, hp⟩ := (Option.any_eq_true ..).1 h
  exact ⟨s, .of_runIn as hs, of_decide_eq_true hp⟩

end Transition
