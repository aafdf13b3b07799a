import Mathlib.Logic.Relation
import Mathlib.Tactic.Common

/-!
# Loops that end

A loop whose body either goes round again with a new state or leaves with a result, and goes round
only with a smaller state. The states it visits carry its proofs: an invariant of the visited states
holds where the loop leaves (`Body.run_spec`), and the loop may be entered at any state it visits
(`Body.run_eq_of_visits`).
-/

namespace Loop

variable {σ α : Type*}

inductive Turn (σ α : Type*) where
  | again (s : σ)
  | leave (a : α)

structure Body (σ α : Type*) where
  turn : σ → Turn σ α
  size : σ → Nat
  size_lt : ∀ {s s'}, turn s = .again s' → size s' < size s

namespace Body

def run (body : Body σ α) (s : σ) : α :=
  match _h : body.turn s with
  | .again s' => body.run s'
  | .leave a => a
termination_by body.size s
decreasing_by exact body.size_lt _h

variable (body : Body σ α) {P : σ → Prop} {Q : α → Prop} {s s' : σ} {a : α}

theorem run_of_again (h : body.turn s = .again s') : body.run s = body.run s' := by
  rw [run]
  split
  · next h' =>
    rw [h] at h'
    cases h'
    rfl
  · next h' =>
    rw [h] at h'
    cases h'

theorem run_of_leave (h : body.turn s = .leave a) : body.run s = a := by
  rw [run]
  split
  · next h' =>
    rw [h] at h'
    cases h'
  · next h' =>
    rw [h] at h'
    cases h'
    rfl

/-- The loop entered at `s` comes to `s'`. -/
def Visits : σ → σ → Prop :=
  Relation.ReflTransGen fun s s' => body.turn s = .again s'

variable {body}

theorem Visits.refl : body.Visits s s :=
  Relation.ReflTransGen.refl

theorem Visits.head {s₁ : σ} (h : body.turn s = .again s₁) (hv : body.Visits s₁ s') :
    body.Visits s s' :=
  Relation.ReflTransGen.head h hv

/-- An invariant, relative to what is known of all the states visited. -/
theorem Visits.invariant (h : body.Visits s s') (hs : P s)
    (hagain : ∀ s₁ s₂, body.Visits s s₁ → P s₁ → body.turn s₁ = .again s₂ → P s₂) : P s' := by
  induction h with
  | refl => exact hs
  | tail hv hturn ih => exact hagain _ _ hv ih hturn

theorem run_eq_of_visits (h : body.Visits s s') : body.run s = body.run s' := by
  induction h with
  | refl => rfl
  | tail _ hturn ih => exact ih.trans (body.run_of_again hturn)

variable (body) in
theorem exists_leave (s : σ) : ∃ s', body.Visits s s' ∧ body.turn s' = .leave (body.run s) := by
  induction hn : body.size s using Nat.strongRecOn generalizing s with
  | _ n ih =>
    cases hturn : body.turn s with
    | again s₁ =>
      obtain ⟨s', hv, hleave⟩ := ih (body.size s₁) (hn ▸ body.size_lt hturn) s₁ rfl
      exact ⟨s', .head hturn hv, by rw [body.run_of_again hturn, hleave]⟩
    | leave a => exact ⟨s, .refl, by rw [body.run_of_leave hturn, hturn]⟩

variable (body) in
/-- **The loop rule**: an invariant of the states visited and what it gives where the loop
leaves. -/
theorem run_spec (hs : P s)
    (hagain : ∀ s₁ s₂, body.Visits s s₁ → P s₁ → body.turn s₁ = .again s₂ → P s₂)
    (hleave : ∀ s₁ a, body.Visits s s₁ → P s₁ → body.turn s₁ = .leave a → Q a) :
    Q (body.run s) := by
  obtain ⟨s', hv, hturn⟩ := body.exists_leave s
  exact hleave s' _ hv (hv.invariant hs hagain) hturn

end Body

end Loop
