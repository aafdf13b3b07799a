import Mathlib.Tactic.Common

/-!
# Computations that may fail

A computation `EStateM ε σ α` reads and writes a state and may raise; what it wrote before it raised
stays written. `Keeps R x` says that `x` leaves a state related to the one it found, whether it
returns or raises. For a relation that is reflexive and transitive this follows the structure of `x`:
a step that fails ends the computation, so every prefix of the steps is a possible whole run.
-/

namespace Failing

variable {ε σ α β : Type} {R : σ → σ → Prop}

/-- The state that `x` leaves, however it ends. -/
def after (x : EStateM ε σ α) (s : σ) : σ :=
  match x.run s with
  | .ok _ s' | .error _ s' => s'

def Keeps (R : σ → σ → Prop) (x : EStateM ε σ α) : Prop :=
  ∀ s, R s (after x s)

theorem Keeps.ok {x : EStateM ε σ α} {s s' : σ} {a : α} (h : Keeps R x)
    (hrun : x.run s = .ok a s') : R s s' := by
  have hkept := h s
  rwa [after, hrun] at hkept

theorem Keeps.error {x : EStateM ε σ α} {s s' : σ} {e : ε} (h : Keeps R x)
    (hrun : x.run s = .error e s') : R s s' := by
  have hkept := h s
  rwa [after, hrun] at hkept

theorem keeps_pure (hrefl : ∀ s, R s s) (a : α) : Keeps R (pure a : EStateM ε σ α) :=
  fun s => hrefl s

theorem keeps_throw (hrefl : ∀ s, R s s) (e : ε) : Keeps R (throw e : EStateM ε σ α) :=
  fun s => hrefl s

theorem keeps_modify {f : σ → σ} (hf : ∀ s, R s (f s)) :
    Keeps R (modify f : EStateM ε σ PUnit) :=
  fun s => hf s

theorem keeps_bind (htrans : ∀ s₁ s₂ s₃, R s₁ s₂ → R s₂ s₃ → R s₁ s₃) {x : EStateM ε σ α}
    {f : α → EStateM ε σ β} (hx : Keeps R x) (hf : ∀ a, Keeps R (f a)) : Keeps R (x >>= f) := by
  intro s
  have hfirst := hx s
  unfold after at hfirst ⊢
  show R s (match EStateM.bind x f s with | .ok _ s' | .error _ s' => s')
  unfold EStateM.bind
  unfold EStateM.run at hfirst
  cases hrun : x s with
  | error e s' =>
    rw [hrun] at hfirst
    exact hfirst
  | ok a s' =>
    rw [hrun] at hfirst
    exact htrans _ _ _ hfirst (hf a s')

/-! ### What is raised -/

/-- What `x` raises has the property `Q`. -/
def Raises (Q : ε → Prop) (x : EStateM ε σ α) : Prop :=
  ∀ s e s', x.run s = .error e s' → Q e

variable {Q : ε → Prop}

theorem raises_pure (a : α) : Raises Q (pure a : EStateM ε σ α) := by
  rintro s e s' ⟨⟩

theorem raises_throw {e : ε} (he : Q e) : Raises Q (throw e : EStateM ε σ α) := by
  rintro s e s' ⟨⟩
  exact he

theorem raises_modify (f : σ → σ) : Raises Q (modify f : EStateM ε σ PUnit) := by
  rintro s e s' ⟨⟩

theorem raises_bind {x : EStateM ε σ α} {f : α → EStateM ε σ β} (hx : Raises Q x)
    (hf : ∀ a, Raises Q (f a)) : Raises Q (x >>= f) := by
  intro s e s' hrun
  replace hrun : EStateM.bind x f s = .error e s' := hrun
  unfold EStateM.bind at hrun
  cases hfirst : x s with
  | error e₁ s₁ =>
    rw [hfirst] at hrun
    cases hrun
    exact hx s _ _ hfirst
  | ok a s₁ =>
    rw [hfirst] at hrun
    exact hf a s₁ e s' hrun

end Failing
