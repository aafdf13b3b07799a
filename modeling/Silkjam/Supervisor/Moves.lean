import Silkjam.Supervisor.Machine
import Mathlib.Logic.Relation

/-!
# The public calls as moves

`Moves ok v v'` is a sequence of moves with labels in `ok`. Each public call leaves the views of all
units but its own as they are, and takes that one along moves of its own label.
-/

namespace Silkjam.Supervisor

variable {U : Type} [DecidableEq U]

/-- A sequence of moves with labels in `ok`. -/
def Moves (ok : Label → Prop) : View U → View U → Prop :=
  Relation.ReflTransGen fun v v' => ∃ l, ok l ∧ Move l v v'

section Moves
variable {ok ok' : Label → Prop} {v v' v'' : View U}

omit [DecidableEq U]

theorem Moves.refl (v : View U) : Moves ok v v := Relation.ReflTransGen.refl

theorem Moves.of_eq (h : v' = v) : Moves ok v v' := by
  rw [h]; exact .refl v

theorem Moves.single {l : Label} (hl : ok l) (h : Move l v v') : Moves ok v v' :=
  Relation.ReflTransGen.single ⟨l, hl, h⟩

theorem Moves.trans (h : Moves ok v v') (h' : Moves ok v' v'') : Moves ok v v'' :=
  Relation.ReflTransGen.trans h h'

theorem Moves.mono (himp : ∀ l, ok l → ok' l) (h : Moves ok v v') : Moves ok' v v' :=
  Relation.ReflTransGen.mono (fun _ _ ⟨l, hl, hm⟩ => ⟨l, himp l hl, hm⟩) _ _ h

theorem Moves.invariant {P : View U → Prop} (h : Moves ok v v') (hv : P v)
    (hstep : ∀ l v v', ok l → P v → Move l v v' → P v') : P v' := by
  induction h with
  | refl => exact hv
  | tail _ hm ih =>
    obtain ⟨l, hl, hm⟩ := hm
    exact hstep l _ _ hl ih hm

theorem Moves.placed (h : Moves ok v v') (hp : Placed v) (hok : ¬ ok .remove) : Placed v' :=
  h.invariant hp fun _ _ _ hl hp hm => hm.placed hp fun he => absurd (he ▸ hl) hok

end Moves

/-! ### Public calls -/

theorem startUnitNowait_view_ne (s : Supervisor U) {u w : U} (h : w ≠ u) :
    (s.startUnitNowait w).1.view u = s.view u := by
  have hreq : (s.requestStart w).view u = s.view u := by
    unfold requestStart
    split
    · rfl
    · rw [view_modify_ne _ _ h, view_put_ne _ _ h]
  unfold startUnitNowait
  split
  · rfl
  · split
    · rw [view_modify_ne _ _ h, hreq]
    · rw [view_modify_ne _ _ h, hreq]
    · rfl
    · rfl
    · rfl

theorem requestStart_ref (s : Supervisor U) (u : U) : (s.requestStart u).ref u = s.ref u := by
  unfold requestStart
  split <;> rfl

/-- `start_unit_nowait`, called by a coroutine or, for a unit to be restarted, by the loop. -/
theorem startUnitNowait_moves (s : Supervisor U) (u : U) {l : Label}
    (hl : l = .start ∨ l = .restart ∧ (s.state u).restart ∧ (s.state u).status = .ready ∧
      (s.state u).pendingStart = false) :
    Moves (· = l) (s.view u) ((s.startUnitNowait u).1.view u) := by
  unfold startUnitNowait
  split
  · exact .refl _
  · next hno =>
    rw [not_or, not_not, Bool.not_eq_true] at hno
    obtain ⟨hreg, hstop⟩ := hno
    have hoff (hoff : (s.state u).status.isOff) : Moves (· = l) (s.view u)
        (((s.requestStart u).modify (s.ref u) fun st => { st with status := .ready }).view u) := by
      rw [view_modify_self _ _ (s.requestStart_ref u).symm]
      unfold requestStart
      split
      · next hps =>
        rcases hl with rfl | ⟨-, -, -, hn⟩
        · exact .single rfl (.markReady hreg hstop hoff hps)
        · rw [hps] at hn; cases hn
      · next hps =>
        rw [Bool.not_eq_true] at hps
        rw [view_modify_self (r := s.ref u) (s.put .start u) _ rfl, view_put_start]
        exact .single rfl (.queueStart (hl.imp_right fun h => ⟨h.1, h.2.1, h.2.2.1⟩) hreg hstop
          hoff hps)
    split
    · next hst => exact hoff (by rw [hst]; rfl)
    · next hst => exact hoff (by rw [hst]; rfl)
    all_goals exact .refl _

theorem requestStop_view_ne (s : Supervisor U) {u w : U} (force : Bool) (h : w ≠ u) :
    (s.requestStop w force).view u = s.view u := by
  unfold requestStop
  split
  · rfl
  · rw [view_modify_ne _ _ h, view_put_ne _ _ h]

theorem requestStop_moves (s : Supervisor U) (u : U) (force : Bool) (hreg : u ∈ s.units)
    (hst : (s.state u).status.isOff ∧ (s.state u).pendingStart ∨ (s.state u).status = .entering ∨
      (s.state u).status = .running) :
    Moves (· = .stop) (s.view u) ((s.requestStop u force).view u) := by
  unfold requestStop
  split
  · exact .refl _
  · next hno =>
    rw [Bool.not_eq_true] at hno
    rw [view_modify_self (r := s.ref u) (s.put .stop u) _ rfl, view_put_stop]
    exact .single rfl (.queueStop force hreg hno hst)

theorem stopUnitNowait_view_ne (s : Supervisor U) {u w : U} (force : Bool) (h : w ≠ u) :
    (s.stopUnitNowait w force).1.view u = s.view u := by
  unfold stopUnitNowait
  split
  · rfl
  · split
    · split
      · exact requestStop_view_ne s force h
      · exact view_modify_ne s _ h
    · split
      · exact requestStop_view_ne s force h
      · exact view_modify_ne s _ h
    · exact requestStop_view_ne s force h
    · exact requestStop_view_ne s force h
    · exact view_modify_ne s _ h

theorem stopUnitNowait_moves (s : Supervisor U) (u : U) (force : Bool) :
    Moves (· = .stop) (s.view u) ((s.stopUnitNowait u force).1.view u) := by
  unfold stopUnitNowait
  split
  · exact .refl _
  · next hreg =>
    rw [not_not] at hreg
    have hoff (hoff : (s.state u).status.isOff) :
        Moves (· = .stop) (s.view u)
          ((if (s.state u).pendingStart then (s.requestStop u force, true)
            else (s.modify (s.ref u) fun st => { st with status := .stopped }, true)).1.view u) := by
      split
      · next hps => exact requestStop_moves s u force hreg (.inl ⟨hoff, hps⟩)
      · next hps =>
        rw [Bool.not_eq_true] at hps
        rw [view_modify_self _ _ rfl]
        exact .single rfl (.markStopped hreg hoff hps)
    split
    · next hst => exact hoff (by rw [hst]; rfl)
    · next hst => exact hoff (by rw [hst]; rfl)
    · next hst => exact requestStop_moves s u force hreg (.inr (.inl hst))
    · next hst => exact requestStop_moves s u force hreg (.inr (.inr hst))
    · next hst =>
      rw [view_modify_self _ _ rfl]
      exact .single rfl (.stopExiting hreg hst)

theorem insertUnit_view_ne (s : Supervisor U) {u w : U} (restart : Bool) (status : Status)
    (h : w ≠ u) : (s.insertUnit w restart status).view u = s.view u := by
  have hgen : (s.insertUnit w restart status).gen u = s.gen u := Function.update_of_ne (Ne.symm h) _ _
  have hst : (s.insertUnit w restart status).state u = s.state u := by
    unfold state
    rw [show (s.insertUnit w restart status).ref u = s.ref u by simp [ref, hgen]]
    exact Function.update_of_ne (fun he => h (congrArg StateRef.unit he).symm) _ _
  have href : (s.insertUnit w restart status).ref u = s.ref u := by simp [ref, hgen]
  simp only [view, hst, href]
  simp [insertUnit, inFlight, Ne.symm h]

theorem insertUnit_view_self (s : Supervisor U) (u : U) (restart : Bool) (status : Status) :
    (s.insertUnit u restart status).view u =
      { s.view u with
        registered := True
        ref := ⟨u, s.gen u + 1⟩
        st := { restart := restart, status := status } } := by
  simp [view, insertUnit, state, ref, inFlight]

theorem addUnit_view_ne (s : Supervisor U) {u w : U} (restart stopped : Bool) (h : w ≠ u) :
    (s.addUnit w restart stopped).1.view u = s.view u := by
  unfold addUnit
  split
  · rfl
  · split
    · rw [startUnitNowait_view_ne _ h, insertUnit_view_ne _ _ _ h]
    · exact insertUnit_view_ne _ _ _ h

theorem addUnit_moves (s : Supervisor U) (u : U) (restart stopped : Bool) :
    Moves (fun l => l = .add ∨ l = .start) (s.view u) ((s.addUnit u restart stopped).1.view u) := by
  unfold addUnit
  split
  · exact .refl _
  · next hreg =>
    have hadd (status : Status) (hoff : status.isOff) : Moves (fun l => l = .add ∨ l = .start)
        (s.view u) ((s.insertUnit u restart status).view u) := by
      rw [insertUnit_view_self]
      exact .single (.inl rfl) (.add restart status hreg hoff)
    split
    · exact (hadd .ready rfl).trans
        ((startUnitNowait_moves _ u (.inl rfl)).mono fun l hl => .inr hl)
    · exact hadd .stopped rfl

theorem removeUnitNowait_view_ne (s : Supervisor U) {u w : U} (h : w ≠ u) :
    (s.removeUnitNowait w).1.view u = s.view u := by
  unfold removeUnitNowait
  split
  · rfl
  · have : (u ∈ s.units.erase w) = (u ∈ s.units) := by simp [List.mem_erase_of_ne (Ne.symm h)]
    simp [view, this, state, ref, inFlight]

theorem removeUnitNowait_moves (s : Supervisor U) (u : U) (hnodup : s.units.Nodup) :
    Moves (· = .remove) (s.view u) ((s.removeUnitNowait u).1.view u) := by
  unfold removeUnitNowait
  split
  · exact .refl _
  · next hno =>
    simp only [not_or, not_not, Bool.not_eq_true] at hno
    have hview : ({ s with units := s.units.erase u } : Supervisor U).view u =
        { s.view u with registered := False } := by
      simp [view, hnodup.not_mem_erase, state, ref, inFlight]
    rw [hview]
    exact .single rfl (.remove hno.1 hno.2.1 hno.2.2)

end Silkjam.Supervisor
