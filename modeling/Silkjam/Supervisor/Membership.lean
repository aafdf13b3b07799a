import Silkjam.Supervisor.StopWins

/-!
# Which units are in `_units`

Only `add_unit` and `remove_unit_nowait` change `_units`. A unit that is not in it and has no
unfinished task stays without one, since a START for it is not handled. `remove_unit_nowait` leaves
a unit that has a task or a pending start where it is, and says so by the value it returns.
-/

namespace Silkjam.Supervisor

variable {U : Type} [DecidableEq U]

/-- An action that adds and removes no unit. -/
def Action.isPlain : Action U → Bool
  | .addUnit .. | .removeUnit _ => false
  | _ => true

/-- `remove_unit_nowait` removes `u`, if it is in `_units`. -/
def Removable (s : Supervisor U) (u : U) : Prop :=
  (s.state u).task = none ∧ (s.state u).pendingStart = false

/-- The units `l` are removed, but for those that refuse. -/
def removeAll (s : Supervisor U) (l : List U) : Supervisor U :=
  l.foldl (fun s u => (s.removeUnitNowait u).1) s

section
variable {s s' : Supervisor U} {a : Action U} {u : U}

omit [DecidableEq U] in
theorem Action.labels_of_isPlain (ha : a.isPlain = true) {l : Label} (h : a.labels u l) :
    l ≠ .add ∧ l ≠ .remove := by
  cases a <;> cases l <;> simp_all [Action.labels, Action.isPlain]

omit [DecidableEq U] in
theorem Move.registered {l : Label} {v v' : View U} (hadd : l ≠ .add) (hremove : l ≠ .remove)
    (hm : Move l v v') : v'.registered ↔ v.registered := by
  cases hm with
  | add => exact absurd rfl hadd
  | remove => exact absurd rfl hremove
  | _ => exact Iff.rfl

theorem WF.hasLive_iff (hw : WF s) : s.HasLive u ↔ ¬ NoTasks (s.view u) := by
  unfold NoTasks
  rw [not_forall]
  constructor
  · rintro ⟨t, -, ht⟩
    exact ⟨t, (s.live_iff t u).1 ht⟩
  · rintro ⟨t, ht⟩
    exact hw.hasLive ((s.live_iff t u).2 ht)

theorem step_mem_units (hw : WF s) (ha : a.isPlain = true) (hstep : step s a = some s') :
    u ∈ s'.units ↔ u ∈ s.units := by
  refine step_invariant (P := fun v => v.registered ↔ u ∈ s.units) (Q := fun _ => True) hw ?_ hstep
    (fun _ _ => trivial) ?_ ?_ Iff.rfl
  · rintro w rfl
    cases ha
  · intro c v v' _ _ hP hm
    exact ⟨trivial, (hm.registered (by simp) (by simp)).trans hP⟩
  · intro l v v' _ hl _ hP hm
    obtain ⟨hadd, hremove⟩ := Action.labels_of_isPlain ha hl
    exact (hm.registered hadd hremove).trans hP

theorem step_not_hasLive (hw : WF s) (hw' : WF s') (ha : a.isPlain = true)
    (hstep : step s a = some s') (hu : u ∉ s.units) (hlive : ¬ s.HasLive u) : ¬ s'.HasLive u := by
  rw [hw.hasLive_iff, not_not] at hlive
  rw [hw'.hasLive_iff, not_not]
  refine (step_invariant (P := fun v => ¬ v.registered ∧ NoTasks v) (Q := fun _ => True) hw ?_ hstep
    (fun _ _ => trivial) ?_ ?_ ⟨hu, hlive⟩).2
  · rintro w rfl
    cases ha
  · intro c v v' _ _ hP hm
    exact ⟨trivial, fun h => hP.1 ((hm.registered (by simp) (by simp)).1 h),
      hm.noTasks hP.2 fun _ => hP.1⟩
  · intro l v v' _ hl _ hP hm
    obtain ⟨hadd, hremove⟩ := Action.labels_of_isPlain ha hl
    exact ⟨fun h => hP.1 ((hm.registered hadd hremove).1 h), hm.noTasks hP.2 fun _ => hP.1⟩

/-- A unit in `_units` with no lifecycle can be removed. -/
theorem WF.removable (hw : WF s) (hb : ¬ s.Busy u) : s.Removable u := by
  have hps : (s.state u).pendingStart = false := Bool.eq_false_iff.2 fun h => hb (.inl h)
  have hnone : NoTasks (s.view u) := by
    by_contra h
    exact hb (.inr (hw.hasLive_iff.2 h))
  exact ⟨((hw.placed u).idle hnone hps).2.2.1, hps⟩

theorem not_busy (hremovable : s.Removable u) (hlive : ¬ s.HasLive u) : ¬ s.Busy u := by
  rintro (hps | h)
  · rw [hremovable.2] at hps
    cases hps
  · exact hlive h

theorem Requests.hasLive_iff (h : Requests s s') : s'.HasLive u ↔ s.HasLive u := by
  unfold HasLive Live
  rw [h.tasks, h.nextTask]

/-! ### Adding a unit -/

theorem addUnit_units (hu : u ∉ s.units) (restart stopped : Bool) :
    (s.addUnit u restart stopped).1.units = s.units ++ [u] := by
  have hstart (s : Supervisor U) : (s.startUnitNowait u).1.units = s.units := by
    unfold startUnitNowait requestStart
    split
    · rfl
    · split <;> dsimp only <;> split <;> rfl
  unfold addUnit
  rw [if_neg hu]
  split
  · exact hstart _
  · rfl

/-! ### Removing units -/

theorem removeUnitNowait_eq (s : Supervisor U) (u : U) :
    (s.removeUnitNowait u).1 = { s with units := (s.removeUnitNowait u).1.units } := by
  unfold removeUnitNowait
  split <;> rfl

theorem mem_removeUnitNowait (hnodup : s.units.Nodup) {w : U} :
    w ∈ (s.removeUnitNowait u).1.units ↔ w ∈ s.units ∧ ¬ (w = u ∧ s.Removable u) := by
  unfold removeUnitNowait Removable
  split
  · next h =>
    refine ⟨fun hw => ⟨hw, ?_⟩, And.left⟩
    rintro ⟨rfl, htask, hps⟩
    rw [htask, hps] at h
    simp [hw] at h
  · next h =>
    simp only [not_or, not_not, Bool.not_eq_true] at h
    rw [hnodup.mem_erase_iff]
    simp only [h.2, and_self, and_true]
    exact and_comm

theorem removeAll_eq (l : List U) (s : Supervisor U) :
    s.removeAll l = { s with units := (s.removeAll l).units } := by
  induction l generalizing s with
  | nil => rfl
  | cons u l ih =>
    rw [removeAll, List.foldl_cons, ← removeAll, ih, removeUnitNowait_eq]

theorem mem_removeAll (l : List U) (hnodup : s.units.Nodup) {w : U} :
    w ∈ (s.removeAll l).units ↔ w ∈ s.units ∧ ¬ (w ∈ l ∧ s.Removable w) := by
  induction l generalizing s with
  | nil => simp [removeAll]
  | cons u l ih =>
    have hnodup' : (s.removeUnitNowait u).1.units.Nodup := by
      unfold removeUnitNowait
      split
      · exact hnodup
      · exact hnodup.erase u
    have hremovable : (s.removeUnitNowait u).1.Removable w ↔ s.Removable w := by
      rw [removeUnitNowait_eq]
      exact Iff.rfl
    rw [removeAll, List.foldl_cons, ← removeAll, ih hnodup', mem_removeUnitNowait hnodup,
      hremovable, List.mem_cons]
    constructor
    · rintro ⟨⟨hw, hu⟩, hl⟩
      refine ⟨hw, ?_⟩
      rintro ⟨rfl | hmem, hr⟩
      · exact hu ⟨rfl, hr⟩
      · exact hl ⟨hmem, hr⟩
    · rintro ⟨hw, hl⟩
      refine ⟨⟨hw, ?_⟩, fun ⟨hmem, hr⟩ => hl ⟨.inr hmem, hr⟩⟩
      rintro ⟨rfl, hr⟩
      exact hl ⟨.inl rfl, hr⟩

theorem mem_removeAll_of_notMem {l : List U} {w : U} (hw : w ∉ l) :
    w ∈ (s.removeAll l).units ↔ w ∈ s.units := by
  induction l generalizing s with
  | nil => exact Iff.rfl
  | cons u l ih =>
    obtain ⟨hne, hl⟩ := List.ne_and_not_mem_of_not_mem_cons hw
    rw [removeAll, List.foldl_cons, ← removeAll, ih hl]
    unfold removeUnitNowait
    split
    · exact Iff.rfl
    · exact List.mem_erase_of_ne hne

theorem removeAll_wf (l : List U) (hw : WF s) (hb : ∀ u ∈ l, ¬ s.HasLive u) :
    WF (s.removeAll l) := by
  induction l generalizing s with
  | nil => exact hw
  | cons u l ih =>
    have hreg : Registered (s.view u) := fun t ht =>
      absurd (hw.hasLive ((s.live_iff t u).2 ht)) (hb u (by simp))
    apply ih (removeUnitNowait_evolves hw u fun _ => hreg).wf
    intro w hmem
    rw [(removeUnitNowait_requests s u).hasLive_iff]
    exact hb w (by simp [hmem])

end

end Silkjam.Supervisor
