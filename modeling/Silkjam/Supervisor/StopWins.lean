import Silkjam.Supervisor.Simulation

/-!
# Stop wins

A stop is recorded in one of three ways: by `pending_stop` and a STOP, by `pending_stop` alone for a
unit in its exit, by the status for a unit without lifecycle. `Quieted` covers all three. It is kept
by every move of the unit but an explicit start, and while the stopped lifecycle goes on, an
explicit start is refused: `stop_wins`.
-/

namespace Silkjam.Supervisor

open Transition

variable {U : Type} [DecidableEq U]

/-- A lifecycle of `u` is pending or in progress. -/
def Busy (s : Supervisor U) (u : U) : Prop :=
  (s.state u).pendingStart = true ∨ s.HasLive u

instance (s : Supervisor U) (u : U) : Decidable (s.Busy u) :=
  inferInstanceAs (Decidable (_ ∨ _))

/-- The unit's enter has returned or raised. -/
def Pc.entered : Pc U → Bool
  | .created | .enterSleep _ | .entering _ => false
  | _ => true

/-- The lifecycle of `u` is pending, or in progress and the unit has not finished entering. -/
def NotEntered (s : Supervisor U) (u : U) : Prop :=
  (s.state u).pendingStart = true ∨
    ∃ t k, s.tasks t = some k ∧ k.unit = u ∧ k.pc.entered = false

/-- What was recorded of `u` since the last START for it was queued, which is how each of its
lifecycles begins. -/
def lifecycle (s : Supervisor U) (u : U) : List (Obs U) :=
  s.trace.takeWhile (· ≠ .queued .start u)

/-- The number of STARTs queued for `u` so far. -/
def queuedStarts (s : Supervisor U) (u : U) : Nat :=
  s.trace.count (.queued .start u)

/-- An explicit start of `u`. -/
def Action.isStart (u : U) : Action U → Bool
  | .startUnit w => w = u
  | _ => false

/-- `u` is not removed; other units may be. -/
def KeepsUnit (u : U) (_ : Supervisor U) : Action U → Prop
  | .removeUnit w => w ≠ u
  | _ => True

instance (u : U) (s : Supervisor U) : (a : Action U) → Decidable (KeepsUnit u s a)
  | .removeUnit w => inferInstanceAs (Decidable (w ≠ u))
  | .addUnit .. | .startUnit _ | .stopUnit .. | .setEvent _ | .clearEvent _ | .resume ..
  | .monitorStep | .helperStep _ | .supervise .. | .wake _ | .leave | .cancel | .stop =>
    inferInstanceAs (Decidable True)

/-- `u` is not removed, and is started explicitly only while a lifecycle of it is pending or in
progress. -/
def UntilRestarted (u : U) (s : Supervisor U) (a : Action U) : Prop :=
  KeepsUnit u s a ∧ (a.isStart u = true → s.Busy u)

instance (u : U) (s : Supervisor U) (a : Action U) : Decidable (UntilRestarted u s a) :=
  inferInstanceAs (Decidable (_ ∧ _))

/-! ### On views -/

/-- The unit will stop, or has stopped. -/
def Quieted (v : View U) : Prop :=
  v.registered ∧
    (v.st.pendingStop = true ∨ NoTasks v ∧ v.st.pendingStart = false ∧ v.st.status = .stopped)

def View.lifecycle (v : View U) : List (Obs U) :=
  v.trace.takeWhile (· ≠ .queued .start v.ref.unit)

/-- The unit's run was not called in the lifecycle. -/
def NoRun (v : View U) : Prop :=
  ∀ t, .run t v.ref.unit ∉ v.lifecycle

theorem takeWhile_filter {α : Type} (p q : α → Bool) (h : ∀ a, q a = false → p a = true)
    (l : List α) : (l.filter q).takeWhile p = (l.takeWhile p).filter q := by
  induction l with
  | nil => rfl
  | cons a l ih =>
    by_cases hq : q a = true
    · by_cases hp : p a = true
      · simp [hq, hp, ih]
      · simp [hq, hp]
    · have hp := h a (Bool.eq_false_iff.2 hq)
      simp [hq, hp, ih]

theorem mem_lifecycle (s : Supervisor U) {o : Obs U} {u : U} (ho : o.unit = u) :
    o ∈ s.lifecycle u ↔ o ∈ (s.view u).lifecycle := by
  have hview : (s.view u).lifecycle = (s.lifecycle u).filter fun o => o.unit = u := by
    refine takeWhile_filter _ _ (fun o ho => ?_) s.trace
    simp only [decide_eq_false_iff_not] at ho
    simp only [ne_eq, decide_eq_true_eq]
    rintro rfl
    exact ho rfl
  rw [hview]
  simp [ho]

theorem queuedStarts_view (s : Supervisor U) (u : U) :
    s.queuedStarts u = (s.view u).trace.count (.queued .start u) := by
  simp [queuedStarts, view, Obs.unit]

theorem NoRun.cons {v v' : View U} {o : Obs U} (h : NoRun v) (href : v'.ref.unit = v.ref.unit)
    (htrace : v'.trace = o :: v.trace) (hrun : ∀ t, o ≠ .run t v.ref.unit) : NoRun v' := by
  intro t ht
  unfold View.lifecycle at ht
  rw [href, htrace, List.takeWhile_cons] at ht
  split at ht
  · rcases List.mem_cons.1 ht with ho | ht
    · exact hrun t ho.symm
    · exact h t ht
  · cases ht

/-- From `v` to `v'` no START was queued and run was not called. -/
structure Calm (v v' : View U) : Prop where
  ref : v'.ref.unit = v.ref.unit
  noRun : NoRun v → NoRun v'
  starts : v'.trace.count (.queued .start v.ref.unit) = v.trace.count (.queued .start v.ref.unit)

theorem Calm.same {v v' : View U} (href : v'.ref.unit = v.ref.unit) (htrace : v'.trace = v.trace) :
    Calm v v' :=
  ⟨href, fun h t => by unfold View.lifecycle; rw [href, htrace]; exact h t, by rw [htrace]⟩

theorem Calm.cons {v v' : View U} {o : Obs U} (href : v'.ref.unit = v.ref.unit)
    (htrace : v'.trace = o :: v.trace) (hrun : ∀ t, o ≠ .run t v.ref.unit)
    (hstart : o ≠ .queued .start v.ref.unit) : Calm v v' :=
  ⟨href, fun h => h.cons href htrace hrun, by rw [htrace, List.count_cons_of_ne hstart]⟩

theorem Calm.trans {v v' v'' : View U} (h : Calm v v') (h' : Calm v' v'') : Calm v v'' :=
  ⟨h'.ref.trans h.ref, fun hr => h'.noRun (h.noRun hr), by
    have := h'.starts
    rw [h.ref] at this
    exact this.trans h.starts⟩

/-- A quieted unit stays quieted, whatever happens but an explicit start. -/
theorem Move.quieted {l : Label} {v v' : View U} (hstart : l ≠ .start) (hremove : l ≠ .remove)
    (hp : Placed v) (h : Quieted v) (hm : Move l v v') : Quieted v' ∧ Calm v v' := by
  obtain ⟨hreg, hq⟩ := h
  -- an unfinished task leaves the first case only
  have hlive (t : TaskId) (k : UnitTask U) (hk : v.tasks t = some k) : v.st.pendingStop = true := by
    apply hq.resolve_right
    intro hq
    rw [hq.1 t] at hk
    cases hk
  cases hm with
  | add restart status hnew => exact absurd hreg hnew
  | remove => exact absurd rfl hremove
  | markReady => exact absurd rfl hstart
  | queueStart hl hreg' hstop =>
    rcases hl with rfl | ⟨-, -, hst⟩
    · exact absurd rfl hstart
    · rcases hq with hq | hq
      · rw [hq] at hstop; cases hstop
      · rw [hq.2.2] at hst; cases hst
  | queueStop => exact ⟨⟨hreg, .inl rfl⟩, .cons rfl rfl nofun nofun⟩
  | markStopped hreg' hoff hps =>
    exact ⟨⟨hreg, hq.imp_right fun hq => ⟨hq.1, hps, rfl⟩⟩, .same rfl rfl⟩
  | stopExiting => exact ⟨⟨hreg, .inl rfl⟩, .same rfl rfl⟩
  | startTask t hn =>
    have hs := hp.queued (by omega)
    refine ⟨⟨hreg, .inl (hq.resolve_right ?_)⟩, .cons rfl rfl nofun nofun⟩
    intro hq
    rw [hs.pendingStart] at hq
    cases hq.2.1
  | startFailed | stopIgnored | stopFailed => exact ⟨⟨hreg, hq⟩, .cons rfl rfl nofun nofun⟩
  | stopCancel t k hn hreg' hcan htask hk =>
    have hcancel : Calm v { v with trace := .cancel t v.ref.unit v.st.status :: v.trace } :=
      .cons rfl rfl nofun nofun
    exact ⟨⟨hreg, .inl (hlive t k hk)⟩, hcancel.trans (.cons rfl rfl nofun nofun)⟩
  | beginForced t k hk | begin t k hk | enteredStopped t k hk | toExit t k val hk =>
    exact ⟨⟨hreg, .inl (hlive t k hk)⟩, .cons rfl rfl nofun nofun⟩
  | entered t k hk hpc hstop =>
    rw [hlive t k hk] at hstop
    cases hstop
  | suspend t k hk => exact ⟨⟨hreg, .inl (hlive t k hk)⟩, .same rfl rfl⟩
  | finish t k val drop hk hpc =>
    have hs := hp.live hk
    refine ⟨⟨hreg, .inr ⟨?_, hs.exiting hpc, ?_⟩⟩, .same rfl rfl⟩
    · intro t'
      exact hs.update_none t'
    · simp [State.cleaned, hlive t k hk]
  | close | loseStart | loseStop => exact ⟨⟨hreg, hq⟩, .same rfl rfl⟩

theorem Moves.calm_of_stop {v v' : View U} (h : Moves (· = .stop) v v') : Calm v v' := by
  apply h.invariant (P := Calm v) (.same rfl rfl)
  rintro l w w' rfl hc hm
  cases hm with
  | queueStart hl => simp at hl
  | queueStop => exact hc.trans (.cons rfl rfl nofun nofun)
  | markStopped | stopExiting => exact hc.trans (.same rfl rfl)

/-- `NotEntered` of a view. -/
def View.NotEntered (v : View U) : Prop :=
  v.st.pendingStart = true ∨ ∃ t k, v.tasks t = some k ∧ k.pc.entered = false

theorem notEntered_view (s : Supervisor U) (u : U) : s.NotEntered u ↔ (s.view u).NotEntered := by
  unfold NotEntered View.NotEntered
  apply or_congr .rfl
  refine exists_congr fun t => exists_congr fun k => ?_
  rw [view_tasks_eq_some]
  constructor
  · rintro ⟨hk, hu, hpc⟩
    refine ⟨⟨hk, hu, ?_⟩, hpc⟩
    cases h : k.pc <;> simp_all [Pc.entered, Pc.isFinished]
  · rintro ⟨⟨hk, hu, -⟩, hpc⟩
    exact ⟨hk, hu, hpc⟩

/-- Before a unit has finished entering, its run was not called in the lifecycle. -/
theorem Move.noRun {l : Label} {v v' : View U} (hp : Placed v) (h : v.NotEntered → NoRun v)
    (hm : Move l v v') : v'.NotEntered → NoRun v' := by
  intro hn
  -- the task `t` that a segment worked on was the only one, so the unit was not beyond entering
  have hback (t : TaskId) (k : UnitTask U) (hk : v.tasks t = some k) (k' : UnitTask U)
      (hn : v.st.pendingStart = true ∨ ∃ t' k'', Function.update v.tasks t (some k') t' = some k'' ∧
        k''.pc.entered = false) (hpc : k'.pc.entered = false → k.pc.entered = false) : NoRun v := by
    refine h (hn.imp_right ?_)
    rintro ⟨t', k'', hk'', hpc''⟩
    by_cases he : t' = t
    · subst he
      rw [Function.update_self] at hk''
      cases hk''
      exact ⟨t', k, hk, hpc hpc''⟩
    · rw [Function.update_of_ne he] at hk''
      exact ⟨t', k'', hk'', hpc''⟩
  cases hm with
  | add => exact h (.inr (hn.resolve_left nofun))
  | remove | markReady | markStopped | stopExiting | close | loseStart | loseStop => exact h hn
  | queueStart =>
    intro t ht
    simp [View.lifecycle] at ht
  | queueStop => exact (h hn).cons rfl rfl nofun
  | startTask t hn' | startFailed e hn' =>
    have hs := hp.queued (by omega)
    exact (h (.inl hs.pendingStart)).cons rfl rfl nofun
  | stopIgnored | stopFailed => exact (h hn).cons rfl rfl nofun
  | stopCancel t k hn' hreg hcan htask hk =>
    refine NoRun.cons (v := { v with trace := .cancel t v.ref.unit v.st.status :: v.trace }) ?_
      rfl rfl nofun
    exact (hback t k hk _ hn id).cons rfl rfl nofun
  | beginForced t k hk hpc | begin t k hk hpc =>
    exact (hback t k hk _ hn fun _ => by rw [hpc]; rfl).cons rfl rfl nofun
  | enteredStopped t k hk hpc | toExit t k val hk hpc =>
    exact (hback t k hk _ (hn.imp_left fun hps => by cases hps) nofun).cons rfl rfl nofun
  | entered t k hk hpc =>
    -- the unit runs from here on
    have hs := hp.live hk
    rcases hn with hn | ⟨t', k', hk', hpc'⟩
    · cases hn
    · have hk'' : Function.update v.tasks t _ t' = some k' := hk'
      by_cases he : t' = t
      · subst he
        rw [Function.update_self] at hk''
        cases hk''
        cases hpc'
      · simp [hs.live_tasks t', he] at hk''
  | suspend t k hk => exact hback t k hk _ hn id
  | finish t k val drop hk =>
    refine h (hn.imp_right ?_)
    rintro ⟨t', k', hk', hpc'⟩
    have hk'' : Function.update v.tasks t none t' = some k' := hk'
    by_cases he : t' = t
    · subst he
      rw [Function.update_self] at hk''
      cases hk''
    · rw [Function.update_of_ne he] at hk''
      exact ⟨t', k', hk'', hpc'⟩

/-! ### On states -/

section
variable {s s' : Supervisor U} {u : U} {force : Bool}

theorem startUnitNowait_refused (h : (s.state u).pendingStop = true) :
    s.startUnitNowait u = (s, false) := by
  unfold startUnitNowait
  rw [if_pos (.inr h)]

theorem addUnit_refused (restart stopped : Bool) (h : u ∈ s.units) :
    (s.addUnit u restart stopped).1 = s := by
  unfold addUnit
  rw [if_pos h]

theorem Quieted.pendingStop (h : Quieted (s.view u)) (hb : s.Busy u) :
    (s.state u).pendingStop = true := by
  apply h.2.resolve_right
  intro hq
  rcases hb with hb | ⟨t, -, hlive⟩
  · have hps : (s.state u).pendingStart = false := hq.2.1
    rw [hb] at hps
    cases hps
  · exact (s.live_iff t u).1 hlive (hq.1 t)

theorem Quieted.stopped {T : U → Prop} (hw : WFOn T s) (hu : T u) (h : Quieted (s.view u))
    (hb : ¬ s.Busy u) : (s.state u).status = .stopped := by
  rcases h.2 with hstop | hq
  · exfalso
    obtain ⟨slot, hs⟩ := hw.placed u hu
    cases slot with
    | idle => rw [hs.not_pendingStop h.1] at hstop; cases hstop
    | queued => exact hb (.inl hs.pendingStart)
    | live t k => exact hb (.inr (hw.hasLive ((s.live_iff t u).2 (by simp [hs.live_tasks t]))))
  · exact hq.2.2

theorem requestStop_pendingStop : ((s.requestStop u force).state u).pendingStop = true := by
  unfold requestStop
  split
  · assumption
  · rw [state_modify (r := s.ref u) (s.put .stop u) _ rfl]

theorem requestStop_units : (s.requestStop u force).units = s.units := by
  unfold requestStop
  split <;> rfl

theorem stopUnitNowait_units (s : Supervisor U) (u : U) (force : Bool) :
    (s.stopUnitNowait u force).1.units = s.units := by
  unfold stopUnitNowait
  repeat' split
  any_goals exact requestStop_units
  all_goals rfl

theorem stopUnitNowait_quieted (hp : Placed (s.view u)) (h : (s.stopUnitNowait u force).2 = true) :
    Quieted ((s.stopUnitNowait u force).1.view u) := by
  have hreg : u ∈ s.units := by
    by_contra hreg
    rw [stopUnitNowait, if_pos hreg] at h
    cases h
  have hrequest : Quieted ((s.requestStop u force).view u) :=
    ⟨show u ∈ (s.requestStop u force).units from (requestStop_units (s := s)).symm ▸ hreg,
      .inl requestStop_pendingStop⟩
  -- a unit that is READY or STOPPED and waits for no START has no lifecycle
  have hoff (hst : (s.state u).status.isOff) (hps : (s.state u).pendingStart ≠ true) :
      Quieted ((s.modify (s.ref u) fun st => { st with status := .stopped }).view u) := by
    rw [view_modify_self _ _ rfl]
    have hps' : (s.view u).st.pendingStart = false := Bool.eq_false_iff.2 hps
    exact ⟨hreg, .inr ⟨(hp.idle_of_isOff hst hps').2.1, hps', rfl⟩⟩
  unfold stopUnitNowait
  rw [if_neg (not_not.2 hreg)]
  split
  · next hst =>
    split
    · exact hrequest
    · next hps => exact hoff (by rw [hst]; rfl) hps
  · next hst =>
    split
    · exact hrequest
    · next hps => exact hoff (by rw [hst]; rfl) hps
  · exact hrequest
  · exact hrequest
  · rw [view_modify_self _ _ rfl]
    exact ⟨hreg, .inl rfl⟩

theorem KeepsUnit.registered {a : Action U} (hok : KeepsUnit u s a) :
    ∀ w, a = .removeUnit w → w = u → Registered (s.view w) := by
  rintro w rfl hwu
  exact absurd hwu hok

/-- A step keeps a quieted unit quieted, up to an explicit start after the lifecycle. -/
theorem step_quieted {a : Action U} (hw : WFOn (· = u) s) (hok : UntilRestarted u s a)
    (hstep : step s a = some s') (h : Quieted (s.view u)) :
    Quieted (s'.view u) ∧ Calm (s.view u) (s'.view u) := by
  have hsame (hs : s' = s) : Quieted (s'.view u) ∧ Calm (s.view u) (s'.view u) := by
    subst hs
    exact ⟨h, .same rfl rfl⟩
  -- the two calls that could start the unit do nothing
  by_cases hstart : a = .startUnit u
  · subst hstart
    apply hsame
    cases hstep
    rw [startUnitNowait_refused (h.pendingStop (hok.2 (decide_eq_true rfl)))]
  · by_cases hadd : ∃ restart stopped, a = .addUnit u restart stopped
    · obtain ⟨restart, stopped, rfl⟩ := hadd
      apply hsame
      cases hstep
      exact addUnit_refused restart stopped h.1
    · refine stepOn_invariant (P := fun v => Quieted v ∧ Calm (s.view u) v) (Q := fun _ => True)
        hw rfl hok.1.registered hstep (fun _ _ => trivial) ?_ ?_ ⟨h, .same rfl rfl⟩
      · intro c v v' hp _ hP hm
        have := hm.quieted (by simp) (by simp) hp hP.1
        exact ⟨trivial, this.1, hP.2.trans this.2⟩
      · intro l v v' _ hl hp hP hm
        have hl' : l ≠ .start ∧ l ≠ .remove := by
          constructor <;> rintro rfl <;>
            cases a <;> simp_all [Action.labels, UntilRestarted, KeepsUnit]
        have := hm.quieted hl'.1 hl'.2 hp hP.1
        exact ⟨this.1, hP.2.trans this.2⟩

theorem Reachable.wfOn_keepsUnit (h : Reachable (KeepsUnit u) s) : WFOn (· = u) s :=
  Reachable.wfOn_of h fun _ w _ hok => hok.registered w rfl

theorem notEntered_noRun (h : Reachable (KeepsUnit u) s) (hn : s.NotEntered u) :
    NoRun (s.view u) := by
  have hP : (s.view u).NotEntered → NoRun (s.view u) := by
    refine h.invariant_of (P := fun s => (s.view u).NotEntered → NoRun (s.view u))
      (fun s hs => Reachable.wfOn_keepsUnit hs) (fun _ t ht => by cases ht) ?_
    intro s a s' hw hP hok hstep
    refine stepOn_invariant (P := fun v => v.NotEntered → NoRun v) (Q := fun _ => True) hw rfl
      hok.registered hstep (fun _ _ => trivial) ?_ ?_ hP
    · exact fun c v v' hp _ hP hm => ⟨trivial, hm.noRun hp hP⟩
    · exact fun l v v' _ _ hp hP hm => hm.noRun hp hP
  exact hP ((notEntered_view s u).1 hn)

end

/-- **Stop wins.** After an accepted stop, in whatever happens until the unit is removed or started
explicitly after the end of its lifecycle: while the lifecycle goes on, a start is refused and changes nothing;
once it is over, and at once if there was none, the unit is STOPPED; if the unit had not finished
entering, its run is not called in the lifecycle; and no START is queued for it. -/
theorem stop_wins {s s' : Supervisor U} {u : U} {force : Bool} (h : Reachable (KeepsUnit u) s)
    (hstop : (s.stopUnitNowait u force).2 = true)
    (hrun : Reach step (UntilRestarted u) (s.stopUnitNowait u force).1 s') :
    (s'.Busy u → s'.startUnitNowait u = (s', false)) ∧
      (¬ s'.Busy u → (s'.state u).status = .stopped) ∧
      (s.NotEntered u → ∀ t, .run t u ∉ s'.lifecycle u) ∧
      s'.queuedStarts u = s.queuedStarts u := by
  have hw := Reachable.wfOn_keepsUnit h
  have hcall := (stopUnitNowait_moves s u force).calm_of_stop
  have hkept : WFOn (· = u) s' ∧ Quieted (s'.view u) ∧ Calm (s.view u) (s'.view u) := by
    refine hrun.invariant
      (P := fun s' => WFOn (· = u) s' ∧ Quieted (s'.view u) ∧ Calm (s.view u) (s'.view u))
      ⟨(stopUnitNowait_evolves hw u force).wf, stopUnitNowait_quieted (hw.placed u rfl) hstop,
        hcall⟩ ?_
    rintro s₁ a s₂ ⟨hw₁, hq₁, hc₁⟩ hok hstep
    have := step_quieted hw₁ hok hstep hq₁
    exact ⟨(stepOn_evolves hw₁ hok.1.registered hstep).wf, this.1, hc₁.trans this.2⟩
  obtain ⟨hw', hq', hc'⟩ := hkept
  refine ⟨?_, ?_, ?_, ?_⟩
  · intro hb
    exact startUnitNowait_refused (hq'.pendingStop hb)
  · intro hb
    exact hq'.stopped hw' rfl hb
  · intro hn t ht
    exact hc'.noRun (notEntered_noRun h hn) t ((mem_lifecycle s' rfl).1 ht)
  · rw [queuedStarts_view, queuedStarts_view]
    exact hc'.starts

theorem stop_wins_entering :
    ∃ s s' : Supervisor Nat, s.tasks 0 = some { unit := 0, pc := .entering ⟨0, 1⟩ } ∧
      Reach step (UntilRestarted 0) (s.stopUnitNowait 0).1 s' ∧ (s'.state 0).status = .stopped ∧
      (∀ t, .run t 0 ∉ s'.lifecycle 0) ∧ s'.queuedStarts 0 = s.queuedStarts 0 := by
  -- the unit is stopped while it enters, and a start tried during its exit
  obtain ⟨s, hs, htask, hstop, hrun⟩ := Reach.exists_of_runIn step (KeepsUnit 0) (init Nat)
    [.addUnit 0 true false, .supervise [] .firstEventOrUnit, .monitorStep, .wake [],
      .resume 0 .suspend]
    (p := fun s => s.tasks 0 = some { unit := 0, pc := .entering ⟨0, 1⟩ } ∧
      (s.stopUnitNowait 0).2 = true ∧
      (runIn step (UntilRestarted 0) (s.stopUnitNowait 0).1
        [.resume 0 (.ok .none), .resume 0 .suspend, .startUnit 0, .resume 0 (.ok .none)]).any
          (fun s => decide (¬ s.Busy 0)) = true) (by decide +kernel)
  obtain ⟨s', hs', hidle⟩ := Reach.exists_of_runIn _ _ _ _
    (p := fun s : Supervisor Nat => ¬ s.Busy 0) hrun
  have hwins := stop_wins hs hstop hs'
  exact ⟨s, s', htask, hs', hwins.2.1 hidle,
    hwins.2.2.1 (.inr ⟨0, _, htask, rfl, rfl⟩), hwins.2.2.2⟩

end Silkjam.Supervisor
