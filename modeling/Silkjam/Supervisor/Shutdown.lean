import Silkjam.Supervisor.StopWins

/-!
# The end of a supervisor

`_stop` stops every unit and supervises until no unit task is left. All units are then quieted, so
the loop restarts nothing and nothing is put in the queue any more; a command that was in the queue
is seen by the first turn of the loop, since the task that waits for commands takes its first step
before. When the loop ends, no task is registered and the queue is empty, hence every unit is
STOPPED: `exit_postcondition`. That needs every unit with a start pending to have its START: one
that was lost with a cancelled call leaves the unit READY (`exit_start_lost`).
-/

namespace Silkjam.Supervisor

open Transition

variable {U : Type} [DecidableEq U]

/-- The steps while `_stop` waits for its supervise loop: no coroutine calls the supervisor, and the
loop does not raise. -/
def Undisturbed (s : Supervisor U) : Action U → Prop
  | .resume _ _ | .monitorStep | .helperStep _ | .wake _ | .setEvent _ | .clearEvent _ => True
  | .leave => s.loop.raised = false
  | _ => False

instance (s : Supervisor U) : (a : Action U) → Decidable (Undisturbed s a)
  | .resume .. | .monitorStep | .helperStep _ | .wake _ | .setEvent _ | .clearEvent _ =>
    inferInstanceAs (Decidable True)
  | .leave => inferInstanceAs (Decidable (s.loop.raised = false))
  | .addUnit .. | .removeUnit _ | .startUnit _ | .stopUnit .. | .supervise .. | .cancel | .stop =>
    inferInstanceAs (Decidable False)

/-- Every unit is quieted. -/
def AllQuieted (s : Supervisor U) : Prop :=
  ∀ u ∈ s.units, Quieted (s.view u)

/-- Runs in which no unit is removed and no START is lost: a call is not cancelled while its monitor
task has taken a START from the queue. -/
def KeepsStarts (s : Supervisor U) : Action U → Prop
  | .cancel => ∀ c ∈ s.loop.items, c.1 ≠ .start
  | .removeUnit _ => False
  | _ => True

instance (s : Supervisor U) : (a : Action U) → Decidable (KeepsStarts s a)
  | .cancel => inferInstanceAs (Decidable (∀ c ∈ s.loop.items, c.1 ≠ .start))
  | .removeUnit _ => inferInstanceAs (Decidable (False))
  | .addUnit .. | .startUnit _ | .stopUnit .. | .setEvent _ | .clearEvent _ | .resume ..
  | .monitorStep | .helperStep _ | .supervise .. | .wake _ | .leave | .stop =>
    inferInstanceAs (Decidable True)

/-- The unit's START was not lost. -/
def Due (v : View U) : Prop :=
  v.registered → v.st.pendingStart = true → NoTasks v → v.starts ≠ 0

/-- What the loop of `_stop` has come to. -/
def Ending (s : Supervisor U) : Prop :=
  match s.loop with
  | .waiting c => c.returnWhen = .allUnits ∧ (c.monitor = .blocked → s.queue = [])
  | .leaving _ (some _) => True
  | _ => s.running = [] ∧ s.queue = []

/-! ### Quieted units -/

omit [DecidableEq U] in
/-- Without calls from outside, what is not quieted is not in `_units`. -/
theorem Move.settled [DecidableEq U] {l : Label} {v v' : View U} (hstart : l ≠ .start)
    (hremove : l ≠ .remove) (hadd : l ≠ .add) (hp : Placed v) (h : v.registered → Quieted v)
    (hm : Move l v v') :
    (v'.registered → Quieted v') ∧ v'.ref.unit = v.ref.unit ∧
      v'.trace.count (.queued .start v.ref.unit) = v.trace.count (.queued .start v.ref.unit) := by
  by_cases hreg : v.registered
  · have := hm.quieted hstart hremove hp (h hreg)
    exact ⟨fun _ => this.1, this.2.ref, this.2.starts⟩
  · cases hm with
    | add => exact absurd rfl hadd
    | remove => exact absurd rfl hremove
    | markReady => exact absurd rfl hstart
    | queueStart _ hreg' | queueStop _ hreg' | markStopped hreg' | stopExiting hreg'
    | startTask _ _ hreg' | stopIgnored _ hreg' | stopCancel _ _ _ hreg' => exact absurd hreg' hreg
    | startFailed | stopFailed | suspend | finish | close | beginForced | begin | enteredStopped
    | entered | toExit | loseStart | loseStop => exact ⟨fun h => absurd h hreg, rfl, by simp⟩

/-! ### STARTs that are not lost -/

omit [DecidableEq U] in
theorem Move.due [DecidableEq U] {l : Label} {v v' : View U} (hl : l ≠ .lose .start) (hp : Placed v)
    (h : Due v) (hm : Move l v v') : Due v' := by
  intro hreg hps hnone
  cases hm with
  | add => cases hps
  | remove => exact hreg.elim
  | queueStart => exact Nat.succ_ne_zero _
  | markReady | queueStop | markStopped | stopExiting | stopIgnored | stopFailed | close
  | loseStop => exact h hreg hps hnone
  | startTask t | stopCancel t | beginForced t | begin t | enteredStopped t | entered t | toExit t
  | suspend t =>
    -- the unit has the task `t`
    have ht := hnone t
    simp at ht
  | startFailed e hn hbad => exact absurd hbad (hp.start_fine hn)
  | finish t k val drop hk hpc =>
    have hps' := (hp.live hk).exiting hpc
    rw [show v.st.pendingStart = true from hps] at hps'
    cases hps'
  | loseStart => exact absurd rfl hl

section
variable {s s' : Supervisor U} {ok : U → Label → Prop}

theorem Due.evolves {u : U} (hw : WF s) (h : Due (s.view u)) (he : Evolves ok s s')
    (hok : ∀ l, ok u l → l ≠ .lose .start ∧ l ≠ .remove) : Due (s'.view u) := by
  refine ((he.moves u).invariant (P := fun v => Placed v ∧ Due v) ⟨hw.placed u, h⟩ ?_).2
  rintro l v v' hl ⟨hp, hd⟩ hm
  obtain ⟨hlose, hremove⟩ := hok l hl
  exact ⟨hm.placed hp fun h => absurd h hremove, hm.due hlose hp hd⟩

theorem due_of_reachable (h : Reachable KeepsStarts s) (u : U) : WF s ∧ Due (s.view u) := by
  apply h.invariant (P := fun s => WF s ∧ Due (s.view u)) ⟨init_wf, fun hreg => by cases hreg⟩
  rintro s a s' ⟨hw, hd⟩ hok hstep
  have hr (w : U) (ha : a = .removeUnit w) : Registered (s.view w) := by
    subst ha
    exact hok.elim
  refine ⟨(step_evolves hw hr hstep).wf, ?_⟩
  by_cases hcancel : a = .cancel
  · subst hcancel
    apply hd.evolves hw (cancelCall_evolves hw hstep)
    rintro l ⟨c, rfl, hmem⟩
    refine ⟨?_, by simp⟩
    rintro hl
    cases hl
    exact hok _ hmem rfl
  · apply hd.evolves hw (step_evolves hw hr hstep)
    intro l hl
    cases a <;> cases l <;> simp_all [Action.labels, KeepsStarts]

theorem AllQuieted.evolves (hw : WF s) (h : AllQuieted s) (he : Evolves ok s s')
    (hok : ∀ u l, ok u l → l ≠ .start ∧ l ≠ .remove ∧ l ≠ .add) :
    AllQuieted s' ∧ ∀ u, s'.queuedStarts u = s.queuedStarts u := by
  have hview (u : U) : Placed (s'.view u) ∧ ((s'.view u).registered → Quieted (s'.view u)) ∧
      (s'.view u).ref.unit = u ∧ (s'.view u).trace.count (.queued .start u) =
        (s.view u).trace.count (.queued .start u) := by
    refine (he.moves u).invariant (P := fun v => Placed v ∧ (v.registered → Quieted v) ∧
      v.ref.unit = u ∧ v.trace.count (.queued .start u) =
        (s.view u).trace.count (.queued .start u)) ⟨hw.placed u, h u, rfl, rfl⟩ ?_
    rintro l v v' hl ⟨hp, hq, rfl, hcount⟩ hm
    obtain ⟨hstart, hremove, hadd⟩ := hok _ l hl
    obtain ⟨hq', href, hcount'⟩ := hm.settled hstart hremove hadd hp hq
    exact ⟨hm.placed hp fun h => absurd h hremove, hq', href, hcount'.trans hcount⟩
  refine ⟨fun u hu => (hview u).2.1 hu, ?_⟩
  intro u
  rw [queuedStarts_view, queuedStarts_view]
  exact (hview u).2.2.2

end

/-! ### Stopping all units -/

section
variable {s s' : Supervisor U} {u w : U}

theorem stopUnitNowait_accepted (force : Bool) (h : u ∈ s.units) :
    (s.stopUnitNowait u force).2 = true := by
  unfold stopUnitNowait
  rw [if_neg (not_not.2 h)]
  repeat' split
  all_goals rfl

theorem stopAll_units (s : Supervisor U) : s.stopAll.units = s.units := by
  have hfold (l : List U) : ∀ s : Supervisor U,
      (l.foldl (fun s u => (s.stopUnitNowait u true).1) s).units = s.units := by
    induction l with
    | nil => exact fun _ => rfl
    | cons u l ih => exact fun s => (ih _).trans (stopUnitNowait_units s u true)
  exact hfold s.units s

theorem stopAll_quietedOn {T : U → Prop} (hw : WFOn T s) (hu : T u) (hreg : u ∈ s.units) :
    Quieted (s.stopAll.view u) := by
  -- the unit is still to be stopped, or quieted
  have hfold (l : List U) : ∀ s : Supervisor U, WFOn T s →
      (u ∈ s.units ∧ u ∈ l ∨ Quieted (s.view u)) →
      Quieted ((l.foldl (fun s u => (s.stopUnitNowait u true).1) s).view u) := by
    induction l with
    | nil => exact fun s _ hu => hu.resolve_left (by simp)
    | cons w l ih =>
      intro s hw hq
      apply ih _ (stopUnitNowait_evolves hw w true).wf
      by_cases he : w = u
      · subst he
        have hreg : w ∈ s.units := hq.elim (fun h => h.1) fun h => h.1
        exact .inr (stopUnitNowait_quieted (hw.placed w hu) (stopUnitNowait_accepted true hreg))
      · rw [stopUnitNowait_view_ne s true he, stopUnitNowait_units]
        exact hq.imp_left fun h => ⟨h.1, (List.mem_cons.1 h.2).resolve_left (Ne.symm he)⟩
  exact hfold s.units s hw (.inl ⟨hreg, hreg⟩)

theorem stopAll_quieted (hw : WF s) : AllQuieted s.stopAll := by
  intro u hu
  rw [stopAll_units] at hu
  exact stopAll_quietedOn hw trivial hu

theorem stopAll_queuedStarts (hw : WF s) (u : U) : s.stopAll.queuedStarts u = s.queuedStarts u := by
  rw [queuedStarts_view, queuedStarts_view]
  exact ((stopAll_evolves hw).moves u).calm_of_stop.starts

theorem restartReady_quieted (h : AllQuieted s) : s.restartReady = s := by
  unfold restartReady
  have hfold (l : List U) (hl : ∀ u ∈ l, u ∈ s.units) : l.foldl (fun s u =>
      if (s.state u).restart ∧ (s.state u).status = .ready ∧ ¬ (s.state u).pendingStart then
        (s.startUnitNowait u).1
      else s) s = s := by
    induction l with
    | nil => rfl
    | cons u l ih =>
      rw [List.foldl_cons]
      have hu := h u (hl u (by simp))
      have hsame : (if (s.state u).restart ∧ (s.state u).status = .ready ∧
          ¬ (s.state u).pendingStart then (s.startUnitNowait u).1 else s) = s := by
        split
        · next hr =>
          rcases hu.2 with hstop | hq
          · rw [startUnitNowait_refused hstop]
          · rw [show (s.state u).status = .stopped from hq.2.2] at hr
            simp at hr
        · rfl
      rw [hsame]
      exact ih fun x hx => hl x (by simp [hx])
  exact hfold s.units fun _ h => h

theorem noTasks_of_running (hp : Placed (s.view u)) (h : s.running = []) :
    NoTasks (s.view u) := by
  intro t
  by_contra hne
  obtain ⟨k, hk⟩ := Option.ne_none_iff_exists'.1 hne
  have hentry : (t, u) ∈ s.running := (hp.live hk).entry
  simp [h] at hentry

theorem AllQuieted.stopped (hw : WF s) (h : AllQuieted s) (hd : ∀ u, Due (s.view u))
    (hloop : s.loop = .idle) (hrunning : s.running = []) (hqueue : s.queue = []) :
    ∀ u ∈ s.units, (s.state u).status = .stopped := by
  intro u hu
  have hnone := noTasks_of_running (hw.placed u) hrunning
  apply (h u hu).stopped hw trivial
  rintro (hps | ⟨t, -, hlive⟩)
  · apply hd u hu hps hnone
    simp [view, inFlight, hloop, Loop.items, hqueue]
  · exact (s.live_iff t u).1 hlive (hnone t)

end

/-! ### The loop of `_stop` -/

section
variable {s s' : Supervisor U}

/-- A turn that handled its commands without raising has emptied the queue. -/
theorem drainQueue_queue (l : List (Command × U)) {s s' : Supervisor U} (hw : WF s)
    (hq : s.queue = l) (h : drainQueue [.start, .stop] l s = (s', none)) : s'.queue = [] := by
  induction l generalizing s with
  | nil => cases h; exact hq
  | cons item q ih =>
    obtain ⟨c, u⟩ := item
    have hh := handleLogged_handles (s := { s with queue := q }) (hw.toTables.of_eq rfl rfl rfl rfl)
      c u
    have hevolves := handleLogged_evolves hw hq
    unfold drainQueue at h
    dsimp only at h
    rw [if_neg (not_not.2 (mem_allowed c))] at h
    split at h
    · next s₁ hs₁ =>
      rw [hs₁] at hh hevolves
      exact ih hevolves.wf hh.1 h
    · cases h

theorem wakeCommands_queue {c : Call U} (hw : WF s) (hloop : s.loop = .waiting c)
    (hfresh : c.monitor ≠ .fresh) (hblocked : c.monitor = .blocked → s.queue = [])
    (h : s.wakeCommands c = (s', none)) : s'.queue = [] := by
  cases hc : c.monitor with
  | fresh => exact absurd hc hfresh
  | blocked =>
    rw [wakeCommands_not_got (by simp [hc])] at h
    cases h
    exact hblocked hc
  | got item =>
    rw [wakeCommands_got hc] at h
    have hput : Evolves (fun _ _ => True) s (s.putBack c item) := putBack_evolves hw hloop hc
    exact drainQueue_queue _ hput.wf rfl h

theorem renewMonitor_returnWhen (c : Call U) :
    c.renewMonitor.returnWhen = c.returnWhen := by
  unfold Call.renewMonitor
  split <;> rfl

/-- When all pending units are gone, those of the registered tasks are among them. -/
theorem running_of_ret {c : Call U} (hrw : (c.addPending s).returnWhen = .allUnits)
    (h : (c.addPending s).ret = true) : s.running = [] := by
  rw [Call.ret, hrw] at h
  simp only [decide_eq_true_eq, Finset.card_eq_zero, Call.addPending,
    Finset.union_eq_empty] at h
  simpa using h.2

theorem wakeUp_ending {c : Call U} {order : List TaskId} (hw : WF s) (hloop : s.loop = .waiting c)
    (hdone : ∀ t ∈ order, (s.taskResult t).isSome) (hfresh : c.monitor ≠ .fresh)
    (hrw : c.returnWhen = .allUnits) (hblocked : c.monitor = .blocked → s.queue = [])
    (hquieted : AllQuieted s) : Ending (s.wakeUp c order) := by
  have h₁ := wakeCommands_evolves hw hloop
  have hq₁ := (hquieted.evolves hw h₁.1 (by rintro u l ⟨c, rfl⟩; simp)).1
  unfold wakeUp
  split
  · exact trivial
  · next s₁ hs₁ =>
    have hqueue := wakeCommands_queue hw hloop hfresh hblocked hs₁
    rw [hs₁] at h₁ hq₁
    have hdone₁ (t : TaskId) (ht : t ∈ order) : (s₁.taskResult t).isSome := by
      rw [h₁.2.result t]
      exact hdone t ht
    have h₂ := takeUnits_evolves order c.renewMonitor.takeEvents h₁.1.wf hdone₁
    have hq₂ := (hq₁.evolves h₁.1.wf h₂ (by rintro u l rfl; simp)).1
    have hframe := takeUnits_frame order s₁ c.renewMonitor.takeEvents
    split
    · exact trivial
    · next s₂ c₂ hs₂ =>
      rw [hs₂] at h₂ hq₂ hframe
      obtain ⟨hloop₂, hqueue₂, hmonitor₂, hrw₂⟩ := hframe
      dsimp only at hloop₂ hqueue₂ hmonitor₂ hrw₂
      have hrw' : (c₂.addPending s₂).returnWhen = .allUnits :=
        hrw₂.trans ((renewMonitor_returnWhen c).trans hrw)
      dsimp only
      split
      · next hret => exact ⟨running_of_ret hrw' hret, hqueue₂.trans hqueue⟩
      · rw [restartReady_quieted hq₂]
        exact ⟨hrw', fun _ => hqueue₂.trans hqueue⟩

theorem Ending.of_core (h : Ending s) (hcore : s'.loop.core = s.loop.core)
    (hqueue : s'.queue = s.queue) (hrunning : s'.running.Sublist s.running) : Ending s' := by
  unfold Ending at h ⊢
  cases hl : s.loop with
  | idle =>
    rw [hl] at h hcore
    cases hl' : s'.loop with
    | idle => exact ⟨List.sublist_nil.1 (h.1 ▸ hrunning), hqueue.trans h.2⟩
    | _ => rw [hl'] at hcore; cases hcore
  | waiting c =>
    rw [hl] at h hcore
    cases hl' : s'.loop with
    | waiting c' =>
      rw [hl'] at hcore
      simp only [Loop.core, Loop.waiting.injEq, Call.mk.injEq] at hcore
      obtain ⟨hrw, -, -, -, -, hmonitor, -⟩ := hcore
      exact ⟨hrw.trans h.1, fun hb => hqueue.trans (h.2 (hmonitor ▸ hb))⟩
    | _ => rw [hl'] at hcore; cases hcore
  | leaving c err =>
    rw [hl] at h hcore
    cases hl' : s'.loop with
    | leaving c' err' =>
      rw [hl'] at hcore
      cases hcore
      cases err with
      | some e => exact trivial
      | none => exact ⟨List.sublist_nil.1 (h.1 ▸ hrunning), hqueue.trans h.2⟩
    | _ => rw [hl'] at hcore; cases hcore

theorem step_ending {a : Action U} (hw : WF s) (hq : AllQuieted s) (h : Ending s)
    (hok : Undisturbed s a) (hstep : step s a = some s') : Ending s' := by
  cases a with
  | addUnit | removeUnit | startUnit | stopUnit | supervise | cancel | stop => exact hok.elim
  | setEvent n => cases hstep; exact h.of_core (setEvent_core s _) rfl (.refl _)
  | clearEvent n => cases hstep; exact h.of_core rfl rfl (.refl _)
  | resume t o =>
    obtain ⟨k, -, -, -, hwithin, -⟩ := resume_within hw hstep
    exact h.of_core hwithin.loop hwithin.queue hwithin.running
  | monitorStep =>
    simp only [step, monitorStep] at hstep
    split at hstep
    · next c hloop =>
      unfold Ending at h
      rw [hloop] at h
      split at hstep
      · cases hstep
      · next hqueue _ => cases hstep; exact ⟨h.1, fun _ => hqueue⟩
      · cases hstep; exact ⟨h.1, by simp⟩
    · cases hstep
  | helperStep e =>
    simp only [step, helperStep] at hstep
    split at hstep
    · next c hloop =>
      split at hstep
      · obtain ⟨h', -, rfl⟩ := Option.map_eq_some_iff.1 hstep
        refine h.of_core ?_ rfl (.refl _)
        rw [hloop]
        rfl
      · cases hstep
    · cases hstep
  | wake order =>
    simp only [step, wake] at hstep
    split at hstep
    · next c hloop =>
      unfold Ending at h
      rw [hloop] at h
      split at hstep
      · next hwake =>
        cases hstep
        exact wakeUp_ending hw hloop (fun t ht => (List.mem_filter.1 (hwake.2.2.1.mem_iff.1 ht)).2)
          hwake.1 h.1 h.2 hq
      · cases hstep
    · cases hstep
  | leave =>
    simp only [step, leave] at hstep
    split at hstep
    · next c hloop =>
      cases hstep
      unfold Ending at h
      rw [hloop] at h
      exact h
    · next c e hloop =>
      have hraised : s.loop.raised = false := hok
      rw [hloop] at hraised
      cases hraised
    · cases hstep

theorem stop_ending (hw : WF s) (hloop : s.loop = .idle) :
    Ending s.stop ∧ AllQuieted s.stop ∧ ∀ u, s.stop.queuedStarts u = s.queuedStarts u := by
  have hq := stopAll_quieted hw
  have hloop' : s.stopAll.loop = .idle := (stopAll_requests s).loop.trans hloop
  unfold stop
  dsimp only
  split
  · have hstay : s.stopAll.superviseUntil [] .allUnits = s.stopAll.enterWait
        { returnWhen := .allUnits
          pendingEvents := ∅
          pendingUnits := (s.stopAll.running.map (·.2)).toFinset
          helpers := [] } := by
      unfold superviseUntil
      rw [restartReady_quieted hq]
      rfl
    rw [hstay]
    exact ⟨⟨rfl, nofun⟩, hq, stopAll_queuedStarts hw⟩
  · next hno =>
    rw [not_or, not_not] at hno
    refine ⟨?_, hq, stopAll_queuedStarts hw⟩
    unfold Ending
    rw [hloop']
    exact ⟨List.length_eq_zero_iff.1 (by omega), hno.2⟩

end

/-- **The supervisor's exit.** From any state reached without removing units or losing a START, with
no call in progress: if `_stop` gets past its supervise loop, then every unit is STOPPED, no task is
registered, the queue is empty, and no unit was started or restarted meanwhile. -/
theorem exit_postcondition {s s' : Supervisor U} (h : Reachable KeepsStarts s)
    (hidle : s.loop = .idle) (hrun : Reach step Undisturbed s.stop s') (hdone : s'.loop = .idle) :
    (∀ u ∈ s'.units, (s'.state u).status = .stopped) ∧ s'.running = [] ∧ s'.queue = [] ∧
      ∀ u, s'.queuedStarts u = s.queuedStarts u := by
  have hw : WF s := Reachable.wf_of h fun _ _ _ hok => hok.elim
  have hdue (u : U) : Due (s.stop.view u) := by
    apply (due_of_reachable h u).2.evolves hw (stop_evolves hw hidle)
    rintro l (rfl | rfl) <;> simp
  obtain ⟨hending, hquieted, hstarts⟩ := stop_ending hw hidle
  have hall : WF s' ∧ AllQuieted s' ∧ (∀ u, Due (s'.view u)) ∧
      (∀ u, s'.queuedStarts u = s.queuedStarts u) ∧ Ending s' := by
    refine hrun.invariant (P := fun s' => WF s' ∧ AllQuieted s' ∧ (∀ u, Due (s'.view u)) ∧
      (∀ u, s'.queuedStarts u = s.queuedStarts u) ∧ Ending s')
      ⟨(stop_evolves hw hidle).wf, hquieted, hdue, hstarts, hending⟩ ?_
    rintro s₁ a s₂ ⟨hw₁, hq₁, hd₁, hn₁, he₁⟩ hok hstep
    have hevolves : Evolves a.labels s₁ s₂ := by
      refine step_evolves hw₁ ?_ hstep
      rintro u rfl
      exact hok.elim
    have hlabels (u : U) (l : Label) (hl : a.labels u l) :
        l ≠ .start ∧ l ≠ .remove ∧ l ≠ .add ∧ l ≠ .lose .start := by
      cases a <;> cases l <;> simp_all [Action.labels, Undisturbed]
    have hnext := hq₁.evolves hw₁ hevolves fun u l hl =>
      ⟨(hlabels u l hl).1, (hlabels u l hl).2.1, (hlabels u l hl).2.2.1⟩
    have hdue₂ (u : U) : Due (s₂.view u) := (hd₁ u).evolves hw₁ hevolves fun l hl =>
      ⟨(hlabels u l hl).2.2.2, (hlabels u l hl).2.1⟩
    exact ⟨hevolves.wf, hnext.1, hdue₂, fun u => (hnext.2 u).trans (hn₁ u),
      step_ending hw₁ hq₁ he₁ hok hstep⟩
  obtain ⟨hw', hq', hd', hn', he'⟩ := hall
  unfold Ending at he'
  rw [hdone] at he'
  exact ⟨hq'.stopped hw' hd' hdone he'.1 he'.2, he'.1, he'.2, hn'⟩

/-- Unit 0 runs, unit 1 waits for its START, unit 2 has a stop pending. -/
theorem exit_postcondition_mixed :
    ∃ s s' : Supervisor Nat, s.running = [(0, 0)] ∧
      s.inFlight = [(.start, 1), (.start, 2), (.stop, 2)] ∧
      Reach step Undisturbed s.stop s' ∧ (∀ u ∈ s'.units, (s'.state u).status = .stopped) ∧
      s'.running = [] ∧ s'.queue = [] := by
  -- the first call is cancelled while unit 0 runs
  obtain ⟨s, hs, hrunning, hflight, hidle, hrun⟩ :=
    Reach.exists_of_runIn step KeepsStarts (init Nat)
    [.addUnit 0 true false, .supervise [] .firstEvent, .monitorStep, .wake [], .resume 0 .suspend,
      .resume 0 (.ok .none), .cancel, .leave, .addUnit 1 true false, .addUnit 2 true false,
      .stopUnit 2 false]
    (p := fun s => s.running = [(0, 0)] ∧ s.inFlight = [(.start, 1), (.start, 2), (.stop, 2)] ∧
      s.loop.isIdle = true ∧
      (runIn step Undisturbed s.stop
        [.monitorStep, .wake [], .monitorStep, .resume 0 (.raise .cancelled), .resume 1 .suspend,
          .resume 2 .suspend, .resume 1 .suspend, .resume 1 (.ok .none), .resume 2 (.ok .none),
          .resume 2 .suspend, .resume 2 (.ok .none), .wake [1, 2], .resume 0 (.ok .none), .wake [0],
          .leave]).any
            (fun s => decide (s.loop.isIdle = true)) = true) (by decide +kernel)
  obtain ⟨s', hs', hdone⟩ := Reach.exists_of_runIn _ _ _ _
    (p := fun s : Supervisor Nat => s.loop.isIdle = true) hrun
  have hpost := exit_postcondition hs (Loop.isIdle_iff.1 hidle) hs' (Loop.isIdle_iff.1 hdone)
  exact ⟨s, s', hrunning, hflight, hs', hpost.1, hpost.2.1, hpost.2.2.1⟩

/-- The call is cancelled when its monitor task has taken the unit's START, which is lost: `_stop`
only marks the stop, its loop leaves the unit alone, and the unit is READY at the end. -/
theorem exit_start_lost :
    ∃ s s' : Supervisor Nat, Reachable KeepsUnits s ∧ s.loop.isIdle = true ∧
      Reach step Undisturbed s.stop s' ∧ s'.loop.isIdle = true ∧ 0 ∈ s'.units ∧
      (s'.state 0).status = .ready := by
  obtain ⟨s, hs, hidle, hrun⟩ := Reach.exists_of_runIn step KeepsUnits (init Nat)
    [.addUnit 0 true false, .supervise [] .firstEventOrUnit, .monitorStep, .cancel, .leave]
    (p := fun s => s.loop.isIdle = true ∧
      (runIn step Undisturbed s.stop [.monitorStep, .wake [], .leave]).any
        (fun s => decide (s.loop.isIdle = true ∧ 0 ∈ s.units ∧ (s.state 0).status = .ready)) = true)
    (by decide +kernel)
  obtain ⟨s', hs', hdone, hmem, hready⟩ := Reach.exists_of_runIn _ _ _ _
    (p := fun s : Supervisor Nat =>
      s.loop.isIdle = true ∧ 0 ∈ s.units ∧ (s.state 0).status = .ready) hrun
  exact ⟨s, s', hs, hidle, hs', hdone, hmem, hready⟩

end Silkjam.Supervisor
