import Silkjam.Supervisor.Calls

/-!
# Forced stops

A forced stop of a unit that is starting is recorded by `force_pending_stop`, which the command
handler reads while the unit is entering and the unit's own task reads before it enters. The flag is
written only where no stop is pending yet, so forcing a stop that was requested without force does
nothing (`escalation_ignored`, `forced_stop_ignored`). Where it is written, the starting is
interrupted (`forced_stop_interrupts`): `Heeded` is what every move keeps, `Pressed` what stays of
the call for the rest of the lifecycle.
-/

namespace Silkjam.Supervisor

open Transition

variable {U : Type} [DecidableEq U]

/-- The unit is ENTERING or has a start pending. -/
def Starting (s : Supervisor U) (u : U) : Prop :=
  u ∈ s.units ∧ ((s.state u).status = .entering ∨ (s.state u).pendingStart = true)

instance (s : Supervisor U) (u : U) : Decidable (s.Starting u) :=
  inferInstanceAs (Decidable (_ ∧ _))

/-- `is_starting` -/
def isStarting (s : Supervisor U) (u : U) : Option Bool :=
  if u ∉ s.units then none else some (decide ((s.state u).status = .entering))

/-- The number of STOPs queued for `u` so far. -/
def queuedStops (s : Supervisor U) (u : U) : Nat :=
  s.trace.count (.queued .stop u)

def Obs.isHandledStop (u : U) : Obs U → Bool
  | .handled .stop w _ _ _ => w = u
  | _ => false

/-- The number of STOPs for `u` that the loop has handled. -/
def handledStops (s : Supervisor U) (u : U) : Nat :=
  s.trace.countP (·.isHandledStop u)

/-- No turn of the loop finds a STOP for `u` that is ENTERING with its `state.task` lost, and `u` is
removed only without an unfinished task. -/
def StopFindsTask (u : U) (s : Supervisor U) : Action U → Prop
  | .wake _ => (.stop, u) ∈ s.inFlight → (s.state u).status = .entering → (s.state u).task ≠ none
  | .removeUnit w => w = u → ¬ s.HasLive u
  | _ => True

instance (u : U) (s : Supervisor U) : (a : Action U) → Decidable (StopFindsTask u s a)
  | .wake _ => inferInstanceAs (Decidable ((.stop, u) ∈ s.inFlight →
      (s.state u).status = .entering → (s.state u).task ≠ none))
  | .removeUnit w => inferInstanceAs (Decidable (w = u → ¬ s.HasLive u))
  | .addUnit .. | .startUnit _ | .stopUnit .. | .setEvent _ | .clearEvent _ | .resume ..
  | .monitorStep | .helperStep _ | .supervise .. | .leave | .cancel | .stop =>
    inferInstanceAs (Decidable True)

/-! ### On views -/

def View.Starting (v : View U) : Prop :=
  v.registered ∧ (v.st.status = .entering ∨ v.st.pendingStart = true)

def View.queuedStops (v : View U) : Nat :=
  v.trace.count (.queued .stop v.ref.unit)

def View.handledStops (v : View U) : Nat :=
  v.trace.countP (·.isHandledStop v.ref.unit)

/-- The unit's enter was not called in the lifecycle. -/
def NoEnter (v : View U) : Prop :=
  ∀ t, .enter t v.ref.unit ∉ v.lifecycle

/-- Every STOP handled or on its way was queued. -/
def Counted (v : View U) : Prop :=
  v.handledStops + v.stops ≤ v.queuedStops

/-- The cancellation of the unit's task was requested while the unit was entering. -/
def View.Interrupted (v : View U) : Prop :=
  ∃ t, v.tasks t ≠ none ∧ .cancel t v.ref.unit .entering ∈ v.lifecycle

/-- A forced stop pending for a unit that is ENTERING has interrupted it, or some STOP was not
handled. -/
def Heeded (v : View U) : Prop :=
  v.st.status = .entering → v.st.pendingStop = true → v.st.forcePendingStop = true →
    v.Interrupted ∨ v.handledStops < v.queuedStops

section
variable {v v' : View U} {o x : Obs U}

theorem mem_lifecycle_of_cons (href : v'.ref.unit = v.ref.unit) (htrace : v'.trace = o :: v.trace)
    (h : x ∈ v'.lifecycle) : x = o ∨ x ∈ v.lifecycle := by
  unfold View.lifecycle at h ⊢
  rw [href, htrace, List.takeWhile_cons] at h
  split at h
  · exact List.mem_cons.1 h
  · cases h

theorem mem_lifecycle_cons (href : v'.ref.unit = v.ref.unit) (htrace : v'.trace = o :: v.trace)
    (ho : o ≠ .queued .start v.ref.unit) : x ∈ v'.lifecycle ↔ x = o ∨ x ∈ v.lifecycle := by
  unfold View.lifecycle
  rw [href, htrace, List.takeWhile_cons, if_pos (by simpa using ho), List.mem_cons]

theorem NoEnter.cons (h : NoEnter v) (href : v'.ref.unit = v.ref.unit)
    (htrace : v'.trace = o :: v.trace) (ho : ∀ t, o ≠ .enter t v.ref.unit) : NoEnter v' := by
  intro t ht
  rw [href] at ht
  rcases mem_lifecycle_of_cons href htrace ht with rfl | ht
  · exact ho t rfl
  · exact h t ht

theorem View.Interrupted.cons (h : v.Interrupted) (href : v'.ref.unit = v.ref.unit)
    (htrace : v'.trace = o :: v.trace) (ho : o ≠ .queued .start v.ref.unit)
    (htasks : ∀ t, v.tasks t ≠ none → v'.tasks t ≠ none) : v'.Interrupted := by
  obtain ⟨t, ht, hcancel⟩ := h
  refine ⟨t, htasks t ht, ?_⟩
  rw [href]
  exact (mem_lifecycle_cons href htrace ho).2 (.inr hcancel)

end

omit [DecidableEq U] in
theorem Function.update_ne_none {α β : Type} [DecidableEq α] {f : α → Option β} {a : α} {b : β}
    (x : α) (h : f x ≠ none) : Function.update f a (some b) x ≠ none := by
  by_cases hx : x = a
  · simp [hx]
  · simpa [Function.update_of_ne hx] using h

theorem Move.counted {l : Label} {v v' : View U} (h : Counted v) (hm : Move l v v') :
    Counted v' := by
  cases hm <;>
    simp [Counted, View.handledStops, View.queuedStops, Obs.isHandledStop] at h ⊢ <;> omega

theorem Move.heeded {l : Label} {v v' : View U} (hp : Placed v) (hc : Counted v) (h : Heeded v)
    (hfinds : (∃ c, l = .handle c) → v.stops ≠ 0 → v.st.status = .entering → v.st.task ≠ none)
    (hm : Move l v v') : Heeded v' := by
  intro hst hstop hforce
  cases hm with
  | add restart status hreg hoff => cases hstop
  | remove => exact h hst hstop hforce
  | queueStart | markReady | markStopped | enteredStopped | entered => cases hst
  | queueStop force hreg hnostop =>
    -- the STOP queued now is not handled yet
    right
    unfold Counted at hc
    have hskip : (Obs.queued .stop v.ref.unit).isHandledStop v.ref.unit = false := rfl
    simp only [View.handledStops, View.queuedStops, List.countP_cons, List.count_cons_self, hskip,
      Bool.false_eq_true, if_false] at hc ⊢
    omega
  | stopExiting hreg hexit => rw [hexit] at hst; cases hst
  | startTask t hn hreg htask hnone =>
    have hs := hp.queued (by omega)
    rw [hs.ready] at hst
    cases hst
  | startFailed e hn hbad => exact absurd hbad (hp.start_fine hn)
  | stopIgnored hn hreg hno => exact absurd (.inl ⟨hst, hforce⟩) hno
  | stopCancel t k hn hreg hcan htask hk =>
    left
    have hentering : v.st.status = .entering := hst
    exact ⟨t, by simp, by simp [View.lifecycle, hentering]⟩
  | stopFailed e hn hbad hreg =>
    refine absurd ?_ (hfinds ⟨_, rfl⟩ (by omega) hst)
    rcases hbad with hbad | hbad
    · exact (hp.idle_of_unregistered hbad).2.2.1
    · exact hbad.2
  | beginForced t k hk hpc =>
    left
    exact ⟨t, by simp, by simp [View.lifecycle]⟩
  | begin t k hk hpc hno => exact absurd ⟨hstop, hforce⟩ hno
  | toExit => cases hst
  | suspend t k hk =>
    apply (h hst hstop hforce).imp_left
    rintro ⟨t', ht', hcancel⟩
    exact ⟨t', Function.update_ne_none t' ht', hcancel⟩
  | finish => cases hstop
  | close t task hentry hnone htask => exact h hst hstop hforce
  | loseStart | loseStop => exact h hst hstop hforce

/-- A unit that waits for its task to begin has not entered in this lifecycle. -/
def Fresh (v : View U) : Prop :=
  v.st.status.isOff = true → v.st.pendingStart = true → NoEnter v

theorem Move.fresh {l : Label} {v v' : View U} (hp : Placed v) (h : Fresh v) (hm : Move l v v') :
    Fresh v' := by
  intro hoff' hps'
  cases hm with
  | add => cases hps'
  | queueStart =>
    -- the lifecycle begins here
    intro t ht
    simp [View.lifecycle] at ht
  | markReady hreg hstop hoff hps => exact h hoff hps
  | markStopped hreg hoff hps =>
    rw [show v.st.pendingStart = true from hps'] at hps
    cases hps
  | stopExiting hreg hexit =>
    rw [show v.st.status.isOff = Status.exiting.isOff from congrArg _ hexit] at hoff'
    cases hoff'
  | queueStop | startTask | startFailed | stopIgnored | stopFailed =>
    exact (h hoff' hps').cons rfl rfl (by simp)
  | stopCancel t k hn hreg hcan =>
    have hcancel : NoEnter { v with trace := .cancel t v.ref.unit v.st.status :: v.trace } :=
      (h hoff' hps').cons rfl rfl (by simp)
    exact hcancel.cons rfl rfl (by simp)
  | beginForced | begin | enteredStopped | entered | toExit => cases hoff'
  | remove | suspend | close | loseStart | loseStop => exact h hoff' hps'
  | finish t k val drop hk hpc =>
    have hps := (hp.live hk).exiting hpc
    rw [show v.st.pendingStart = true from hps'] at hps
    cases hps

/-- What stays of a forced stop for the rest of the lifecycle, the one begun by the `n`-th START:
the stop is pending, and no other STOP is queued. -/
def Pressed (n stops : Nat) (v : View U) : Prop :=
  n ≤ v.queuedStarts ∧ (v.queuedStarts = n → v.Starting → v.st.pendingStop = true ∧
    v.st.forcePendingStop = true ∧ v.queuedStops = stops)

theorem Move.pressed {l : Label} {v v' : View U} {n stops : Nat} (hp : Placed v)
    (h : Pressed n stops v) (hm : Move l v v') : Pressed n stops v' := by
  obtain ⟨hle, hpress⟩ := h
  have hsame (href : v'.ref.unit = v.ref.unit) (hstarts : v'.queuedStarts = v.queuedStarts)
      (hstops : v'.Starting → v.Starting ∧ (v.st.pendingStop = true → v.st.forcePendingStop = true →
        v'.st.pendingStop = true ∧ v'.st.forcePendingStop = true ∧ v'.queuedStops = v.queuedStops)) :
      Pressed n stops v' := by
    refine ⟨hstarts ▸ hle, ?_⟩
    intro hn hst
    obtain ⟨hst, hkeep⟩ := hstops hst
    obtain ⟨hstop, hforce, hcount⟩ := hpress (hstarts.symm.trans hn) hst
    have := hkeep hstop hforce
    exact ⟨this.1, this.2.1, this.2.2.trans hcount⟩
  cases hm with
  | add restart status hreg hoff =>
    apply hsame rfl rfl
    rintro ⟨-, hst | hps⟩
    · rw [show status = .entering from hst] at hoff
      cases hoff
    · cases hps
  | remove => exact hsame rfl rfl fun hst => hst.1.elim
  | queueStart =>
    -- another lifecycle
    simp only [Pressed, View.queuedStarts, List.count_cons_self] at hle ⊢
    exact ⟨by omega, fun hn => by omega⟩
  | markReady hreg hstop hoff hps =>
    apply hsame rfl rfl
    intro hst
    exact ⟨⟨hreg, .inr hps⟩, fun hstop hforce => ⟨hstop, hforce, rfl⟩⟩
  | queueStop force hreg hstop =>
    refine hsame rfl (List.count_cons_of_ne (by simp)) ?_
    intro hst
    refine ⟨hst, fun hpending _ => ?_⟩
    rw [hpending] at hstop
    cases hstop
  | markStopped hreg hoff hps =>
    apply hsame rfl rfl
    rintro ⟨-, hst | hst⟩
    · cases hst
    · rw [show v.st.pendingStart = true from hst] at hps
      cases hps
  | stopExiting hreg hexit =>
    apply hsame rfl rfl
    rintro ⟨-, hst | hst⟩
    · rw [show v.st.status = .entering from hst] at hexit
      cases hexit
    · exact ⟨⟨hreg, .inr hst⟩, fun _ hforce => ⟨rfl, hforce, rfl⟩⟩
  | startTask | startFailed | stopIgnored | stopFailed =>
    refine hsame rfl (List.count_cons_of_ne (by simp)) fun hst => ⟨hst, fun hstop hforce => ?_⟩
    exact ⟨hstop, hforce, List.count_cons_of_ne (by simp)⟩
  | stopCancel =>
    refine hsame rfl ?_ fun hst => ⟨hst, fun hstop hforce => ⟨hstop, hforce, ?_⟩⟩
    · simp [View.queuedStarts]
    · simp [View.queuedStops]
  | beginForced t k hk hpc | begin t k hk hpc =>
    have hs := hp.live hk
    refine hsame rfl (List.count_cons_of_ne (by simp)) fun hst => ?_
    refine ⟨⟨hs.live_registered, .inr (hs.created hpc)⟩, fun hstop hforce => ?_⟩
    exact ⟨hstop, hforce, List.count_cons_of_ne (by simp)⟩
  | enteredStopped | entered | toExit =>
    refine hsame rfl (List.count_cons_of_ne (by simp)) ?_
    rintro ⟨-, hst | hst⟩ <;> cases hst
  | suspend | close | loseStart | loseStop =>
    exact hsame rfl rfl fun hst => ⟨hst, fun hstop hforce => ⟨hstop, hforce, rfl⟩⟩
  | finish t k val drop hk hpc =>
    have hps := (hp.live hk).exiting hpc
    apply hsame rfl rfl
    rintro ⟨-, hst | hst⟩
    · simp only [State.cleaned] at hst
      split at hst <;> cases hst
    · rw [show v.st.pendingStart = true from hst] at hps
      cases hps

/-- For the rest of the lifecycle, the unit's enter is not called, and the unit is interrupted
before it enters. -/
def Unentered (n : Nat) (v : View U) : Prop :=
  v.queuedStarts = n → NoEnter v ∧ (v.st.status = .entering → v.Interrupted)

theorem Move.unentered {l : Label} {v v' : View U} {n stops : Nat} (hp : Placed v)
    (hpress : Pressed n stops v) (h : Unentered n v) (hm : Move l v v') : Unentered n v' := by
  -- the history grows by `o`, and the unit's task goes on
  have hcons (o : Obs U) (href : v'.ref.unit = v.ref.unit) (htrace : v'.trace = o :: v.trace)
      (hstart : o ≠ .queued .start v.ref.unit) (henter : ∀ t, o ≠ .enter t v.ref.unit)
      (hst : v'.st.status = .entering → v'.Interrupted ∨ v.st.status = .entering)
      (htasks : ∀ t, v.tasks t ≠ none → v'.tasks t ≠ none) : Unentered n v' := by
    intro hn
    have hcount : v'.queuedStarts = v.queuedStarts := by
      unfold View.queuedStarts
      rw [href, htrace, List.count_cons_of_ne hstart]
    obtain ⟨hnoenter, hinterrupted⟩ := h (hcount.symm.trans hn)
    refine ⟨hnoenter.cons href htrace henter, ?_⟩
    intro hentering
    apply (hst hentering).elim id
    intro hbefore
    exact (hinterrupted hbefore).cons href htrace hstart htasks
  cases hm with
  | add restart status hreg hoff =>
    intro hn
    refine ⟨(h hn).1, ?_⟩
    rintro rfl
    cases hoff
  | queueStart =>
    intro hn
    simp only [Pressed, View.queuedStarts, List.count_cons_self] at hpress hn
    omega
  | queueStop force hreg hstop hst => exact hcons _ rfl rfl (by simp) (by simp) .inr fun t ht => ht
  | startTask t hn hreg htask hnone =>
    exact hcons _ rfl rfl (by simp) (by simp) .inr fun t ht => Function.update_ne_none t ht
  | startFailed | stopIgnored | stopFailed =>
    exact hcons _ rfl rfl (by simp) (by simp) .inr fun t ht => ht
  | stopCancel t k hn hreg hcan htask hk =>
    intro hcount
    have hcount' : v.queuedStarts = n := by simpa [View.queuedStarts] using hcount
    obtain ⟨hnoenter, hinterrupted⟩ := h hcount'
    have hcancel : NoEnter { v with trace := .cancel t v.ref.unit v.st.status :: v.trace } :=
      hnoenter.cons rfl rfl (by simp)
    refine ⟨hcancel.cons rfl rfl (by simp), ?_⟩
    intro hst
    have hentering : v.st.status = .entering := hst
    exact ⟨t, by simp, by simp [View.lifecycle, hentering]⟩
  | beginForced t k hk hpc =>
    refine hcons _ rfl rfl (by simp) (by simp) ?_ fun t ht => Function.update_ne_none t ht
    intro _
    exact .inl ⟨t, by simp, by simp [View.lifecycle]⟩
  | begin t k hk hpc hno =>
    -- the task cancels itself instead
    intro hn
    have hs := hp.live hk
    have hcount : v.queuedStarts = n := (List.count_cons_of_ne (by simp)).symm.trans hn
    have := hpress.2 hcount ⟨hs.live_registered, .inr (hs.created hpc)⟩
    exact absurd ⟨this.1, this.2.1⟩ hno
  | enteredStopped | entered | toExit =>
    refine hcons _ rfl rfl (by simp) (by simp) ?_ fun t ht => Function.update_ne_none t ht
    intro hst
    cases hst
  | markReady | markStopped =>
    intro hn
    refine ⟨(h hn).1, ?_⟩
    intro hst
    cases hst
  | suspend t k hk =>
    intro hn
    refine ⟨(h hn).1, fun hst => ?_⟩
    obtain ⟨t', ht', hcancel⟩ := (h hn).2 hst
    exact ⟨t', Function.update_ne_none t' ht', hcancel⟩
  | finish =>
    intro hn
    refine ⟨(h hn).1, fun hst => ?_⟩
    simp only [State.cleaned] at hst
    split at hst <;> cases hst
  | stopExiting | remove | close | loseStart | loseStop => exact h

/-! ### On states -/

section
variable {s s' : Supervisor U} {u : U}

theorem queuedStops_view : s.queuedStops u = (s.view u).queuedStops := by
  simp [queuedStops, View.queuedStops, view, ref, Obs.unit]

theorem handledStops_view : s.handledStops u = (s.view u).handledStops := by
  unfold handledStops View.handledStops
  simp only [view, ref, List.countP_filter]
  apply List.countP_congr
  intro o _
  cases o with
  | handled c w => cases c <;> simp +contextual [Obs.isHandledStop, Obs.unit]
  | _ => simp [Obs.isHandledStop]

theorem interrupted_iff : (s.view u).Interrupted ↔
    ∃ t, s.Live t u ∧ .cancel t u .entering ∈ s.lifecycle u := by
  refine exists_congr fun t => ?_
  have hmem := mem_lifecycle s (o := .cancel t u .entering) (u := u) rfl
  rw [live_iff, hmem]
  rfl

/-- The handler finds the task of a unit that is ENTERING. -/
def FindsTask (v : View U) : Prop :=
  v.stops ≠ 0 → v.st.status = .entering → v.st.task ≠ none

omit [DecidableEq U] in
theorem Move.findsTask {c : Command} {v v' : View U} (hp : Placed v) (h : FindsTask v)
    (hm : Move (.handle c) v v') : FindsTask v' := by
  intro hstops hst
  cases hm with
  | queueStart hl => simp at hl
  | startTask t hn =>
    have hs := hp.queued (by omega)
    rw [hs.ready] at hst
    cases hst
  | startFailed => exact h hstops hst
  | stopIgnored hn | stopCancel t k hn | stopFailed e hn => exact h (by omega) hst

theorem step_kept {P : View U → Prop} {a : Action U} (hw : WFOn (· = u) s)
    (hok : StopFindsTask u s a) (hstep : step s a = some s')
    (hP : ∀ l v v', Placed v → P v → ((∃ c, l = .handle c) → FindsTask v) → Move l v v' → P v')
    (h : P (s.view u)) : P (s'.view u) := by
  refine stepOn_invariant (Q := FindsTask) hw rfl ?_ hstep ?_ ?_ ?_ h
  · rintro w rfl rfl t ht
    exact absurd (hw.hasLive ((s.live_iff t w).2 ht)) (hok rfl)
  · rintro order rfl hstops
    exact hok (List.count_pos_iff.1 (Nat.pos_of_ne_zero hstops))
  · exact fun c v v' hp hq hP' hm => ⟨hm.findsTask hp hq, hP _ v v' hp hP' (fun _ => hq) hm⟩
  · exact fun l v v' hl _ hp hP' hm => hP l v v' hp hP' (fun ⟨c, hc⟩ => absurd hc (hl c)) hm

theorem run_wf (hw : WFOn (· = u) s) (hrun : Reach step (StopFindsTask u) s s') :
    WFOn (· = u) s' := by
  refine hrun.invariant hw fun s a s' hw hok hstep => (stepOn_evolves hw ?_ hstep).wf
  rintro w rfl rfl t ht
  exact absurd (hw.hasLive ((s.live_iff t w).2 ht)) (hok rfl)

/-- The invariants of all runs. -/
structure Attentive (v : View U) : Prop where
  counted : Counted v
  heeded : Heeded v
  fresh : Fresh v

theorem Move.attentive {l : Label} {v v' : View U} (hp : Placed v) (h : Attentive v)
    (hfinds : (∃ c, l = .handle c) → FindsTask v) (hm : Move l v v') : Attentive v' :=
  ⟨hm.counted h.counted, hm.heeded hp h.counted h.heeded hfinds, hm.fresh hp h.fresh⟩

theorem run_kept {P : View U → Prop} (hw : WFOn (· = u) s)
    (hrun : Reach step (StopFindsTask u) s s')
    (hP : ∀ l v v', Placed v → P v → ((∃ c, l = .handle c) → FindsTask v) → Move l v v' → P v')
    (h : P (s.view u)) : P (s'.view u) := by
  refine hrun.invariant_of (P := fun s => P (s.view u)) (fun s hs => run_wf hw hs) h ?_
  exact fun s a s' hw h hok hstep => step_kept hw hok hstep hP h

theorem isStarting_eq_true : s.isStarting u = some true ↔
    u ∈ s.units ∧ (s.state u).status = .entering := by
  unfold isStarting
  split
  · next hu => simp [hu]
  · next hu => simp [not_not.1 hu]

omit [DecidableEq U] in
/-- A unit that is starting is ENTERING or waits, READY, for its task to begin. -/
theorem Placed.starting {v : View U} (hp : Placed v) (h : v.Starting) :
    v.st.status = .entering ∨ v.st.status = .ready ∧ v.st.pendingStart = true := by
  obtain ⟨slot, hs⟩ := hp
  cases slot with
  | idle =>
    have hoff := hs.isOff h.1
    have hps := hs.not_pendingStart h.1
    rcases h.2 with hst | hst
    · rw [hst] at hoff; cases hoff
    · rw [hst] at hps; cases hps
  | queued => exact .inr ⟨hs.ready, hs.pendingStart⟩
  | live t k =>
    have hfits := hs.pcFits
    have hst := h.2
    unfold PcFits at hfits
    split at hfits <;> simp_all

theorem stopUnitNowait_starting (hp : Placed (s.view u)) (hstart : s.Starting u) (force : Bool) :
    s.stopUnitNowait u force = (s.requestStop u force, true) := by
  unfold stopUnitNowait
  rw [if_neg (not_not.2 hstart.1)]
  rcases hp.starting hstart with hst | ⟨hst, hps⟩
  · rw [show (s.state u).status = .entering from hst]
  · rw [show (s.state u).status = .ready from hst, if_pos (show (s.state u).pendingStart from hps)]

/-- A stop that is pending already is left as it is, also by a forced one. -/
theorem escalation_ignored (hp : Placed (s.view u)) (hstart : s.Starting u)
    (hstop : (s.state u).pendingStop = true) : s.stopUnitNowait u true = (s, true) := by
  rw [stopUnitNowait_starting hp hstart, requestStop, if_pos hstop]

theorem requestStop_state (s : Supervisor U) (u : U) (force : Bool) :
    ((s.requestStop u force).state u).status = (s.state u).status ∧
      ((s.requestStop u force).state u).pendingStart = (s.state u).pendingStart := by
  unfold requestStop
  split
  · exact ⟨rfl, rfl⟩
  · rw [state_modify (r := s.ref u) (s.put .stop u) _ rfl]
    exact ⟨rfl, rfl⟩

theorem requestStop_pressed
    (hpending : (s.state u).pendingStop = true → (s.state u).forcePendingStop = true) :
    Pressed (s.queuedStarts u) ((s.requestStop u true).queuedStops u)
      ((s.requestStop u true).view u) := by
  rw [queuedStops_view, queuedStarts_view]
  unfold requestStop
  split
  · next hstop =>
    exact ⟨le_rfl, fun _ _ => ⟨hstop, hpending hstop, rfl⟩⟩
  · rw [view_modify_self (r := s.ref u) (s.put .stop u) _ rfl, view_put_stop]
    refine ⟨le_of_eq (List.count_cons_of_ne (by simp)).symm, fun _ _ => ⟨rfl, by simp, rfl⟩⟩

theorem reachable_attentive (h : Reachable (StopFindsTask u) s) :
    WFOn (· = u) s ∧ Attentive (s.view u) := by
  refine ⟨run_wf init_wf h, run_kept init_wf h (fun l v v' hp hP hq hm => hm.attentive hp hP hq) ?_⟩
  exact ⟨le_rfl, nofun, fun _ hps => by cases hps⟩

end

/-- **A forced stop interrupts the starting**, unless an unforced one is pending when it is
requested. In whatever happens after the call until the unit is started again: once every STOP that
was queued for the unit up to the call has been handled, a unit that is ENTERING was cancelled; and
if the unit had not begun to enter, its enter is never called and it cancels itself as it begins. -/
theorem forced_stop_interrupts {s s₁ s' : Supervisor U} {u : U}
    (h : Reachable (StopFindsTask u) s) (hstart : s.Starting u)
    (hpending : (s.state u).pendingStop = true → (s.state u).forcePendingStop = true)
    (hcall : s.stopUnitNowait u true = (s₁, true)) (hrun : Reach step (StopFindsTask u) s₁ s')
    (hsame : s'.queuedStarts u = s.queuedStarts u) :
    (s₁.queuedStops u ≤ s'.handledStops u → s'.isStarting u = some true →
        ∃ t, s'.Live t u ∧ .cancel t u .entering ∈ s'.lifecycle u) ∧
      (s.isStarting u = some false → (∀ t, .enter t u ∉ s'.lifecycle u) ∧
        (s'.isStarting u = some true →
          ∃ t, s'.Live t u ∧ .cancel t u .entering ∈ s'.lifecycle u)) := by
  obtain ⟨hw, hatt⟩ := reachable_attentive h
  have hp := hw.placed u rfl
  have hstep : step s (.stopUnit u true) = some s₁ := by simp [step, hcall]
  obtain rfl : s.requestStop u true = s₁ := by
    rw [stopUnitNowait_starting hp hstart] at hcall
    exact congrArg Prod.fst hcall
  have hw₁ : WFOn (· = u) (s.requestStop u true) := (stepOn_evolves hw (by simp) hstep).wf
  have hatt₁ : Attentive ((s.requestStop u true).view u) :=
    step_kept hw (a := .stopUnit u true) trivial hstep
      (fun l v v' hp hP hq hm => hm.attentive hp hP hq) hatt
  have hpress₁ := requestStop_pressed (u := u) hpending
  have hunentered₁ (hfresh : s.isStarting u = some false) :
      Unentered (s.queuedStarts u) ((s.requestStop u true).view u) := by
    have hst : (s.state u).status ≠ .entering := by simpa [isStarting, hstart.1] using hfresh
    obtain ⟨hready, hps⟩ := (hp.starting hstart).resolve_left hst
    obtain ⟨hstatus, hstarts⟩ := requestStop_state s u true
    have hready₁ : ((s.requestStop u true).view u).st.status = .ready := hstatus.trans hready
    refine fun _ => ⟨hatt₁.fresh (by rw [hready₁]; rfl) (hstarts.trans hps), fun hentering => ?_⟩
    rw [hready₁] at hentering
    cases hentering
  -- along the run
  obtain ⟨hatt', hpress', hunentered'⟩ := run_kept hw₁ hrun
    (P := fun v => Attentive v ∧
      Pressed (s.queuedStarts u) ((s.requestStop u true).queuedStops u) v ∧
        (s.isStarting u = some false → Unentered (s.queuedStarts u) v))
    (fun l v v' hp hP hq hm => ⟨hm.attentive hp hP.1 hq, hm.pressed hp hP.2.1,
      fun hfresh => hm.unentered hp hP.2.1 (hP.2.2 hfresh)⟩) ⟨hatt₁, hpress₁, hunentered₁⟩
  rw [queuedStarts_view] at hsame
  refine ⟨?_, ?_⟩
  · intro hhandled hst
    rw [isStarting_eq_true] at hst
    obtain ⟨hstop, hforce, hcount⟩ := hpress'.2 hsame ⟨hst.1, .inl hst.2⟩
    rw [handledStops_view, ← hcount] at hhandled
    apply interrupted_iff.1
    exact (hatt'.heeded hst.2 hstop hforce).resolve_right (by omega)
  · intro hfresh
    obtain ⟨hnoenter, hinterrupted⟩ := hunentered' hfresh hsame
    refine ⟨fun t ht => hnoenter t ((mem_lifecycle s' rfl).1 ht), fun hst => ?_⟩
    rw [isStarting_eq_true] at hst
    exact interrupted_iff.1 (hinterrupted hst.2)

/-- A unit that is entering is stopped by force, twice. -/
theorem forced_stop_interrupts_twice :
    ∃ s₁ s' : Supervisor Nat, s₁.queuedStops 0 ≤ s'.handledStops 0 ∧
      s'.isStarting 0 = some true ∧ ∃ t, s'.Live t 0 ∧ .cancel t 0 .entering ∈ s'.lifecycle 0 := by
  obtain ⟨s, hs, hstart, hpending, hcall, hrun⟩ := Reach.exists_of_runIn step (StopFindsTask 0)
    (init Nat)
    [.addUnit 0 true false, .supervise [] .firstEventOrUnit, .monitorStep, .wake [],
      .resume 0 .suspend, .stopUnit 0 true]
    (p := fun s => s.Starting 0 ∧
      ((s.state 0).pendingStop = true → (s.state 0).forcePendingStop = true) ∧
      (s.stopUnitNowait 0 true).2 = true ∧
      (runIn step (StopFindsTask 0) (s.stopUnitNowait 0 true).1 [.monitorStep, .wake []]).any
        (fun s' => decide (s'.queuedStarts 0 = s.queuedStarts 0 ∧
          (s.stopUnitNowait 0 true).1.queuedStops 0 ≤ s'.handledStops 0 ∧
          s'.isStarting 0 = some true)) = true) (by decide +kernel)
  obtain ⟨s', hs', hsame, hhandled, hst⟩ := Reach.exists_of_runIn _ _ _ _
    (p := fun s' : Supervisor Nat => s'.queuedStarts 0 = s.queuedStarts 0 ∧
      (s.stopUnitNowait 0 true).1.queuedStops 0 ≤ s'.handledStops 0 ∧
      s'.isStarting 0 = some true) hrun
  have hforced := forced_stop_interrupts hs hstart hpending (Prod.ext rfl hcall) hs' hsame
  exact ⟨_, s', hhandled, hst, hforced.1 hhandled hst⟩

def Obs.isCancel : Obs U → Bool
  | .cancel .. => true
  | _ => false

/-- A unit is stopped while it enters, then stopped by force: the STOP is handled and the unit goes
on entering. -/
theorem forced_stop_ignored :
    ∃ s s' : Supervisor Nat, Reachable KeepsUnits s ∧ s.Starting 0 ∧
      (s.stopUnitNowait 0 true).2 = true ∧ Reach step KeepsUnits (s.stopUnitNowait 0 true).1 s' ∧
      s'.queuedStarts 0 = s.queuedStarts 0 ∧ s'.inFlight = [] ∧ s'.isStarting 0 = some true ∧
      ∀ o ∈ s'.trace, o.isCancel = false := by
  obtain ⟨s, hs, hstart, hcall, hrun⟩ := Reach.exists_of_runIn step KeepsUnits (init Nat)
    [.addUnit 0 true false, .supervise [] .firstEventOrUnit, .monitorStep, .wake [],
      .resume 0 .suspend, .stopUnit 0 false]
    (p := fun s => s.Starting 0 ∧ (s.stopUnitNowait 0 true).2 = true ∧
      (runIn step KeepsUnits (s.stopUnitNowait 0 true).1 [.monitorStep, .wake []]).any
        (fun s' => decide (s'.queuedStarts 0 = s.queuedStarts 0 ∧ s'.inFlight = [] ∧
          s'.isStarting 0 = some true ∧ ∀ o ∈ s'.trace, o.isCancel = false)) = true)
    (by decide +kernel)
  obtain ⟨s', hs', hidle⟩ := Reach.exists_of_runIn _ _ _ _
    (p := fun s' : Supervisor Nat => s'.queuedStarts 0 = s.queuedStarts 0 ∧ s'.inFlight = [] ∧
      s'.isStarting 0 = some true ∧ ∀ o ∈ s'.trace, o.isCancel = false) hrun
  exact ⟨s, s', hs, hstart, hcall, hs', hidle⟩

end Silkjam.Supervisor
