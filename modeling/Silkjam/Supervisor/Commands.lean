import Silkjam.Supervisor.Simulation

/-!
# Handling commands

What the command handler can find. A START is on its way only for a unit that waits for it, so
handling it never fails (`start_accounting`). A STOP is different: the unit may finish by itself, or
reach its exit, while the STOP is still queued, and the handler does not expect that. It raises for
a unit that is not running any more (`stop_handled_idle`) and cancels a unit in its exit
(`stop_cancels_exit`). Where every turn of the loop finds the stopped units still in the phase in
which they can be stopped, neither happens (`stop_handled_fine`, `exit_uninterrupted`).
-/

namespace Silkjam.Supervisor

open Transition

variable {U : Type} [DecidableEq U]

/-! ### Invariants of the history -/

/-- Every entry of the history is fine if those are that the moves make; the ones made for commands
may use `Q`, which holds when a turn of the loop begins. -/
theorem history_fine {ok : Supervisor U → Action U → Prop} {F : Obs U → Prop}
    {Q : View U → Prop} {s : Supervisor U} (h : Reachable ok s)
    (hremove : ∀ s u, WF s → ok s (.removeUnit u) → Registered (s.view u))
    (hturn : ∀ s order u, ok s (.wake order) → Q (s.view u))
    (hhandle : ∀ c v v', Placed v → Q v → Move (.handle c) v v' →
      Q v' ∧ ∀ o ∈ v'.trace, o ∈ v.trace ∨ F o)
    (hother : ∀ l v v', (∀ c, l ≠ .handle c) → Move l v v' → ∀ o ∈ v'.trace, o ∈ v.trace ∨ F o) :
    ∀ o ∈ s.trace, F o := by
  have hviews : ∀ u, ∀ o ∈ (s.view u).trace, F o := by
    refine h.invariant_of (P := fun s => ∀ u, ∀ o ∈ (s.view u).trace, F o)
      (fun s hs => Reachable.wf_of hs hremove) (fun u o ho => by cases ho) ?_
    intro s a s' hw hP hok hstep u
    have hr (w : U) (ha : a = .removeUnit w) := hremove s w hw (ha ▸ hok)
    refine step_invariant (P := fun v => ∀ o ∈ v.trace, F o) hw hr hstep
      (fun order ha => hturn s order u (ha ▸ hok)) ?_ ?_ (hP u)
    · intro c v v' hp hq hP hm
      have := hhandle c v v' hp hq hm
      exact ⟨this.1, fun o ho => (this.2 o ho).elim (hP o) id⟩
    · exact fun l v v' hl _ _ hP hm o ho => (hother l v v' hl hm o ho).elim (hP o) id
  exact fun o ho => hviews o.unit o (by simpa [view] using ho)

omit [DecidableEq U] in
theorem Move.history_other {l : Label} {v v' : View U} (hl : ∀ c, l ≠ .handle c) (hm : Move l v v') :
    ∀ o ∈ v'.trace, o ∈ v.trace ∨ (∀ c u reg task err, o ≠ .handled c u reg task err) ∧
      ∀ t u, o ≠ .cancel t u .exiting := by
  intro o ho
  cases hm with
  | startTask | startFailed | stopIgnored | stopCancel | stopFailed => exact absurd rfl (hl _)
  | add | remove | markReady | markStopped | stopExiting | suspend | finish | close | loseStart
  | loseStop => exact .inl ho
  | queueStart | queueStop | beginForced | begin | enteredStopped | entered | toExit =>
    rcases List.mem_cons.1 ho with rfl | ho
    · exact .inr ⟨nofun, nofun⟩
    · exact .inl ho

/-! ### STARTs -/

/-- A START that was handled did not fail. -/
def Obs.startFine : Obs U → Prop
  | .handled .start _ reg task err => reg = true ∧ task = none ∧ err = none
  | _ => True

omit [DecidableEq U] in
theorem Move.start_fine {c : Command} {v v' : View U} (hp : Placed v) (hm : Move (.handle c) v v') :
    ∀ o ∈ v'.trace, o ∈ v.trace ∨ o.startFine := by
  intro o ho
  cases hm with
  | queueStart hl => simp at hl
  | startTask =>
    rcases List.mem_cons.1 ho with rfl | ho
    · exact .inr ⟨rfl, rfl, rfl⟩
    · exact .inl ho
  | startFailed e hn hbad => exact absurd hbad (hp.start_fine hn)
  | stopIgnored | stopFailed =>
    rcases List.mem_cons.1 ho with rfl | ho
    · exact .inr trivial
    · exact .inl ho
  | stopCancel =>
    rcases List.mem_cons.1 ho with rfl | ho
    · exact .inr trivial
    · rcases List.mem_cons.1 ho with rfl | ho
      · exact .inr trivial
      · exact .inl ho

/-- **Start accounting.** In every state reached without removing units: at most one START for a
unit is on its way to the handler, its `pending_start` is then set, no START that was handled
failed, and at most one lifecycle of the unit is live. -/
theorem start_accounting {s : Supervisor U} (h : Reachable KeepsUnits s) (u : U) :
    s.inFlight.count (.start, u) ≤ 1 ∧
      ((.start, u) ∈ s.inFlight → (s.state u).pendingStart = true) ∧
      (∀ reg task err, .handled .start u reg task err ∈ s.trace →
        reg = true ∧ task = none ∧ err = none) ∧
      ∀ t t', s.Live t u → s.Live t' u → t = t' := by
  have hp := (Reachable.wf h).placed u
  refine ⟨?_, ?_, ?_, ?_⟩
  · by_cases hn : (s.view u).starts = 0
    · exact hn.trans_le (Nat.zero_le 1)
    · exact (hp.queued hn).1
  · intro hmem
    have hn : (s.view u).starts ≠ 0 := (List.count_pos_iff.2 hmem).ne'
    exact (hp.queued hn).pendingStart
  · intro reg task err hmem
    refine history_fine (Q := fun _ => True) (F := Obs.startFine) h (fun s u _ hok => by cases hok)
      (fun _ _ _ _ => trivial) (fun c v v' hp _ hm => ⟨trivial, hm.start_fine hp⟩) ?_ _ hmem
    intro l v v' hl hm o ho
    apply (hm.history_other hl o ho).imp_right
    intro ho
    unfold Obs.startFine
    split
    · exact (ho.1 _ _ _ _ _ rfl).elim
    · trivial
  · intro t t' ht ht'
    exact hp.live_unique ((s.live_iff t u).1 ht) ((s.live_iff t' u).1 ht')

theorem start_accounting_restart :
    ∃ s : Supervisor Nat, Reachable KeepsUnits s ∧ s.inFlight = [(.start, 0)] ∧
      .handled .start 0 true none none ∈ s.trace ∧ (s.state 0).pendingStart = true := by
  -- unit 0 runs through one lifecycle and is restarted
  obtain ⟨s, hs, hflight, htrace⟩ := Reach.exists_of_runIn step KeepsUnits (init Nat)
    [.addUnit 0 true false, .supervise [] .firstEvent, .monitorStep, .wake [], .resume 0 .suspend,
      .resume 0 (.ok .none), .resume 0 (.ok .none), .monitorStep, .resume 0 (.ok .none), .wake [0]]
    (p := fun s => s.inFlight = [(.start, 0)] ∧ Obs.handled .start 0 true none none ∈ s.trace)
    (by decide +kernel)
  exact ⟨s, hs, hflight, htrace, (start_accounting hs 0).2.1 (by simp [hflight])⟩

/-! ### STOPs of units that are not running -/

/-- The unit's `state.task` is an unfinished task. -/
def HasTask (s : Supervisor U) (u : U) : Prop :=
  ∃ t, (s.state u).task = some t ∧ s.Live t u

instance (s : Supervisor U) (u : U) : Decidable (HasTask s u) :=
  match h : (s.state u).task with
  | none => .isFalse fun ⟨_, ht, _⟩ => by simp [h] at ht
  | some t => decidable_of_iff (s.Live t u)
    ⟨fun hl => ⟨t, h, hl⟩, fun ⟨t', ht', hl⟩ => by rw [h] at ht'; cases ht'; exact hl⟩

/-- The unit waits for its START. -/
def Waits (s : Supervisor U) (u : U) : Prop :=
  u ∈ s.units ∧ (s.state u).status = .ready ∧ (s.state u).pendingStart = true

instance (s : Supervisor U) (u : U) : Decidable (Waits s u) :=
  inferInstanceAs (Decidable (_ ∧ _))

/-- Each turn of the loop finds every STOP on its way to belong to a unit that waits for its START
or has its task, and a unit is removed when it has no unfinished task. -/
def StopsOnTime (s : Supervisor U) : Action U → Prop
  | .wake _ => ∀ c ∈ s.inFlight, c.1 = .stop → s.Waits c.2 ∨ s.HasTask c.2
  | .removeUnit u => ¬ s.HasLive u
  | _ => True

instance (s : Supervisor U) : (a : Action U) → Decidable (StopsOnTime s a)
  | .wake _ => inferInstanceAs (Decidable (∀ c ∈ s.inFlight, c.1 = .stop → s.Waits c.2 ∨ s.HasTask c.2))
  | .removeUnit u => inferInstanceAs (Decidable (¬ s.HasLive u))
  | .addUnit .. | .startUnit _ | .stopUnit .. | .setEvent _ | .clearEvent _ | .resume ..
  | .monitorStep | .helperStep _ | .supervise .. | .leave | .cancel | .stop => inferInstanceAs (Decidable True)

/-- A STOP that was handled did not fail. -/
def Obs.stopFine : Obs U → Prop
  | .handled .stop _ _ _ err => err = none
  | _ => True

/-- Each STOP on its way belongs to a unit that waits for its START or has its task. -/
def StopDue (v : View U) : Prop :=
  v.stops ≠ 0 → (v.registered ∧ v.st.status = .ready ∧ v.st.pendingStart = true) ∨
    ∃ t, v.st.task = some t ∧ v.tasks t ≠ none

omit [DecidableEq U] in
/-- Handling a command keeps the STOPs due, and one that is due does not fail. -/
theorem Move.stop_fine {c : Command} {v v' : View U} (hp : Placed v) (hq : StopDue v)
    (hm : Move (.handle c) v v') : StopDue v' ∧ ∀ o ∈ v'.trace, o ∈ v.trace ∨ o.stopFine := by
  cases hm with
  | queueStart hl => simp at hl
  | startTask t hn hreg htask hnone =>
    refine ⟨fun _ => .inr ⟨t, rfl, by simp⟩, ?_⟩
    intro o ho
    rcases List.mem_cons.1 ho with rfl | ho
    · exact .inr trivial
    · exact .inl ho
  | startFailed e hn hbad => exact absurd hbad (hp.start_fine hn)
  | stopIgnored hn hreg hno =>
    refine ⟨fun _ => hq (by omega), ?_⟩
    intro o ho
    rcases List.mem_cons.1 ho with rfl | ho
    · exact .inr rfl
    · exact .inl ho
  | stopCancel t k hn hreg hcan htask hk =>
    refine ⟨fun _ => .inr ⟨t, htask, by simp⟩, ?_⟩
    intro o ho
    rcases List.mem_cons.1 ho with rfl | ho
    · exact .inr rfl
    · rcases List.mem_cons.1 ho with rfl | ho
      · exact .inr trivial
      · exact .inl ho
  | stopFailed e hn hbad =>
    -- the unit waits for its START, which the handler leaves alone, or has its task
    exfalso
    rcases hq (by omega) with ⟨hreg, hst, hps⟩ | ⟨t, htask, hlive⟩
    · rcases hbad with hbad | ⟨hcan | hcan, -⟩
      · exact hbad hreg
      · simp [hst] at hcan
      · exact hcan.2 hps
    · obtain ⟨k, hk⟩ := Option.ne_none_iff_exists'.1 hlive
      rcases hbad with hbad | ⟨-, hnone⟩
      · exact hbad (hp.live hk).live_registered
      · rw [htask] at hnone; cases hnone

theorem registered_of_idle (s : Supervisor U) (u : U) (hw : WF s) (h : ¬ s.HasLive u) :
    Registered (s.view u) := by
  intro t ht
  exact absurd (hw.hasLive ((s.live_iff t u).2 ht)) h

/-- **No STOP fails** in the runs in which every turn of the loop finds it on time. -/
theorem stop_handled_fine {s : Supervisor U} (h : Reachable StopsOnTime s) :
    ∀ u reg task err, .handled .stop u reg task err ∈ s.trace → err = none := by
  intro u reg task err hmem
  refine history_fine (Q := StopDue) (F := Obs.stopFine) h registered_of_idle ?_
    (fun c v v' hp hq hm => hm.stop_fine hp hq) ?_ _ hmem
  · intro s order u hok hn
    have hmem : (.stop, u) ∈ s.inFlight := List.count_pos_iff.1 (Nat.pos_of_ne_zero hn)
    apply (hok _ hmem rfl).imp id
    rintro ⟨t, htask, hlive⟩
    exact ⟨t, htask, (s.live_iff t u).1 hlive⟩
  · intro l v v' hl hm o ho
    apply (hm.history_other hl o ho).imp_right
    intro ho
    unfold Obs.stopFine
    split
    · exact (ho.1 _ _ _ _ _ rfl).elim
    · trivial

theorem stop_handled_fine_running :
    ∃ s : Supervisor Nat, Reachable StopsOnTime s ∧
      .handled .stop 0 true (some 0) none ∈ s.trace ∧
      ∀ u reg task err, .handled .stop u reg task err ∈ s.trace → err = none := by
  obtain ⟨s, hs, htrace⟩ := Reach.exists_of_runIn step StopsOnTime (init Nat)
    [.addUnit 0 true false, .supervise [] .firstEventOrUnit, .monitorStep, .wake [],
      .resume 0 .suspend, .resume 0 (.ok .none), .stopUnit 0 false, .monitorStep, .wake []]
    (p := fun s => Obs.handled .stop 0 true (some 0) none ∈ s.trace) (by decide +kernel)
  exact ⟨s, hs, htrace, stop_handled_fine hs⟩

/-- A STOP is queued for a running unit, which then finishes by itself before the STOP is
handled. -/
theorem stop_handled_idle :
    ∃ s : Supervisor Nat, Reachable KeepsUnits s ∧
      .handled .stop 0 true none (some (.runtimeError 0 "is not running")) ∈ s.trace :=
  Reach.exists_of_runIn _ _ _
    [.addUnit 0 false false, .supervise [] .firstEventOrUnit, .monitorStep, .wake [],
      .resume 0 .suspend, .resume 0 (.ok .none), .stopUnit 0 false, .resume 0 (.ok .none),
      .resume 0 (.ok .none), .monitorStep, .wake [0]] (by decide +kernel)

/-! ### STOPs of units in their exit -/

/-- No turn of the loop finds a STOP for a unit that is EXITING, and a unit is removed when it has
no unfinished task. -/
def StopsBeforeExit (s : Supervisor U) : Action U → Prop
  | .wake _ => ∀ c ∈ s.inFlight, c.1 = .stop → (s.state c.2).status ≠ .exiting
  | .removeUnit u => ¬ s.HasLive u
  | _ => True

instance (s : Supervisor U) : (a : Action U) → Decidable (StopsBeforeExit s a)
  | .wake _ => inferInstanceAs (Decidable (∀ c ∈ s.inFlight, c.1 = .stop → (s.state c.2).status ≠ .exiting))
  | .removeUnit u => inferInstanceAs (Decidable (¬ s.HasLive u))
  | .addUnit .. | .startUnit _ | .stopUnit .. | .setEvent _ | .clearEvent _ | .resume ..
  | .monitorStep | .helperStep _ | .supervise .. | .leave | .cancel | .stop => inferInstanceAs (Decidable True)

/-- A cancellation does not fall into the exit. -/
def Obs.spares : Obs U → Prop
  | .cancel _ _ status => status ≠ .exiting
  | _ => True

omit [DecidableEq U] in
theorem Move.spares {c : Command} {v v' : View U} (hq : v.stops ≠ 0 → v.st.status ≠ .exiting)
    (hm : Move (.handle c) v v') :
    (v'.stops ≠ 0 → v'.st.status ≠ .exiting) ∧ ∀ o ∈ v'.trace, o ∈ v.trace ∨ o.spares := by
  cases hm with
  | queueStart hl => simp at hl
  | startTask | startFailed =>
    refine ⟨hq, ?_⟩
    intro o ho
    rcases List.mem_cons.1 ho with rfl | ho
    · exact .inr trivial
    · exact .inl ho
  | stopIgnored hn | stopFailed e hn =>
    refine ⟨fun _ => hq (by omega), ?_⟩
    intro o ho
    rcases List.mem_cons.1 ho with rfl | ho
    · exact .inr trivial
    · exact .inl ho
  | stopCancel t k hn =>
    have hst := hq (by omega)
    refine ⟨fun _ => hst, ?_⟩
    intro o ho
    rcases List.mem_cons.1 ho with rfl | ho
    · exact .inr trivial
    · rcases List.mem_cons.1 ho with rfl | ho
      · exact .inr hst
      · exact .inl ho

/-- **The exit is not interrupted** in the runs in which no turn of the loop finds a STOP for a unit
that is EXITING. -/
theorem exit_uninterrupted {s : Supervisor U} (h : Reachable StopsBeforeExit s) :
    ∀ t u, .cancel t u .exiting ∉ s.trace := by
  intro t u hmem
  refine history_fine (Q := fun v => v.stops ≠ 0 → v.st.status ≠ .exiting) (F := Obs.spares) h
    registered_of_idle ?_ (fun c v v' _ hq hm => hm.spares hq) ?_ _ hmem rfl
  · intro s order u hok hn
    exact hok _ (List.count_pos_iff.1 (Nat.pos_of_ne_zero hn)) rfl
  · intro l v v' hl hm o ho
    apply (hm.history_other hl o ho).imp_right
    intro ho
    unfold Obs.spares
    split
    · rintro rfl; exact ho.2 _ _ rfl
    · trivial

theorem exit_uninterrupted_stop :
    ∃ s : Supervisor Nat, Reachable StopsBeforeExit s ∧ .cancel 0 0 .running ∈ s.trace ∧
      .exit 0 0 ∈ s.trace ∧ ∀ t u, .cancel t u .exiting ∉ s.trace := by
  obtain ⟨s, hs, htrace⟩ := Reach.exists_of_runIn step StopsBeforeExit (init Nat)
    [.addUnit 0 true false, .supervise [] .firstEventOrUnit, .monitorStep, .wake [],
      .resume 0 .suspend, .resume 0 (.ok .none), .stopUnit 0 false, .monitorStep, .wake [],
      .resume 0 (.raise .cancelled)]
    (p := fun s => Obs.cancel 0 0 .running ∈ s.trace ∧ Obs.exit 0 0 ∈ s.trace) (by decide +kernel)
  exact ⟨s, hs, htrace.1, htrace.2, exit_uninterrupted hs⟩

/-- A STOP is queued for a running unit, whose run then returns by itself; the STOP cancels its
exit. -/
theorem stop_cancels_exit :
    ∃ s : Supervisor Nat, Reachable KeepsUnits s ∧ .cancel 0 0 .exiting ∈ s.trace :=
  Reach.exists_of_runIn _ _ _
    [.addUnit 0 false false, .supervise [] .firstEventOrUnit, .monitorStep, .wake [],
      .resume 0 .suspend, .resume 0 (.ok .none), .stopUnit 0 false, .resume 0 (.ok .none),
      .monitorStep, .wake []] (by decide +kernel)

end Silkjam.Supervisor
