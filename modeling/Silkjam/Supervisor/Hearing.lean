import Silkjam.Supervisor.Completions
import Silkjam.Supervisor.Events

/-!
# What the loop hears of events

The loop learns of an event from the task that awaits `event.wait()`, which is woken as the event is
set and goes on although the event is cleared again. A segment of a unit task sets at most one
event: that its unit is done entering, or done exiting (`runSegment_rung`). An event in
`done_events` was therefore set in some state since the call began (`Heard`).
-/

namespace Silkjam.Supervisor

open Transition

variable {U : Type} [DecidableEq U]

/-- The call in progress. -/
def Loop.call : Loop U → Option (Call U)
  | .waiting c | .leaving c _ => some c
  | .idle => none

/-- The tasks waiting for `e` are woken. -/
def Loop.notify (l : Loop U) (e : EventRef U) : Loop U :=
  match l with
  | .waiting c => .waiting (c.notify e)
  | l => l

/-- The task was woken by its event, or found it set. -/
def Helper.heard : Helper → Bool
  | .notified | .done => true
  | .fresh | .waiting => false

/-- From `s` to `s'` the events `l` were set, and they are set still. -/
structure Rung (s s' : Supervisor U) (l : List (EventRef U)) : Prop where
  loop : s'.loop = l.foldl Loop.notify s.loop
  rung : ∀ e ∈ l, s'.events e = true
  set : ∀ e, s'.events e = true → s.events e = true ∨ e ∈ l

section
variable {s s' s'' : Supervisor U} {l l' : List (EventRef U)} {r : StateRef U} {t : TaskId}
  {k : UnitTask U} {o : Outcome U}

/-! ### Segments -/

theorem Rung.of_eq (hloop : s'.loop = s.loop) (hevents : s'.events = s.events) : Rung s s' [] :=
  ⟨hloop, nofun, fun e he => .inl (by rw [← hevents]; exact he)⟩

theorem rung_setEvent (s : Supervisor U) (e : EventRef U) : Rung s (s.setEvent e) [e] := by
  refine ⟨rfl, ?_, ?_⟩
  · intro e' he'
    rw [List.mem_singleton.1 he']
    exact Function.update_self ..
  · intro e' he'
    by_cases h : e' = e
    · exact .inr (List.mem_singleton.2 h)
    · refine .inl ?_
      have hset : Function.update s.events e true e' = true := he'
      rwa [Function.update_of_ne h] at hset

theorem Rung.trans (h : Rung s s' l) (h' : Rung s' s'' l') (hkeep : ∀ e ∈ l, s''.events e = true) :
    Rung s s'' (l ++ l') := by
  refine ⟨?_, ?_, ?_⟩
  · rw [h'.loop, h.loop, List.foldl_append]
  · intro e he
    rcases List.mem_append.1 he with he | he
    · exact hkeep e he
    · exact h'.rung e he
  · intro e he
    rcases h'.set e he with he | he
    · exact (h.set e he).imp_right fun he => List.mem_append_left _ he
    · exact .inr (List.mem_append_right _ he)

theorem Rung.clear (h : Rung s s' l) {e : EventRef U} (he : e ∉ l) :
    Rung s (s'.clearEvent e) l := by
  refine ⟨h.loop, ?_, ?_⟩
  · intro e' he'
    have hne : e' ≠ e := fun hee => he (hee ▸ he')
    show Function.update s'.events e false e' = true
    rw [Function.update_of_ne hne]
    exact h.rung e' he'
  · intro e' he'
    have hset : Function.update s'.events e false e' = true := he'
    have hne : e' ≠ e := by
      rintro rfl
      rw [Function.update_self] at hset
      cases hset
    rw [Function.update_of_ne hne] at hset
    exact h.set e' hset

/-- What happens to the loop and the events does not depend on the rest of the state. -/
theorem Rung.congr (h : Rung s s' l) (hloop : s''.loop = s.loop) (hevents : s''.events = s.events) :
    Rung s'' s' l :=
  ⟨by rw [h.loop, hloop], h.rung, fun e he => by rw [hevents]; exact h.set e he⟩

theorem Rung.congr_right (h : Rung s s' l) (hloop : s''.loop = s'.loop)
    (hevents : s''.events = s'.events) : Rung s s'' l :=
  ⟨by rw [hloop, h.loop], fun e he => by rw [hevents]; exact h.rung e he,
    fun e he => h.set e (by rw [← hevents]; exact he)⟩

theorem exitUnit_rung : Rung s (s.exitUnit t r) [.doneEntering r] :=
  (rung_setEvent s (.doneEntering r)).congr_right rfl rfl

theorem phaseFailed_rung (e : Exc U) : Rung s (s.phaseFailed t r e) [.doneEntering r] :=
  exitUnit_rung.congr rfl rfl

theorem setEntering_rung : Rung s (s.setEntering r) [] := by
  have hclear : Rung s ((s.clearEvent (.doneEntering r)).clearEvent (.doneExiting r)) [] :=
    ((Rung.of_eq rfl rfl).clear (by simp)).clear (by simp)
  exact hclear.congr_right rfl rfl

theorem stopUnit_rung {u : U} (h : s.stopUnit u = .ok s') : Rung s s' [] := by
  refine .of_eq ?_ (stopUnit_events u h)
  unfold stopUnit at h
  split at h
  · cases h
  · split at h
    · cases h
    · cases h
      rfl

theorem beginUnit_rung (u : U) :
    ∃ l, Rung s (s.beginUnit t u) l ∧ ∀ e ∈ l, e = .doneEntering (s.ref u) := by
  have hentering : Rung s (s.setEntering (s.ref u)) [] := setEntering_rung
  unfold beginUnit
  split
  · exact ⟨[], .of_eq rfl rfl, by simp⟩
  · dsimp only
    split
    · split
      · next e _ =>
        exact ⟨_, hentering.trans (phaseFailed_rung e) (by simp), by simp⟩
      · next s₁ hstop =>
        exact ⟨_, (hentering.trans (stopUnit_rung hstop) (by simp)).congr_right rfl rfl, by simp⟩
    · exact ⟨_, hentering.congr_right rfl rfl, by simp⟩

theorem setRunning_rung : Rung s (s.setRunning r) [.doneEntering r] :=
  (rung_setEvent s (.doneEntering r)).congr_right rfl rfl

theorem unitEntered_rung :
    ∃ l, Rung s (s.unitEntered t r) l ∧ ∀ e ∈ l, e = .doneEntering r := by
  have hrunning : Rung s (s.setRunning r) [.doneEntering r] := setRunning_rung
  unfold unitEntered
  dsimp only
  split
  · split
    · next e _ =>
      have hfailed : Rung (s.setRunning r) ((s.setRunning r).phaseFailed t r e) [.doneEntering r] :=
        phaseFailed_rung e
      exact ⟨_, hrunning.trans hfailed fun e he => hfailed.rung e he, by simp⟩
    · next s₁ hstop =>
      have hstopped := stopUnit_rung hstop
      refine ⟨_, (hrunning.trans hstopped ?_).congr_right rfl rfl, by simp⟩
      intro e he
      rw [stopUnit_events _ hstop]
      exact hrunning.rung e he
  · exact ⟨_, hrunning.congr_right rfl rfl, by simp⟩

theorem setExited_rung : Rung s (s.setExited r) [.doneExiting r] :=
  (rung_setEvent s (.doneExiting r)).congr_right rfl rfl

theorem cleanupDone_rung (h : Rung s s' [.doneExiting r]) :
    Rung s (s'.cleanupDone t r) [.doneExiting r] := by
  have hclear : Rung s (s'.clearEvent (.doneEntering r)) [.doneExiting r] := h.clear (by simp)
  exact hclear.congr_right rfl rfl

theorem cleanup_rung : Rung s (s.cleanup t r) [.doneExiting r] := by
  have hexited : Rung s (s.setExited r) [.doneExiting r] := setExited_rung
  unfold cleanup
  dsimp only
  split
  · exact cleanupDone_rung hexited
  · split
    · exact hexited.congr_right rfl rfl
    · split
      · exact cleanupDone_rung (hexited.congr_right rfl rfl)
      · exact hexited.congr_right rfl rfl

theorem cleanup_isOff : ((s.cleanup t r).heap r).status.isOff = true := by
  have hexited : ((s.setExited r).heap r).status.isOff = true := by
    simp only [setExited, modify, Function.update_self]
    split <;> rfl
  have hdone (s : Supervisor U) (h : (s.heap r).status.isOff = true) :
      ((s.cleanupDone t r).heap r).status.isOff = true := by
    show (Function.update s.heap r _ r).status.isOff = true
    rw [Function.update_self]
    exact h
  unfold cleanup
  dsimp only
  split
  · exact hdone _ hexited
  · split
    · exact hexited
    · split
      · exact hdone _ hexited
      · exact hexited

/-- **A segment sets the event of the phase that it ends**: the end of the exit `done_exiting`, any
other segment `done_entering` or none. -/
theorem runSegment_rung (h : s.runSegment t k o = some s') :
    ∃ l, Rung s s' l ∧ ∀ e ∈ l, (∃ r, e = .doneEntering r) ∨
      ∃ r, e = .doneExiting r ∧ k.pc = .exiting r ∧ (s'.heap r).status.isOff = true := by
  have hentering {s' : Supervisor U} {l : List (EventRef U)}
      (hr : Rung (s.clearCancel t) s' l) (hl : ∀ e ∈ l, ∃ r, e = .doneEntering r) :
      ∃ l, Rung s s' l ∧ ∀ e ∈ l, (∃ r, e = .doneEntering r) ∨
        ∃ r, e = .doneExiting r ∧ k.pc = .exiting r ∧ (s'.heap r).status.isOff = true :=
    ⟨l, hr.congr rfl rfl, fun e he => .inl (hl e he)⟩
  have hexiting (s₁ : Supervisor U) (r : StateRef U) (hpc : k.pc = .exiting r)
      (hloop : s₁.loop = s.loop) (hevents : s₁.events = s.events) :
      ∃ l, Rung s (s₁.cleanup t r) l ∧ ∀ e ∈ l, (∃ r, e = .doneEntering r) ∨
        ∃ r', e = .doneExiting r' ∧ k.pc = .exiting r' ∧
          ((s₁.cleanup t r).heap r').status.isOff = true := by
    refine ⟨_, cleanup_rung.congr hloop.symm hevents.symm, ?_⟩
    intro e he
    exact .inr ⟨r, List.mem_singleton.1 he, hpc, cleanup_isOff⟩
  unfold runSegment at h
  dsimp only at h
  split at h
  · split at h
    · cases h; exact ⟨[], .of_eq rfl rfl, by simp⟩
    · cases h
      obtain ⟨l, hl, hmem⟩ := beginUnit_rung (s := s.clearCancel t) (t := t) k.unit
      exact hentering hl fun e he => ⟨_, hmem e he⟩
  · split at h
    · cases h; exact hentering (phaseFailed_rung _) (by simp)
    · cases h; exact ⟨[], .of_eq rfl rfl, by simp⟩
  · cases h
    obtain ⟨l, hl, hmem⟩ := unitEntered_rung (s := s.clearCancel t) (t := t) (r := _)
    exact hentering hl fun e he => ⟨_, hmem e he⟩
  · cases h; exact hentering (phaseFailed_rung _) (by simp)
  · split at h
    · cases h; exact hentering (phaseFailed_rung _) (by simp)
    · cases h; exact ⟨[], .of_eq rfl rfl, by simp⟩
  · cases h; exact hentering (exitUnit_rung.congr rfl rfl) (by simp)
  · cases h; exact hentering (phaseFailed_rung _) (by simp)
  · next hpc => cases h; exact hexiting _ _ hpc rfl rfl
  · next hpc => cases h; exact hexiting _ _ hpc rfl rfl
  · cases h; exact ⟨[], .of_eq rfl rfl, by simp⟩
  · cases h; exact ⟨[], .of_eq rfl rfl, by simp⟩
  · cases h; exact ⟨[], .of_eq rfl rfl, by simp⟩
  · cases h

end

/-! ### A call between two turns -/

/-- The call is as it was, but for the tasks that it waits for. -/
structure Call.SameBooks (c c' : Call U) : Prop where
  returnWhen : c'.returnWhen = c.returnWhen
  doneEvents : c'.doneEvents = c.doneEvents
  doneUnits : c'.doneUnits = c.doneUnits
  pendingEvents : c'.pendingEvents = c.pendingEvents
  pendingUnits : c'.pendingUnits = c.pendingUnits
  waited : c'.waited = c.waited
  keys : c'.helpers.map (·.1) = c.helpers.map (·.1)

/-- What the tasks of the call hear as `s` becomes `s'`: one that is woken finds its event set, and
one that goes on waiting does not. -/
structure Call.Hears (s s' : Supervisor U) (c c' : Call U) : Prop extends SameBooks c c' where
  heard : ∀ e h, (e, h) ∈ c'.helpers → h.heard = true →
    (∃ h', (e, h') ∈ c.helpers ∧ h'.heard = true) ∨ s'.events e = true
  waiting : ∀ e, (e, .waiting) ∈ c'.helpers → s'.events e = true →
    (e, .waiting) ∈ c.helpers ∧ s.events e = true

section
variable {s s' : Supervisor U} {c c' c'' : Call U} {l : List (EventRef U)}

theorem Call.SameBooks.refl (c : Call U) : SameBooks c c := ⟨rfl, rfl, rfl, rfl, rfl, rfl, rfl⟩

theorem Call.SameBooks.trans (h : SameBooks c c') (h' : SameBooks c' c'') : SameBooks c c'' :=
  ⟨h'.returnWhen.trans h.returnWhen, h'.doneEvents.trans h.doneEvents,
    h'.doneUnits.trans h.doneUnits, h'.pendingEvents.trans h.pendingEvents,
    h'.pendingUnits.trans h.pendingUnits, h'.waited.trans h.waited, h'.keys.trans h.keys⟩

theorem Loop.foldl_notify (l : List (EventRef U)) (c : Call U) :
    ∃ c', l.foldl Loop.notify (.waiting c) = .waiting c' ∧ Call.SameBooks c c' ∧
      ∀ e h, (e, h) ∈ c'.helpers →
        (e, h) ∈ c.helpers ∧ (h = .waiting → e ∉ l) ∨ h = .notified ∧ e ∈ l := by
  induction l generalizing c with
  | nil => exact ⟨c, rfl, .refl c, fun e h hmem => .inl ⟨hmem, by simp⟩⟩
  | cons e₀ l ih =>
    obtain ⟨c', hfold, hsame, hmem⟩ := ih (c.notify e₀)
    have hkeys : Call.SameBooks c (c.notify e₀) := by
      refine ⟨rfl, rfl, rfl, rfl, rfl, rfl, ?_⟩
      simp only [Call.notify, List.map_map]
      apply List.map_congr_left
      rintro ⟨e, h⟩ -
      simp only [Function.comp]
      split
      · next heq => exact (congrArg (·.1) heq).symm
      · rfl
    refine ⟨c', hfold, hkeys.trans hsame, ?_⟩
    intro e h hmem'
    rcases hmem e h hmem' with ⟨hin, hwait⟩ | ⟨hh, he⟩
    · obtain ⟨⟨e', h'⟩, hin', heq⟩ := List.mem_map.1 hin
      split at heq
      · next hw => cases hw; cases heq; exact .inr ⟨rfl, by simp⟩
      · next hw =>
        cases heq
        refine .inl ⟨hin', fun hh => ?_⟩
        rw [List.mem_cons, not_or]
        exact ⟨fun he => hw (by rw [he, hh]), hwait hh⟩
    · exact .inr ⟨hh, List.mem_cons_of_mem _ he⟩

theorem Rung.hears (h : Rung s s' l) (hloop : s.loop = .waiting c) :
    ∃ c', s'.loop = .waiting c' ∧ Call.Hears s s' c c' := by
  obtain ⟨c', hfold, hsame, hmem⟩ := Loop.foldl_notify l c
  refine ⟨c', by rw [h.loop, hloop, hfold], hsame, ?_, ?_⟩
  · intro e h' hin hheard
    rcases hmem e h' hin with ⟨hin', -⟩ | ⟨-, he⟩
    · exact .inl ⟨h', hin', hheard⟩
    · exact .inr (h.rung e he)
  · intro e hin hset
    rcases hmem e _ hin with ⟨hin', hwait⟩ | ⟨hh, -⟩
    · exact ⟨hin', (h.set e hset).resolve_right (hwait rfl)⟩
    · cases hh

theorem Call.Hears.of_eq (hevents : s'.events = s.events) (h : SameBooks c c')
    (hhelpers : c'.helpers = c.helpers) : Hears s s' c c' := by
  refine ⟨h, ?_, ?_⟩
  · intro e h' hin hheard
    exact .inl ⟨h', hhelpers ▸ hin, hheard⟩
  · intro e hin hset
    exact ⟨hhelpers ▸ hin, hevents ▸ hset⟩

theorem Call.setHelper_hears {e : EventRef U} {h h' : Helper} (hin : (e, h) ∈ c.helpers)
    (hstep : h.step (s.events e) = some h') (hevents : s'.events = s.events) :
    Hears s s' c (c.setHelper e h') := by
  have hkeys : SameBooks c (c.setHelper e h') := by
    refine ⟨rfl, rfl, rfl, rfl, rfl, rfl, ?_⟩
    simp only [Call.setHelper, List.map_map]
    apply List.map_congr_left
    rintro ⟨e', h''⟩ -
    simp only [Function.comp]
    split
    · next heq => exact heq.symm
    · rfl
  have hmem (e' : EventRef U) (h'' : Helper) (hin' : (e', h'') ∈ (c.setHelper e h').helpers) :
      (e', h'') ∈ c.helpers ∨ e' = e ∧ h'' = h' := by
    obtain ⟨x, hx, heq⟩ := List.mem_map.1 hin'
    split at heq
    · cases heq; exact .inr ⟨rfl, rfl⟩
    · rw [← heq]; exact .inl hx
  refine ⟨hkeys, ?_, ?_⟩
  · intro e' h'' hin' hheard
    rcases hmem e' h'' hin' with hin' | ⟨rfl, rfl⟩
    · exact .inl ⟨h'', hin', hheard⟩
    · cases h with
      | fresh =>
        right
        rw [hevents]
        by_contra hno
        simp only [Bool.not_eq_true] at hno
        rw [hno] at hstep
        cases hstep
        cases hheard
      | notified => exact .inl ⟨_, hin, rfl⟩
      | waiting | done => cases hstep
  · intro e' hin' hset
    rw [hevents] at hset
    rcases hmem e' _ hin' with hin' | ⟨rfl, hh⟩
    · exact ⟨hin', hset⟩
    · cases h with
      | fresh =>
        rw [hset] at hstep
        cases hstep
        cases hh
      | notified => cases hstep; cases hh
      | waiting | done => cases hstep

/-- **While a call waits**, every step but the turns of the loop leaves its books and
`_running_unit_tasks` as they are. -/
theorem step_hears {a : Action U} (hloop : s.loop = .waiting c) (hwake : ∀ order, a ≠ .wake order)
    (hstep : step s a = some s') :
    ∃ c', (s'.loop = .waiting c' ∨ a = .cancel ∧ s'.loop = .leaving c' (some .cancelled)) ∧
      Call.Hears s s' c c' ∧ s'.running = s.running := by
  have hrequest (hr : Requests s s') (hevents : s'.events = s.events) :
      ∃ c', (s'.loop = .waiting c' ∨ a = .cancel ∧ s'.loop = .leaving c' (some .cancelled)) ∧
        Call.Hears s s' c c' ∧ s'.running = s.running :=
    ⟨c, .inl (hr.loop.trans hloop), .of_eq hevents (.refl c) rfl, hr.running⟩
  cases a with
  | addUnit u restart stopped =>
    cases hstep
    exact hrequest (addUnit_requests s u restart stopped) (addUnit_events s u restart stopped)
  | removeUnit u =>
    cases hstep
    exact hrequest (removeUnitNowait_requests s u) (removeUnitNowait_events s u)
  | startUnit u =>
    cases hstep
    exact hrequest (startUnitNowait_requests s u) (startUnitNowait_events s u)
  | stopUnit u force =>
    cases hstep
    exact hrequest (stopUnitNowait_requests s u force) (stopUnitNowait_events s u force)
  | setEvent n =>
    cases hstep
    obtain ⟨c', hc', hhears⟩ := (rung_setEvent s (.other n)).hears hloop
    exact ⟨c', .inl hc', hhears, rfl⟩
  | clearEvent n =>
    cases hstep
    refine ⟨c, .inl hloop, ⟨.refl c, fun e h hin hh => .inl ⟨h, hin, hh⟩, ?_⟩, rfl⟩
    intro e hin hset
    have hclear : Rung s (s.clearEvent (.other n)) [] := (Rung.of_eq rfl rfl).clear (by simp)
    exact ⟨hin, (hclear.set e hset).resolve_right (by simp)⟩
  | resume t o =>
    obtain ⟨k, hk, hseg⟩ := Option.bind_eq_some_iff.1 hstep
    obtain ⟨l, hl, -⟩ := runSegment_rung hseg
    obtain ⟨c', hc', hhears⟩ := hl.hears hloop
    have hlocked : s.locked = true := by simp [locked, hloop]
    exact ⟨c', .inl hc', hhears, runSegment_running hk hseg fun _ => hlocked⟩
  | monitorStep =>
    simp only [step, monitorStep, hloop] at hstep
    split at hstep
    · cases hstep
    all_goals
      cases hstep
      exact ⟨_, .inl rfl, .of_eq rfl ⟨rfl, rfl, rfl, rfl, rfl, rfl, rfl⟩ rfl, rfl⟩
  | helperStep e =>
    simp only [step, helperStep, hloop] at hstep
    split at hstep
    · next e' h hfind =>
      obtain ⟨h', hh', rfl⟩ := Option.map_eq_some_iff.1 hstep
      obtain rfl : e' = e := by simpa using List.find?_some hfind
      exact ⟨_, .inl rfl, Call.setHelper_hears (List.mem_of_find?_eq_some hfind) hh' rfl, rfl⟩
    · cases hstep
  | supervise | stop | leave => simp [step, leave, hloop] at hstep
  | wake order => exact absurd rfl (hwake order)
  | cancel =>
    simp only [step, cancelCall, hloop] at hstep
    cases hstep
    exact ⟨c, .inr ⟨rfl, rfl⟩, .of_eq rfl (.refl c) rfl, rfl⟩

/-- One turn of the loop raises, or handles the commands, takes note of what is done, and ends the
call or waits again. -/
theorem wakeUp_cases (s : Supervisor U) (c : Call U) (order : List TaskId) :
    (∃ c' e, (s.wakeUp c order).loop = .leaving c' (some e)) ∨
      ∃ s₁ s₂ c₂, s.wakeCommands c = (s₁, none) ∧
        takeUnits order s₁ c.renewMonitor.takeEvents = (s₂, c₂, none) ∧
        ((c₂.addPending s₂).ret = true ∧
            s.wakeUp c order = { s₂ with loop := .leaving (c₂.addPending s₂) none } ∨
          (c₂.addPending s₂).ret = false ∧
            s.wakeUp c order = s₂.restartReady.enterWait (c₂.addPending s₂)) := by
  unfold wakeUp
  split
  · exact .inl ⟨_, _, rfl⟩
  · next s₁ hcommands =>
    split
    · exact .inl ⟨_, _, rfl⟩
    · next s₂ c₂ hunits =>
      refine .inr ⟨s₁, s₂, c₂, hcommands, hunits, ?_⟩
      dsimp only
      split
      · next hret => exact .inl ⟨hret, rfl⟩
      · next hret => exact .inr ⟨Bool.eq_false_iff.2 hret, rfl⟩

end

end Silkjam.Supervisor
