import Silkjam.Server.Backend
import Silkjam.Supervisor.Events

/-!
# What a step of a backend does

`Effect` says of each action what it does to the number of players, the sleep timer, the event and
the life of the backend; that covers every step (`step_effect`). Segments of the units and of the
supervise loop do nothing to them. A turn of `supervise` (`Supervised`) either finds no change of
the number, or acts on the latest number and clears the event.
-/

namespace Silkjam.Server

open Supervisor

namespace MCBackend

/-- The number of players and what is in the history are the same. -/
structure SameCount (s s' : MCBackend) : Prop where
  sleepTimeout : s'.sleepTimeout = s.sleepTimeout
  players : s'.players = s.players
  sessions : s'.sessions = s.sessions
  nextSession : s'.nextSession = s.nextSession
  trace : s'.trace = s.trace

/-- The same backend, but for what its units and its clock are. -/
structure SameServer (s s' : MCBackend) : Prop extends SameCount s s' where
  status : s'.status = s.status
  pendingStop : s'.pendingStop = s.pendingStop
  superviseTask : s'.superviseTask = s.superviseTask
  changed : s'.changed = s.changed
  timeout : s'.sleepTimer.timeout = s.sleepTimer.timeout

/-- The number of players is set to `value`. -/
structure Written (s s' : MCBackend) (value : Int) : Prop where
  sleepTimeout : s'.sleepTimeout = s.sleepTimeout
  players : s'.players = value
  changed : s'.changed = true
  status : s'.status = s.status
  superviseTask : s'.superviseTask = s.superviseTask
  trace : s'.trace = s.trace

/-- What a turn of `supervise` does: nothing to the players; and if it found a change of their
number, it leaves the event clear and the timer as that number asks for, or the stop requested. -/
structure Supervised (s s' : MCBackend) : Prop where
  sleepTimeout : s'.sleepTimeout = s.sleepTimeout
  status : s'.status = s.status
  players : s'.players = s.players
  sessions : s'.sessions = s.sessions
  nextSession : s'.nextSession = s.nextSession
  task : s'.superviseTask ≠ .created
  cases :
    (s'.changed = s.changed ∧ s'.sleepTimer.timeout = s.sleepTimer.timeout ∧
      s'.pendingStop = s.pendingStop ∧ s'.trace = s.trace) ∨
    (s'.changed = false ∧ s.onlinePlayers = 0 ∧ s'.pendingStop = true ∧
      s'.trace = .stopRequested s.sessions :: s.trace) ∨
    (s'.changed = false ∧ s'.pendingStop = s.pendingStop ∧ s'.trace = s.trace ∧
      (s.onlinePlayers = 0 → s.sleepTimeout ≠ none → s'.sleepTimer.timeout ≠ none) ∧
      (s.onlinePlayers ≠ 0 → s'.sleepTimer.timeout = none))

/-- What an action leads to. -/
inductive Effect (s : MCBackend) : Action → MCBackend → Prop where
  | units {a : Action} {s' : MCBackend} (h : SameServer s s') : Effect s a s'
  | beginSession {s' : MCBackend} (h : Written s s' (s.onlinePlayers + 1))
      (hsessions : s'.sessions = insert s.nextSession s.sessions)
      (hnext : s'.nextSession = s.nextSession + 1) : Effect s .beginSession s'
  | endSession {session : Nat} {s' : MCBackend} (hmem : session ∈ s.sessions)
      (h : Written s s' (s.onlinePlayers - 1)) (hsessions : s'.sessions = s.sessions.erase session)
      (hnext : s'.nextSession = s.nextSession) : Effect s (.endSession session) s'
  | poll {online : Nat} {version : Version} {s' : MCBackend} (h : Written s s' online)
      (hsessions : s'.sessions = s.sessions) (hnext : s'.nextSession = s.nextSession) :
      Effect s (.poll online version) s'
  | supervise {s' : MCBackend} (hstatus : s.status = .running) (htask : s.superviseTask = .created)
      (h : SameServer { s with superviseTask := .supervising } s') : Effect s .supervise s'
  | turn {s' : MCBackend} (htask : s.superviseTask = .supervising) (h : Supervised s s') :
      Effect s .superviseReturned s'
  /-- the backend is not running, and stays so -/
  | off {a : Action} {s' : MCBackend} (h : SameCount s s') (hstatus : s.status ≠ .running)
      (hstatus' : s'.status ≠ .running) (htask : s'.superviseTask = s.superviseTask) : Effect s a s'
  | entered {s' : MCBackend} (h : SameCount s s') (hstatus : s'.status = .running) :
      Effect s .entered s'
  | exit {s' : MCBackend} (h : SameCount s s') (htask : s'.superviseTask = .finished) :
      Effect s .exit s'
  | stopMcproc {s' : MCBackend} (h : SameServer { s with pendingStop := true } s') :
      Effect s .stopMcproc s'

section
variable {s s' : MCBackend}

theorem SameCount.refl (s : MCBackend) : SameCount s s :=
  ⟨rfl, rfl, rfl, rfl, rfl⟩

theorem SameServer.refl (s : MCBackend) : SameServer s s :=
  ⟨.refl s, rfl, rfl, rfl, rfl, rfl⟩

theorem SameCount.trans {s₁ s₂ s₃ : MCBackend} (h₁ : SameCount s₁ s₂) (h₂ : SameCount s₂ s₃) :
    SameCount s₁ s₃ where
  sleepTimeout := h₂.sleepTimeout.trans h₁.sleepTimeout
  players := h₂.players.trans h₁.players
  sessions := h₂.sessions.trans h₁.sessions
  nextSession := h₂.nextSession.trans h₁.nextSession
  trace := h₂.trace.trans h₁.trace

theorem SameServer.trans {s₁ s₂ s₃ : MCBackend} (h₁ : SameServer s₁ s₂) (h₂ : SameServer s₂ s₃) :
    SameServer s₁ s₃ where
  toSameCount := h₁.toSameCount.trans h₂.toSameCount
  status := h₂.status.trans h₁.status
  pendingStop := h₂.pendingStop.trans h₁.pendingStop
  superviseTask := h₂.superviseTask.trans h₁.superviseTask
  changed := h₂.changed.trans h₁.changed
  timeout := h₂.timeout.trans h₁.timeout

theorem sameServer_units {units : Supervisor BackendUnit} (h : units.isSet 0 = s.units.isSet 0) :
    SameServer s { s with units := units } :=
  ⟨⟨rfl, rfl, rfl, rfl, rfl⟩, rfl, rfl, rfl, h, rfl⟩

theorem onlinePlayers_eq (h : s.status = .running) : s.onlinePlayers = s.players := by
  unfold onlinePlayers mcprocRunning
  rw [h]
  rfl

theorem onlinePlayers_eq_zero (h : s.status ≠ .running) : s.onlinePlayers = 0 := by
  simp [onlinePlayers, mcprocRunning, h]

/-! ### Units -/

theorem unitCode_same (s : MCBackend) (task : Option (UnitTask BackendUnit))
    (o : Outcome BackendUnit) : SameServer s (s.unitCode task o) := by
  unfold unitCode
  split
  · next u _ _ _ => cases u <;> exact ⟨⟨rfl, rfl, rfl, rfl, rfl⟩, rfl, rfl, rfl, rfl, rfl⟩
  · next u _ _ _ => cases u <;> exact ⟨⟨rfl, rfl, rfl, rfl, rfl⟩, rfl, rfl, rfl, rfl, rfl⟩
  · exact .refl s

theorem stepUnits_same {a : Supervisor.Action BackendUnit} (ha : a.keepsEvents = true)
    (h : s.stepUnits a = some s') : SameServer s s' := by
  obtain ⟨units, hunits, rfl⟩ := Option.map_eq_some_iff.1 h
  exact sameServer_units (step_isSet ha hunits 0)

/-! ### The number of players -/

theorem setOnlinePlayers_written (s : MCBackend) (value : Int) :
    Written s (s.setOnlinePlayers value) value :=
  ⟨rfl, rfl, s.units.setEvent_isSet 0, rfl, rfl, rfl⟩

theorem updateStats_written (s : MCBackend) (online : Nat) (version : Version) :
    Written s (s.updateStats online version) online := by
  unfold updateStats
  dsimp only
  split
  · exact ⟨rfl, rfl, s.units.setEvent_isSet 0, rfl, rfl, rfl⟩
  · exact s.setOnlinePlayers_written online

/-! ### `supervise` -/

/-- What `supervise` does about a change of the number of players: it requests the stop of a server
without players whose timer has ended, and otherwise arms or suspends the timer. -/
theorem playersChanged_cases (s : MCBackend) :
    (s.onlinePlayers = 0 ∧ s.playersChanged = s.stopServer) ∨
      ∃ units sleepTimer, s.playersChanged = { s with units := units, sleepTimer := sleepTimer } ∧
        (s.onlinePlayers = 0 → s.sleepTimeout ≠ none → sleepTimer.timeout ≠ none) ∧
        (s.onlinePlayers ≠ 0 → sleepTimer.timeout = none) := by
  unfold playersChanged
  by_cases hplayers : s.onlinePlayers = 0
  · rw [if_pos hplayers]
    split
    · exact .inl ⟨hplayers, rfl⟩
    · refine .inr ?_
      split
      · refine ⟨s.units, _, rfl, ?_, fun h => absurd hplayers h⟩
        intro _ htimeout
        rwa [Timer.reset_timeout]
      · next htimeout => exact ⟨s.units, _, rfl, fun _ _ => htimeout, fun h => absurd hplayers h⟩
  · rw [if_neg hplayers]
    refine .inr ?_
    dsimp only
    split <;> split
    · exact ⟨_, _, rfl, fun h => absurd h hplayers, fun _ => rfl⟩
    · next htimeout =>
      exact ⟨_, _, rfl, fun h => absurd h hplayers, fun _ => not_not.1 htimeout⟩
    · exact ⟨s.units, _, rfl, fun h => absurd h hplayers, fun _ => rfl⟩
    · next htimeout =>
      exact ⟨s.units, s.sleepTimer, rfl, fun h => absurd h hplayers, fun _ => not_not.1 htimeout⟩

theorem playersChanged_supervised (s : MCBackend) (htask : s.superviseTask ≠ .created) :
    Supervised s s.playersChanged.clearChange := by
  have hclear : s.playersChanged.clearChange.changed = false :=
    s.playersChanged.units.clearEvent_isSet 0
  obtain ⟨hplayers, heq⟩ | ⟨units, sleepTimer, heq, hzero, hnonzero⟩ := s.playersChanged_cases
  · rw [heq] at hclear ⊢
    exact ⟨rfl, rfl, rfl, rfl, rfl, htask, .inr (.inl ⟨hclear, hplayers, rfl, rfl⟩)⟩
  · rw [heq] at hclear ⊢
    exact ⟨rfl, rfl, rfl, rfl, rfl, htask, .inr (.inr ⟨hclear, rfl, rfl, hzero, hnonzero⟩)⟩

theorem Supervised.of_same (h : SameServer s s') (htask : s.superviseTask ≠ .created) :
    Supervised s s' :=
  ⟨h.sleepTimeout, h.status, h.players, h.sessions, h.nextSession, h.superviseTask ▸ htask,
    .inl ⟨h.changed, h.timeout, h.pendingStop, h.trace⟩⟩

theorem Supervised.congr {s₀ : MCBackend} (h₀ : SameServer s₀ s) (h : Supervised s s') :
    Supervised s₀ s' := by
  have honline : s.onlinePlayers = s₀.onlinePlayers := by
    unfold onlinePlayers mcprocRunning
    rw [h₀.status, h₀.players]
  refine ⟨h.sleepTimeout.trans h₀.sleepTimeout, h.status.trans h₀.status,
    h.players.trans h₀.players, h.sessions.trans h₀.sessions, h.nextSession.trans h₀.nextSession,
    h.task, ?_⟩
  rw [← honline, ← h₀.sleepTimeout, ← h₀.changed, ← h₀.timeout, ← h₀.pendingStop, ← h₀.sessions,
    ← h₀.trace]
  exact h.cases

/-- Afterwards the task has ended, or is in `supervise_until` again. -/
theorem Supervised.next {s₁ : MCBackend} (h : Supervised s s₁)
    (hnext : SameServer { s₁ with superviseTask := s'.superviseTask } s')
    (htask : s'.superviseTask ≠ .created) : Supervised s s' := by
  refine ⟨hnext.sleepTimeout.trans h.sleepTimeout, hnext.status.trans h.status,
    hnext.players.trans h.players, hnext.sessions.trans h.sessions,
    hnext.nextSession.trans h.nextSession, htask, ?_⟩
  rw [hnext.changed, hnext.timeout, hnext.pendingStop, hnext.trace]
  exact h.cases

theorem superviseBody_supervised (s : MCBackend) (c : Call BackendUnit)
    (htask : s.superviseTask ≠ .created) : Supervised s (s.superviseBody c) := by
  unfold superviseBody
  dsimp only
  have hhandled : Supervised s
      (if onlinePlayerChange ∈ c.doneEvents then s.playersChanged.clearChange else s) := by
    split
    · exact s.playersChanged_supervised htask
    · exact .of_same (.refl s) htask
  generalize (if onlinePlayerChange ∈ c.doneEvents then s.playersChanged.clearChange else s) = s₁
    at hhandled
  have hcheck : Supervised s (if .sleepTimer ∈ doneUnits c then s₁.checkNowait else s₁) := by
    split
    · exact hhandled.next ⟨⟨rfl, rfl, rfl, rfl, rfl⟩, rfl, rfl, rfl, rfl, rfl⟩ hhandled.task
    · exact hhandled
  generalize (if .sleepTimer ∈ doneUnits c then s₁.checkNowait else s₁) = s₂ at hcheck
  split
  · exact hcheck.next (.refl { s₂ with superviseTask := .finished }) nofun
  · refine hcheck.next ⟨⟨rfl, rfl, rfl, rfl, rfl⟩, rfl, rfl, rfl, ?_, rfl⟩ nofun
    exact superviseUntil_isSet s₂.units 0 _ _

theorem superviseReturned_supervised (h : s.superviseReturned = some s')
    (htask : s.superviseTask = .supervising) : Supervised s s' := by
  have hcreated : s.superviseTask ≠ .created := by
    rw [htask]
    nofun
  unfold superviseReturned at h
  split at h
  · next units hloop hleave =>
    cases h
    have hsame : SameServer s { s with units := units } :=
      sameServer_units (step_isSet (a := .leave) rfl hleave 0)
    exact .congr hsame (superviseBody_supervised _ _ hcreated)
  · next units hloop hleave =>
    cases h
    have hsame : SameServer s { s with units := units } :=
      sameServer_units (step_isSet (a := .leave) rfl hleave 0)
    exact .next (.of_same hsame hcreated) (.refl _) nofun
  · cases h

/-! ### Every step -/

theorem step_effect {a : Action} (h : s.step a = some s') : Effect s a s' := by
  cases a with
  | beginSession =>
    cases h
    have hwritten := s.setOnlinePlayers_written (s.onlinePlayers + 1)
    exact .beginSession ⟨rfl, rfl, hwritten.changed, rfl, rfl, rfl⟩ rfl rfl
  | endSession session =>
    unfold step at h
    dsimp only at h
    split at h
    · next hmem =>
      cases h
      have hwritten := s.setOnlinePlayers_written (s.onlinePlayers - 1)
      exact .endSession hmem ⟨rfl, rfl, hwritten.changed, rfl, rfl, rfl⟩ rfl rfl
    · cases h
  | poll online version =>
    cases h
    have hsessions : (s.updateStats online version).sessions = s.sessions ∧
        (s.updateStats online version).nextSession = s.nextSession := by
      unfold updateStats
      dsimp only
      split <;> exact ⟨rfl, rfl⟩
    exact .poll (s.updateStats_written online version) hsessions.1 hsessions.2
  | resume t o =>
    obtain ⟨s₁, hs₁, rfl⟩ := Option.map_eq_some_iff.1 h
    exact .units ((stepUnits_same rfl hs₁).trans (unitCode_same s₁ _ o))
  | monitorStep | helperStep | wake => exact .units (stepUnits_same rfl h)
  | supervise =>
    unfold step at h
    dsimp only at h
    split at h
    · next hbegin =>
      cases h
      exact .supervise hbegin.1 hbegin.2
        ⟨⟨rfl, rfl, rfl, rfl, rfl⟩, rfl, rfl, rfl, superviseUntil_isSet s.units 0 _ _, rfl⟩
    · cases h
  | superviseReturned =>
    unfold step at h
    dsimp only at h
    split at h
    · next htask => exact .turn htask (superviseReturned_supervised h htask)
    · cases h
  | cancelSupervise | leave =>
    unfold step at h
    dsimp only at h
    split at h
    · exact .units (stepUnits_same rfl h)
    · cases h
  | enter =>
    unfold step at h
    dsimp only at h
    split at h
    · next hstatus =>
      cases h
      exact .off ⟨rfl, rfl, rfl, rfl, rfl⟩ (by simp [hstatus]) nofun rfl
    · next hstatus =>
      cases h
      exact .off ⟨rfl, rfl, rfl, rfl, rfl⟩ (by simp [hstatus]) nofun rfl
    · cases h
  | entered =>
    unfold step at h
    dsimp only at h
    split at h
    · cases h
      exact .entered ⟨rfl, rfl, rfl, rfl, rfl⟩ rfl
    · cases h
  | exit =>
    unfold step at h
    dsimp only at h
    split at h
    · obtain ⟨s₁, hs₁, rfl⟩ := Option.map_eq_some_iff.1 h
      exact .exit ((stepUnits_same rfl hs₁).toSameCount.trans ⟨rfl, rfl, rfl, rfl, rfl⟩) rfl
    · cases h
  | exited =>
    unfold step at h
    dsimp only at h
    split at h
    · next hstatus =>
      cases h
      refine .off ⟨rfl, rfl, rfl, rfl, rfl⟩ (by simp [hstatus.1]) ?_ rfl
      unfold exited
      dsimp only
      split <;> nofun
    · cases h
  | stopMcproc =>
    unfold step at h
    dsimp only at h
    split at h
    · next hstatus =>
      cases h
      exact .off ⟨rfl, rfl, rfl, rfl, rfl⟩ (by simp [hstatus]) nofun rfl
    · next hstatus =>
      cases h
      exact .off ⟨rfl, rfl, rfl, rfl, rfl⟩ (by simp [hstatus]) nofun rfl
    · cases h
      exact .stopMcproc (.refl _)
  | advance time =>
    cases h
    exact .units ⟨⟨rfl, rfl, rfl, rfl, rfl⟩, rfl, rfl, rfl, rfl, rfl⟩

theorem live_step {a : Action} (hlive : s.superviseTask ≠ .finished → s.status = .running)
    (h : s.step a = some s') : s'.superviseTask ≠ .finished → s'.status = .running := by
  intro htask
  cases step_effect h with
  | units h | stopMcproc h => exact h.status.trans (hlive (h.superviseTask ▸ htask))
  | beginSession h | endSession _ h | poll h =>
    exact h.status.trans (hlive (h.superviseTask ▸ htask))
  | supervise hstatus _ h => exact h.status.trans hstatus
  | turn hsupervising h =>
    refine h.status.trans (hlive ?_)
    rw [hsupervising]
    nofun
  | off _ hstatus _ hsame => exact absurd (hlive (hsame ▸ htask)) hstatus
  | entered _ hstatus => exact hstatus
  | exit _ hfinished => exact absurd hfinished htask

end

end MCBackend

end Silkjam.Server
