import Silkjam.Proxy.State

/-!
# Tracked sessions

`player_sessions` has one entry for each session that is tracked, under the identifier that was made
for it. That identifier is the `id()` of an object that is freed at once, so a later session may get
the same one; the entry of the first session then stands for both, and goes with the one that ends
first (`shared_entry`). In the runs in which a session, when it begins to be tracked, has an
identifier that no tracked session of its player has, the table is exact, and the first session that
has not makes it inexact (`sessions_exact`).
-/

namespace Silkjam.Proxy

open Transition

/-- Is `task` tracked for this player, under this identifier? -/
def SessionTask.tracks (task : SessionTask) (playerId : Uuid) (sessionId : Nat) : Bool :=
  match task.phase with
  | .tracking profile => decide (profile.id = playerId ∧ task.sessionId = sessionId)
  | _ => false

/-- An action on sessions. -/
def Action.onSession : Action → Bool
  | .startSession .. | .beginSession _ | .resolveSession .. | .cancelSession _ => true
  | _ => false

namespace MCProxy

/-- The entry of a session in the table. -/
def lookup (s : MCProxy) (playerId : Uuid) (sessionId : Nat) : Option PlayerSession :=
  (s.playerSessions.get? playerId).bind fun sessions => sessions.get? sessionId

/-- `task` is tracked, for the player of `profile`, and not cancelled. -/
def Tracks (s : MCProxy) (t : Nat) (task : SessionTask) (profile : UserProfile) : Prop :=
  s.sessionTasks t = some task ∧ task.phase = .tracking profile

/-- The table has the entries of the tracked sessions, one for each, and no others. -/
structure Exact (s : MCProxy) : Prop where
  entry : ∀ t task profile, s.Tracks t task profile → ∃ session,
    s.lookup profile.id task.sessionId = some session ∧ session.profile = profile ∧
      session.backend = task.backend ∧ session.clientIp = task.clientIp
  distinct : ∀ t t' task task' profile profile', s.Tracks t task profile →
    s.Tracks t' task' profile' → profile.id = profile'.id → task.sessionId = task'.sessionId →
      t = t'
  only : ∀ playerId sessionId session, s.lookup playerId sessionId = some session →
    ∃ t task profile, s.Tracks t task profile ∧ profile.id = playerId ∧
      task.sessionId = sessionId
  absent : ∀ playerId, s.playerSessions.get? playerId = none ↔
    ∀ t task profile, s.Tracks t task profile → profile.id ≠ playerId

/-- Some tracked session of the player has this identifier. -/
def Uses (s : MCProxy) (playerId : Uuid) (sessionId : Nat) : Prop :=
  ∃ t < s.nextTask, (s.sessionTasks t).any (fun task => task.tracks playerId sessionId) = true

instance (s : MCProxy) (playerId : Uuid) (sessionId : Nat) : Decidable (s.Uses playerId sessionId) :=
  inferInstanceAs (Decidable (∃ t < s.nextTask, _))

/-- The player that the action begins to track a session for, and its identifier. -/
def begins (s : MCProxy) : Action → Option (Uuid × Nat)
  | .beginSession t => (s.sessionTasks t).bind fun task =>
    if task.phase.isCreated then task.loginStart.playerId.map (·, task.sessionId) else none
  | .resolveSession t profile => (s.sessionTasks t).bind fun task =>
    if task.phase.isResolving then profile.map (·.id, task.sessionId) else none
  | _ => none

/-- A session begins to be tracked under an identifier that no tracked session of the player has. -/
def FreshIds (s : MCProxy) (a : Action) : Prop :=
  ∀ key ∈ s.begins a, ¬ s.Uses key.1 key.2

instance (s : MCProxy) (a : Action) : Decidable (s.FreshIds a) :=
  inferInstanceAs (Decidable (∀ key ∈ s.begins a, _))

/-! ### What has nothing to do with sessions -/

/-- The sessions are the same. -/
structure SameSessions (s s' : MCProxy) : Prop where
  playerSessions : s'.playerSessions = s.playerSessions
  sessionTasks : s'.sessionTasks = s.sessionTasks
  nextTask : s'.nextTask = s.nextTask

section
variable {s s' s'' : MCProxy} {t : Nat} {task : SessionTask} {profile : UserProfile}
  {playerId : Uuid} {sessionId : Nat}

theorem SameSessions.refl (s : MCProxy) : SameSessions s s :=
  ⟨rfl, rfl, rfl⟩

theorem SameSessions.trans (h : SameSessions s s') (h' : SameSessions s' s'') : SameSessions s s'' :=
  ⟨h'.1.trans h.1, h'.2.trans h.2, h'.3.trans h.3⟩

theorem sameSessions_closeVoiceBridge (s : MCProxy) (key : Uuid × BackendId) :
    SameSessions s (s.closeVoiceBridge key) := by
  unfold closeVoiceBridge
  split
  · exact .refl s
  · exact ⟨rfl, rfl, rfl⟩

theorem sameSessions_closeVoiceBridges (s : MCProxy) (keys : List (Uuid × BackendId)) :
    SameSessions s (s.closeVoiceBridges keys) := by
  induction keys generalizing s with
  | nil => exact .refl s
  | cons key keys ih => exact (sameSessions_closeVoiceBridge s key).trans (ih _)

theorem sameSessions_getOrCreateVoiceBridge (s : MCProxy) (playerId : Uuid) (addr : Addr)
    (voicePort : Option Nat) :
    SameSessions s (s.getOrCreateVoiceBridge playerId addr voicePort).1 := by
  have hbegin (s : MCProxy) (backend : BackendId) :
      SameSessions s (s.beginBridge playerId backend addr) := by
    unfold beginBridge
    split
    · exact .refl s
    · exact ⟨rfl, rfl, rfl⟩
  unfold getOrCreateVoiceBridge
  split
  · exact .refl s
  next session _ =>
  split
  · exact .refl s
  split
  · exact .refl s
  dsimp only
  split
  · exact .refl s
  · refine .trans ?_ (hbegin _ _)
    cases s.voiceBridges.get? (playerId, session.backend) with
    | none => exact .refl s
    | some b => exact ⟨rfl, rfl, rfl⟩

theorem step_sameSessions {a : Action} (ha : a.onSession = false) (hstep : s.step a = some s') :
    SameSessions s s' := by
  cases a with
  | startSession | beginSession | resolveSession | cancelSession => cases ha
  | route playerId addr voicePort =>
    have hsame := sameSessions_getOrCreateVoiceBridge s playerId addr voicePort
    obtain ⟨-, rfl | ⟨b, rfl⟩⟩ := route_eq hstep
    · exact hsame
    · exact hsame.trans ⟨rfl, rfl, rfl⟩
  | connectionMade | bridgeCreated | bridgeFailed =>
    obtain ⟨r, -, rfl⟩ := Option.map_eq_some_iff.1 hstep
    exact ⟨rfl, rfl, rfl⟩
  | connectionLost | datagramReceived | advance =>
    cases hstep
    exact ⟨rfl, rfl, rfl⟩
  | cleanupVoiceBridges | closeAllVoiceBridges =>
    cases hstep
    exact sameSessions_closeVoiceBridges _ _
  | listenerStarted | listenerOpened | listenerFailed | listenerLost | listenerClosed
  | listenerCancelled =>
    unfold step at hstep
    dsimp only at hstep
    split at hstep <;> cases hstep <;> exact ⟨rfl, rfl, rfl⟩

/-! ### Tracking a session -/

theorem Tracks.of_same (h : SameSessions s s') : s'.Tracks t task profile ↔ s.Tracks t task profile := by
  unfold Tracks
  rw [h.sessionTasks]

theorem Exact.of_eq (hs : Exact s) (hsessions : s'.playerSessions = s.playerSessions)
    (htracks : ∀ t task profile, s'.Tracks t task profile ↔ s.Tracks t task profile) : Exact s' := by
  have hlookup (playerId : Uuid) (sessionId : Nat) :
      s'.lookup playerId sessionId = s.lookup playerId sessionId := by
    unfold lookup
    rw [hsessions]
  constructor
  · simpa only [htracks, hlookup] using hs.entry
  · simpa only [htracks] using hs.distinct
  · simpa only [htracks, hlookup] using hs.only
  · simpa only [htracks, hsessions] using hs.absent

theorem Exact.of_same (h : SameSessions s s') (hs : Exact s) : Exact s' :=
  hs.of_eq h.playerSessions fun _ _ _ => Tracks.of_same h

/-- Tasks that are not made yet do not exist. -/
def TasksMade (s : MCProxy) : Prop :=
  ∀ t, s.nextTask ≤ t → s.sessionTasks t = none

theorem Uses.exists_tracks (h : s.Uses playerId sessionId) :
    ∃ t task profile, s.Tracks t task profile ∧ profile.id = playerId ∧
      task.sessionId = sessionId := by
  obtain ⟨t, -, h⟩ := h
  obtain ⟨task, htask, htracks⟩ := (Option.any_eq_true ..).1 h
  unfold SessionTask.tracks at htracks
  split at htracks
  · next profile hphase =>
    obtain ⟨hid, hsid⟩ := of_decide_eq_true htracks
    exact ⟨t, task, profile, ⟨htask, hphase⟩, hid, hsid⟩
  · cases htracks

theorem uses_iff (hmade : s.TasksMade) : s.Uses playerId sessionId ↔
    ∃ t task profile, s.Tracks t task profile ∧ profile.id = playerId ∧
      task.sessionId = sessionId := by
  refine ⟨Uses.exists_tracks, ?_⟩
  rintro ⟨t, task, profile, ⟨htask, hphase⟩, hid, hsid⟩
  refine ⟨t, ?_, (Option.any_eq_true ..).2 ⟨task, htask, ?_⟩⟩
  · by_contra hge
    rw [hmade t (by omega)] at htask
    cases htask
  · unfold SessionTask.tracks
    rw [hphase]
    exact decide_eq_true ⟨hid, hsid⟩

theorem Tracks.ne {w : Nat} {task' : SessionTask} {profile' : UserProfile}
    (h : s.Tracks w task' profile') (htask : s.sessionTasks t = some task)
    (hphase : ∀ profile, task.phase ≠ .tracking profile) : w ≠ t := by
  rintro rfl
  have heq := h.1
  rw [htask] at heq
  obtain rfl := Option.some.inj heq
  exact hphase profile' h.2

theorem Tracks.unique {task' : SessionTask} {profile' : UserProfile}
    (h : s.Tracks t task profile) (h' : s.Tracks t task' profile') :
    task = task' ∧ profile = profile' := by
  obtain rfl := Option.some.inj (h.1.symm.trans h'.1)
  obtain rfl := Phase.tracking.inj (h.2.symm.trans h'.2)
  exact ⟨rfl, rfl⟩

theorem setPhase_tasks (htask : s.sessionTasks t = some task) (phase : Phase) :
    (s.setPhase t phase).sessionTasks =
      Function.update s.sessionTasks t (some { task with phase := phase }) := by
  unfold setPhase
  rw [htask]
  rfl

/-- The tracked sessions, after task `t` has come to another phase. -/
theorem tracks_update {phase : Phase} {w : Nat} {task' : SessionTask} {profile' : UserProfile}
    (htasks : s'.sessionTasks =
      Function.update s.sessionTasks t (some { task with phase := phase })) :
    s'.Tracks w task' profile' ↔
      w = t ∧ task' = { task with phase := phase } ∧ phase = .tracking profile' ∨
        w ≠ t ∧ s.Tracks w task' profile' := by
  unfold Tracks
  rw [htasks]
  by_cases hw : w = t
  · subst hw
    rw [Function.update_self]
    constructor
    · rintro ⟨h, hphase⟩
      obtain rfl := Option.some.inj h
      exact .inl ⟨rfl, rfl, hphase⟩
    · rintro (⟨-, rfl, hphase⟩ | ⟨hne, -⟩)
      · exact ⟨rfl, hphase⟩
      · exact absurd rfl hne
  · rw [Function.update_of_ne hw]
    simp [hw]

/-- A task that is not tracked comes to a phase in which it is not tracked. -/
theorem Exact.setPhase (hs : Exact s) (htask : s.sessionTasks t = some task) {phase : Phase}
    (hbefore : ∀ profile, task.phase ≠ .tracking profile)
    (hafter : ∀ profile, phase ≠ .tracking profile) : Exact (s.setPhase t phase) := by
  refine hs.of_eq rfl fun w task' profile' => ?_
  rw [tracks_update (setPhase_tasks htask phase)]
  constructor
  · rintro (⟨-, -, h⟩ | ⟨-, h⟩)
    · exact absurd h (hafter profile')
    · exact h
  · exact fun h => .inr ⟨h.ne htask hbefore, h⟩

theorem get?_trackSession (s : MCProxy) (t : Nat) (task : SessionTask) (profile : UserProfile)
    (p : Uuid) :
    (s.trackSession t task profile).playerSessions.get? p = none ↔
      p ≠ profile.id ∧ s.playerSessions.get? p = none := by
  unfold trackSession setPhase
  dsimp only
  rw [Dict.get?_set]
  split
  · next h => simp [h]
  · next h => simp [h]

theorem lookup_trackSession (s : MCProxy) (t : Nat) (task : SessionTask) (profile : UserProfile)
    (hnone : s.lookup profile.id task.sessionId = none) (p : Uuid) (sid : Nat) :
    (s.trackSession t task profile).lookup p sid =
      if p = profile.id ∧ sid = task.sessionId then
        some ⟨s.now, profile, task.backend, task.clientIp⟩
      else s.lookup p sid := by
  have hkeys : task.sessionId ∉ ((s.playerSessions.get? profile.id).getD {}).keys := by
    rw [← Dict.get?_eq_none]
    unfold lookup at hnone
    cases h : s.playerSessions.get? profile.id with
    | none => rfl
    | some sessions => rwa [h] at hnone
  unfold trackSession setPhase lookup
  dsimp only
  rw [if_neg hkeys, Dict.get?_set]
  by_cases hp : p = profile.id
  · subst hp
    simp only [if_true, Option.bind_some, true_and]
    rw [Dict.get?_set]
    cases s.playerSessions.get? profile.id <;> rfl
  · simp [hp]

/-- A session that begins to be tracked under a fresh identifier gets an entry of its own. -/
theorem Exact.trackSession (hs : Exact s) (hmade : s.TasksMade)
    (htask : s.sessionTasks t = some task) (hbefore : ∀ profile, task.phase ≠ .tracking profile)
    (profile : UserProfile) :
    Exact (s.trackSession t task profile) ↔ ¬ s.Uses profile.id task.sessionId := by
  have htracks {w : Nat} {task' : SessionTask} {profile' : UserProfile} :
      (s.trackSession t task profile).Tracks w task' profile' ↔
        w = t ∧ task' = { task with phase := .tracking profile } ∧
            Phase.tracking profile = .tracking profile' ∨
          w ≠ t ∧ s.Tracks w task' profile' :=
    tracks_update (setPhase_tasks htask (.tracking profile))
  rw [uses_iff hmade]
  constructor
  · rintro hexact ⟨w, task', profile', hw, hid, hsid⟩
    have hne : w ≠ t := hw.ne htask hbefore
    exact hne (hexact.distinct w t task' _ profile' profile (htracks.2 (.inr ⟨hne, hw⟩))
      (htracks.2 (.inl ⟨rfl, rfl, rfl⟩)) hid hsid)
  · intro hfresh
    have hnone : s.lookup profile.id task.sessionId = none := by
      refine Option.eq_none_iff_forall_ne_some.2 fun session hsession => hfresh ?_
      exact hs.only _ _ _ hsession
    have hlookup := lookup_trackSession s t task profile hnone
    -- a session that was tracked already has another key
    have hother {w : Nat} {task' : SessionTask} {profile' : UserProfile}
        (hw : s.Tracks w task' profile') :
        ¬ (profile'.id = profile.id ∧ task'.sessionId = task.sessionId) :=
      fun ⟨hid, hsid⟩ => hfresh ⟨w, task', profile', hw, hid, hsid⟩
    constructor
    · intro w task' profile' hw
      rcases htracks.1 hw with ⟨rfl, rfl, hphase⟩ | ⟨-, hw⟩
      · cases hphase
        exact ⟨_, (hlookup _ _).trans (if_pos ⟨rfl, rfl⟩), rfl, rfl, rfl⟩
      · obtain ⟨session, hsession, h⟩ := hs.entry w task' profile' hw
        exact ⟨session, ((hlookup _ _).trans (if_neg (hother hw))).trans hsession, h⟩
    · intro w w' task₁ task₂ profile₁ profile₂ hw hw' hid hsid
      rcases htracks.1 hw with ⟨rfl, rfl, hphase⟩ | ⟨-, hold⟩ <;>
        rcases htracks.1 hw' with ⟨rfl, rfl, hphase'⟩ | ⟨-, hold'⟩
      · rfl
      · cases hphase
        exact absurd ⟨hid.symm, hsid.symm⟩ (hother hold')
      · cases hphase'
        exact absurd ⟨hid, hsid⟩ (hother hold)
      · exact hs.distinct _ _ _ _ _ _ hold hold' hid hsid
    · intro p sid session hsession
      rw [hlookup] at hsession
      split at hsession
      · next h =>
        exact ⟨t, _, profile, htracks.2 (.inl ⟨rfl, rfl, rfl⟩), h.1.symm, h.2.symm⟩
      · next h =>
        obtain ⟨w, task', profile', hw, hid, hsid⟩ := hs.only p sid session hsession
        exact ⟨w, task', profile', htracks.2 (.inr ⟨hw.ne htask hbefore, hw⟩), hid, hsid⟩
    · intro p
      rw [get?_trackSession, hs.absent]
      constructor
      · rintro ⟨hne, hnot⟩ w task' profile' hw
        rcases htracks.1 hw with ⟨rfl, rfl, hphase⟩ | ⟨-, hw⟩
        · cases hphase
          exact hne.symm
        · exact hnot w task' profile' hw
      · intro hnot
        refine ⟨(hnot t _ profile (htracks.2 (.inl ⟨rfl, rfl, rfl⟩))).symm,
          fun w task' profile' hw => ?_⟩
        exact hnot w task' profile' (htracks.2 (.inr ⟨hw.ne htask hbefore, hw⟩))

/-! ### Cancelling a session -/

/-- The table after the entry of a session is removed. -/
def without (s : MCProxy) (playerId : Uuid) (sessions : Dict Nat PlayerSession) (sessionId : Nat) :
    Dict Uuid (Dict Nat PlayerSession) :=
  if (sessions.erase sessionId).items.length = 0 then s.playerSessions.erase playerId
  else s.playerSessions.set playerId (sessions.erase sessionId)

theorem removeSession_same (t : Nat) (task : SessionTask) {sessions : Dict Nat PlayerSession}
    (hget : s.playerSessions.get? profile.id = some sessions)
    (hmem : task.sessionId ∈ sessions.keys) :
    SameSessions
      { s.setPhase t .finished with
        playerSessions := s.without profile.id sessions task.sessionId }
      (s.removeSession t task profile) := by
  unfold removeSession without
  dsimp only
  rw [show (s.setPhase t .finished).playerSessions.get? profile.id = some sessions from hget]
  dsimp only
  rw [if_neg (not_not.2 hmem)]
  split
  · exact sameSessions_closeVoiceBridges _ _
  · exact sameSessions_closeVoiceBridges _ _

theorem lookup_without {sessions : Dict Nat PlayerSession}
    (hget : s.playerSessions.get? profile.id = some sessions) (p : Uuid) (sid : Nat) :
    ((s.without profile.id sessions sessionId).get? p).bind (fun d => d.get? sid) =
      if p = profile.id ∧ sid = sessionId then none else s.lookup p sid := by
  unfold without lookup
  by_cases hp : p = profile.id
  · subst hp
    simp only [true_and]
    rw [hget]
    have herase := Dict.get?_erase sessions sessionId sid
    split
    · next hempty =>
      have hnone : (sessions.erase sessionId).get? sid = none := by
        rw [Dict.get?_eq_none, Dict.keys, List.length_eq_zero_iff.1 hempty]
        exact List.not_mem_nil
      rw [Dict.get?_erase_self]
      exact hnone.symm.trans herase
    · rw [Dict.get?_set_self]
      exact herase
  · simp only [hp, false_and, if_false]
    split
    · rw [Dict.get?_erase_of_ne _ hp]
    · rw [Dict.get?_set_of_ne _ _ hp]

theorem get?_without {sessions : Dict Nat PlayerSession}
    (hget : s.playerSessions.get? profile.id = some sessions) (p : Uuid) :
    (s.without profile.id sessions sessionId).get? p = none ↔
      if p = profile.id then ∀ sid, sid ≠ sessionId → s.lookup p sid = none
      else s.playerSessions.get? p = none := by
  by_cases hp : p = profile.id
  · subst hp
    rw [if_pos rfl]
    unfold without
    have hkeys (sid : Nat) : sid ∈ (sessions.erase sessionId).keys ↔
        sid ≠ sessionId ∧ s.lookup profile.id sid ≠ none := by
      unfold lookup
      rw [Dict.mem_keys_erase, hget, Option.bind_some, ne_eq, ne_eq, Dict.get?_eq_none, not_not]
    split
    · next hempty =>
      refine iff_of_true (Dict.get?_erase_self _ _) fun sid hne => ?_
      by_contra hsome
      have hmem := (hkeys sid).2 ⟨hne, hsome⟩
      rw [Dict.keys, List.length_eq_zero_iff.1 hempty] at hmem
      cases hmem
    · next hfull =>
      refine iff_of_false (by simp) fun hnone => hfull ?_
      rw [List.length_eq_zero_iff, List.eq_nil_iff_forall_not_mem]
      intro e he
      obtain ⟨hne, hsome⟩ := (hkeys e.1).1 (List.mem_map_of_mem he)
      exact hsome (hnone e.1 hne)
  · rw [if_neg hp]
    unfold without
    split
    · rw [Dict.get?_erase_of_ne _ hp]
    · rw [Dict.get?_set_of_ne _ _ hp]

theorem Exact.removeSession (hs : Exact s) (h : s.Tracks t task profile) :
    Exact (s.removeSession t task profile) ∧
      ∀ p sid, (s.removeSession t task profile).lookup p sid =
        if p = profile.id ∧ sid = task.sessionId then none else s.lookup p sid := by
  obtain ⟨session, hsession, -⟩ := hs.entry t task profile h
  obtain ⟨sessions, hget, hsid⟩ := Option.bind_eq_some_iff.1 hsession
  have hmem : task.sessionId ∈ sessions.keys := by
    rw [Dict.mem_keys, hsid]
    rfl
  have hsame := removeSession_same t task hget hmem
  have hlookup (p : Uuid) (sid : Nat) : (s.removeSession t task profile).lookup p sid =
      if p = profile.id ∧ sid = task.sessionId then none else s.lookup p sid := by
    rw [← lookup_without hget]
    unfold lookup
    rw [hsame.playerSessions]
  have htracks {w : Nat} {task' : SessionTask} {profile' : UserProfile} :
      (s.removeSession t task profile).Tracks w task' profile' ↔
        w ≠ t ∧ s.Tracks w task' profile' := by
    have htasks := hsame.sessionTasks.trans (setPhase_tasks h.1 .finished)
    rw [tracks_update htasks]
    simp
  -- another tracked session has another key
  have hother {w : Nat} {task' : SessionTask} {profile' : UserProfile} (hne : w ≠ t)
      (hw : s.Tracks w task' profile') :
      ¬ (profile'.id = profile.id ∧ task'.sessionId = task.sessionId) :=
    fun ⟨hid, hsid⟩ => hne (hs.distinct _ _ _ _ _ _ hw h hid hsid)
  refine ⟨⟨?_, ?_, ?_, ?_⟩, hlookup⟩
  · intro w task' profile' hw
    obtain ⟨hne, hw⟩ := htracks.1 hw
    obtain ⟨session', hsession', heq⟩ := hs.entry w task' profile' hw
    exact ⟨session', ((hlookup _ _).trans (if_neg (hother hne hw))).trans hsession', heq⟩
  · intro w w' task₁ task₂ profile₁ profile₂ hw hw'
    exact hs.distinct _ _ _ _ _ _ (htracks.1 hw).2 (htracks.1 hw').2
  · intro p sid session' hsession'
    rw [hlookup] at hsession'
    split at hsession'
    · cases hsession'
    · next hkey =>
      obtain ⟨w, task', profile', hw, hid, hsid'⟩ := hs.only p sid session' hsession'
      refine ⟨w, task', profile', htracks.2 ⟨?_, hw⟩, hid, hsid'⟩
      rintro rfl
      obtain ⟨rfl, rfl⟩ := h.unique hw
      exact hkey ⟨hid.symm, hsid'.symm⟩
  · intro p
    rw [hsame.playerSessions, get?_without hget]
    split
    · next hp =>
      subst hp
      constructor
      · intro hnone w task' profile' hw hid
        obtain ⟨hne, hw⟩ := htracks.1 hw
        obtain ⟨session', hsession', -⟩ := hs.entry w task' profile' hw
        have hsid' : task'.sessionId ≠ task.sessionId := fun heq => hother hne hw ⟨hid, heq⟩
        rw [hid, hnone _ hsid'] at hsession'
        cases hsession'
      · intro hnot sid hne
        apply Option.eq_none_iff_forall_ne_some.2
        intro session' hsession'
        obtain ⟨w, task', profile', hw, hid, hsid'⟩ := hs.only _ sid session' hsession'
        refine hnot w task' profile' (htracks.2 ⟨?_, hw⟩) hid
        rintro rfl
        obtain ⟨rfl, -⟩ := h.unique hw
        exact hne hsid'.symm
    · next hp =>
      rw [hs.absent]
      constructor
      · exact fun hnot w task' profile' hw => hnot w task' profile' (htracks.1 hw).2
      · intro hnot w task' profile' hw
        by_cases hwt : w = t
        · subst hwt
          obtain ⟨rfl, rfl⟩ := h.unique hw
          exact fun heq => hp heq.symm
        · exact hnot w task' profile' (htracks.2 ⟨hwt, hw⟩)

/-! ### Runs -/

theorem TasksMade.update (hmade : s.TasksMade) (htask : s.sessionTasks t = some task)
    {x : Option SessionTask} (htasks : s'.sessionTasks = Function.update s.sessionTasks t x)
    (hnext : s'.nextTask = s.nextTask) : s'.TasksMade := by
  intro w hw
  rw [hnext] at hw
  rw [htasks, Function.update_of_ne]
  · exact hmade w hw
  · rintro rfl
    rw [hmade w hw] at htask
    cases htask

theorem step_tasksMade {a : Action} (hmade : s.TasksMade) (hs : Exact s)
    (hstep : s.step a = some s') : s'.TasksMade := by
  have htrack {t : Nat} {task : SessionTask} (htask : s.sessionTasks t = some task)
      (profile : UserProfile) :
      (s.trackSession t task profile).TasksMade :=
    hmade.update htask (setPhase_tasks htask _) rfl
  have hphase {t : Nat} {task : SessionTask} (htask : s.sessionTasks t = some task)
      (phase : Phase) :
      (s.setPhase t phase).TasksMade :=
    hmade.update htask (setPhase_tasks htask _) rfl
  by_cases ha : a.onSession = true
  · cases a with
    | startSession sessionId loginStart backend clientIp =>
      cases hstep
      intro w hw
      dsimp only [startSession] at hw ⊢
      rw [Function.update_of_ne (by omega)]
      exact hmade w (by omega)
    | beginSession t =>
      obtain ⟨task, htask, -, rfl⟩ := resume_eq hstep
      unfold beginSession
      split
      · exact hphase htask _
      · exact htrack htask _
    | resolveSession t profile =>
      obtain ⟨task, htask, -, rfl⟩ := resume_eq hstep
      unfold resolveSession
      split
      · exact hphase htask _
      · exact htrack htask _
    | cancelSession t =>
      obtain ⟨task, htask, -, rfl⟩ := resume_eq hstep
      unfold cancelSession
      split
      · exact hphase htask _
      · exact hphase htask _
      · next profile heq =>
        obtain ⟨session, hsession, -⟩ := hs.entry t task profile ⟨htask, heq⟩
        obtain ⟨sessions, hget, hsid⟩ := Option.bind_eq_some_iff.1 hsession
        have hsame := removeSession_same t task hget
          (Dict.mem_keys.2 (by rw [hsid]; rfl))
        exact hmade.update htask (hsame.sessionTasks.trans (setPhase_tasks htask _)) hsame.nextTask
      · exact hmade
    | _ => cases ha
  · have hsame := step_sameSessions (Bool.eq_false_iff.2 ha) hstep
    intro w hw
    rw [hsame.nextTask] at hw
    rw [hsame.sessionTasks]
    exact hmade w hw

theorem isCreated_iff {phase : Phase} : phase.isCreated = true ↔ phase = .created := by
  cases phase <;> simp [Phase.isCreated]

theorem isResolving_iff {phase : Phase} : phase.isResolving = true ↔ phase = .resolving := by
  cases phase <;> simp [Phase.isResolving]

/-- **One step** keeps the table exact just when a session that it begins to track has a fresh
identifier. -/
theorem Exact.step {a : Action} (hs : Exact s) (hmade : s.TasksMade)
    (hstep : s.step a = some s') : Exact s' ↔ s.FreshIds a := by
  unfold FreshIds
  by_cases ha : a.onSession = true
  · cases a with
    | startSession sessionId loginStart backend clientIp =>
      cases hstep
      refine iff_of_true (hs.of_eq rfl fun w task' profile' => ?_) fun key hkey => by cases hkey
      unfold Tracks startSession
      dsimp only
      by_cases hw : w = s.nextTask
      · subst hw
        rw [Function.update_self, hmade _ (Nat.le_refl _)]
        refine iff_of_false ?_ (by simp)
        rintro ⟨h, hphase⟩
        cases h
        cases hphase
      · rw [Function.update_of_ne hw]
    | beginSession t =>
      obtain ⟨task, htask, hcreated, rfl⟩ := resume_eq hstep
      have hbefore (profile : UserProfile) : task.phase ≠ .tracking profile := by
        rw [isCreated_iff.1 hcreated]
        exact fun h => by cases h
      unfold beginSession begins
      dsimp only
      rw [htask, Option.bind_some, if_pos hcreated]
      cases task.loginStart.playerId with
      | none =>
        exact iff_of_true (hs.setPhase htask hbefore fun _ h => by cases h) fun key h => by cases h
      | some id =>
        dsimp only
        rw [hs.trackSession hmade htask hbefore]
        simp
    | resolveSession t profile =>
      obtain ⟨task, htask, hresolving, rfl⟩ := resume_eq hstep
      have hbefore (profile : UserProfile) : task.phase ≠ .tracking profile := by
        rw [isResolving_iff.1 hresolving]
        exact fun h => by cases h
      unfold resolveSession begins
      dsimp only
      rw [htask, Option.bind_some, if_pos hresolving]
      cases profile with
      | none =>
        exact iff_of_true (hs.setPhase htask hbefore fun _ h => by cases h) fun key h => by cases h
      | some profile =>
        dsimp only
        rw [hs.trackSession hmade htask hbefore]
        simp
    | cancelSession t =>
      obtain ⟨task, htask, -, rfl⟩ := resume_eq hstep
      refine iff_of_true ?_ fun key hkey => by cases hkey
      unfold cancelSession
      split
      · next h => exact hs.setPhase htask (by simp [h]) fun _ h => by cases h
      · next h => exact hs.setPhase htask (by simp [h]) fun _ h => by cases h
      · next profile h => exact (hs.removeSession ⟨htask, h⟩).1
      · exact hs
    | _ => cases ha
  · have hsame := step_sameSessions (Bool.eq_false_iff.2 ha) hstep
    apply iff_of_true (hs.of_same hsame)
    intro key hkey
    cases a <;> first | exact absurd rfl ha | cases hkey

theorem exact_init (voiceIpBinding : Bool) :
    Exact (init voiceIpBinding) ∧ (init voiceIpBinding).TasksMade := by
  have hnone (t : Nat) (task : SessionTask) (profile : UserProfile) :
      ¬ (init voiceIpBinding).Tracks t task profile := by
    rintro ⟨⟨⟩, -⟩
  refine ⟨⟨fun t task profile h => absurd h (hnone _ _ _),
    fun t _ task _ profile _ h => absurd h (hnone _ _ _), ?_, fun _ => ?_⟩, fun _ _ => rfl⟩
  · rintro p sid session ⟨⟩
  · exact iff_of_true rfl fun t task profile h => absurd h (hnone _ _ _)

/-- **Session tracking is exact** in every run in which each session begins to be tracked under an
identifier that no tracked session of its player has, up to the first that does not. Cancelling a
session removes its entry and no other. -/
theorem sessions_exact {voiceIpBinding : Bool}
    (h : Reach MCProxy.step FreshIds (init voiceIpBinding) s) :
    Exact s ∧ ∀ a s', s.step a = some s' → (Exact s' ↔ s.FreshIds a) ∧
      ∀ t task, a = .cancelSession t → s.sessionTasks t = some task →
        (∀ profile, task.phase = .tracking profile → ∀ p sid, s'.lookup p sid =
          if p = profile.id ∧ sid = task.sessionId then none else s.lookup p sid) ∧
        ((∀ profile, task.phase ≠ .tracking profile) → s'.playerSessions = s.playerSessions) := by
  obtain ⟨hs, hmade⟩ : Exact s ∧ s.TasksMade :=
    h.invariant (P := fun s => Exact s ∧ s.TasksMade) (exact_init voiceIpBinding)
      fun _ _ _ hs hok hstep => ⟨(hs.1.step hs.2 hstep).2 hok, step_tasksMade hs.2 hs.1 hstep⟩
  refine ⟨hs, fun a s' hstep => ⟨hs.step hmade hstep, ?_⟩⟩
  rintro t task rfl htask
  obtain ⟨task', htask', -, rfl⟩ := resume_eq hstep
  obtain rfl := Option.some.inj (htask.symm.trans htask')
  constructor
  · intro profile hphase
    unfold cancelSession
    rw [hphase]
    exact (hs.removeSession ⟨htask, hphase⟩).2
  · intro hphase
    unfold cancelSession
    split
    · rfl
    · rfl
    · next profile heq => exact absurd heq (hphase profile)
    · rfl

end

/-- Player 7 logs in to backend 0 and again to backend 1, with these identifiers. -/
def twoLogins (first second : Nat) : List Action :=
  [.startSession first ⟨['p'], some 7⟩ 0 ['a'], .beginSession 0,
    .startSession second ⟨['p'], some 7⟩ 1 ['b'], .beginSession 1]

/-- The first of two sessions ends; the second stays. -/
theorem sessions_exact_two :
    ∃ s s', Reach MCProxy.step FreshIds (init true) s ∧ s.step (.cancelSession 0) = some s' ∧
      (s'.lookup 7 20).isSome ∧ Exact s' := by
  obtain ⟨s, hs, hstep⟩ := Reach.exists_of_runIn MCProxy.step FreshIds (init true) (twoLogins 10 20)
    (p := fun s => (s.step (.cancelSession 0)).any (fun s' => (s'.lookup 7 20).isSome) = true)
    (by decide +kernel)
  obtain ⟨s', hs', hlookup⟩ := (Option.any_eq_true ..).1 hstep
  exact ⟨s, s', hs, hs', hlookup, ((sessions_exact hs).2 _ s' hs').1.2 fun key hkey => by cases hkey⟩

/-- Both sessions get the same identifier. When the first ends the player is in no table, although
the second is tracked. -/
theorem shared_entry :
    ∃ s, Reach MCProxy.step (fun _ _ => True) (init true) s ∧ s.Uses 7 10 ∧
      s.playerSessions.get? 7 = none ∧ ¬ Exact s := by
  obtain ⟨s, hs, huses, hnone⟩ := Reach.exists_of_runIn MCProxy.step (fun _ _ => True)
    (init true) (twoLogins 10 10 ++ [.cancelSession 0])
    (p := fun s => s.Uses 7 10 ∧ (s.playerSessions.get? 7).isNone = true) (by decide +kernel)
  rw [Option.isNone_iff_eq_none] at hnone
  refine ⟨s, hs, huses, hnone, ?_⟩
  intro hexact
  obtain ⟨t, task, profile, htracks, hid, -⟩ := huses.exists_tracks
  exact (hexact.absent 7).1 hnone t task profile htracks hid

end MCProxy

end Silkjam.Proxy
