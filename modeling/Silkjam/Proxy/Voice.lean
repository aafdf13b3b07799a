import Silkjam.Proxy.Sessions

/-!
# Voice bridges

The bridge for a packet is chosen by the session connected the longest, before an await, and stored
after it, while a session that ends closes the bridges it finds. So a bridge stored for a player
whose sessions have changed meanwhile belongs to no session (`orphan_bridge`); nothing else leaves
one behind (`no_orphan_bridges`).
-/

namespace Silkjam.Proxy

open Transition

namespace MCProxy

/-- Each bridge is one of the backend that its player's longest session is connected to. -/
def NoOrphans (s : MCProxy) : Prop :=
  ∀ key ∈ s.voiceBridges.keys, (s.longestSession key.1).map PlayerSession.backend = some key.2

/-- A bridge is stored while the longest session of the player is connected to the backend that was
chosen before the await. -/
def StoresCurrent (s : MCProxy) : Action → Prop
  | .bridgeCreated => ∀ r ∈ s.routing,
    (s.longestSession r.player).map PlayerSession.backend = some r.backend
  | _ => True

instance (s : MCProxy) (a : Action) : Decidable (s.StoresCurrent a) :=
  match a with
  | .bridgeCreated => inferInstanceAs (Decidable (∀ r ∈ s.routing, _))
  | .startSession .. | .beginSession _ | .resolveSession .. | .cancelSession _ | .route ..
  | .connectionMade | .bridgeFailed | .connectionLost _ | .datagramReceived _
  | .cleanupVoiceBridges | .closeAllVoiceBridges | .listenerStarted | .listenerOpened
  | .listenerFailed | .listenerLost | .listenerClosed | .listenerCancelled | .advance _ =>
    .isTrue trivial

/-- Sessions began in the past. -/
def Orderly (s : MCProxy) : Prop :=
  ∀ playerId sessions, s.playerSessions.get? playerId = some sessions →
    ∀ e ∈ sessions.items, e.2.time ≤ s.now

section
variable {s s' : MCProxy} {t : Nat} {task : SessionTask} {profile : UserProfile} {playerId : Uuid}

/-! ### Closing bridges -/

theorem mem_keys_closeVoiceBridge {key key' : Uuid × BackendId} :
    key' ∈ (s.closeVoiceBridge key).voiceBridges.keys ↔ key' ∈ s.voiceBridges.keys ∧ key' ≠ key := by
  unfold closeVoiceBridge
  split
  · next hnone =>
    refine ⟨fun h => ⟨h, ?_⟩, And.left⟩
    rintro rfl
    exact Dict.get?_eq_none.1 hnone h
  · dsimp only [closeTransport, modifyBridge]
    rw [Dict.mem_keys_erase, and_comm]

theorem mem_keys_closeVoiceBridges {keys : List (Uuid × BackendId)} {key : Uuid × BackendId} :
    key ∈ (s.closeVoiceBridges keys).voiceBridges.keys ↔ key ∈ s.voiceBridges.keys ∧ key ∉ keys := by
  unfold closeVoiceBridges
  induction keys generalizing s with
  | nil => simp
  | cons k keys ih =>
    rw [List.foldl_cons, ih, mem_keys_closeVoiceBridge, List.mem_cons, not_or, and_assoc]

theorem mem_keys_closePlayerVoiceBridges {keepBackend : Option BackendId}
    {key : Uuid × BackendId} :
    key ∈ (s.closePlayerVoiceBridges playerId keepBackend).voiceBridges.keys ↔
      key ∈ s.voiceBridges.keys ∧ (key.1 = playerId → keepBackend = some key.2) := by
  unfold closePlayerVoiceBridges
  rw [mem_keys_closeVoiceBridges, List.mem_filter, decide_eq_true_eq]
  apply and_congr_right
  intro hmem
  simp only [hmem, true_and, not_and, ne_eq, not_not, eq_comm (a := some key.2)]

theorem closeVoiceBridges_now (s : MCProxy) (keys : List (Uuid × BackendId)) :
    (s.closeVoiceBridges keys).now = s.now := by
  unfold closeVoiceBridges
  induction keys generalizing s with
  | nil => rfl
  | cons key keys ih =>
    rw [List.foldl_cons, ih]
    unfold closeVoiceBridge
    split <;> rfl

/-! ### The longest session -/

theorem longestSession_congr (h : s'.playerSessions.get? playerId = s.playerSessions.get? playerId) :
    s'.longestSession playerId = s.longestSession playerId := by
  unfold longestSession
  rw [h]

theorem trackSession_sessions (s : MCProxy) (t : Nat) (task : SessionTask) (profile : UserProfile) :
    (s.trackSession t task profile).playerSessions = s.playerSessions.set profile.id
      (if task.sessionId ∈ ((s.playerSessions.get? profile.id).getD {}).keys then
        (s.playerSessions.get? profile.id).getD {}
      else
        ((s.playerSessions.get? profile.id).getD {}).set task.sessionId
          ⟨s.now, profile, task.backend, task.clientIp⟩) :=
  rfl

theorem longestSession_trackSession (horderly : Orderly s) {session : PlayerSession}
    (hlongest : s.longestSession playerId = some session) :
    (s.trackSession t task profile).longestSession playerId = some session := by
  by_cases hp : playerId = profile.id
  · subst hp
    obtain ⟨sessions, hget, hmin⟩ := Option.bind_eq_some_iff.1 hlongest
    unfold longestSession
    rw [trackSession_sessions, Dict.get?_set_self, Option.bind_some, hget, Option.getD_some]
    split
    · exact hmin
    · next hnew =>
      have htime : session.time ≤ s.now := by
        obtain ⟨sid, hmem⟩ := Dict.mem_values_iff_exists.1 (List.argmin_mem hmin)
        exact horderly profile.id sessions hget _ hmem
      rw [Dict.values, Dict.items_set_of_notMem _ hnew, List.map_append, List.map_singleton,
        List.argmin_concat, show List.argmin PlayerSession.time (sessions.items.map Prod.snd) =
          some session from hmin]
      exact if_neg (Nat.not_lt.2 htime)
  · rw [longestSession_congr, hlongest]
    rw [trackSession_sessions, Dict.get?_set_of_ne _ _ hp]

theorem Orderly.trackSession (h : Orderly s) : Orderly (s.trackSession t task profile) := by
  intro p sessions hget e he
  rw [trackSession_sessions, Dict.get?_set] at hget
  have hnow : (s.trackSession t task profile).now = s.now := rfl
  have hold {e : Nat × PlayerSession}
      (he : e ∈ ((s.playerSessions.get? profile.id).getD {}).items) : e.2.time ≤ s.now := by
    cases hsome : s.playerSessions.get? profile.id with
    | none =>
      rw [hsome] at he
      cases he
    | some sessions =>
      rw [hsome] at he
      exact h _ sessions hsome e he
  rw [hnow]
  split at hget
  · obtain rfl := Option.some.inj hget
    split at he
    · exact hold he
    · next hnew =>
      rcases (Dict.mem_set_of_notMem hnew).1 he with he | rfl
      · exact hold he
      · exact Nat.le_refl _
  · exact h p sessions hget e he

theorem NoOrphans.trackSession (h : NoOrphans s) (horderly : Orderly s) :
    NoOrphans (s.trackSession t task profile) := by
  intro key hkey
  obtain ⟨session, hlongest, hbackend⟩ := Option.map_eq_some_iff.1 (h key hkey)
  rw [longestSession_trackSession horderly hlongest, Option.map_some, hbackend]

/-- A session that ends leaves the bridges of other players, and of its player's longest session. -/
theorem NoOrphans.removeSession (h : NoOrphans s) : NoOrphans (s.removeSession t task profile) := by
  have hphase : NoOrphans (s.setPhase t .finished) := h
  unfold MCProxy.removeSession
  dsimp only
  split
  · exact hphase
  next trackedSessions hget =>
  split
  · exact hphase
  split
  · intro key hkey
    rw [mem_keys_closePlayerVoiceBridges] at hkey
    obtain ⟨hmem, hkeep⟩ := hkey
    have hne : key.1 ≠ profile.id := fun heq => by cases hkeep heq
    rw [longestSession_congr]
    · exact h key hmem
    · rw [closePlayerVoiceBridges, (sameSessions_closeVoiceBridges _ _).playerSessions]
      exact Dict.get?_erase_of_ne _ hne
  · intro key hkey
    rw [mem_keys_closePlayerVoiceBridges] at hkey
    obtain ⟨hmem, hkeep⟩ := hkey
    rw [longestSession_congr (s := { s.setPhase t .finished with
      playerSessions := s.playerSessions.set profile.id (trackedSessions.erase task.sessionId) })]
    · by_cases heq : key.1 = profile.id
      · rw [heq]
        exact hkeep heq
      · rw [longestSession_congr (s := s)]
        · exact h key hmem
        · exact Dict.get?_set_of_ne _ _ heq
    · rw [closePlayerVoiceBridges, (sameSessions_closeVoiceBridges _ _).playerSessions]
      rfl

theorem Orderly.removeSession (h : Orderly s) : Orderly (s.removeSession t task profile) := by
  have hclose (s₁ : MCProxy) (keys : List (Uuid × BackendId)) (h₁ : Orderly s₁) :
      Orderly (s₁.closeVoiceBridges keys) := by
    intro p sessions hget
    rw [(sameSessions_closeVoiceBridges s₁ keys).playerSessions] at hget
    rw [closeVoiceBridges_now]
    exact h₁ p sessions hget
  unfold MCProxy.removeSession
  dsimp only
  split
  · exact h
  next trackedSessions hget =>
  split
  · exact h
  split
  · apply hclose _ _
    intro p sessions hp
    dsimp only at hp
    rw [Dict.get?_erase] at hp
    split at hp
    · cases hp
    · exact h p sessions hp
  · apply hclose _ _
    intro p sessions hp e he
    dsimp only at hp
    rw [Dict.get?_set] at hp
    split at hp
    · obtain rfl := Option.some.inj hp
      exact h _ trackedSessions hget e (Dict.mem_erase.1 he).2
    · exact h p sessions hp e he

/-! ### Runs -/

/-- Other steps change no session and add no bridge, but for storing one. -/
structure Bridging (s s' : MCProxy) : Prop where
  same : SameSessions s s'
  keys : ∀ key ∈ s'.voiceBridges.keys, key ∈ s.voiceBridges.keys
  now : s.now ≤ s'.now

theorem Bridging.of_eq (hsessions : SameSessions s s') (hbridges : s'.voiceBridges = s.voiceBridges)
    (hnow : s.now ≤ s'.now) : Bridging s s' :=
  ⟨hsessions, fun key hkey => by rwa [hbridges] at hkey, hnow⟩

theorem bridging_closeVoiceBridges (s : MCProxy) (keys : List (Uuid × BackendId)) :
    Bridging s (s.closeVoiceBridges keys) :=
  ⟨sameSessions_closeVoiceBridges s keys, fun _ hkey => (mem_keys_closeVoiceBridges.1 hkey).1,
    (closeVoiceBridges_now s keys).ge⟩

theorem getOrCreateVoiceBridge_eq (s : MCProxy) (playerId : Uuid) (addr : Addr)
    (voicePort : Option Nat) :
    (s.getOrCreateVoiceBridge playerId addr voicePort).1.voiceBridges = s.voiceBridges ∧
      (s.getOrCreateVoiceBridge playerId addr voicePort).1.now = s.now := by
  have hbegin (s : MCProxy) (backend : BackendId) :
      (s.beginBridge playerId backend addr).voiceBridges = s.voiceBridges ∧
        (s.beginBridge playerId backend addr).now = s.now := by
    unfold beginBridge
    split <;> exact ⟨rfl, rfl⟩
  unfold getOrCreateVoiceBridge
  split
  · exact ⟨rfl, rfl⟩
  split
  · exact ⟨rfl, rfl⟩
  split
  · exact ⟨rfl, rfl⟩
  next session _ _ _ =>
  dsimp only
  split
  · exact ⟨rfl, rfl⟩
  · rw [(hbegin _ _).1, (hbegin _ _).2]
    cases s.voiceBridges.get? (playerId, session.backend) <;> exact ⟨rfl, rfl⟩

theorem step_bridging {a : Action} (ha : a.onSession = false) (hne : a ≠ .bridgeCreated)
    (hstep : s.step a = some s') : Bridging s s' := by
  have hsame := step_sameSessions ha hstep
  cases a with
  | startSession | beginSession | resolveSession | cancelSession => cases ha
  | bridgeCreated => exact absurd rfl hne
  | route playerId addr voicePort =>
    obtain ⟨hbridges, hnow⟩ := getOrCreateVoiceBridge_eq s playerId addr voicePort
    obtain ⟨-, rfl | ⟨b, rfl⟩⟩ := route_eq hstep
    · exact .of_eq hsame hbridges hnow.ge
    · exact .of_eq hsame hbridges hnow.ge
  | connectionMade | bridgeFailed =>
    obtain ⟨r, -, rfl⟩ := Option.map_eq_some_iff.1 hstep
    exact .of_eq hsame rfl (Nat.le_refl _)
  | connectionLost | datagramReceived =>
    cases hstep
    exact .of_eq hsame rfl (Nat.le_refl _)
  | advance time =>
    cases hstep
    exact .of_eq hsame rfl (Nat.le_add_right _ _)
  | cleanupVoiceBridges | closeAllVoiceBridges =>
    cases hstep
    exact bridging_closeVoiceBridges s _
  | listenerStarted | listenerOpened | listenerFailed | listenerLost | listenerClosed
  | listenerCancelled =>
    unfold step at hstep
    dsimp only at hstep
    split at hstep <;> cases hstep <;> exact .of_eq hsame rfl (Nat.le_refl _)

/-- **One step** leaves no orphan, but for storing a bridge that the sessions do not choose. -/
theorem NoOrphans.step {a : Action} (h : NoOrphans s) (horderly : Orderly s)
    (hstep : s.step a = some s') : (NoOrphans s' ↔ s.StoresCurrent a) ∧ Orderly s' := by
  by_cases ha : a.onSession = true
  · have hkept : NoOrphans s' ∧ Orderly s' := by
      cases a with
      | startSession =>
        cases hstep
        exact ⟨h, horderly⟩
      | beginSession t =>
        obtain ⟨task, -, -, rfl⟩ := resume_eq hstep
        unfold beginSession
        split
        · exact ⟨h, horderly⟩
        · exact ⟨h.trackSession horderly, horderly.trackSession⟩
      | resolveSession t profile =>
        obtain ⟨task, -, -, rfl⟩ := resume_eq hstep
        unfold resolveSession
        split
        · exact ⟨h, horderly⟩
        · exact ⟨h.trackSession horderly, horderly.trackSession⟩
      | cancelSession t =>
        obtain ⟨task, -, -, rfl⟩ := resume_eq hstep
        unfold cancelSession
        split
        · exact ⟨h, horderly⟩
        · exact ⟨h, horderly⟩
        · exact ⟨h.removeSession, horderly.removeSession⟩
        · exact ⟨h, horderly⟩
      | _ => cases ha
    refine ⟨iff_of_true hkept.1 ?_, hkept.2⟩
    cases a <;> trivial
  have hfalse := Bool.eq_false_iff.2 ha
  by_cases hne : a = .bridgeCreated
  · subst hne
    obtain ⟨r, hr, rfl⟩ := Option.map_eq_some_iff.1 hstep
    have hrouting : s.routing = some r := (Option.filter_eq_some_iff.1 hr).1
    refine ⟨?_, horderly⟩
    have hkeys {key : Uuid × BackendId} :
        key ∈ ((s.storeBridge r).forward r.bridge).voiceBridges.keys ↔
          key = (r.player, r.backend) ∨ key ∈ s.voiceBridges.keys :=
      Dict.mem_keys_set
    constructor
    · intro hall r' hr'
      obtain rfl := Option.some.inj (hrouting.symm.trans hr')
      exact hall (r.player, r.backend) (hkeys.2 (.inl rfl))
    · intro hcurrent key hkey
      rcases hkeys.1 hkey with rfl | hkey
      · exact hcurrent r hrouting
      · exact h key hkey
  · have hb := step_bridging hfalse hne hstep
    refine ⟨iff_of_true (?_) ?_, ?_⟩
    · intro key hkey
      rw [longestSession_congr (s := s) (by rw [hb.same.playerSessions])]
      exact h key (hb.keys key hkey)
    · cases a <;> trivial
    · intro p sessions hget e he
      rw [hb.same.playerSessions] at hget
      exact (horderly p sessions hget e he).trans hb.now

/-- **No orphan voice bridges.** In every run in which each bridge is stored while the longest
session of its player is connected to the backend chosen before the await, each bridge is one of the
backend that its player's longest session is connected to; and the first bridge that is stored
otherwise is none. -/
theorem no_orphan_bridges {voiceIpBinding : Bool}
    (h : Reach MCProxy.step StoresCurrent (init voiceIpBinding) s) :
    NoOrphans s ∧ ∀ a s', s.step a = some s' → (NoOrphans s' ↔ s.StoresCurrent a) := by
  obtain ⟨hs, horderly⟩ : NoOrphans s ∧ Orderly s := by
    refine h.invariant (P := fun s => NoOrphans s ∧ Orderly s) ⟨?_, ?_⟩ ?_
    · rintro key ⟨⟩
    · rintro p sessions ⟨⟩
    · rintro s a s' ⟨hs, horderly⟩ hok hstep
      obtain ⟨hiff, horderly'⟩ := hs.step horderly hstep
      exact ⟨hiff.2 hok, horderly'⟩
  exact ⟨hs, fun a s' hstep => (hs.step horderly hstep).1⟩

end

/-- A session of player 7 on backend 0 begins, and a packet of the player is routed. -/
def routed : List Action :=
  [.listenerStarted, .listenerOpened, .startSession 1 ⟨['p'], some 7⟩ 0 ['a'], .beginSession 0,
    .route 7 ⟨['a'], 1⟩ (some 24454), .connectionMade]

/-- The bridge of a session is stored, and closed when the session ends. -/
theorem no_orphan_bridges_stored :
    ∃ s s', Reach MCProxy.step StoresCurrent (init true) s ∧ s.voiceBridges.keys = [(7, 0)] ∧
      s.step (.cancelSession 0) = some s' ∧ NoOrphans s' := by
  obtain ⟨s, hs, hkeys, hsome⟩ := Reach.exists_of_runIn MCProxy.step StoresCurrent (init true)
    (routed ++ [.bridgeCreated])
    (p := fun s => s.voiceBridges.keys = [(7, 0)] ∧ (s.step (.cancelSession 0)).isSome = true)
    (by decide +kernel)
  obtain ⟨s', hs'⟩ := Option.isSome_iff_exists.1 hsome
  exact ⟨s, s', hs, hkeys, hs', ((no_orphan_bridges hs).2 _ s' hs').2 trivial⟩

/-- The session ends while the bridge is made: it is stored for a player without sessions. -/
theorem orphan_bridge :
    ∃ s, Reach MCProxy.step (fun _ _ => True) (init true) s ∧ s.routing.isNone = true ∧
      (7, 0) ∈ s.voiceBridges.keys ∧ s.playerSessions.items = [] ∧ ¬ NoOrphans s := by
  obtain ⟨s, hs, hrouting, hkey, hempty, hnone⟩ := Reach.exists_of_runIn MCProxy.step
    (fun _ _ => True) (init true) (routed ++ [.cancelSession 0, .bridgeCreated])
    (p := fun s => s.routing.isNone = true ∧ (7, 0) ∈ s.voiceBridges.keys ∧
      s.playerSessions.items.length = 0 ∧ (s.longestSession 7).isNone = true) (by decide +kernel)
  refine ⟨s, hs, hrouting, hkey, List.length_eq_zero_iff.1 hempty, ?_⟩
  intro hall
  have hchosen := hall (7, 0) hkey
  rw [Option.isNone_iff_eq_none.1 hnone] at hchosen
  cases hchosen

end MCProxy

end Silkjam.Proxy
