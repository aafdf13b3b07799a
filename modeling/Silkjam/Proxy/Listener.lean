import Silkjam.Proxy.State

/-!
# Voice bridges and the voice listener

A bridge keeps the transport of the voice listener it was made under, and is used again as long as
the client's address stays. When the listener is lost and opened again, the bridges made before
reply through the closed transport (`stale_bridge`): a bridge that is returned for a packet replies
through the open listener just when the listener was not opened since the bridge was made
(`bridges_follow_listener`).
-/

namespace Silkjam.Proxy

open Transition

namespace MCProxy

/-- The bridge that `_get_or_create_voice_bridge` returns in this step. -/
def returned (s : MCProxy) : Action → Option Nat
  | .route playerId addr voicePort => (s.getOrCreateVoiceBridge playerId addr voicePort).2
  | .bridgeCreated => s.routing.map Routing.bridge
  | _ => none

/-- How often the listener was opened since the bridge was made. -/
def openings (s : MCProxy) (b : Nat) : Nat :=
  (s.trace.takeWhile fun o => o ≠ .begun b).count .opened

/-- The listener was not opened since the bridge was made. -/
def NotReopened (s : MCProxy) (b : Nat) : Prop :=
  .opened ∉ s.trace.takeWhile fun o => o ≠ .begun b

/-- The transport of the proxy is the one of its listener, which is the last one opened; and each
bridge has the one that was the last when it was made. -/
structure Listens (s : MCProxy) : Prop where
  transport : ∀ n, s.voiceTransport = some n ↔ ∃ closed, s.listener = .listening n closed
  last : ∀ n, s.voiceTransport = some n → n + 1 = s.nextTransport
  fresh : ∀ b bridge, s.bridges b = some bridge → b < s.nextBridge
  made : ∀ b bridge, s.bridges b = some bridge →
    bridge.proxyTransport + 1 + s.openings b = s.nextTransport

section
variable {s s' : MCProxy}

theorem notReopened_iff {b : Nat} : s.NotReopened b ↔ s.openings b = 0 := by
  unfold NotReopened openings
  rw [List.count_eq_zero]

/-- The listener is the same, and so are the transports of the bridges. -/
structure SameVoice (s s' : MCProxy) : Prop where
  voiceTransport : s'.voiceTransport = s.voiceTransport
  nextTransport : s'.nextTransport = s.nextTransport
  listener : s'.listener = s.listener
  nextBridge : s'.nextBridge = s.nextBridge
  trace : s'.trace = s.trace
  bridges : ∀ b, (s'.bridges b).map VoiceBridge.proxyTransport =
    (s.bridges b).map VoiceBridge.proxyTransport

theorem SameVoice.refl (s : MCProxy) : SameVoice s s :=
  ⟨rfl, rfl, rfl, rfl, rfl, fun _ => rfl⟩

theorem SameVoice.trans {s'' : MCProxy} (h : SameVoice s s') (h' : SameVoice s' s'') :
    SameVoice s s'' :=
  ⟨h'.1.trans h.1, h'.2.trans h.2, h'.3.trans h.3, h'.4.trans h.4, h'.5.trans h.5,
    fun b => (h'.6 b).trans (h.6 b)⟩

theorem sameVoice_modifyBridge (s : MCProxy) (b : Nat) {f : VoiceBridge → VoiceBridge}
    (hf : ∀ bridge, (f bridge).proxyTransport = bridge.proxyTransport) :
    SameVoice s (s.modifyBridge b f) := by
  refine ⟨rfl, rfl, rfl, rfl, rfl, ?_⟩
  intro w
  unfold modifyBridge
  dsimp only
  by_cases hw : w = b
  · subst hw
    rw [Function.update_self, Option.map_map]
    exact Option.map_congr fun bridge _ => hf bridge
  · rw [Function.update_of_ne hw]

theorem sameVoice_closeTransport (s : MCProxy) (b : Nat) : SameVoice s (s.closeTransport b) :=
  sameVoice_modifyBridge s b fun _ => rfl

theorem sameVoice_forward (s : MCProxy) (b : Nat) : SameVoice s (s.forward b) :=
  sameVoice_modifyBridge s b fun _ => rfl

theorem sameVoice_closeVoiceBridge (s : MCProxy) (key : Uuid × BackendId) :
    SameVoice s (s.closeVoiceBridge key) := by
  unfold closeVoiceBridge
  split
  · exact .refl s
  · refine .trans ?_ (sameVoice_closeTransport _ _)
    exact ⟨rfl, rfl, rfl, rfl, rfl, fun _ => rfl⟩

theorem sameVoice_closeVoiceBridges (s : MCProxy) (keys : List (Uuid × BackendId)) :
    SameVoice s (s.closeVoiceBridges keys) := by
  induction keys generalizing s with
  | nil => exact .refl s
  | cons key keys ih => exact (sameVoice_closeVoiceBridge s key).trans (ih _)

theorem Listens.of_same (h : Listens s) (hsame : SameVoice s s') : Listens s' := by
  have hopenings (b : Nat) : s'.openings b = s.openings b := by
    unfold openings
    rw [hsame.trace]
  have hbridge {b : Nat} {bridge : VoiceBridge} (hb : s'.bridges b = some bridge) :
      ∃ old, s.bridges b = some old ∧ old.proxyTransport = bridge.proxyTransport := by
    have := hsame.bridges b
    rw [hb, Option.map_some, eq_comm, Option.map_eq_some_iff] at this
    exact this
  refine ⟨?_, ?_, ?_, ?_⟩
  · intro n
    rw [hsame.voiceTransport, hsame.listener]
    exact h.transport n
  · intro n hn
    rw [hsame.nextTransport]
    exact h.last n (hsame.voiceTransport ▸ hn)
  · intro b bridge hb
    obtain ⟨old, hold, -⟩ := hbridge hb
    rw [hsame.nextBridge]
    exact h.fresh b old hold
  · intro b bridge hb
    obtain ⟨old, hold, htransport⟩ := hbridge hb
    rw [hopenings, hsame.nextTransport, ← htransport]
    exact h.made b old hold

theorem Listens.beginBridge (h : Listens s) (playerId : Uuid) (backend : BackendId) (addr : Addr) :
    Listens (s.beginBridge playerId backend addr) := by
  unfold MCProxy.beginBridge
  split
  · exact h
  next n hn =>
  have hopenings {b : Nat} (hb : b < s.nextBridge) :
      (Obs.begun s.nextBridge :: s.trace).takeWhile (fun o => o ≠ .begun b) =
        Obs.begun s.nextBridge :: s.trace.takeWhile fun o => o ≠ .begun b := by
    rw [List.takeWhile_cons_of_pos]
    simp only [ne_eq, Obs.begun.injEq, decide_eq_true_eq]
    omega
  refine ⟨h.transport, h.last, ?_, ?_⟩
  · intro b bridge hb
    dsimp only at hb ⊢
    by_cases hbn : b = s.nextBridge
    · omega
    · rw [Function.update_of_ne hbn] at hb
      exact (h.fresh b bridge hb).trans (Nat.lt_succ_self _)
  · intro b bridge hb
    unfold openings
    dsimp only at hb ⊢
    by_cases hbn : b = s.nextBridge
    · subst hbn
      rw [Function.update_self] at hb
      obtain rfl := Option.some.inj hb
      rw [List.takeWhile_cons_of_neg (by simp)]
      exact h.last n hn
    · rw [Function.update_of_ne hbn] at hb
      rw [hopenings (h.fresh b bridge hb), List.count_cons_of_ne (by simp)]
      exact h.made b bridge hb

theorem Listens.openListener (h : Listens s) : Listens s.openListener := by
  refine ⟨?_, ?_, h.fresh, ?_⟩
  · intro n
    constructor
    · intro hn
      cases hn
      exact ⟨false, rfl⟩
    · rintro ⟨closed, hn⟩
      cases hn
      rfl
  · intro n hn
    cases hn
    rfl
  · intro b bridge hb
    have hmade := h.made b bridge hb
    unfold openings at hmade ⊢
    dsimp only [MCProxy.openListener]
    rw [List.takeWhile_cons_of_pos (by simp), List.count_cons_self]
    omega

theorem Listens.closeListener (h : Listens s) {transport : Option Nat} {listener : Listener}
    (hlistener : ∀ n closed, listener ≠ .listening n closed)
    (htransport : ∀ n, s.voiceTransport = some n → transport = some n) :
    Listens (s.closeListener transport listener) := by
  have hnone : (s.closeListener transport listener).voiceTransport = none := by
    unfold MCProxy.closeListener
    dsimp only
    cases hv : s.voiceTransport with
    | none => split <;> rfl
    | some n => rw [htransport n hv, if_pos rfl]
  refine ⟨?_, ?_, h.fresh, h.made⟩
  · intro n
    rw [hnone]
    apply iff_of_false (by simp)
    rintro ⟨closed, heq⟩
    exact hlistener n closed heq
  · intro n hn
    rw [hnone] at hn
    cases hn

theorem Listens.listening (h : Listens s) {n : Nat} (hn : s.voiceTransport = some n) :
    ∃ closed, s.listener = .listening n closed :=
  (h.transport n).1 hn

/-- The listener, which does not listen, comes to another state in which it does not. -/
theorem Listens.relisten (h : Listens s) {listener : Listener}
    (hbefore : ∀ n closed, s.listener ≠ .listening n closed)
    (hafter : ∀ n closed, listener ≠ .listening n closed) :
    Listens { s with listener := listener } := by
  refine ⟨?_, h.last, h.fresh, h.made⟩
  intro n
  dsimp only
  rw [h.transport]
  refine iff_of_false ?_ ?_
  · rintro ⟨closed, heq⟩
    exact hbefore n closed heq
  · rintro ⟨closed, heq⟩
    exact hafter n closed heq

theorem sameVoice_setPhase (s : MCProxy) (t : Nat) (phase : Phase) : SameVoice s (s.setPhase t phase) :=
  ⟨rfl, rfl, rfl, rfl, rfl, fun _ => rfl⟩

theorem sameVoice_trackSession (s : MCProxy) (t : Nat) (task : SessionTask) (profile : UserProfile) :
    SameVoice s (s.trackSession t task profile) :=
  ⟨rfl, rfl, rfl, rfl, rfl, fun _ => rfl⟩

theorem sameVoice_beginSession (s : MCProxy) (t : Nat) (task : SessionTask) :
    SameVoice s (s.beginSession t task) := by
  unfold beginSession
  split
  · exact sameVoice_setPhase s t _
  · exact sameVoice_trackSession s t task _

theorem sameVoice_resolveSession (s : MCProxy) (t : Nat) (task : SessionTask)
    (profile : Option UserProfile) : SameVoice s (s.resolveSession t task profile) := by
  cases profile with
  | none => exact sameVoice_setPhase s t _
  | some profile => exact sameVoice_trackSession s t task profile

theorem sameVoice_removeSession (s : MCProxy) (t : Nat) (task : SessionTask) (profile : UserProfile) :
    SameVoice s (s.removeSession t task profile) := by
  have hphase := sameVoice_setPhase s t .finished
  unfold removeSession
  dsimp only
  split
  · exact hphase
  split
  · exact hphase
  split
  · refine .trans ?_ (sameVoice_closeVoiceBridges _ _)
    exact hphase.trans ⟨rfl, rfl, rfl, rfl, rfl, fun _ => rfl⟩
  · refine .trans ?_ (sameVoice_closeVoiceBridges _ _)
    exact hphase.trans ⟨rfl, rfl, rfl, rfl, rfl, fun _ => rfl⟩

theorem sameVoice_cancelSession (s : MCProxy) (t : Nat) (task : SessionTask) :
    SameVoice s (s.cancelSession t task) := by
  unfold cancelSession
  split
  · exact sameVoice_setPhase s t _
  · exact sameVoice_setPhase s t _
  · exact sameVoice_removeSession s t task _
  · exact .refl s

theorem Listens.getOrCreateVoiceBridge (h : Listens s) (playerId : Uuid) (addr : Addr)
    (voicePort : Option Nat) : Listens (s.getOrCreateVoiceBridge playerId addr voicePort).1 := by
  unfold MCProxy.getOrCreateVoiceBridge
  split
  · exact h
  split
  · exact h
  split
  · exact h
  next session _ _ _ =>
  dsimp only
  split
  · exact h
  · refine Listens.beginBridge ?_ _ _ _
    cases s.voiceBridges.get? (playerId, session.backend) with
    | none => exact h
    | some b => exact h.of_same (sameVoice_closeTransport s b)

theorem Listens.close_listening (h : Listens s) {n : Nat} {closed : Bool} {listener : Listener}
    (hl : s.listener = .listening n closed)
    (hlistener : ∀ n closed, listener ≠ .listening n closed) :
    Listens (s.closeListener (some n) listener) := by
  apply h.closeListener hlistener
  intro m hm
  obtain ⟨closed', heq⟩ := h.listening hm
  rw [hl] at heq
  cases heq
  rfl

theorem Listens.step {a : Action} (h : Listens s) (hstep : s.step a = some s') : Listens s' := by
  cases a with
  | startSession =>
    cases hstep
    exact h.of_same ⟨rfl, rfl, rfl, rfl, rfl, fun _ => rfl⟩
  | beginSession t =>
    obtain ⟨task, -, -, rfl⟩ := resume_eq hstep
    exact h.of_same (sameVoice_beginSession s t task)
  | resolveSession t profile =>
    obtain ⟨task, -, -, rfl⟩ := resume_eq hstep
    exact h.of_same (sameVoice_resolveSession s t task profile)
  | cancelSession t =>
    obtain ⟨task, -, -, rfl⟩ := resume_eq hstep
    exact h.of_same (sameVoice_cancelSession s t task)
  | route playerId addr voicePort =>
    have hrouted := h.getOrCreateVoiceBridge playerId addr voicePort
    obtain ⟨-, rfl | ⟨b, rfl⟩⟩ := route_eq hstep
    · exact hrouted
    · exact hrouted.of_same (sameVoice_forward _ b)
  | connectionMade =>
    obtain ⟨r, -, rfl⟩ := Option.map_eq_some_iff.1 hstep
    have hmade := sameVoice_modifyBridge s r.bridge
      (f := fun bridge => { bridge with connected := true }) fun _ => rfl
    exact h.of_same ⟨rfl, rfl, rfl, rfl, rfl, hmade.bridges⟩
  | bridgeCreated =>
    obtain ⟨r, -, rfl⟩ := Option.map_eq_some_iff.1 hstep
    refine Listens.of_same ?_ (sameVoice_forward (s.storeBridge r) r.bridge)
    exact h.of_same ⟨rfl, rfl, rfl, rfl, rfl, fun _ => rfl⟩
  | bridgeFailed =>
    obtain ⟨r, -, rfl⟩ := Option.map_eq_some_iff.1 hstep
    exact h.of_same ⟨rfl, rfl, rfl, rfl, rfl, fun _ => rfl⟩
  | connectionLost b | datagramReceived b =>
    cases hstep
    exact h.of_same (sameVoice_modifyBridge s b fun _ => rfl)
  | cleanupVoiceBridges | closeAllVoiceBridges =>
    cases hstep
    exact h.of_same (sameVoice_closeVoiceBridges s _)
  | advance =>
    cases hstep
    exact h.of_same ⟨rfl, rfl, rfl, rfl, rfl, fun _ => rfl⟩
  | listenerStarted =>
    unfold MCProxy.step at hstep
    dsimp only at hstep
    split at hstep
    · next hl =>
      cases hstep
      exact h.relisten (by simp [hl]) fun _ _ => by simp
    · next hl =>
      cases hstep
      exact h.relisten (by simp [hl]) fun _ _ => by simp
    · cases hstep
  | listenerOpened =>
    unfold MCProxy.step at hstep
    dsimp only at hstep
    split at hstep <;> cases hstep
    exact h.openListener
  | listenerFailed =>
    unfold MCProxy.step at hstep
    dsimp only at hstep
    split at hstep <;> cases hstep
    next hl =>
    exact h.closeListener (by simp) fun n hn => absurd (h.listening hn) (by simp [hl])
  | listenerLost =>
    unfold MCProxy.step at hstep
    dsimp only at hstep
    split at hstep <;> cases hstep
    next n hl =>
    refine ⟨?_, h.last, h.fresh, h.made⟩
    intro m
    dsimp only
    rw [h.transport m, hl]
    simp
  | listenerClosed =>
    unfold MCProxy.step at hstep
    dsimp only at hstep
    split at hstep <;> cases hstep
    next n hl =>
    exact h.close_listening hl (by simp)
  | listenerCancelled =>
    unfold MCProxy.step at hstep
    dsimp only at hstep
    split at hstep
    · next n closed hl =>
      cases hstep
      exact h.close_listening hl (by simp)
    · next hl =>
      cases hstep
      exact h.closeListener (by simp) fun n hn => absurd (h.listening hn) (by simp [hl])
    · next hl =>
      cases hstep
      exact h.relisten (by simp [hl]) fun _ _ => by simp
    · cases hstep

theorem Reach.listens {voiceIpBinding : Bool}
    (h : Reach MCProxy.step (fun _ _ => True) (init voiceIpBinding) s) : Listens s := by
  refine h.invariant (P := Listens) ⟨fun n => ?_, ?_, ?_, ?_⟩ fun _ _ _ hs _ hstep => hs.step hstep
  · apply iff_of_false (by simp [init])
    rintro ⟨closed, ⟨⟩⟩
  · rintro n ⟨⟩
  · rintro b bridge ⟨⟩
  · rintro b bridge ⟨⟩

theorem getOrCreateVoiceBridge_of_some {playerId : Uuid} {addr : Addr} {voicePort : Option Nat}
    {b : Nat} (h : (s.getOrCreateVoiceBridge playerId addr voicePort).2 = some b) :
    (s.getOrCreateVoiceBridge playerId addr voicePort).1 = s := by
  revert h
  unfold getOrCreateVoiceBridge
  split
  · exact fun _ => rfl
  split
  · exact fun _ => rfl
  split
  · exact fun _ => rfl
  dsimp only
  split
  · exact fun _ => rfl
  · intro h
    cases h

theorem returned_same {a : Action} {b : Nat} (hret : s.returned a = some b)
    (hstep : s.step a = some s') : SameVoice s s' := by
  cases a with
  | route playerId addr voicePort =>
    have hsame := getOrCreateVoiceBridge_of_some hret
    obtain ⟨-, rfl | ⟨w, rfl⟩⟩ := route_eq hstep
    · rw [hsame]
      exact .refl s
    · rw [hsame]
      exact sameVoice_forward s w
  | bridgeCreated =>
    obtain ⟨r, -, rfl⟩ := Option.map_eq_some_iff.1 hstep
    refine .trans ?_ (sameVoice_forward (s.storeBridge r) r.bridge)
    exact ⟨rfl, rfl, rfl, rfl, rfl, fun _ => rfl⟩
  | _ => cases hret

/-- **Bridges follow the listener** just when they were made under it. In every run, a bridge that
is returned for a packet while the listener is open replies through the transport of the listener if
and only if the listener was not opened since the bridge was made. -/
theorem bridges_follow_listener {voiceIpBinding : Bool} {a : Action} {b n : Nat}
    {bridge : VoiceBridge}
    (h : Reach MCProxy.step (fun _ _ => True) (init voiceIpBinding) s) (hstep : s.step a = some s')
    (hret : s.returned a = some b) (hopen : s'.listener = .listening n false)
    (hbridge : s'.bridges b = some bridge) :
    s'.voiceTransport = some bridge.proxyTransport ↔ s.NotReopened b := by
  have hsame := returned_same hret hstep
  have hlistens := (Reach.listens h).of_same hsame
  have htransport := (hlistens.transport n).2 ⟨false, hopen⟩
  have hlast := hlistens.last n htransport
  have hmade := hlistens.made b bridge hbridge
  have hopenings : s'.openings b = s.openings b := by
    unfold openings
    rw [hsame.trace]
  rw [htransport, notReopened_iff, ← hopenings, Option.some.injEq]
  omega

end

/-- The bridge of a player is stored, and a packet of the player comes again after `between`. -/
def usedAgain (between : List Action) : List Action :=
  [.listenerStarted, .listenerOpened, .startSession 1 ⟨['p'], some 7⟩ 0 ['a'], .beginSession 0,
    .route 7 ⟨['a'], 1⟩ (some 24454), .connectionMade, .bridgeCreated] ++ between

/-- What becomes of the second packet. -/
def second : Action :=
  .route 7 ⟨['a'], 1⟩ (some 24454)

/-- A bridge that is used again replies through the listener. -/
theorem bridges_follow_listener_again :
    ∃ s s' bridge, Reach MCProxy.step (fun _ _ => True) (init true) s ∧
      s.step second = some s' ∧ s.returned second = some 0 ∧ s'.bridges 0 = some bridge ∧
      s'.voiceTransport = some bridge.proxyTransport := by
  obtain ⟨s, hs, hret, hsome, hmade⟩ := Reach.exists_of_runIn MCProxy.step (fun _ _ => True)
    (init true) (usedAgain [.datagramReceived 0, .advance 5])
    (p := fun s => s.returned second = some 0 ∧
      (s.step second).any (fun s' => s'.listener = .listening 0 false ∧
        (s'.bridges 0).isSome = true) = true ∧ s.openings 0 = 0) (by decide +kernel)
  obtain ⟨s', hs', hopen⟩ := (Option.any_eq_true ..).1 hsome
  obtain ⟨hopen, hb⟩ := of_decide_eq_true hopen
  obtain ⟨bridge, hbridge⟩ := Option.isSome_iff_exists.1 hb
  exact ⟨s, s', bridge, hs, hs', hret, hbridge,
    (bridges_follow_listener hs hs' hret hopen hbridge).2 (notReopened_iff.2 hmade)⟩

/-- The listener is lost and opened again; the bridge is used again, and replies through the
transport of the first. -/
theorem stale_bridge :
    ∃ s s', Reach MCProxy.step (fun _ _ => True) (init true) s ∧ s.step second = some s' ∧
      s.returned second = some 0 ∧ (s'.bridges 0).any VoiceBridge.connected = true ∧
      (s'.bridges 0).map VoiceBridge.proxyTransport = some 0 ∧
      s'.listener = .listening 1 false ∧ s'.voiceTransport = some 1 := by
  obtain ⟨s, hs, hret, hsome⟩ := Reach.exists_of_runIn MCProxy.step (fun _ _ => True)
    (init true)
    (usedAgain [.listenerLost, .listenerClosed, .listenerStarted, .listenerOpened])
    (p := fun s => s.returned second = some 0 ∧
      (s.step second).any (fun s' => (s'.bridges 0).any VoiceBridge.connected = true ∧
        (s'.bridges 0).map VoiceBridge.proxyTransport = some 0 ∧
        s'.listener = .listening 1 false ∧ s'.voiceTransport = some 1) = true) (by decide +kernel)
  obtain ⟨s', hs', hstale⟩ := (Option.any_eq_true ..).1 hsome
  exact ⟨s, s', hs, hs', hret, of_decide_eq_true hstale⟩

end MCProxy

end Silkjam.Proxy
