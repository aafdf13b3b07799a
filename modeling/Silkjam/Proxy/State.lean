import Mathlib.Data.List.MinMax
import Silkjam.Config
import Silkjam.Lib.Transition

/-!
# Sessions and voice bridges of a proxy

The part of `MCProxy` that keeps track of the sessions of each player and routes voice packets. Its
coroutines are cut at their awaits: the tasks that track a session, the one task that routes
packets, the one that runs the voice listener, and the clean-up. The clock is `time.monotonic()`, in
nanoseconds; objects are named by running numbers. `trace` is a history of the voice listeners and
bridges, which no function of the program reads.
-/

namespace Silkjam.Proxy

open Transition

abbrev Uuid := Nat

/-- Identity of an `MCBackend`. -/
abbrev BackendId := Nat

structure Addr where
  host : Text
  port : Nat
  deriving DecidableEq

structure UserProfile where
  name : Text
  id : Uuid
  deriving DecidableEq

structure LoginStart where
  username : Text
  playerId : Option Uuid

/-- An entry of `player_sessions`: connection time, profile, backend and TCP peer IP. -/
structure PlayerSession where
  time : Nat
  profile : UserProfile
  backend : BackendId
  clientIp : Text
  deriving DecidableEq

/-- Where a task is in `_track_player_session`. -/
inductive Phase where
  | created
  /-- looking up the username through Mojang's API -/
  | resolving
  /-- `asyncio.Event().wait()` -/
  | tracking (profile : UserProfile)
  | finished

def Phase.isCreated : Phase → Bool
  | .created => true
  | _ => false

def Phase.isResolving : Phase → Bool
  | .resolving => true
  | _ => false

def Phase.isUnfinished : Phase → Bool
  | .finished => false
  | _ => true

/-- A task running `_track_player_session`. -/
structure SessionTask where
  sessionId : Nat
  loginStart : LoginStart
  backend : BackendId
  clientIp : Text
  phase : Phase := .created

/-- A `VoiceBridge`; `closing` says that its transport was told to close. -/
structure VoiceBridge where
  proxyTransport : Nat
  clientAddr : Addr
  connected : Bool := false
  closing : Bool := false
  lastActivity : Nat

/-- The call of `_get_or_create_voice_bridge` that awaits its datagram endpoint: the key and the new
bridge, whose `connection_made` was called or not. -/
structure Routing where
  player : Uuid
  backend : BackendId
  bridge : Nat
  made : Bool := false

/-- Where the task of `_run_voice_listener` is. -/
inductive Listener where
  | stopped
  /-- `loop.create_datagram_endpoint(...)` -/
  | starting
  /-- `protocol.closed.wait()`, the event being set or not -/
  | listening (transport : Nat) (closed : Bool)
  /-- `asyncio.sleep(restart_delay)` -/
  | sleeping
  deriving DecidableEq

inductive Obs where
  /-- a voice listener was opened -/
  | opened
  /-- a voice bridge was made -/
  | begun (bridge : Nat)
  deriving DecidableEq

structure MCProxy where
  voiceIpBinding : Bool
  playerSessions : Dict Uuid (Dict Nat PlayerSession) := {}
  sessionTasks : Nat → Option SessionTask := fun _ => none
  nextTask : Nat := 0
  voiceTransport : Option Nat := none
  nextTransport : Nat := 0
  listener : Listener := .stopped
  voiceBridges : Dict (Uuid × BackendId) Nat := {}
  bridges : Nat → Option VoiceBridge := fun _ => none
  nextBridge : Nat := 0
  routing : Option Routing := none
  now : Nat := 0
  trace : List Obs := []

def VOICE_BRIDGE_IDLE_TIMEOUT : Nat := 60 * 1000000000

namespace MCProxy

/-! ### Voice bridges -/

def modifyBridge (s : MCProxy) (b : Nat) (f : VoiceBridge → VoiceBridge) : MCProxy :=
  { s with bridges := Function.update s.bridges b ((s.bridges b).map f) }

/-- `voice_bridge.transport.close()`, if it is connected -/
def closeTransport (s : MCProxy) (b : Nat) : MCProxy :=
  s.modifyBridge b fun bridge => { bridge with closing := bridge.closing || bridge.connected }

def forward (s : MCProxy) (b : Nat) : MCProxy :=
  s.modifyBridge b fun bridge => { bridge with lastActivity := s.now }

def closeVoiceBridge (s : MCProxy) (key : Uuid × BackendId) : MCProxy :=
  match s.voiceBridges.get? key with
  | none => s
  | some b => { s with voiceBridges := s.voiceBridges.erase key }.closeTransport b

def closeVoiceBridges (s : MCProxy) (keys : List (Uuid × BackendId)) : MCProxy :=
  keys.foldl closeVoiceBridge s

def closePlayerVoiceBridges (s : MCProxy) (playerId : Uuid) (keepBackend : Option BackendId := none) :
    MCProxy :=
  s.closeVoiceBridges (s.voiceBridges.keys.filter fun key =>
    key.1 = playerId ∧ some key.2 ≠ keepBackend)

def closeAllVoiceBridges (s : MCProxy) : MCProxy :=
  s.closeVoiceBridges s.voiceBridges.keys

/-- One turn of `_cleanup_voice_bridges`. -/
def cleanupVoiceBridges (s : MCProxy) : MCProxy :=
  s.closeVoiceBridges ((s.voiceBridges.items.filter fun e =>
    (s.bridges e.2).any fun bridge => VOICE_BRIDGE_IDLE_TIMEOUT ≤ s.now - bridge.lastActivity).map
      Prod.fst)

/-! ### Sessions -/

/-- The session connected the longest, the first of them in the order of the dictionary. -/
def longestSession (s : MCProxy) (playerId : Uuid) : Option PlayerSession :=
  (s.playerSessions.get? playerId).bind fun sessions => sessions.values.argmin PlayerSession.time

def setPhase (s : MCProxy) (t : Nat) (phase : Phase) : MCProxy :=
  { s with
    sessionTasks := Function.update s.sessionTasks t
      ((s.sessionTasks t).map fun task => { task with phase := phase }) }

/-- `asyncio.create_task(self._track_player_session(...))` -/
def startSession (s : MCProxy) (task : SessionTask) : MCProxy :=
  { s with
    sessionTasks := Function.update s.sessionTasks s.nextTask (some task)
    nextTask := s.nextTask + 1 }

/-- The session of `task` is tracked, and the task waits forever. -/
def trackSession (s : MCProxy) (t : Nat) (task : SessionTask) (profile : UserProfile) : MCProxy :=
  let sessions := (s.playerSessions.get? profile.id).getD {}
  let sessions :=
    if task.sessionId ∈ sessions.keys then sessions
    else sessions.set task.sessionId ⟨s.now, profile, task.backend, task.clientIp⟩
  { s with playerSessions := s.playerSessions.set profile.id sessions }.setPhase t (.tracking profile)

/-- The first segment of `_track_player_session`. -/
def beginSession (s : MCProxy) (t : Nat) (task : SessionTask) : MCProxy :=
  match task.loginStart.playerId with
  | none => s.setPhase t .resolving
  | some id => s.trackSession t task { name := task.loginStart.username, id := id }

/-- The lookup of the username gave a profile, or raised. -/
def resolveSession (s : MCProxy) (t : Nat) (task : SessionTask) : Option UserProfile → MCProxy
  | none => s.setPhase t .finished
  | some profile => s.trackSession t task profile

/-- The `finally` block of `_track_player_session`. -/
def removeSession (s : MCProxy) (t : Nat) (task : SessionTask) (profile : UserProfile) : MCProxy :=
  let s := s.setPhase t .finished
  match s.playerSessions.get? profile.id with
  | none => s
  | some trackedSessions =>
    if task.sessionId ∉ trackedSessions.keys then s
    else
      let trackedSessions := trackedSessions.erase task.sessionId
      if trackedSessions.items.length = 0 then
        { s with playerSessions := s.playerSessions.erase profile.id }.closePlayerVoiceBridges
          profile.id
      else
        let s := { s with playerSessions := s.playerSessions.set profile.id trackedSessions }
        s.closePlayerVoiceBridges profile.id
          ((s.longestSession profile.id).map PlayerSession.backend)

/-- The task resumes with a `CancelledError`. -/
def cancelSession (s : MCProxy) (t : Nat) (task : SessionTask) : MCProxy :=
  match task.phase with
  | .created | .resolving => s.setPhase t .finished
  | .tracking profile => s.removeSession t task profile
  | .finished => s

/-! ### Routing -/

/-- The bridge that is used again for a packet from `addr`. -/
def reusable (s : MCProxy) (key : Uuid × BackendId) (addr : Addr) : Option Nat :=
  (s.voiceBridges.get? key).filter fun b =>
    (s.bridges b).any fun bridge => bridge.connected && decide (bridge.clientAddr = addr)

/-- A bridge is made, and its datagram endpoint awaited; the assertion that there is a voice
listener may fail. -/
def beginBridge (s : MCProxy) (playerId : Uuid) (backend : BackendId) (addr : Addr) : MCProxy :=
  match s.voiceTransport with
  | none => s
  | some transport =>
    { s with
      bridges := Function.update s.bridges s.nextBridge
        (some { proxyTransport := transport, clientAddr := addr, lastActivity := s.now })
      nextBridge := s.nextBridge + 1
      routing := some { player := playerId, backend := backend, bridge := s.nextBridge }
      trace := .begun s.nextBridge :: s.trace }

/-- `_get_or_create_voice_bridge` up to its await, or to the bridge it returns. `voicePort` is the
voice port of the backend, if it has one and is running. -/
def getOrCreateVoiceBridge (s : MCProxy) (playerId : Uuid) (addr : Addr) (voicePort : Option Nat) :
    MCProxy × Option Nat :=
  match s.longestSession playerId with
  | none => (s, none)
  | some session =>
    if s.voiceIpBinding && decide (addr.host ≠ session.clientIp) then (s, none)
    else if voicePort = none then (s, none)
    else
      let key := (playerId, session.backend)
      match s.reusable key addr with
      | some b => (s, some b)
      | none =>
        let s := ((s.voiceBridges.get? key).map s.closeTransport).getD s
        (s.beginBridge playerId session.backend addr, none)

/-- The datagram endpoint was created: `_get_or_create_voice_bridge` returns the new bridge. -/
def storeBridge (s : MCProxy) (r : Routing) : MCProxy :=
  { s with
    voiceBridges := s.voiceBridges.set (r.player, r.backend) r.bridge
    routing := none }

/-! ### The voice listener -/

/-- The datagram endpoint of the listener was created. -/
def openListener (s : MCProxy) : MCProxy :=
  { s with
    voiceTransport := some s.nextTransport
    nextTransport := s.nextTransport + 1
    listener := .listening s.nextTransport false
    trace := .opened :: s.trace }

/-- The `finally` block of `_run_voice_listener`, after which it is in `listener`. -/
def closeListener (s : MCProxy) (transport : Option Nat) (listener : Listener) : MCProxy :=
  { s with
    voiceTransport := if s.voiceTransport = transport then none else s.voiceTransport
    listener := listener }

end MCProxy

/-! ### The proxy as a system -/

inductive Action where
  | startSession (sessionId : Nat) (loginStart : LoginStart) (backend : BackendId) (clientIp : Text)
  | beginSession (t : Nat)
  | resolveSession (t : Nat) (profile : Option UserProfile)
  | cancelSession (t : Nat)
  /-- a packet is taken from the queue -/
  | route (playerId : Uuid) (addr : Addr) (voicePort : Option Nat)
  | connectionMade
  | bridgeCreated
  /-- creating the datagram endpoint raised, or the routing task was cancelled -/
  | bridgeFailed
  | connectionLost (bridge : Nat)
  | datagramReceived (bridge : Nat)
  | cleanupVoiceBridges
  | closeAllVoiceBridges
  | listenerStarted
  | listenerOpened
  | listenerFailed
  | listenerLost
  | listenerClosed
  | listenerCancelled
  | advance (time : Nat)

namespace MCProxy

def init (voiceIpBinding : Bool) : MCProxy where
  voiceIpBinding := voiceIpBinding

/-- The task `t` resumes, if it is in one of the phases `p`. -/
def resume (s : MCProxy) (t : Nat) (p : Phase → Bool) (f : SessionTask → MCProxy) :
    Option MCProxy :=
  ((s.sessionTasks t).filter fun task => p task.phase).map f

def step (s : MCProxy) : Action → Option MCProxy
  | .startSession sessionId loginStart backend clientIp =>
    some (s.startSession
      { sessionId := sessionId, loginStart := loginStart, backend := backend, clientIp := clientIp })
  | .beginSession t => s.resume t Phase.isCreated (s.beginSession t)
  | .resolveSession t profile =>
    s.resume t Phase.isResolving fun task => s.resolveSession t task profile
  | .cancelSession t => s.resume t Phase.isUnfinished (s.cancelSession t)
  | .route playerId addr voicePort =>
    match s.routing with
    | some _ => none
    | none =>
      match s.getOrCreateVoiceBridge playerId addr voicePort with
      | (s, some b) => some (s.forward b)
      | (s, none) => some s
  | .connectionMade => (s.routing.filter fun r => !r.made).map fun r =>
    { s.modifyBridge r.bridge fun bridge => { bridge with connected := true } with
      routing := some { r with made := true } }
  | .bridgeCreated =>
    (s.routing.filter Routing.made).map fun r => (s.storeBridge r).forward r.bridge
  | .bridgeFailed => s.routing.map fun _ => { s with routing := none }
  | .connectionLost b =>
    some (s.modifyBridge b fun bridge => { bridge with connected := false })
  | .datagramReceived b =>
    some (s.modifyBridge b fun bridge => { bridge with lastActivity := s.now })
  | .cleanupVoiceBridges => some s.cleanupVoiceBridges
  | .closeAllVoiceBridges => some s.closeAllVoiceBridges
  | .listenerStarted =>
    match s.listener with
    | .stopped | .sleeping => some { s with listener := .starting }
    | _ => none
  | .listenerOpened => if s.listener = .starting then some s.openListener else none
  | .listenerFailed =>
    if s.listener = .starting then some (s.closeListener none .sleeping) else none
  | .listenerLost =>
    match s.listener with
    | .listening transport false => some { s with listener := .listening transport true }
    | _ => none
  | .listenerClosed =>
    match s.listener with
    | .listening transport true => some (s.closeListener (some transport) .sleeping)
    | _ => none
  | .listenerCancelled =>
    match s.listener with
    | .listening transport _ => some (s.closeListener (some transport) .stopped)
    | .starting => some (s.closeListener none .stopped)
    | .sleeping => some { s with listener := .stopped }
    | .stopped => none
  | .advance time => some { s with now := s.now + time }

/-! ### What a step is -/

theorem resume_eq {s s' : MCProxy} {t : Nat} {p : Phase → Bool} {f : SessionTask → MCProxy}
    (h : s.resume t p f = some s') :
    ∃ task, s.sessionTasks t = some task ∧ p task.phase = true ∧ s' = f task := by
  unfold resume at h
  obtain ⟨task, htask, rfl⟩ := Option.map_eq_some_iff.1 h
  rw [Option.filter_eq_some_iff] at htask
  exact ⟨task, htask.1, htask.2, rfl⟩

theorem route_eq {s s' : MCProxy} {playerId : Uuid} {addr : Addr} {voicePort : Option Nat}
    (h : s.step (.route playerId addr voicePort) = some s') :
    s.routing = none ∧
      (s' = (s.getOrCreateVoiceBridge playerId addr voicePort).1 ∨
        ∃ b, s' = (s.getOrCreateVoiceBridge playerId addr voicePort).1.forward b) := by
  unfold step at h
  dsimp only at h
  split at h
  · cases h
  next hrouting =>
  generalize s.getOrCreateVoiceBridge playerId addr voicePort = r at h
  obtain ⟨s₁, _ | b⟩ := r
  · cases h
    exact ⟨hrouting, .inl rfl⟩
  · cases h
    exact ⟨hrouting, .inr ⟨b, rfl⟩⟩

end MCProxy

end Silkjam.Proxy
