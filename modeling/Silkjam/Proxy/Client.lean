import Silkjam.Lib.BigEndian
import Silkjam.Lib.Pump
import Silkjam.Protocol.Forward
import Silkjam.Protocol.LegacyPing
import Silkjam.Proxy.Routing
import Silkjam.Proxy.State
import Silkjam.Server.Backend

/-!
# Clients

The connections of clients to the proxies, each served by a task of `_handle_client`. A `Network` is
the proxies with their clients and the backends; `_handle_client` and `_forward_to_backend`, which
it calls, are cut at their awaits. What a client and its backend send, and what the reads of the
packet reader give, comes with the actions. A task may be cancelled at every await, as all of them
are when the event loop is shut down.

`start_mcproc` and `mcproc_done_starting` request that a backend be started; in the model of a
backend that may happen at any time.
-/

namespace Silkjam.Proxy

open Protocol Transition Server

/-- Where the task of a client is. -/
inductive ClientPc where
  /-- `_identify_backend` -/
  | identifying
  /-- `mcproc_done_starting`, for `HOLD_TIMEOUT` at most -/
  | waking
  /-- `asyncio.open_connection`, to the backend -/
  | connecting
  /-- `_handle_handshake` -/
  | handling
  /-- sending the kick message of a backend that does not accept connections -/
  | refusing
  /-- `_read_login_start` -/
  | loggingIn
  /-- `asyncio.wait(forward_tasks)` -/
  | relaying
  /-- `asyncio.gather(*forward_tasks)` -/
  | gathering
  /-- `await track_player_session_task` -/
  | untracking
  /-- `backend_writer.wait_closed()` -/
  | closingBackend
  /-- `writer.wait_closed()` -/
  | closing
  | over
  deriving DecidableEq

inductive Upstream where
  | none | opened | closed
  deriving DecidableEq

/-- A client of the proxy `proxy`. `session` is its login that the backend counts, and `tracker` the
task that tracks its session; `abandoned` says that its task left the connection to the backend by
an exception that nothing cleans up after. -/
structure Client where
  proxy : Nat
  ip : Text
  pc : ClientPc := .identifying
  backend : BackendId := 0
  handshake : Option Handshake := none
  upstream : Upstream := .none
  session : Option Nat := none
  tracker : Option Nat := none
  relay : Option (Relay UInt8) := none
  writerClosed : Bool := false
  abandoned : Bool := false

/-- `isinstance(handshake, HandshakeRequest) and handshake.next_state == 2` -/
def Handshake.isJoining : Handshake → Bool
  | .legacyPing _ => false
  | .modern request => request.nextState = 2

/-- The handshake, encoded again for the backend. -/
def Handshake.encode : Handshake → Except Err Bytes
  | .legacyPing request => encodeLegacyPing request.protocolVersion request.hostname request.port
  | .modern request => .ok (encodeHandshakePacket request)

/-- What the packet reader and its stream hold when forwarding begins. -/
structure Rest where
  unparsed : Bytes
  buffer : Bytes
  ended : Bool

inductive ClientAction where
  /-- `_identify_backend` returns -/
  | identified (result : Option (BackendId × Handshake))
  | started (success : Bool)
  | connected (rest : Rest)
  /-- `ConnectionRefusedError` -/
  | refused
  /-- `_read_login_start` returns; `sessionId` is `id(object())` -/
  | loggedIn (login : Option Protocol.LoginStart) (sessionId : Nat) (rest : Rest)
  /-- something happens in the direction to the backend -/
  | up (a : PumpAction UInt8)
  /-- something happens in the direction to the client -/
  | down (a : PumpAction UInt8)
  /-- the wait for the two directions is over -/
  | returned
  | gathered
  | untracked
  | backendClosed
  | handled
  | kicked
  /-- an exception that `_handle_client` catches -/
  | raised
  | closed
  | cancel

/-- The proxies, the backends and the clients, all by running numbers. -/
structure Network where
  proxies : Nat → MCProxy
  backends : BackendId → MCBackend
  clients : Nat → Option Client := fun _ => none
  nextClient : Nat := 0

inductive NetworkAction where
  | connect (proxy : Nat) (ip : Text)
  | client (i : Nat) (a : ClientAction)
  /-- something else happens in a proxy -/
  | proxy (n : Nat) (a : Proxy.Action)
  /-- something else happens to a backend -/
  | backend (b : BackendId) (a : Server.Action)

/-- A session begins; only clients do that. -/
def Action.startsSession : Action → Bool
  | .startSession .. => true
  | _ => false

/-- A login begins or ends; only clients do that. -/
def countsLogin : Server.Action → Bool
  | .beginSession | .endSession _ => true
  | _ => false

def trackedLogin (login : Protocol.LoginStart) : LoginStart where
  username := login.username.toList
  playerId := login.playerId.map fun id => BigEndian.ofBytes id.bytes

namespace Client

/-- The `finally` block of `_handle_client`. -/
def close (c : Client) : Client :=
  { c with pc := .closing, writerClosed := true }

def abandon (c : Client) : Client :=
  { c.close with abandoned := true }

def startRelay (c : Client) (initialData : Bytes) (rest : Rest) : Client :=
  { c with
    pc := .relaying
    relay := some (.start (.start (initialData ++ rest.unparsed) rest.buffer rest.ended true)
      (.start [] [] false true)) }

/-- `backend_writer.close()` -/
def closeUpstream (c : Client) : Client :=
  { c with pc := .closingBackend, upstream := .closed }

end Client

namespace Network

def setClient (s : Network) (i : Nat) (c : Client) : Network :=
  { s with clients := Function.update s.clients i (some c) }

def setProxy (s : Network) (n : Nat) (p : MCProxy) : Network :=
  { s with proxies := Function.update s.proxies n p }

def setBackend (s : Network) (b : BackendId) (backend : MCBackend) : Network :=
  { s with backends := Function.update s.backends b backend }

/-- `backend.incr_online_players()`, by the login of a client -/
def incrOnlinePlayers (s : Network) (i : Nat) (c : Client) : Network :=
  let backend := s.backends c.backend
  (s.setBackend c.backend
    { backend.incrOnlinePlayers with
      sessions := insert backend.nextSession backend.sessions
      nextSession := backend.nextSession + 1 }).setClient i
    { c with session := some backend.nextSession }

def decrOnlinePlayers (s : Network) (i : Nat) (c : Client) (session : Nat) : Network :=
  let backend := s.backends c.backend
  (s.setBackend c.backend
    { backend.decrOnlinePlayers with sessions := backend.sessions.erase session }).setClient i
    { c with session := none }

def identified (s : Network) (i : Nat) (c : Client) : Option (BackendId × Handshake) → Network
  | none => s.setClient i c.close
  | some (b, handshake) =>
    let c := { c with backend := b, handshake := some handshake }
    if !(s.backends b).mcprocRunning then
      if handshake.isJoining then s.setClient i { c with pc := .waking }
      else s.setClient i { c with pc := .handling }
    else s.setClient i { c with pc := .connecting }

def connected (s : Network) (i : Nat) (c : Client) (handshake : Handshake) (rest : Rest) : Network :=
  let c := { c with upstream := .opened }
  match handshake.encode with
  | .error _ => s.setClient i c.abandon
  | .ok initialData =>
    if handshake.isJoining then s.incrOnlinePlayers i { c with pc := .loggingIn }
    else s.setClient i (c.startRelay initialData rest)

def loggedIn (s : Network) (i : Nat) (c : Client) (handshake : Handshake)
    (login : Option Protocol.LoginStart) (sessionId : Nat) (rest : Rest) : Network :=
  let initialData := handshake.encode.toOption.getD []
  match login with
  | none => s.setClient i (c.startRelay initialData rest)
  | some login =>
    let p := s.proxies c.proxy
    let c := { c with tracker := some p.nextTask }
    (s.setProxy c.proxy (p.startSession
      { sessionId := sessionId
        loginStart := trackedLogin login
        backend := c.backend
        clientIp := c.ip })).setClient i
      (c.startRelay (initialData ++ encodeLoginStartPacket login) rest)

/-- The two directions are over: what the login has done is undone. -/
def gathered (s : Network) (i : Nat) (c : Client) : Network :=
  match c.session with
  | none => s.setClient i c.closeUpstream
  | some session =>
    match c.tracker with
    | none => s.decrOnlinePlayers i c.closeUpstream session
    | some _ => s.decrOnlinePlayers i { c with pc := .untracking } session

/-- The task that tracks the session has ended, at the latest by its cancellation. -/
def untracked (s : Network) (i : Nat) (c : Client) (t : Nat) : Network :=
  let p := s.proxies c.proxy
  (s.setProxy c.proxy ((p.step (.cancelSession t)).getD p)).setClient i c.closeUpstream

def pump (s : Network) (i : Nat) (c : Client) (a : RelayAction UInt8) : Option Network :=
  c.relay.bind fun r => (r.step BUFFER_SIZE a).map fun r => s.setClient i { c with relay := some r }

def leaveRelay (s : Network) (i : Nat) (c : Client) (a : RelayAction UInt8) : Option Network :=
  s.pump i { c with pc := .gathering } a

def cancel (s : Network) (i : Nat) (c : Client) : Option Network :=
  match c.pc with
  | .identifying | .waking | .connecting | .handling | .refusing | .closingBackend =>
    some (s.setClient i c.close)
  | .loggingIn | .gathering => some (s.setClient i c.abandon)
  | .relaying => s.leaveRelay i c .cancel
  -- the exception is suppressed
  | .untracking => c.tracker.map (s.untracked i c)
  | .closing => some (s.setClient i { c with pc := .over })
  | .over => none

def clientStep (s : Network) (i : Nat) (c : Client) : ClientAction → Option Network
  | .identified result => if c.pc = .identifying then some (s.identified i c result) else none
  | .started success =>
    if c.pc = .waking then
      some (s.setClient i { c with pc := if success then .connecting else .handling })
    else none
  | .connected rest =>
    if c.pc = .connecting then c.handshake.map fun handshake => s.connected i c handshake rest
    else none
  | .refused => if c.pc = .connecting then some (s.setClient i { c with pc := .refusing }) else none
  | .loggedIn login sessionId rest =>
    if c.pc = .loggingIn then
      c.handshake.map fun handshake => s.loggedIn i c handshake login sessionId rest
    else none
  | .up a => if c.pc = .relaying then s.pump i c (.up a) else none
  | .down a => if c.pc = .relaying then s.pump i c (.down a) else none
  | .returned => if c.pc = .relaying then s.leaveRelay i c .returned else none
  | .gathered => if c.pc = .gathering then some (s.gathered i c) else none
  | .untracked => if c.pc = .untracking then c.tracker.map (s.untracked i c) else none
  | .backendClosed => if c.pc = .closingBackend then some (s.setClient i c.close) else none
  | .handled => if c.pc = .handling then some (s.setClient i c.close) else none
  | .kicked => if c.pc = .refusing then some (s.setClient i c.close) else none
  | .raised =>
    match c.pc with
    | .identifying | .waking | .connecting | .refusing => some (s.setClient i c.close)
    | _ => none
  | .closed => if c.pc = .closing then some (s.setClient i { c with pc := .over }) else none
  | .cancel => s.cancel i c

def step (s : Network) : NetworkAction → Option Network
  | .connect proxy ip =>
    some { s.setClient s.nextClient { proxy := proxy, ip := ip } with
      nextClient := s.nextClient + 1 }
  | .client i a => (s.clients i).bind fun c => s.clientStep i c a
  | .proxy n a =>
    if a.startsSession then none else ((s.proxies n).step a).map (s.setProxy n)
  | .backend b a =>
    if countsLogin a then none else ((s.backends b).step a).map (s.setBackend b)

def init (voiceIpBinding : Nat → Bool) (listings : BackendId → ServerListing) : Network where
  proxies n := .init (voiceIpBinding n)
  backends b := .init (listings b)

end Network

end Silkjam.Proxy
