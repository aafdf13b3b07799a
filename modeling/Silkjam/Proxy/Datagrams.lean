import Silkjam.Lib.BigEndian
import Silkjam.Lib.Mailbox
import Silkjam.Proxy.Listener
import Silkjam.Proxy.Tracking

/-!
# Voice datagrams

What becomes of the datagrams of the voice listener: pings are answered, what is no voice packet is
dropped, and voice packets are put into a queue, from which one task takes them to route them. A
packet is forwarded through a bridge only if the bridge was made for its player and its sender, and
what the backend answers goes to that sender. So each bridge carries, in order and unchanged,
packets of one player from one address, and what is lost is counted, or was taken and had no way to
go (`voice_isolated`).
-/

namespace Silkjam.Proxy

open Transition

abbrev Datagram := List UInt8

structure VoicePacket where
  data : Datagram
  playerId : Uuid
  addr : Addr
  deriving DecidableEq

def VOICE_PACKET_QUEUE_SIZE : Nat := 1024

/-- `58bc9ae9-c7a8-45e4-a11c-efbb67199425` -/
def PING_PROTOCOL_SENTINEL : Uuid := 0x58bc9ae9c7a845e4a11cefbb67199425

/-- What `VoiceProxy.datagram_received` makes of a datagram. -/
inductive Received where
  | dropped
  | ping (pong : Datagram)
  | voice (packet : VoicePacket)
  deriving DecidableEq

def received (data : Datagram) (addr : Addr) : Received :=
  if data.length < 17 ∨ data.head? ≠ some 0xFF then .dropped
  else
    let playerId := BigEndian.ofBytes ((data.drop 1).take 16)
    if playerId = PING_PROTOCOL_SENTINEL then
      if data.length < 41 then .dropped else .ping ((data.drop 17).take 24)
    else .voice { data, playerId, addr }

/-- A packet that was forwarded through a bridge, with the session that was the player's longest
when it was taken. -/
structure ForwardedVoice where
  bridge : Nat
  packet : VoicePacket
  session : PlayerSession

/-- A datagram from the backend that was sent on to the client, through a transport of the voice
listener. -/
structure ReturnedVoice where
  bridge : Nat
  data : Datagram
  transport : Nat
  addr : Addr

/-- An `MCProxy` and the voice packets it has. The fields after `current` are a history. -/
structure VoiceTraffic where
  proxy : MCProxy
  /-- `voice_packet_queue` and `voice_queue_drops` -/
  queue : Mailbox VoicePacket := {}
  /-- the packet for which a bridge is being made -/
  current : Option (VoicePacket × PlayerSession) := none
  /-- the numbers of drops that were logged -/
  warnings : List Nat := []
  pongs : List (Datagram × Addr) := []
  offered : List VoicePacket := []
  taken : List VoicePacket := []
  forwarded : List ForwardedVoice := []
  returned : List ReturnedVoice := []
  /-- the player and the backend each bridge was made for -/
  keys : Nat → Option (Uuid × BackendId) := fun _ => none

namespace VoiceTraffic

inductive Action where
  /-- a datagram for the voice listener -/
  | received (data : Datagram) (addr : Addr)
  /-- `_handle_voice_packets` takes a packet; the voice port of the backend, if it is running -/
  | take (voicePort : Option Nat)
  /-- a datagram from the backend for a bridge -/
  | answered (bridge : Nat) (data : Datagram)
  /-- anything else that the proxy does -/
  | proxy (a : Proxy.Action)

def queueVoicePacket (s : VoiceTraffic) (packet : VoicePacket) : VoiceTraffic :=
  let queue := s.queue.put VOICE_PACKET_QUEUE_SIZE packet
  let warns := s.queue.drops < queue.drops ∧ (queue.drops = 1 ∨ queue.drops % 100 = 0)
  { s with
    queue
    warnings := if warns then s.warnings ++ [queue.drops] else s.warnings
    offered := s.offered ++ [packet] }

def datagramReceived (s : VoiceTraffic) (data : Datagram) (addr : Addr) : VoiceTraffic :=
  match Proxy.received data addr with
  | .dropped => s
  | .ping pong => { s with pongs := s.pongs ++ [(pong, addr)] }
  | .voice packet => s.queueVoicePacket packet

/-- `voice_bridge.forward(data)` gives the data to the transport; it raises if the connection was
lost. -/
def forward (s : VoiceTraffic) (f : ForwardedVoice) : VoiceTraffic :=
  if (s.proxy.bridges f.bridge).any VoiceBridge.connected then
    { s with forwarded := s.forwarded ++ [f] }
  else s

/-- The packet that was taken waits for its bridge, if one is being made. -/
def await (s : VoiceTraffic) (packet : VoicePacket) (session : PlayerSession) : VoiceTraffic :=
  match s.proxy.routing with
  | none => s
  | some r =>
    { s with
      current := some (packet, session)
      keys := Function.update s.keys r.bridge (some (r.player, r.backend)) }

def step (s : VoiceTraffic) : Action → Option VoiceTraffic
  | .received data addr =>
    match s.proxy.listener with
    | .listening _ false => some (s.datagramReceived data addr)
    | _ => none
  | .take voicePort => do
    let (packet, queue) ← s.queue.take?
    let proxy ← s.proxy.step (.route packet.playerId packet.addr voicePort)
    let s' := { s with proxy, queue, taken := s.taken ++ [packet] }
    match s.proxy.longestSession packet.playerId with
    | none => return s'
    | some session =>
      match (s.proxy.getOrCreateVoiceBridge packet.playerId packet.addr voicePort).2 with
      | some bridge => return s'.forward { bridge, packet, session }
      | none => return s'.await packet session
  | .answered b data => do
    let bridge ← s.proxy.bridges b
    let proxy ← s.proxy.step (.datagramReceived b)
    if bridge.connected then
      return { s with
        proxy
        returned := s.returned ++ [⟨b, data, bridge.proxyTransport, bridge.clientAddr⟩] }
    else none
  | .proxy .bridgeCreated => do
    let r ← s.proxy.routing
    let (packet, session) ← s.current
    let proxy ← s.proxy.step .bridgeCreated
    return { s with proxy, current := none }.forward { bridge := r.bridge, packet, session }
  | .proxy .bridgeFailed =>
    (s.proxy.step .bridgeFailed).map fun proxy => { s with proxy, current := none }
  | .proxy (.route ..) | .proxy (.datagramReceived _) => none
  | .proxy a => (s.proxy.step a).map fun proxy => { s with proxy }

def init (voiceIpBinding : Bool) : VoiceTraffic where
  proxy := .init voiceIpBinding

end VoiceTraffic

/-! ### What a step of the proxy keeps -/

/-- An action of the task that routes packets. -/
def Action.ofRouting : Action → Bool
  | .route .. | .bridgeCreated | .bridgeFailed => true
  | _ => false

namespace MCProxy

/-- The clients of the bridges are the same, no bridge is stored that was not, and the same bridge
is being made. -/
structure Keeps (s s' : MCProxy) : Prop where
  voiceIpBinding : s'.voiceIpBinding = s.voiceIpBinding
  nextBridge : s'.nextBridge = s.nextBridge
  clients : ∀ b, (s'.bridges b).map VoiceBridge.clientAddr =
    (s.bridges b).map VoiceBridge.clientAddr
  stored : ∀ e ∈ s'.voiceBridges.items, e ∈ s.voiceBridges.items
  routing : s'.routing.map (fun r => (r.player, r.backend, r.bridge)) =
    s.routing.map fun r => (r.player, r.backend, r.bridge)

section
variable {s s' s'' : MCProxy}

theorem Keeps.refl (s : MCProxy) : Keeps s s :=
  ⟨rfl, rfl, fun _ => rfl, fun _ h => h, rfl⟩

theorem Keeps.trans (h : Keeps s s') (h' : Keeps s' s'') : Keeps s s'' where
  voiceIpBinding := h'.voiceIpBinding.trans h.voiceIpBinding
  nextBridge := h'.nextBridge.trans h.nextBridge
  clients b := (h'.clients b).trans (h.clients b)
  stored e he := h.stored e (h'.stored e he)
  routing := h'.routing.trans h.routing

theorem keeps_modifyBridge (s : MCProxy) (b : Nat) {f : VoiceBridge → VoiceBridge}
    (hf : ∀ bridge, (f bridge).clientAddr = bridge.clientAddr) : Keeps s (s.modifyBridge b f) := by
  refine ⟨rfl, rfl, ?_, fun _ h => h, rfl⟩
  intro w
  unfold modifyBridge
  dsimp only
  by_cases hw : w = b
  · subst hw
    rw [Function.update_self, Option.map_map]
    exact Option.map_congr fun bridge _ => hf bridge
  · rw [Function.update_of_ne hw]

theorem keeps_closeTransport (s : MCProxy) (b : Nat) : Keeps s (s.closeTransport b) :=
  keeps_modifyBridge s b fun _ => rfl

theorem keeps_closeVoiceBridge (s : MCProxy) (key : Uuid × BackendId) :
    Keeps s (s.closeVoiceBridge key) := by
  unfold closeVoiceBridge
  split
  · exact .refl s
  · refine .trans ?_ (keeps_closeTransport _ _)
    exact ⟨rfl, rfl, fun _ => rfl, fun _ h => (Dict.mem_erase.1 h).2, rfl⟩

theorem keeps_closeVoiceBridges (s : MCProxy) (keys : List (Uuid × BackendId)) :
    Keeps s (s.closeVoiceBridges keys) := by
  unfold closeVoiceBridges
  induction keys generalizing s with
  | nil => exact .refl s
  | cons key keys ih => exact (keeps_closeVoiceBridge s key).trans (ih _)

theorem keeps_setPhase (s : MCProxy) (t : Nat) (phase : Phase) : Keeps s (s.setPhase t phase) :=
  ⟨rfl, rfl, fun _ => rfl, fun _ h => h, rfl⟩

theorem keeps_trackSession (s : MCProxy) (t : Nat) (task : SessionTask) (profile : UserProfile) :
    Keeps s (s.trackSession t task profile) :=
  ⟨rfl, rfl, fun _ => rfl, fun _ h => h, rfl⟩

theorem keeps_removeSession (s : MCProxy) (t : Nat) (task : SessionTask) (profile : UserProfile) :
    Keeps s (s.removeSession t task profile) := by
  have hphase := keeps_setPhase s t .finished
  unfold removeSession
  dsimp only
  split
  · exact hphase
  split
  · exact hphase
  split
  · refine .trans ?_ (keeps_closeVoiceBridges _ _)
    exact hphase.trans ⟨rfl, rfl, fun _ => rfl, fun _ h => h, rfl⟩
  · refine .trans ?_ (keeps_closeVoiceBridges _ _)
    exact hphase.trans ⟨rfl, rfl, fun _ => rfl, fun _ h => h, rfl⟩

theorem keeps_cancelSession (s : MCProxy) (t : Nat) (task : SessionTask) :
    Keeps s (s.cancelSession t task) := by
  unfold cancelSession
  split
  · exact keeps_setPhase s t _
  · exact keeps_setPhase s t _
  · exact keeps_removeSession s t task _
  · exact .refl s

theorem keeps_step {a : Action} (h : a.ofRouting = false) (hstep : s.step a = some s') :
    Keeps s s' := by
  cases a with
  | startSession =>
    cases hstep
    exact ⟨rfl, rfl, fun _ => rfl, fun _ h => h, rfl⟩
  | beginSession t =>
    obtain ⟨task, -, -, rfl⟩ := resume_eq hstep
    unfold beginSession
    split
    · exact keeps_setPhase s t _
    · exact keeps_trackSession s t task _
  | resolveSession t profile =>
    obtain ⟨task, -, -, rfl⟩ := resume_eq hstep
    cases profile with
    | none => exact keeps_setPhase s t _
    | some profile => exact keeps_trackSession s t task profile
  | cancelSession t =>
    obtain ⟨task, -, -, rfl⟩ := resume_eq hstep
    exact keeps_cancelSession s t task
  | route | bridgeCreated | bridgeFailed => cases h
  | connectionMade =>
    obtain ⟨r, hr, rfl⟩ := Option.map_eq_some_iff.1 hstep
    have hr : s.routing = some r := (Option.filter_eq_some_iff.1 hr).1
    have hmade := keeps_modifyBridge s r.bridge
      (f := fun bridge => { bridge with connected := true }) fun _ => rfl
    exact ⟨rfl, rfl, hmade.clients, fun _ h => h, by rw [hr]; rfl⟩
  | connectionLost b | datagramReceived b =>
    cases hstep
    exact keeps_modifyBridge s b fun _ => rfl
  | cleanupVoiceBridges | closeAllVoiceBridges =>
    cases hstep
    exact keeps_closeVoiceBridges s _
  | advance =>
    cases hstep
    exact ⟨rfl, rfl, fun _ => rfl, fun _ h => h, rfl⟩
  | listenerStarted =>
    unfold step at hstep
    dsimp only at hstep
    split at hstep
    · cases hstep
      exact ⟨rfl, rfl, fun _ => rfl, fun _ h => h, rfl⟩
    · cases hstep
      exact ⟨rfl, rfl, fun _ => rfl, fun _ h => h, rfl⟩
    · cases hstep
  | listenerOpened | listenerFailed =>
    unfold step at hstep
    dsimp only at hstep
    split at hstep
    · cases hstep
      exact ⟨rfl, rfl, fun _ => rfl, fun _ h => h, rfl⟩
    · cases hstep
  | listenerLost | listenerClosed =>
    unfold step at hstep
    dsimp only at hstep
    split at hstep
    · cases hstep
      exact ⟨rfl, rfl, fun _ => rfl, fun _ h => h, rfl⟩
    · cases hstep
  | listenerCancelled =>
    unfold step at hstep
    dsimp only at hstep
    split at hstep
    · cases hstep
      exact ⟨rfl, rfl, fun _ => rfl, fun _ h => h, rfl⟩
    · cases hstep
      exact ⟨rfl, rfl, fun _ => rfl, fun _ h => h, rfl⟩
    · cases hstep
      exact ⟨rfl, rfl, fun _ => rfl, fun _ h => h, rfl⟩
    · cases hstep

/-! ### The sessions of a player -/

/-- The sessions in the table of a player are its own. -/
def Named (s : MCProxy) : Prop :=
  ∀ playerId sid session, s.lookup playerId sid = some session → session.profile.id = playerId

theorem Named.trackSession (h : Named s) (t : Nat) (task : SessionTask) (profile : UserProfile) :
    Named (s.trackSession t task profile) := by
  have hold {sid : Nat} {session : PlayerSession}
      (hget : ((s.playerSessions.get? profile.id).getD {}).get? sid = some session) :
      session.profile.id = profile.id := by
    cases hsome : s.playerSessions.get? profile.id with
    | none =>
      rw [hsome] at hget
      cases hget
    | some sessions =>
      rw [hsome] at hget
      refine h profile.id sid session ?_
      rw [lookup, hsome]
      exact hget
  intro p sid session hfound
  unfold lookup MCProxy.trackSession setPhase at hfound
  dsimp only at hfound
  rw [Dict.get?_set] at hfound
  split at hfound
  · next hp =>
    subst hp
    rw [Option.bind_some] at hfound
    split at hfound
    · exact hold hfound
    · rw [Dict.get?_set] at hfound
      split at hfound
      · cases hfound
        rfl
      · exact hold hfound
  · exact h p sid session hfound

theorem Named.removeSession (h : Named s) {t : Nat} {task : SessionTask}
    (htask : s.sessionTasks t = some task) (profile : UserProfile) :
    Named (s.removeSession t task profile) := by
  intro p sid session hfound
  exact h p sid session ((removeSession_sessions profile htask).2.2 p sid session hfound).1

theorem Named.step {a : Action} (h : Named s) (hstep : s.step a = some s') : Named s' := by
  cases a with
  | startSession =>
    cases hstep
    exact h
  | beginSession t =>
    obtain ⟨task, -, -, rfl⟩ := resume_eq hstep
    unfold beginSession
    split
    · exact h
    · exact h.trackSession t task _
  | resolveSession t profile =>
    obtain ⟨task, -, -, rfl⟩ := resume_eq hstep
    unfold resolveSession
    split
    · exact h
    · exact h.trackSession t task _
  | cancelSession t =>
    obtain ⟨task, htask, -, rfl⟩ := resume_eq hstep
    unfold cancelSession
    split
    · exact h
    · exact h
    · exact h.removeSession htask _
    · exact h
  | _ =>
    intro p sid session hfound
    unfold lookup at hfound
    rw [(step_sameSessions rfl hstep).playerSessions] at hfound
    exact h p sid session hfound

theorem Named.longestSession (h : Named s) {playerId : Uuid} {session : PlayerSession}
    (hsession : s.longestSession playerId = some session) : session.profile.id = playerId := by
  obtain ⟨sessions, hget, hmin⟩ := Option.bind_eq_some_iff.1 hsession
  obtain ⟨sid, hmem⟩ := Dict.mem_values_iff_exists.1 (List.argmin_mem hmin)
  refine h playerId sid session ?_
  rw [lookup, hget]
  exact Dict.mem_items.1 hmem

/-- What holds of the proxy in every state. -/
structure Regular (s : MCProxy) : Prop where
  listens : Listens s
  named : Named s

theorem Regular.step {a : Action} (h : Regular s) (hstep : s.step a = some s') : Regular s' :=
  ⟨h.listens.step hstep, h.named.step hstep⟩

theorem regular_init (voiceIpBinding : Bool) : Regular (init voiceIpBinding) := by
  refine ⟨Reach.listens .refl, ?_⟩
  rintro p sid session ⟨⟩

/-! ### Choosing a bridge -/

/-- The player may use the address: its longest session came from there. -/
def Admits (s : MCProxy) (addr : Addr) (session : PlayerSession) : Prop :=
  s.voiceIpBinding = true → addr.host = session.clientIp

/-- A bridge from `addr` is being made, under the next number. -/
structure Begins (s s' : MCProxy) (key : Uuid × BackendId) (addr : Addr) : Prop where
  voiceIpBinding : s'.voiceIpBinding = s.voiceIpBinding
  nextBridge : s'.nextBridge = s.nextBridge + 1
  client : (s'.bridges s.nextBridge).map VoiceBridge.clientAddr = some addr
  clients : ∀ b, b ≠ s.nextBridge →
    (s'.bridges b).map VoiceBridge.clientAddr = (s.bridges b).map VoiceBridge.clientAddr
  stored : ∀ e ∈ s'.voiceBridges.items, e ∈ s.voiceBridges.items
  routing : s'.routing = some { player := key.1, backend := key.2, bridge := s.nextBridge }

theorem begins_beginBridge (h : Keeps s s'') {transport : Nat}
    (htransport : s''.voiceTransport = some transport) (playerId : Uuid) (backend : BackendId)
    (addr : Addr) : Begins s (s''.beginBridge playerId backend addr) (playerId, backend) addr := by
  unfold beginBridge
  rw [htransport]
  dsimp only
  constructor
  · exact h.voiceIpBinding
  · exact congrArg Nat.succ h.nextBridge
  · dsimp only
    rw [h.nextBridge, Function.update_self]
    rfl
  · intro b hb
    dsimp only
    rw [h.nextBridge, Function.update_of_ne hb]
    exact h.clients b
  · exact h.stored
  · dsimp only
    rw [h.nextBridge]

/-- What `_get_or_create_voice_bridge` does: it returns a stored bridge of the client, it makes one,
or neither. -/
theorem getOrCreateVoiceBridge_cases {playerId : Uuid} {addr : Addr} (voicePort : Option Nat)
    {session : PlayerSession} (hsession : s.longestSession playerId = some session) :
    (∃ b, s.getOrCreateVoiceBridge playerId addr voicePort = (s, some b) ∧
      s.Admits addr session ∧ s.voiceBridges.get? (playerId, session.backend) = some b ∧
      (s.bridges b).map VoiceBridge.clientAddr = some addr) ∨
    (∃ s', s.getOrCreateVoiceBridge playerId addr voicePort = (s', none) ∧
      s.Admits addr session ∧ Begins s s' (playerId, session.backend) addr) ∨
    ∃ s', s.getOrCreateVoiceBridge playerId addr voicePort = (s', none) ∧ Keeps s s' := by
  unfold getOrCreateVoiceBridge
  rw [hsession]
  dsimp only
  split
  · exact .inr (.inr ⟨s, rfl, .refl s⟩)
  next hhost =>
  have hadmits : s.Admits addr session := by
    intro hbinding
    rw [hbinding, Bool.true_and, decide_eq_true_eq, ne_eq, not_not] at hhost
    exact hhost
  split
  · exact .inr (.inr ⟨s, rfl, .refl s⟩)
  cases hreusable : s.reusable (playerId, session.backend) addr with
  | some b =>
    unfold reusable at hreusable
    rw [Option.filter_eq_some_iff] at hreusable
    obtain ⟨hget, hbridge⟩ := hreusable
    obtain ⟨bridge, hb, hclient⟩ := (Option.any_eq_true ..).1 hbridge
    rw [Bool.and_eq_true, decide_eq_true_eq] at hclient
    refine .inl ⟨b, rfl, hadmits, hget, ?_⟩
    rw [hb, Option.map_some, hclient.2]
  | none =>
    have hkeeps : Keeps s (((s.voiceBridges.get? (playerId, session.backend)).map
        s.closeTransport).getD s) := by
      cases s.voiceBridges.get? (playerId, session.backend) with
      | none => exact .refl s
      | some b => exact keeps_closeTransport s b
    cases htransport : (((s.voiceBridges.get? (playerId, session.backend)).map
        s.closeTransport).getD s).voiceTransport with
    | some transport =>
      exact .inr (.inl ⟨_, rfl, hadmits, begins_beginBridge hkeeps htransport _ _ _⟩)
    | none =>
      refine .inr (.inr ⟨_, rfl, ?_⟩)
      unfold beginBridge
      rw [htransport]
      exact hkeeps

theorem getOrCreateVoiceBridge_of_none {playerId : Uuid} (addr : Addr) (voicePort : Option Nat)
    (hsession : s.longestSession playerId = none) :
    s.getOrCreateVoiceBridge playerId addr voicePort = (s, none) := by
  unfold getOrCreateVoiceBridge
  rw [hsession]

end

end MCProxy

namespace VoiceTraffic

open MCProxy (Begins Keeps Regular)

/-! ### The queue -/

/-- The numbers of drops that are logged: the first, and each hundredth. -/
def logged (drops : Nat) : List Nat :=
  (List.range' 1 drops).filter fun n => n = 1 ∨ n % 100 = 0

structure Queued (s : VoiceTraffic) : Prop where
  accounts : s.queue.Accounts VOICE_PACKET_QUEUE_SIZE s.offered s.taken
  warnings : s.warnings = logged s.queue.drops
  voice : ∀ packet ∈ s.offered, Proxy.received packet.data packet.addr = .voice packet

section
variable {s s' : VoiceTraffic} {packet : VoicePacket} {session : PlayerSession}

theorem Queued.queueVoicePacket (h : Queued s)
    (hvoice : Proxy.received packet.data packet.addr = .voice packet) :
    Queued (s.queueVoicePacket packet) := by
  constructor
  · exact h.accounts.put packet
  · unfold VoiceTraffic.queueVoicePacket
    dsimp only
    rw [h.warnings]
    unfold Mailbox.put
    split
    · rw [if_neg]
      intro hwarns
      exact Nat.lt_irrefl _ hwarns.1
    · unfold logged
      dsimp only
      rw [List.range'_concat, List.filter_append, List.filter_singleton, Nat.one_mul,
        Nat.add_comm 1]
      by_cases hwarns : s.queue.drops + 1 = 1 ∨ (s.queue.drops + 1) % 100 = 0
      · rw [if_pos ⟨Nat.lt_succ_self _, hwarns⟩, decide_eq_true hwarns]
        rfl
      · rw [if_neg fun h => hwarns h.2, decide_eq_false hwarns]
        exact (List.append_nil _).symm
  · intro p hp
    rcases List.mem_append.1 hp with hp | hp
    · exact h.voice p hp
    · rw [List.mem_singleton.1 hp]
      exact hvoice

theorem eq_of_received_eq_voice {data : Datagram} {addr : Addr}
    (h : Proxy.received data addr = .voice packet) :
    data = packet.data ∧ addr = packet.addr := by
  unfold Proxy.received at h
  dsimp only at h
  split at h
  · cases h
  · split at h
    · split at h
      · cases h
      · cases h
    · cases h
      exact ⟨rfl, rfl⟩

theorem Queued.datagramReceived (h : Queued s) (data : Datagram) (addr : Addr) :
    Queued (s.datagramReceived data addr) := by
  unfold VoiceTraffic.datagramReceived
  split
  · exact h
  · exact ⟨h.accounts, h.warnings, h.voice⟩
  · next packet hpacket =>
    obtain ⟨rfl, rfl⟩ := eq_of_received_eq_voice hpacket
    exact h.queueVoicePacket hpacket

/-! ### The bridges -/

/-- The bridge was made for the player of the packet and for its sender, who may use it. -/
structure Fits (proxy : MCProxy) (keys : Nat → Option (Uuid × BackendId)) (b : Nat)
    (packet : VoicePacket) (session : PlayerSession) : Prop where
  key : keys b = some (packet.playerId, session.backend)
  client : (proxy.bridges b).map VoiceBridge.clientAddr = some packet.addr
  player : session.profile.id = packet.playerId
  admits : proxy.Admits packet.addr session

theorem Fits.congr {proxy proxy' : MCProxy} {keys keys' : Nat → Option (Uuid × BackendId)} {b : Nat}
    (h : Fits proxy keys b packet session) (hkey : keys' b = keys b)
    (hclient : (proxy'.bridges b).map VoiceBridge.clientAddr =
      (proxy.bridges b).map VoiceBridge.clientAddr)
    (hbinding : proxy'.voiceIpBinding = proxy.voiceIpBinding) :
    Fits proxy' keys' b packet session where
  key := hkey.trans h.key
  client := hclient.trans h.client
  player := h.player
  admits hb := h.admits (hbinding.symm.trans hb)

/-- What was sent through a bridge fits it, and so does the packet that waits for one. -/
structure Isolated (s : VoiceTraffic) : Prop where
  regular : Regular s.proxy
  fresh : ∀ b, s.proxy.nextBridge ≤ b → s.keys b = none
  stored : ∀ e ∈ s.proxy.voiceBridges.items, s.keys e.2 = some e.1
  idle : s.proxy.routing = none → s.current = none
  waiting : ∀ r, s.proxy.routing = some r → s.keys r.bridge = some (r.player, r.backend) ∧
    ∃ packet session, s.current = some (packet, session) ∧
      Fits s.proxy s.keys r.bridge packet session
  forwarded : ∀ f ∈ s.forwarded, Fits s.proxy s.keys f.bridge f.packet f.session
  returned : ∀ x ∈ s.returned, (s.proxy.bridges x.bridge).map VoiceBridge.clientAddr = some x.addr
  order : (s.forwarded.map ForwardedVoice.packet ++ (s.current.map Prod.fst).toList).Sublist s.taken

theorem Isolated.datagramReceived (h : Isolated s) (data : Datagram) (addr : Addr) :
    Isolated (s.datagramReceived data addr) := by
  unfold VoiceTraffic.datagramReceived
  split
  · exact h
  · exact { h with }
  · exact { h with }

theorem Isolated.keeps (h : Isolated s) {proxy : MCProxy} (hkeeps : Keeps s.proxy proxy)
    (hregular : Regular proxy) : Isolated { s with proxy } := by
  have hfits {b : Nat} {packet : VoicePacket} {session : PlayerSession}
      (hb : Fits s.proxy s.keys b packet session) : Fits proxy s.keys b packet session :=
    hb.congr rfl (hkeeps.clients b) hkeeps.voiceIpBinding
  have hrouting := hkeeps.routing
  constructor
  · exact hregular
  · intro b hb
    apply h.fresh
    rw [← hkeeps.nextBridge]
    exact hb
  · intro e he
    exact h.stored e (hkeeps.stored e he)
  · intro hnone
    apply h.idle
    rw [hnone] at hrouting
    exact Option.map_eq_none_iff.1 hrouting.symm
  · intro r hr
    rw [hr] at hrouting
    obtain ⟨r', hr', heq⟩ := Option.map_eq_some_iff.1 hrouting.symm
    obtain ⟨hplayer, hbackend, hbridge⟩ : r'.player = r.player ∧ r'.backend = r.backend ∧
        r'.bridge = r.bridge := by
      simpa only [Prod.mk.injEq] using heq
    obtain ⟨hkey, packet, session, hcurrent, hfit⟩ := h.waiting r' hr'
    rw [hplayer, hbackend, hbridge] at hkey
    rw [hbridge] at hfit
    exact ⟨hkey, packet, session, hcurrent, hfits hfit⟩
  · intro f hf
    exact hfits (h.forwarded f hf)
  · intro x hx
    rw [hkeeps.clients]
    exact h.returned x hx
  · exact h.order

theorem Isolated.forward (h : Isolated s) {f : ForwardedVoice}
    (hfits : Fits s.proxy s.keys f.bridge f.packet f.session) (hcurrent : s.current = none)
    (horder : (s.forwarded.map ForwardedVoice.packet ++ [f.packet]).Sublist s.taken) :
    Isolated (s.forward f) := by
  unfold VoiceTraffic.forward
  split
  · have hforwarded : ∀ g ∈ s.forwarded ++ [f],
        Fits s.proxy s.keys g.bridge g.packet g.session := by
      intro g hg
      rcases List.mem_append.1 hg with hg | hg
      · exact h.forwarded g hg
      · rw [List.mem_singleton.1 hg]
        exact hfits
    refine { h with forwarded := hforwarded, order := ?_ }
    dsimp only
    rw [hcurrent, List.map_append, Option.map_none, Option.toList_none, List.append_nil]
    exact horder
  · exact h

theorem Isolated.await (h : Isolated s) {proxy : MCProxy}
    (hbegins : Begins s.proxy proxy (packet.playerId, session.backend) packet.addr)
    (hregular : Regular proxy) (hplayer : session.profile.id = packet.playerId)
    (hadmits : s.proxy.Admits packet.addr session)
    (horder : (s.forwarded.map ForwardedVoice.packet ++ [packet]).Sublist s.taken) :
    Isolated (VoiceTraffic.await { s with proxy } packet session) := by
  have hbinding := hbegins.voiceIpBinding
  have hnew : s.keys s.proxy.nextBridge = none := h.fresh _ (Nat.le_refl _)
  have hkeys {b : Nat} {key : Uuid × BackendId} (hb : s.keys b = some key) :
      b ≠ s.proxy.nextBridge := by
    rintro rfl
    rw [hnew] at hb
    cases hb
  unfold VoiceTraffic.await
  dsimp only
  rw [hbegins.routing]
  dsimp only
  constructor
  · exact hregular
  · intro b hb
    dsimp only at hb ⊢
    rw [hbegins.nextBridge] at hb
    rw [Function.update_of_ne (by omega)]
    exact h.fresh b (by omega)
  · intro e he
    have hkey := h.stored e (hbegins.stored e he)
    dsimp only
    rw [Function.update_of_ne (hkeys hkey)]
    exact hkey
  · intro hnone
    rw [hbegins.routing] at hnone
    cases hnone
  · intro r hr
    obtain rfl := Option.some.inj (hbegins.routing.symm.trans hr)
    refine ⟨Function.update_self .., packet, session, rfl, ?_⟩
    constructor
    · exact Function.update_self ..
    · exact hbegins.client
    · exact hplayer
    · intro hb
      exact hadmits (hbinding.symm.trans hb)
  · intro f hf
    have hfit := h.forwarded f hf
    have hne := hkeys hfit.key
    exact hfit.congr (Function.update_of_ne hne ..) (hbegins.clients _ hne) hbinding
  · intro x hx
    have hclient := h.returned x hx
    dsimp only
    rw [hbegins.clients]
    · exact hclient
    · obtain ⟨bridge, hbridge, -⟩ := Option.map_eq_some_iff.1 hclient
      exact (h.regular.listens.fresh _ bridge hbridge).ne
  · exact horder

theorem Isolated.take (h : Isolated s) {voicePort : Option Nat}
    (hstep : s.step (.take voicePort) = some s') : Isolated s' := by
  unfold VoiceTraffic.step at hstep
  obtain ⟨⟨packet, queue⟩, -, hstep⟩ := Option.bind_eq_some_iff.1 hstep
  obtain ⟨proxy, hproxy, hstep⟩ := Option.bind_eq_some_iff.1 hstep
  have hregular := h.regular.step hproxy
  have hrouting : s.proxy.routing = none := (MCProxy.route_eq hproxy).1
  have hcurrent := h.idle hrouting
  have htaken : Isolated { s with queue, taken := s.taken ++ [packet] } :=
    { h with order := h.order.trans (List.sublist_append_left ..) }
  have horder :
      (s.forwarded.map ForwardedVoice.packet ++ [packet]).Sublist (s.taken ++ [packet]) := by
    refine .append ?_ (.refl _)
    exact (List.sublist_append_left ..).trans h.order
  unfold MCProxy.step at hproxy
  rw [hrouting] at hproxy
  dsimp only at hproxy hstep
  cases hsession : s.proxy.longestSession packet.playerId with
  | none =>
    rw [hsession] at hstep
    rw [MCProxy.getOrCreateVoiceBridge_of_none _ _ hsession] at hproxy
    cases hproxy
    cases hstep
    exact { htaken with }
  | some session =>
    rw [hsession] at hstep
    dsimp only at hstep
    have hplayer := h.regular.named.longestSession hsession
    rcases MCProxy.getOrCreateVoiceBridge_cases voicePort hsession with
      ⟨b, heq, hadmits, hstored, hclient⟩ | ⟨proxy', heq, hadmits, hbegins⟩ | ⟨proxy', heq, hkeeps⟩
    · rw [heq] at hproxy hstep
      cases hproxy
      cases hstep
      have hkeeps := MCProxy.keeps_modifyBridge s.proxy b
        (f := fun bridge => { bridge with lastActivity := s.proxy.now }) fun _ => rfl
      refine (htaken.keeps hkeeps hregular).forward ?_ hcurrent horder
      constructor
      · exact h.stored _ (Dict.mem_items.2 hstored)
      · exact (hkeeps.clients b).trans hclient
      · exact hplayer
      · exact hadmits
    · rw [heq] at hproxy hstep
      cases hproxy
      cases hstep
      exact htaken.await hbegins hregular hplayer hadmits horder
    · rw [heq] at hproxy hstep
      cases hproxy
      cases hstep
      have hnone : proxy.routing = none := by
        have hsame := hkeeps.routing
        rw [hrouting] at hsame
        exact Option.map_eq_none_iff.1 hsame
      unfold VoiceTraffic.await
      dsimp only
      rw [hnone]
      exact htaken.keeps hkeeps hregular

theorem Isolated.answered (h : Isolated s) {b : Nat} {data : Datagram}
    (hstep : s.step (.answered b data) = some s') : Isolated s' := by
  unfold VoiceTraffic.step at hstep
  obtain ⟨bridge, hbridge, hstep⟩ := Option.bind_eq_some_iff.1 hstep
  obtain ⟨proxy, hproxy, hstep⟩ := Option.bind_eq_some_iff.1 hstep
  have hkept := h.keeps (MCProxy.keeps_step rfl hproxy) (h.regular.step hproxy)
  have hclients := (MCProxy.keeps_step rfl hproxy).clients
  split at hstep
  · cases hstep
    have hreturned : ∀ x ∈ s.returned ++ [⟨b, data, bridge.proxyTransport, bridge.clientAddr⟩],
        (proxy.bridges x.bridge).map VoiceBridge.clientAddr = some x.addr := by
      intro x hx
      rcases List.mem_append.1 hx with hx | hx
      · exact hkept.returned x hx
      · rw [List.mem_singleton.1 hx, hclients, hbridge, Option.map_some]
    exact { hkept with returned := hreturned }
  · cases hstep

/-- The bridge that was awaited is stored, and the packet forwarded. -/
theorem Isolated.bridgeCreated (h : Isolated s)
    (hstep : s.step (.proxy .bridgeCreated) = some s') : Isolated s' := by
  unfold VoiceTraffic.step at hstep
  obtain ⟨r, hr, hstep⟩ := Option.bind_eq_some_iff.1 hstep
  obtain ⟨⟨packet, session⟩, hcurrent, hstep⟩ := Option.bind_eq_some_iff.1 hstep
  obtain ⟨proxy, hproxy, hstep⟩ := Option.bind_eq_some_iff.1 hstep
  have hregular := h.regular.step hproxy
  obtain ⟨r', hr', rfl⟩ := Option.map_eq_some_iff.1 hproxy
  obtain rfl : r = r' := Option.some.inj (hr.symm.trans (Option.filter_eq_some_iff.1 hr').1)
  obtain ⟨hkey, packet', session', hcurrent', hfit⟩ := h.waiting r hr
  rw [hcurrent] at hcurrent'
  cases hcurrent'
  have hclients := (MCProxy.keeps_modifyBridge (s.proxy.storeBridge r) r.bridge
    (f := fun bridge => { bridge with lastActivity := s.proxy.now }) fun _ => rfl).clients
  have horder := h.order
  rw [hcurrent] at horder
  cases hstep
  refine Isolated.forward ?_ (hfit.congr rfl (hclients r.bridge) rfl) rfl horder
  constructor
  · exact hregular
  · exact h.fresh
  · intro e he
    rcases Dict.mem_set.1 he with rfl | ⟨-, he⟩
    · exact hkey
    · exact h.stored e he
  · exact fun _ => rfl
  · rintro r' ⟨⟩
  · intro f hf
    exact (h.forwarded f hf).congr rfl (hclients f.bridge) rfl
  · intro x hx
    exact (hclients x.bridge).trans (h.returned x hx)
  · refine List.Sublist.trans ?_ horder
    exact (List.append_nil _).symm ▸ List.sublist_append_left ..

/-- **One step** keeps the bridges of different players and senders apart. -/
theorem Isolated.step {a : Action} (h : Isolated s) (hstep : s.step a = some s') : Isolated s' := by
  cases a with
  | received data addr =>
    unfold VoiceTraffic.step at hstep
    dsimp only at hstep
    split at hstep
    · cases hstep
      exact h.datagramReceived data addr
    · cases hstep
  | take voicePort => exact h.take hstep
  | answered b data => exact h.answered hstep
  | proxy a =>
    cases a with
    | route | datagramReceived => cases hstep
    | bridgeCreated => exact h.bridgeCreated hstep
    | bridgeFailed =>
      obtain ⟨proxy, hproxy, rfl⟩ := Option.map_eq_some_iff.1 hstep
      have hregular := h.regular.step hproxy
      obtain ⟨r, hr, rfl⟩ := Option.map_eq_some_iff.1 hproxy
      have horder : (s.forwarded.map ForwardedVoice.packet ++ []).Sublist s.taken := by
        rw [List.append_nil]
        exact (List.sublist_append_left ..).trans h.order
      constructor
      · exact hregular
      · exact h.fresh
      · exact h.stored
      · exact fun _ => rfl
      · rintro r' ⟨⟩
      · intro f hf
        exact (h.forwarded f hf).congr rfl rfl rfl
      · exact h.returned
      · exact horder
    | _ =>
      unfold VoiceTraffic.step at hstep
      dsimp only at hstep
      obtain ⟨proxy, hproxy, rfl⟩ := Option.map_eq_some_iff.1 hstep
      exact h.keeps (MCProxy.keeps_step rfl hproxy) (h.regular.step hproxy)

/-- The queue, and what was put in and taken out, are the same. -/
structure SameQueue (s s' : VoiceTraffic) : Prop where
  queue : s'.queue = s.queue
  warnings : s'.warnings = s.warnings
  offered : s'.offered = s.offered
  taken : s'.taken = s.taken

theorem sameQueue_forward (s : VoiceTraffic) (f : ForwardedVoice) : SameQueue s (s.forward f) := by
  unfold VoiceTraffic.forward
  split <;> exact ⟨rfl, rfl, rfl, rfl⟩

theorem sameQueue_await (s : VoiceTraffic) (packet : VoicePacket) (session : PlayerSession) :
    SameQueue s (s.await packet session) := by
  unfold VoiceTraffic.await
  split <;> exact ⟨rfl, rfl, rfl, rfl⟩

/-- The oldest packet was taken out of the queue. -/
def Takes (s s' : VoiceTraffic) : Prop :=
  ∃ packet queue, s.queue.take? = some (packet, queue) ∧
    SameQueue { s with queue, taken := s.taken ++ [packet] } s'

/-- What a step does to the queue. -/
theorem step_queue {a : Action} (hstep : s.step a = some s') :
    SameQueue s s' ∨ (∃ data addr, s' = s.datagramReceived data addr) ∨ Takes s s' := by
  cases a with
  | received data addr =>
    unfold VoiceTraffic.step at hstep
    dsimp only at hstep
    split at hstep
    · cases hstep
      exact .inr (.inl ⟨data, addr, rfl⟩)
    · cases hstep
  | take voicePort =>
    unfold VoiceTraffic.step at hstep
    obtain ⟨⟨packet, queue⟩, htake, hstep⟩ := Option.bind_eq_some_iff.1 hstep
    obtain ⟨proxy, -, hstep⟩ := Option.bind_eq_some_iff.1 hstep
    refine .inr (.inr ⟨packet, queue, htake, ?_⟩)
    dsimp only at hstep
    split at hstep
    · cases hstep
      exact ⟨rfl, rfl, rfl, rfl⟩
    · split at hstep
      · cases hstep
        exact { sameQueue_forward _ _ with }
      · cases hstep
        exact { sameQueue_await _ _ _ with }
  | answered b data =>
    unfold VoiceTraffic.step at hstep
    obtain ⟨bridge, -, hstep⟩ := Option.bind_eq_some_iff.1 hstep
    obtain ⟨proxy, -, hstep⟩ := Option.bind_eq_some_iff.1 hstep
    split at hstep
    · cases hstep
      exact .inl ⟨rfl, rfl, rfl, rfl⟩
    · cases hstep
  | proxy a =>
    cases a with
    | route | datagramReceived => cases hstep
    | bridgeCreated =>
      unfold VoiceTraffic.step at hstep
      obtain ⟨r, -, hstep⟩ := Option.bind_eq_some_iff.1 hstep
      obtain ⟨⟨packet, session⟩, -, hstep⟩ := Option.bind_eq_some_iff.1 hstep
      obtain ⟨proxy, -, hstep⟩ := Option.bind_eq_some_iff.1 hstep
      cases hstep
      exact .inl { sameQueue_forward _ _ with }
    | _ =>
      unfold VoiceTraffic.step at hstep
      dsimp only at hstep
      obtain ⟨proxy, -, rfl⟩ := Option.map_eq_some_iff.1 hstep
      exact .inl ⟨rfl, rfl, rfl, rfl⟩

theorem Queued.congr (h : Queued s) (hsame : SameQueue s s') : Queued s' := by
  constructor
  · rw [hsame.queue, hsame.offered, hsame.taken]
    exact h.accounts
  · rw [hsame.warnings, hsame.queue]
    exact h.warnings
  · rw [hsame.offered]
    exact h.voice

theorem Queued.step {a : Action} (h : Queued s) (hstep : s.step a = some s') : Queued s' := by
  rcases step_queue hstep with hsame | ⟨data, addr, rfl⟩ | ⟨packet, queue, htake, hsame⟩
  · exact h.congr hsame
  · exact h.datagramReceived data addr
  · have htaken : Queued { s with queue, taken := s.taken ++ [packet] } := by
      refine ⟨h.accounts.take? htake, ?_, h.voice⟩
      dsimp only
      rw [(Mailbox.take?_eq_some htake).2]
      exact h.warnings
    exact htaken.congr hsame

/-- A packet is dropped only when the queue is full. -/
theorem drops_step {a : Action} (hstep : s.step a = some s') :
    s'.queue.drops = s.queue.drops ∨ VOICE_PACKET_QUEUE_SIZE ≤ s.queue.items.length := by
  rcases step_queue hstep with hsame | ⟨data, addr, rfl⟩ | ⟨packet, queue, htake, hsame⟩
  · rw [hsame.queue]
    exact .inl rfl
  · unfold VoiceTraffic.datagramReceived
    split
    · exact .inl rfl
    · exact .inl rfl
    · exact Mailbox.drops_put ..
  · rw [hsame.queue]
    exact .inl (Mailbox.take?_eq_some htake).2

/-! ### Runs -/

/-- What goes through the bridge `b` is for one backend, and is in order what one player sent from
one address, without what was lost; the backend's answers go to that address. -/
structure Carries (s : VoiceTraffic) (b : Nat) (playerId : Uuid) (backend : BackendId)
    (addr : Addr) : Prop where
  forwarded : ((s.forwarded.filter fun f => f.bridge = b).map ForwardedVoice.packet).Sublist
    (s.offered.filter fun packet => packet.playerId = playerId ∧ packet.addr = addr)
  backend : ∀ f ∈ s.forwarded, f.bridge = b → f.session.backend = backend
  returned : ∀ x ∈ s.returned, x.bridge = b → x.addr = addr

/-- The packets that were received are accounted for, and the bridges keep them apart. -/
structure Separated (s : VoiceTraffic) : Prop where
  /-- the queue is bounded, and what it does not hold was taken in order, or dropped and counted -/
  queue : s.queue.Accounts VOICE_PACKET_QUEUE_SIZE s.offered s.taken
  warnings : s.warnings = logged s.queue.drops
  /-- what was forwarded was taken, in order, and at most once -/
  forwarded : (s.forwarded.map ForwardedVoice.packet).Sublist s.taken
  /-- it was a datagram that names the player of the session, from where it may come -/
  admitted : ∀ f ∈ s.forwarded, Proxy.received f.packet.data f.packet.addr = .voice f.packet ∧
    f.session.profile.id = f.packet.playerId ∧ s.proxy.Admits f.packet.addr f.session
  bridges : ∀ b, ∃ playerId backend addr, s.Carries b playerId backend addr

theorem Isolated.exists_carries (h : Isolated s)
    (hforwarded : (s.forwarded.map ForwardedVoice.packet).Sublist s.offered) (b : Nat) :
    ∃ playerId backend addr, s.Carries b playerId backend addr := by
  obtain ⟨⟨playerId, backend⟩, hkey⟩ : ∃ key, ∀ key', s.keys b = some key' → key' = key := by
    cases hkeys : s.keys b with
    | none => exact ⟨(0, 0), fun _ h => by cases h⟩
    | some key => exact ⟨key, fun _ h => (Option.some.inj h).symm⟩
  obtain ⟨addr, haddr⟩ : ∃ addr, ∀ addr',
      (s.proxy.bridges b).map VoiceBridge.clientAddr = some addr' → addr' = addr := by
    cases (s.proxy.bridges b).map VoiceBridge.clientAddr with
    | none => exact ⟨⟨[], 0⟩, fun _ h => by cases h⟩
    | some addr => exact ⟨addr, fun _ h => (Option.some.inj h).symm⟩
  have hfits : ∀ f ∈ s.forwarded, f.bridge = b →
      f.packet.playerId = playerId ∧ f.session.backend = backend ∧ f.packet.addr = addr := by
    rintro f hf rfl
    have hfit := h.forwarded f hf
    have hpair := Prod.ext_iff.1 (hkey _ hfit.key)
    exact ⟨hpair.1, hpair.2, haddr _ hfit.client⟩
  refine ⟨playerId, backend, addr, ?_, ?_, ?_⟩
  · -- all packets of the bridge pass the filter
    have hall : ∀ packet ∈ (s.forwarded.filter fun f => f.bridge = b).map ForwardedVoice.packet,
        decide (packet.playerId = playerId ∧ packet.addr = addr) = true := by
      intro packet hpacket
      obtain ⟨f, hf, rfl⟩ := List.mem_map.1 hpacket
      obtain ⟨hf, hb⟩ := List.mem_filter.1 hf
      obtain ⟨hplayer, -, haddr⟩ := hfits f hf (of_decide_eq_true hb)
      exact decide_eq_true ⟨hplayer, haddr⟩
    rw [← List.filter_eq_self.2 hall]
    exact ((List.filter_sublist.map _).trans hforwarded).filter _
  · intro f hf hb
    exact (hfits f hf hb).2.1
  · rintro x hx rfl
    exact haddr _ (h.returned x hx)

/-- **Voice packets stay apart.** In every run, the voice packets received are taken from the queue
in order, or dropped when it is full, which is counted and logged; and through each bridge go, in
order and unchanged, packets of one player from one address to one backend, and its answers to that
address. -/
theorem voice_isolated {voiceIpBinding : Bool}
    (h : Reach VoiceTraffic.step (fun _ _ => True) (init voiceIpBinding) s) :
    s.Separated ∧ ∀ a s', s.step a = some s' →
      s'.queue.drops = s.queue.drops ∨ s.queue.items.length = VOICE_PACKET_QUEUE_SIZE := by
  obtain ⟨hqueued, hisolated⟩ : Queued s ∧ Isolated s := by
    refine h.invariant (P := fun s => Queued s ∧ Isolated s) ⟨?_, ?_⟩ ?_
    · exact ⟨Mailbox.accounts_empty _, rfl, fun _ h => by cases h⟩
    · constructor
      · exact MCProxy.regular_init voiceIpBinding
      · exact fun _ _ => rfl
      · rintro e ⟨⟩
      · exact fun _ => rfl
      · rintro r ⟨⟩
      · rintro f ⟨⟩
      · rintro x ⟨⟩
      · exact .refl []
    · rintro s a s' ⟨hqueued, hisolated⟩ - hstep
      exact ⟨hqueued.step hstep, hisolated.step hstep⟩
  refine ⟨?_, fun a s' hstep => (drops_step hstep).imp_right fun hfull =>
    Nat.le_antisymm hqueued.accounts.bounded hfull⟩
  have htaken : (s.forwarded.map ForwardedVoice.packet).Sublist s.taken :=
    (List.sublist_append_left ..).trans hisolated.order
  have hoffered : (s.forwarded.map ForwardedVoice.packet).Sublist s.offered :=
    htaken.trans ((List.sublist_append_left ..).trans hqueued.accounts.sublist)
  constructor
  · exact hqueued.accounts
  · exact hqueued.warnings
  · exact htaken
  · intro f hf
    have hpacket : f.packet ∈ s.offered := hoffered.subset (List.mem_map_of_mem hf)
    have hfit := hisolated.forwarded f hf
    exact ⟨hqueued.voice f.packet hpacket, hfit.player, hfit.admits⟩
  · exact hisolated.exists_carries hoffered

end

/-- A packet of player 7 with one byte of content. -/
def packetOfSeven : Datagram :=
  0xFF :: List.replicate 15 0 ++ [7, 1]

/-- Player 7 is in a session on backend 0, sends a packet, and the backend answers. -/
def exchange : List Action :=
  [.proxy .listenerStarted, .proxy .listenerOpened,
    .proxy (.startSession 1 ⟨['p'], some 7⟩ 0 ['a']), .proxy (.beginSession 0),
    .received packetOfSeven ⟨['a'], 1⟩, .take (some 24454), .proxy .connectionMade,
    .proxy .bridgeCreated, .answered 0 [1]]

theorem voice_isolated_exchange :
    ∃ s, Reach VoiceTraffic.step (fun _ _ => True) (init true) s ∧ s.forwarded.length = 1 ∧
      s.returned.length = 1 ∧ s.Separated := by
  obtain ⟨s, hs, hforwarded, hreturned⟩ := Reach.exists_of_runIn VoiceTraffic.step
    (fun _ _ => True) (init true) exchange
    (p := fun s => s.forwarded.length = 1 ∧ s.returned.length = 1) (by decide +kernel)
  exact ⟨s, hs, hforwarded, hreturned, (voice_isolated hs).1⟩

end VoiceTraffic

end Silkjam.Proxy
