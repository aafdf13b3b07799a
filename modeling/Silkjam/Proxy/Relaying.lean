import Silkjam.Proxy.Pairing

/-!
# Forwarding

What a client and its backend are sent while their traffic is forwarded. The backend gets the
handshake, encoded again, the Login Start if one was read, what else the packet reader held, and
then what arrives from the client; the client gets what arrives from the backend. Each direction
ends when its source does, also while the other goes on (`relay_transparent`).
-/

namespace Silkjam.Proxy

open Protocol Transition Server

/-! ### What the two sides have sent -/

/-- What the awaits of a client's task have given it so far. `unparsed` is what the packet reader
held when forwarding began; what the two sides have sent since is in `client` and `backend`. -/
structure Heard where
  handshake : Option Handshake := none
  login : Option Protocol.LoginStart := none
  unparsed : Bytes := []
  client : Source UInt8 := {}
  backend : Source UInt8 := {}

namespace Heard

def take (heard : Heard) (rest : Rest) : Heard :=
  { heard with unparsed := rest.unparsed, client := ⟨rest.buffer, rest.ended⟩ }

def next (heard : Heard) : ClientAction → Heard
  | .identified (some (_, handshake)) => { heard with handshake := some handshake }
  | .connected rest => heard.take rest
  | .loggedIn login _ rest => { heard.take rest with login := login }
  | .up a => { heard with client := heard.client.next a }
  | .down a => { heard with backend := heard.backend.next a }
  | _ => heard

/-- What the backend has to be sent first. -/
def Prologue (heard : Heard) (initialData : Bytes) : Prop :=
  ∃ handshake data, heard.handshake = some handshake ∧ handshake.encode = .ok data ∧
    (heard.login.isSome = true → handshake.isJoining = true) ∧
    initialData = data ++ heard.login.elim [] encodeLoginStartPacket ++ heard.unparsed

end Heard

/-- The network, and beside it what its clients and their backends have sent. -/
structure Observed where
  network : Network
  heard : Nat → Heard := fun _ => {}

namespace Observed

/-- The actions alone decide what was sent. -/
def listen (heard : Nat → Heard) : NetworkAction → Nat → Heard
  | .client i a => Function.update heard i ((heard i).next a)
  | _ => heard

def step (o : Observed) (a : NetworkAction) : Option Observed :=
  (o.network.step a).map fun s => { network := s, heard := listen o.heard a }

def init (voiceIpBinding : Nat → Bool) (listings : BackendId → ServerListing) : Observed where
  network := .init voiceIpBinding listings

end Observed

/-! ### The two directions, step by step -/

/-- The client is not forwarded any more. -/
def ClientPc.isLater : ClientPc → Bool
  | .gathering | .untracking | .closingBackend | .closing | .over => true
  | _ => false

/-- The step brings nothing that is forwarded. -/
def Client.Quiet (c : Client) (a : ClientAction) (c' : Client) : Prop :=
  ∀ heard : Heard, c.handshake = heard.handshake →
    c'.handshake = (heard.next a).handshake ∧ (heard.next a).login = heard.login ∧
      (heard.next a).backend = heard.backend ∧ (c.pc.isLater = true → heard.next a = heard)

/-- What a step of a client does to the two directions. -/
inductive Forwarded (c : Client) : ClientAction → Client → Prop where
  | other {a : ClientAction} {c' : Client} (hrelay : c'.relay = c.relay) (hquiet : c.Quiet a c')
      (hpc : c.pc ≠ .relaying) (hpc' : c'.pc ≠ .relaying)
      (hlater : c.pc.isLater = true → c'.pc.isLater = true) : Forwarded c a c'
  | start {a : ClientAction} {c' : Client} {handshake : Handshake} {data : Bytes}
      {login : Option Protocol.LoginStart} {rest : Rest}
      (hpc : c.pc = .connecting ∨ c.pc = .loggingIn) (hpc' : c'.pc = .relaying)
      (ha : a = .connected rest ∧ login = none ∨ ∃ sessionId, a = .loggedIn login sessionId rest)
      (hhandshake : c.handshake = some handshake ∧ c'.handshake = some handshake)
      (hencode : handshake.encode = .ok data)
      (hjoining : login.isSome = true → handshake.isJoining = true)
      (hrelay : c'.relay = some (.start
        (.start (data ++ login.elim [] encodeLoginStartPacket ++ rest.unparsed) rest.buffer
          rest.ended true)
        (.start [] [] false true))) : Forwarded c a c'
  | up {b : PumpAction UInt8} {c' : Client} {r r' : Relay UInt8} (hpc : c.pc = .relaying)
      (hpc' : c'.pc = .relaying) (hhandshake : c'.handshake = c.handshake)
      (hr : c.relay = some r) (hr' : c'.relay = some r')
      (hstep : r.step BUFFER_SIZE (.up b) = some r') : Forwarded c (.up b) c'
  | down {b : PumpAction UInt8} {c' : Client} {r r' : Relay UInt8} (hpc : c.pc = .relaying)
      (hpc' : c'.pc = .relaying) (hhandshake : c'.handshake = c.handshake)
      (hr : c.relay = some r) (hr' : c'.relay = some r')
      (hstep : r.step BUFFER_SIZE (.down b) = some r') : Forwarded c (.down b) c'
  | left {a : ClientAction} {b : RelayAction UInt8} {c' : Client} {r r' : Relay UInt8}
      (hleave : a = .returned ∧ b = .returned ∨ a = .cancel ∧ b = .cancel)
      (hpc : c.pc = .relaying) (hpc' : c'.pc = .gathering)
      (hhandshake : c'.handshake = c.handshake) (hr : c.relay = some r) (hr' : c'.relay = some r')
      (hstep : r.step BUFFER_SIZE b = some r') : Forwarded c a c'

section
variable {s s' : Network} {i : Nat} {c : Client} {a : ClientAction}

/-- The client after its step, and what happened to the two directions. -/
def ForwardedBy (s : Network) (i : Nat) (c : Client) (a : ClientAction) (s' : Network) : Prop :=
  ∃ c', s'.clients = Function.update s.clients i (some c') ∧ Forwarded c a c'

/-- An action that brings nothing. -/
def ClientAction.IsSilent (a : ClientAction) : Prop :=
  ∀ heard : Heard, heard.next a = heard

theorem quiet_of_silent {c' : Client} (ha : a.IsSilent) (hhandshake : c'.handshake = c.handshake) :
    c.Quiet a c' := by
  intro heard hheard
  rw [ha heard]
  exact ⟨hhandshake.trans hheard, rfl, rfl, fun _ => rfl⟩

/-- A step that has nothing to do with the two directions. -/
theorem forwarded_other {c' : Client} (ha : a.IsSilent)
    (hclients : s'.clients = Function.update s.clients i (some c'))
    (hrelay : c'.relay = c.relay) (hhandshake : c'.handshake = c.handshake)
    (hpc : c.pc ≠ .relaying ∧ c'.pc ≠ .relaying)
    (hlater : c.pc.isLater = true → c'.pc.isLater = true) : ForwardedBy s i c a s' :=
  ⟨c', hclients, .other hrelay (quiet_of_silent ha hhandshake) hpc.1 hpc.2 hlater⟩

theorem forwarded_close (ha : a.IsSilent) (hpc : c.pc ≠ .relaying) :
    ForwardedBy s i c a (s.setClient i c.close) :=
  forwarded_other ha rfl rfl rfl ⟨hpc, nofun⟩ fun _ => rfl

theorem forwarded_untracked {t : Nat} (ha : a.IsSilent) (hpc : c.pc = .untracking) :
    ForwardedBy s i c a (s.untracked i c t) :=
  forwarded_other ha rfl rfl rfl ⟨by rw [hpc]; nofun, nofun⟩ fun _ => rfl

theorem forwarded_identified (hpc : c.pc = .identifying)
    (result : Option (BackendId × Handshake)) :
    ForwardedBy s i c (.identified result) (s.identified i c result) := by
  have hne : c.pc ≠ .relaying := by
    rw [hpc]
    nofun
  have hlater : ¬ c.pc.isLater = true := by
    rw [hpc]
    nofun
  unfold Network.identified
  split
  · exact forwarded_close (fun _ => rfl) hne
  · next b handshake =>
    have hquiet (c' : Client) (hhandshake : c'.handshake = some handshake) :
        c.Quiet (.identified (some (b, handshake))) c' :=
      fun heard _ => ⟨hhandshake, rfl, rfl, fun h => absurd h hlater⟩
    split
    · split
      · exact ⟨_, rfl, .other rfl (hquiet _ rfl) hne nofun fun h => absurd h hlater⟩
      · exact ⟨_, rfl, .other rfl (hquiet _ rfl) hne nofun fun h => absurd h hlater⟩
    · exact ⟨_, rfl, .other rfl (hquiet _ rfl) hne nofun fun h => absurd h hlater⟩

theorem forwarded_connected {handshake : Handshake} {rest : Rest} (hpc : c.pc = .connecting)
    (hhandshake : c.handshake = some handshake) :
    ForwardedBy s i c (.connected rest) (s.connected i c handshake rest) := by
  have hne : c.pc ≠ .relaying := by
    rw [hpc]
    nofun
  have hlater : ¬ c.pc.isLater = true := by
    rw [hpc]
    nofun
  have hquiet (c' : Client) (hsame : c'.handshake = c.handshake) : c.Quiet (.connected rest) c' :=
    fun heard hheard => ⟨hsame.trans hheard, rfl, rfl, fun h => absurd h hlater⟩
  unfold Network.connected
  split
  · exact ⟨_, rfl, .other rfl (hquiet _ rfl) hne nofun fun _ => rfl⟩
  · next data hencode =>
    split
    · exact ⟨_, rfl, .other rfl (hquiet _ rfl) hne nofun fun h => absurd h hlater⟩
    · refine ⟨_, rfl, .start (.inl hpc) rfl (.inl ⟨rfl, rfl⟩) ⟨hhandshake, hhandshake⟩ hencode
        nofun ?_⟩
      rw [Option.elim_none, List.append_nil]
      rfl

theorem forwarded_loggedIn {handshake : Handshake} {login : Option Protocol.LoginStart}
    {sessionId : Nat} {rest : Rest} (hpc : c.pc = .loggingIn)
    (hhandshake : c.handshake = some handshake) (hjoining : handshake.isJoining = true) :
    ForwardedBy s i c (.loggedIn login sessionId rest)
      (s.loggedIn i c handshake login sessionId rest) := by
  obtain ⟨data, hencode⟩ : ∃ data, handshake.encode = .ok data := by
    cases handshake with
    | legacyPing => cases hjoining
    | modern request => exact ⟨_, rfl⟩
  have hdata : handshake.encode.toOption.getD [] = data := by
    rw [hencode]
    rfl
  unfold Network.loggedIn
  cases login with
  | none =>
    refine ⟨_, rfl, .start (.inr hpc) rfl (.inr ⟨sessionId, rfl⟩) ⟨hhandshake, hhandshake⟩ hencode
      nofun ?_⟩
    rw [Option.elim_none, List.append_nil, hdata]
    rfl
  | some login =>
    refine ⟨_, rfl, .start (.inr hpc) rfl (.inr ⟨sessionId, rfl⟩) ⟨hhandshake, hhandshake⟩ hencode
      (fun _ => hjoining) ?_⟩
    rw [Option.elim_some, hdata]
    rfl

theorem forwarded_gathered (hpc : c.pc = .gathering) :
    ForwardedBy s i c .gathered (s.gathered i c) := by
  have hne : c.pc ≠ .relaying := by
    rw [hpc]
    nofun
  unfold Network.gathered
  split
  · exact forwarded_other (fun _ => rfl) rfl rfl rfl ⟨hne, nofun⟩ fun _ => rfl
  · split
    · exact forwarded_other (fun _ => rfl) rfl rfl rfl ⟨hne, nofun⟩ fun _ => rfl
    · exact forwarded_other (fun _ => rfl) rfl rfl rfl ⟨hne, nofun⟩ fun _ => rfl

theorem forwarded_leaveRelay {b : RelayAction UInt8}
    (hleave : a = .returned ∧ b = .returned ∨ a = .cancel ∧ b = .cancel)
    (hpc : c.pc = .relaying) (hstep : s.leaveRelay i c b = some s') : ForwardedBy s i c a s' := by
  obtain ⟨r, hr, hmap⟩ := Option.bind_eq_some_iff.1 hstep
  obtain ⟨r', hr', rfl⟩ := Option.map_eq_some_iff.1 hmap
  exact ⟨_, rfl, .left hleave hpc rfl rfl hr rfl hr'⟩

theorem forwarded_cancel (hstep : s.cancel i c = some s') : ForwardedBy s i c .cancel s' := by
  unfold Network.cancel at hstep
  split at hstep
  case h_1 hpc | h_2 hpc | h_3 hpc | h_4 hpc | h_5 hpc | h_6 hpc =>
    cases hstep
    exact forwarded_close (fun _ => rfl) (by rw [hpc]; nofun)
  case h_7 hpc | h_8 hpc =>
    cases hstep
    exact forwarded_other (fun _ => rfl) rfl rfl rfl ⟨by rw [hpc]; nofun, nofun⟩ fun _ => rfl
  case h_9 hpc => exact forwarded_leaveRelay (.inr ⟨rfl, rfl⟩) hpc hstep
  case h_10 hpc =>
    obtain ⟨t, -, rfl⟩ := Option.map_eq_some_iff.1 hstep
    exact forwarded_untracked (fun _ => rfl) hpc
  case h_11 hpc =>
    cases hstep
    exact forwarded_other (fun _ => rfl) rfl rfl rfl ⟨by rw [hpc]; nofun, nofun⟩ fun _ => rfl
  case h_12 => cases hstep

/-- **The step of a client**, and the two directions. -/
theorem clientStep_forwarded (h : c.Holds) (hstep : s.clientStep i c a = some s') :
    ForwardedBy s i c a s' := by
  cases a <;> dsimp only [Network.clientStep] at hstep
  case cancel => exact forwarded_cancel hstep
  case raised =>
    split at hstep
    case h_5 => cases hstep
    all_goals
      next hpc =>
      cases hstep
      exact forwarded_close (fun _ => rfl) (by rw [hpc]; nofun)
  all_goals
    split at hstep
    case isFalse => cases hstep
  case identified.isTrue result hpc =>
    cases hstep
    exact forwarded_identified hpc result
  case started.isTrue success hpc =>
    cases hstep
    refine forwarded_other (fun _ => rfl) rfl rfl rfl ⟨by rw [hpc]; nofun, ?_⟩ fun hlater => ?_
    · cases success <;> nofun
    · rw [hpc] at hlater
      cases hlater
  case connected.isTrue rest hpc =>
    obtain ⟨handshake, hhandshake, rfl⟩ := Option.map_eq_some_iff.1 hstep
    exact forwarded_connected hpc hhandshake
  case refused.isTrue hpc =>
    cases hstep
    refine forwarded_other (fun _ => rfl) rfl rfl rfl ⟨by rw [hpc]; nofun, nofun⟩ fun hlater => ?_
    rw [hpc] at hlater
    cases hlater
  case loggedIn.isTrue login sessionId rest hpc =>
    obtain ⟨handshake, hhandshake, rfl⟩ := Option.map_eq_some_iff.1 hstep
    unfold Client.Holds at h
    rw [hpc] at h
    obtain ⟨⟨handshake', hhandshake', hjoining⟩, -⟩ := h
    obtain rfl := Option.some.inj (hhandshake.symm.trans hhandshake')
    exact forwarded_loggedIn hpc hhandshake hjoining
  case up.isTrue b hpc =>
    obtain ⟨r, hr, hmap⟩ := Option.bind_eq_some_iff.1 hstep
    obtain ⟨r', hr', rfl⟩ := Option.map_eq_some_iff.1 hmap
    exact ⟨_, rfl, .up hpc hpc rfl hr rfl hr'⟩
  case down.isTrue b hpc =>
    obtain ⟨r, hr, hmap⟩ := Option.bind_eq_some_iff.1 hstep
    obtain ⟨r', hr', rfl⟩ := Option.map_eq_some_iff.1 hmap
    exact ⟨_, rfl, .down hpc hpc rfl hr rfl hr'⟩
  case returned.isTrue hpc => exact forwarded_leaveRelay (.inl ⟨rfl, rfl⟩) hpc hstep
  case gathered.isTrue hpc =>
    cases hstep
    exact forwarded_gathered hpc
  case untracked.isTrue hpc =>
    obtain ⟨t, -, rfl⟩ := Option.map_eq_some_iff.1 hstep
    exact forwarded_untracked (fun _ => rfl) hpc
  case backendClosed.isTrue hpc =>
    cases hstep
    exact forwarded_close (fun _ => rfl) (by rw [hpc]; nofun)
  case handled.isTrue hpc =>
    cases hstep
    exact forwarded_close (fun _ => rfl) (by rw [hpc]; nofun)
  case kicked.isTrue hpc =>
    cases hstep
    exact forwarded_close (fun _ => rfl) (by rw [hpc]; nofun)
  case closed.isTrue hpc =>
    cases hstep
    exact forwarded_other (fun _ => rfl) rfl rfl rfl ⟨by rw [hpc]; nofun, nofun⟩ fun _ => rfl

end

/-! ### The two directions of a client -/

/-- One of the two directions fails, or the client's task is cancelled. -/
def ClientAction.isDisturbance : ClientAction → Bool
  | .up b | .down b => b.isDisturbance
  | .cancel => true
  | _ => false

namespace Client

/-- What holds of the two directions, once there are any. -/
structure Relays (c : Client) (heard : Heard) (r : Relay UInt8) : Prop where
  faithful : r.Faithful
  prologue : heard.Prologue r.up.initial
  sources : r.up.source = heard.client ∧ r.down.source = heard.backend
  down : r.down.initial = []
  eof : r.up.canWriteEof = true ∧ r.down.canWriteEof = true
  pc : c.pc = .relaying ∧ r.left = false ∨ c.pc.isLater = true ∧ r.left = true

/-- There are none before the client is forwarded. -/
structure Forwards (c : Client) (heard : Heard) : Prop where
  handshake : c.handshake = heard.handshake
  before : c.relay = none → heard.login = none ∧ heard.backend = {}
  relays : ∀ r, c.relay = some r → c.Relays heard r
  relay : c.pc = .relaying → ∃ r, c.relay = some r

section
variable {c c' : Client} {heard heard' : Heard} {a : ClientAction} {r r' : Relay UInt8}

theorem Relays.step {b : RelayAction UInt8} (h : c.Relays heard r) (hpc : c.pc = .relaying)
    (hprologue : heard'.Prologue r.up.initial) (hstep : r.step BUFFER_SIZE b = some r')
    (hsources : r'.up.source = heard'.client ∧ r'.down.source = heard'.backend)
    (hpc' : c'.pc = .relaying ∧ r'.left = r.left ∨ c'.pc = .gathering ∧ r'.left = true) :
    c'.Relays heard' r' := by
  have hends := Relay.step_sameEnds hstep
  have hleft : r.left = false := by
    obtain ⟨-, hleft⟩ | ⟨hlater, -⟩ := h.pc
    · exact hleft
    · rw [hpc] at hlater
      cases hlater
  refine ⟨h.faithful.step hstep, ?_, hsources, hends.down.1.trans h.down,
    ⟨hends.up.2.trans h.eof.1, hends.down.2.trans h.eof.2⟩, ?_⟩
  · rw [hends.up.1]
    exact hprologue
  · obtain ⟨hpc', hsame⟩ | ⟨hpc', hleft'⟩ := hpc'
    · exact .inl ⟨hpc', hsame.trans hleft⟩
    · refine .inr ⟨?_, hleft'⟩
      rw [hpc']
      rfl

/-- Forwarding begins. What was heard before is the handshake alone. -/
theorem Forwards.start {handshake : Handshake} {data : Bytes} {login : Option Protocol.LoginStart}
    {rest : Rest} (h : c.Forwards heard) (hnone : c.relay = none) (hpc' : c'.pc = .relaying)
    (ha : a = .connected rest ∧ login = none ∨ ∃ sessionId, a = .loggedIn login sessionId rest)
    (hhandshake : c.handshake = some handshake ∧ c'.handshake = some handshake)
    (hencode : handshake.encode = .ok data)
    (hjoining : login.isSome = true → handshake.isJoining = true)
    (hrelay : c'.relay = some (.start
      (.start (data ++ login.elim [] encodeLoginStartPacket ++ rest.unparsed) rest.buffer
        rest.ended true)
      (.start [] [] false true))) : c'.Forwards (heard.next a) := by
  obtain ⟨hlogin, hbackend⟩ := h.before hnone
  have hheard : heard.next a = { heard.take rest with login := login } := by
    obtain ⟨rfl, rfl⟩ | ⟨sessionId, rfl⟩ := ha
    · rw [← hlogin]
      rfl
    · rfl
  have hsome : heard.handshake = some handshake := h.handshake.symm.trans hhandshake.1
  rw [hheard]
  refine ⟨hhandshake.2.trans hsome.symm, fun hnone' => absurd (hnone'.symm.trans hrelay) nofun,
    fun r hr => ?_, fun _ => ⟨_, hrelay⟩⟩
  obtain rfl := Option.some.inj (hrelay.symm.trans hr)
  exact ⟨⟨Pump.start_faithful .., Pump.start_faithful .., nofun⟩,
    ⟨handshake, data, hsome, hencode, hjoining, rfl⟩, ⟨rfl, hbackend.symm⟩, rfl, ⟨rfl, rfl⟩,
    .inl ⟨hpc', rfl⟩⟩

/-- The client is forwarded, and one of the two directions goes on, or they are left. -/
theorem Forwards.relayed {b : RelayAction UInt8} (h : c.Forwards heard) (hpc : c.pc = .relaying)
    (hr : c.relay = some r) (hr' : c'.relay = some r') (hstep : r.step BUFFER_SIZE b = some r')
    (hhandshake : c'.handshake = heard'.handshake)
    (hprologue : ∀ data, heard.Prologue data → heard'.Prologue data)
    (hsources : r'.up.source = heard'.client ∧ r'.down.source = heard'.backend)
    (hpc' : c'.pc = .relaying ∧ r'.left = r.left ∨ c'.pc = .gathering ∧ r'.left = true) :
    c'.Forwards heard' := by
  have hold := h.relays r hr
  refine ⟨hhandshake, fun hnone => absurd (hnone.symm.trans hr') nofun, fun r'' hr'' => ?_,
    fun _ => ⟨r', hr'⟩⟩
  obtain rfl := Option.some.inj (hr'.symm.trans hr'')
  exact hold.step hpc (hprologue _ hold.prologue) hstep hsources hpc'

theorem Forwards.step (h : c.Forwards heard) (hstep : Forwarded c a c') :
    c'.Forwards (heard.next a) := by
  cases hstep with
  | other hrelay hquiet hpc hpc' hlater =>
    obtain ⟨hhandshake, hlogin, hbackend, hsame⟩ := hquiet heard h.handshake
    refine ⟨hhandshake, ?_, fun r hr => ?_, fun hpc'' => absurd hpc'' hpc'⟩
    · rw [hrelay, hlogin, hbackend]
      exact h.before
    · rw [hrelay] at hr
      have hold := h.relays r hr
      obtain ⟨hrelaying, -⟩ | ⟨hbefore, hleft⟩ := hold.pc
      · exact absurd hrelaying hpc
      · rw [hsame hbefore]
        exact ⟨hold.faithful, hold.prologue, hold.sources, hold.down, hold.eof,
          .inr ⟨hlater hbefore, hleft⟩⟩
  | start hpc hpc' ha hhandshake hencode hjoining hrelay =>
    have hnone : c.relay = none := by
      by_contra hsome
      obtain ⟨r, hr⟩ := Option.ne_none_iff_exists'.1 hsome
      obtain ⟨hrelaying, -⟩ | ⟨hlater, -⟩ := (h.relays r hr).pc
      · obtain hpc | hpc := hpc <;> rw [hpc] at hrelaying <;> cases hrelaying
      · obtain hpc | hpc := hpc <;> rw [hpc] at hlater <;> cases hlater
    exact h.start hnone hpc' ha hhandshake hencode hjoining hrelay
  | up hpc hpc' hhandshake hr hr' hstep =>
    obtain ⟨hclient, hbackend⟩ := (h.relays _ hr).sources
    obtain ⟨hup, hdown⟩ := Relay.step_sources hstep
    refine h.relayed hpc hr hr' hstep (hhandshake.trans h.handshake) (fun _ hdata => hdata)
      ⟨?_, hdown.trans hbackend⟩ (.inl ⟨hpc', Relay.left_step hstep⟩)
    rw [hup, hclient]
    rfl
  | down hpc hpc' hhandshake hr hr' hstep =>
    obtain ⟨hclient, hbackend⟩ := (h.relays _ hr).sources
    obtain ⟨hup, hdown⟩ := Relay.step_sources hstep
    refine h.relayed hpc hr hr' hstep (hhandshake.trans h.handshake) (fun _ hdata => hdata)
      ⟨hup.trans hclient, ?_⟩ (.inl ⟨hpc', Relay.left_step hstep⟩)
    rw [hdown, hbackend]
    rfl
  | left hleave hpc hpc' hhandshake hr hr' hstep =>
    obtain ⟨hclient, hbackend⟩ := (h.relays _ hr).sources
    have hheard : heard.next a = heard := by
      obtain ⟨rfl, -⟩ | ⟨rfl, -⟩ := hleave <;> rfl
    rw [hheard]
    obtain ⟨-, rfl⟩ | ⟨-, rfl⟩ := hleave
    · obtain ⟨hup, hdown⟩ := Relay.step_sources hstep
      exact h.relayed hpc hr hr' hstep (hhandshake.trans h.handshake) (fun _ hdata => hdata)
        ⟨hup.trans hclient, hdown.trans hbackend⟩ (.inr ⟨hpc', Relay.left_step hstep⟩)
    · obtain ⟨hup, hdown⟩ := Relay.step_sources hstep
      exact h.relayed hpc hr hr' hstep (hhandshake.trans h.handshake) (fun _ hdata => hdata)
        ⟨hup.trans hclient, hdown.trans hbackend⟩ (.inr ⟨hpc', Relay.left_step hstep⟩)

theorem undisturbed_step (h : ∀ r, c.relay = some r → r.Undisturbed)
    (ha : a.isDisturbance = false) (hstep : Forwarded c a c') :
    ∀ r, c'.relay = some r → r.Undisturbed := by
  intro r hr
  cases hstep with
  | other hrelay => exact h r (hrelay.symm.trans hr)
  | start hpc hpc' ha hhandshake hencode hjoining hrelay =>
    obtain rfl := Option.some.inj (hrelay.symm.trans hr)
    exact ⟨⟨nofun, nofun⟩, nofun, nofun⟩
  | up hpc hpc' hhandshake hr₀ hr' hstep =>
    obtain rfl := Option.some.inj (hr'.symm.trans hr)
    refine (h _ hr₀).step ?_ hstep
    exact ha
  | down hpc hpc' hhandshake hr₀ hr' hstep =>
    obtain rfl := Option.some.inj (hr'.symm.trans hr)
    refine (h _ hr₀).step ?_ hstep
    exact ha
  | left hleave hpc hpc' hhandshake hr₀ hr' hstep =>
    obtain rfl := Option.some.inj (hr'.symm.trans hr)
    obtain ⟨-, rfl⟩ | ⟨rfl, -⟩ := hleave
    · exact (h _ hr₀).step rfl hstep
    · cases ha

theorem later_step (hlater : c.pc.isLater = true) (hstep : Forwarded c a c') :
    c'.pc.isLater = true ∧ c'.relay = c.relay := by
  cases hstep with
  | other hrelay hquiet hpc hpc' hlater' => exact ⟨hlater' hlater, hrelay⟩
  | start hpc => obtain hpc | hpc := hpc <;> rw [hpc] at hlater <;> cases hlater
  | up hpc | down hpc | left _ hpc =>
    rw [hpc] at hlater
    cases hlater

end

end Client

/-! ### Every run -/

namespace Observed

/-- The step does not disturb the two directions of client `i`. -/
def Undisturbed (i : Nat) (_ : Observed) : NetworkAction → Prop
  | .client j a => j = i → a.isDisturbance = false
  | _ => True

instance (i : Nat) (o : Observed) (a : NetworkAction) : Decidable (Undisturbed i o a) := by
  unfold Undisturbed
  split <;> infer_instance

section
variable {o o' : Observed} {i : Nat} {c c' : Client} {r : Relay UInt8} {a : NetworkAction}

/-- A client is as it was before a step, or new, or has taken a step itself. -/
theorem client_step (h : o.network.Paired) (hstep : o.step a = some o') (i : Nat) :
    o'.heard i = o.heard i ∧ o'.network.clients i = o.network.clients i ∨
      o'.heard i = o.heard i ∧ o.network.clients i = none ∧
        (∃ c', o'.network.clients i = some c' ∧ c'.relay = none ∧ c'.handshake = none ∧
          c'.pc = .identifying) ∨
      ∃ c b c', o.network.clients i = some c ∧ a = .client i b ∧
        o'.network.clients i = some c' ∧ o'.heard i = (o.heard i).next b ∧ Forwarded c b c' := by
  obtain ⟨s, hs, rfl⟩ := Option.map_eq_some_iff.1 hstep
  cases a with
  | connect n ip =>
    cases hs
    show _ ∧ Function.update o.network.clients o.network.nextClient _ i = _ ∨
      _ ∧ o.network.clients i = none ∧
        (∃ c', Function.update o.network.clients o.network.nextClient _ i = some c' ∧ _) ∨ _
    by_cases hi : i = o.network.nextClient
    · subst hi
      rw [Function.update_self]
      exact .inr (.inl ⟨rfl, h.fresh _ (Nat.le_refl _), _, rfl, rfl, rfl, rfl⟩)
    · rw [Function.update_of_ne hi]
      exact .inl ⟨rfl, rfl⟩
  | client j b =>
    obtain ⟨c, hc, hclient⟩ := Option.bind_eq_some_iff.1 hs
    obtain ⟨d, hclients, hforwarded⟩ := clientStep_forwarded (h.holds j c hc) hclient
    dsimp only [listen]
    rw [hclients]
    by_cases hi : i = j
    · subst hi
      rw [Function.update_self, Function.update_self]
      exact .inr (.inr ⟨c, b, d, hc, rfl, rfl, rfl, hforwarded⟩)
    · rw [Function.update_of_ne hi, Function.update_of_ne hi]
      exact .inl ⟨rfl, rfl⟩
  | proxy n a =>
    dsimp only [Network.step] at hs
    split at hs
    · cases hs
    · obtain ⟨p, -, rfl⟩ := Option.map_eq_some_iff.1 hs
      exact .inl ⟨rfl, rfl⟩
  | backend d a =>
    dsimp only [Network.step] at hs
    split at hs
    · cases hs
    · obtain ⟨m, -, rfl⟩ := Option.map_eq_some_iff.1 hs
      exact .inl ⟨rfl, rfl⟩

/-- What holds of the two directions of every client. -/
structure Forwards (o : Observed) : Prop where
  fresh : ∀ i, o.network.clients i = none → o.heard i = {}
  forwards : ∀ i c, o.network.clients i = some c → c.Forwards (o.heard i)

theorem Forwards.step (h : o.Forwards) (hp : o.network.Paired) (hstep : o.step a = some o') :
    o'.Forwards := by
  constructor
  · intro i hnone
    obtain ⟨hheard, hsame⟩ | ⟨-, -, d, hd, -⟩ | ⟨c, b, d, -, -, hd, -⟩ := client_step hp hstep i
    · exact hheard.trans (h.fresh i (hsame.symm.trans hnone))
    · exact absurd (hnone.symm.trans hd) nofun
    · exact absurd (hnone.symm.trans hd) nofun
  · intro i c' hc'
    obtain ⟨hheard, hsame⟩ | ⟨hheard, hnone, d, hd, hrelay, hhandshake, hpc⟩ |
      ⟨c, b, d, hc, -, hd, hheard, hforwarded⟩ := client_step hp hstep i
    · rw [hheard]
      exact h.forwards i c' (hsame.symm.trans hc')
    · obtain rfl := Option.some.inj (hd.symm.trans hc')
      rw [hheard, h.fresh i hnone]
      exact ⟨hhandshake, fun _ => ⟨rfl, rfl⟩, fun r hr => absurd (hrelay.symm.trans hr) nofun,
        fun hrelaying => absurd (hpc.symm.trans hrelaying) nofun⟩
    · obtain rfl := Option.some.inj (hd.symm.trans hc')
      rw [hheard]
      exact (h.forwards i c hc).step hforwarded

/-- A client that is not forwarded any more is sent nothing more, nor is its backend. -/
theorem relay_frozen (hp : ∀ o, Reach step (fun _ _ => True) o' o → o.network.Paired)
    (hrun : Reach step (fun _ _ => True) o' o) (hc' : o'.network.clients i = some c')
    (hlater : c'.pc.isLater = true) :
    ∃ c, o.network.clients i = some c ∧ c.pc.isLater = true ∧ c.relay = c'.relay := by
  refine hrun.invariant_of (P := fun o => ∃ c, o.network.clients i = some c ∧
    c.pc.isLater = true ∧ c.relay = c'.relay) hp ⟨c', hc', hlater, rfl⟩ ?_
  rintro o a o' hp ⟨c, hc, hlater, hrelay⟩ - hstep
  obtain ⟨-, hsame⟩ | ⟨-, hnone, -⟩ | ⟨d, b, d', hd, -, hd', -, hforwarded⟩ :=
    client_step hp hstep i
  · exact ⟨c, hsame.trans hc, hlater, hrelay⟩
  · exact absurd (hnone.symm.trans hc) nofun
  · obtain rfl := Option.some.inj (hd.symm.trans hc)
    obtain ⟨hlater', hrelay'⟩ := Client.later_step hlater hforwarded
    exact ⟨d', hd', hlater', hrelay'.trans hrelay⟩

theorem undisturbed_step
    (h : ∀ c, o.network.clients i = some c → ∀ r, c.relay = some r → r.Undisturbed)
    (hp : o.network.Paired) (ha : Undisturbed i o a) (hstep : o.step a = some o') :
    ∀ c, o'.network.clients i = some c → ∀ r, c.relay = some r → r.Undisturbed := by
  intro c' hc'
  obtain ⟨-, hsame⟩ | ⟨-, -, d, hd, hrelay, -⟩ | ⟨c, b, d, hc, rfl, hd, -, hforwarded⟩ :=
    client_step hp hstep i
  · exact h c' (hsame.symm.trans hc')
  · obtain rfl := Option.some.inj (hd.symm.trans hc')
    exact fun r hr => absurd (hrelay.symm.trans hr) nofun
  · obtain rfl := Option.some.inj (hd.symm.trans hc')
    exact Client.undisturbed_step (h c hc) (ha rfl) hforwarded

end

/-- **Forwarding is transparent**: at any moment of any run what the backend of a client was sent is
its handshake, the Login Start if one was read, what the packet reader still held, and what the
client has sent since, up to some point; what the client was sent is what the backend has sent, up
to some point. Each side is told the end after everything, and after the two directions were left
nothing more is sent. If nothing fails and the task is not cancelled, they are left when all was
sent and both ends were told. -/
theorem relay_transparent (voiceIpBinding : Nat → Bool) (listings : BackendId → ServerListing) :
    (∀ o, Reach step (fun _ _ => True) (init voiceIpBinding listings) o →
      ∀ i c r, o.network.clients i = some c → c.relay = some r →
        ∃ initialData, (o.heard i).Prologue initialData ∧
          r.up.written <+: initialData ++ (o.heard i).client.data ∧
          r.down.written <+: (o.heard i).backend.data ∧
          (r.up.eofWritten = true → (o.heard i).client.ended = true ∧
            r.up.written = initialData ++ (o.heard i).client.data) ∧
          (r.down.eofWritten = true → (o.heard i).backend.ended = true ∧
            r.down.written = (o.heard i).backend.data) ∧
          (c.pc ≠ .relaying → ∀ o', Reach step (fun _ _ => True) o o' →
            ∃ c', o'.network.clients i = some c' ∧ c'.relay = some r)) ∧
    ∀ i o, Reach step (Undisturbed i) (init voiceIpBinding listings) o →
      ∀ c r, o.network.clients i = some c → c.relay = some r → c.pc ≠ .relaying →
        (o.heard i).client.ended = true ∧ r.up.eofWritten = true ∧
        (o.heard i).backend.ended = true ∧ r.down.eofWritten = true ∧
        r.down.written = (o.heard i).backend.data ∧
        ∃ initialData, (o.heard i).Prologue initialData ∧
          ∀ chunks : List Bytes, (∀ chunk ∈ chunks, chunk ≠ []) →
            chunks.flatten = (o.heard i).client.data →
              r.up.written = Protocol.forward initialData chunks := by
  have hpaired : ∀ o, Reach step (fun _ _ => True) (init voiceIpBinding listings) o →
      o.network.Paired := fun o h => h.invariant (P := fun o => o.network.Paired)
    (Network.init_paired voiceIpBinding listings) fun _ _ _ h _ hstep => by
      obtain ⟨s, hs, rfl⟩ := Option.map_eq_some_iff.1 hstep
      exact h.step hs
  have hforwards : ∀ o, Reach step (fun _ _ => True) (init voiceIpBinding listings) o →
      o.Forwards := fun o h => h.invariant_of hpaired ⟨fun _ _ => rfl, fun _ _ h => nomatch h⟩
    fun _ _ _ hp h _ hstep => h.step hp hstep
  have hlater {c : Client} {heard : Heard} {r : Relay UInt8} (h : c.Relays heard r)
      (hpc : c.pc ≠ .relaying) : c.pc.isLater = true ∧ r.left = true :=
    h.pc.resolve_left fun hrelaying => hpc hrelaying.1
  constructor
  · intro o hrun i c r hc hr
    have h := ((hforwards o hrun).forwards i c hc).relays r hr
    have hdown := h.faithful.down.written_prefix
    rw [h.down, List.nil_append] at hdown
    rw [← h.sources.1, ← h.sources.2]
    refine ⟨r.up.initial, h.prologue, h.faithful.up.written_prefix, hdown,
      h.faithful.up.written_eq_of_eof, ?_, ?_⟩
    · intro heof
      obtain ⟨hended, hwritten⟩ := h.faithful.down.written_eq_of_eof heof
      rw [h.down, List.nil_append] at hwritten
      exact ⟨hended, hwritten⟩
    · intro hpc o' hrun'
      obtain ⟨c', hc', -, hrelay⟩ :=
        relay_frozen (fun o'' h => hpaired o'' (hrun.trans h)) hrun' hc (hlater h hpc).1
      exact ⟨c', hc', hrelay.trans hr⟩
  · intro i o hrun c r hc hr hpc
    have hrun' : Reach step (fun _ _ => True) (init voiceIpBinding listings) o :=
      hrun.mono fun _ _ _ => trivial
    have h := ((hforwards o hrun').forwards i c hc).relays r hr
    have hundisturbed : ∀ c, o.network.clients i = some c →
        ∀ r, c.relay = some r → r.Undisturbed :=
      hrun.invariant_of (fun o h => hpaired o (h.mono fun _ _ _ => trivial))
        (fun _ h => nomatch h) fun _ _ _ hp h ha hstep => undisturbed_step h hp ha hstep
    obtain ⟨hup, hdown⟩ := (hundisturbed c hc r hr).done h.faithful (hlater h hpc).2
    obtain ⟨hended, hwritten, heof⟩ := h.faithful.up.written_eq hup
    obtain ⟨hended', hwritten', heof'⟩ := h.faithful.down.written_eq hdown
    rw [h.down, List.nil_append] at hwritten'
    rw [← h.sources.1, ← h.sources.2]
    refine ⟨hended, heof h.eof.1, hended', heof' h.eof.2, hwritten', r.up.initial, h.prologue,
      fun chunks hne hchunks => ?_⟩
    rw [forward_eq _ hne, hchunks, hwritten]
    rfl

/-- A player joins, and both sides send something and then end, the backend first. -/
def exchange : List ClientAction :=
  [.loggedIn (some ⟨"", none, []⟩) 0 ⟨[6], [7], false⟩, .up .begin, .up .drained, .up .read,
    .up .drained, .down (.arrive [1, 2]), .down .begin, .down .read, .down .drained,
    .down .arriveEof, .down .read, .down .closed, .up (.arrive [8]), .up .read, .up .drained,
    .up .arriveEof, .up .read, .up .closed, .returned]

/-- What the client sends after the backend has ended is still forwarded. -/
theorem relay_transparent_exchange :
    ∃ o c r initialData, Reach step (Undisturbed 0)
        (init (fun _ => true) fun _ => { enabled := true }) o ∧
      o.network.clients 0 = some c ∧ c.relay = some r ∧ r.down.written = [1, 2] ∧
      (o.heard 0).login = some ⟨"", none, []⟩ ∧ (o.heard 0).unparsed = [6] ∧
      (o.heard 0).Prologue initialData ∧
      r.up.written = Protocol.forward initialData [[7], [8]] := by
  obtain ⟨o, hrun, ho⟩ := Reach.exists_of_runIn step (Undisturbed 0)
    (init (fun _ => true) fun _ => { enabled := true }) (Network.joining exchange)
    (p := fun o => (o.network.clients 0).any (fun c => c.pc ≠ .relaying && c.relay.any fun r =>
      r.down.written = [1, 2] && (o.heard 0).login = some ⟨"", none, []⟩ &&
        (o.heard 0).unparsed = [6] && (o.heard 0).client.data = [7, 8]) = true)
    (by decide +kernel)
  obtain ⟨c, hc, ho⟩ := (Option.any_eq_true ..).1 ho
  obtain ⟨hpc, ho⟩ := Bool.and_eq_true_iff.1 ho
  obtain ⟨r, hr, ho⟩ := (Option.any_eq_true ..).1 ho
  obtain ⟨ho, hclient⟩ := Bool.and_eq_true_iff.1 ho
  obtain ⟨ho, hunparsed⟩ := Bool.and_eq_true_iff.1 ho
  obtain ⟨hdown, hlogin⟩ := Bool.and_eq_true_iff.1 ho
  obtain ⟨-, hall⟩ := relay_transparent (fun _ => true) fun _ => { enabled := true }
  obtain ⟨-, -, -, -, -, initialData, hprologue, hchunks⟩ :=
    hall 0 o hrun c r hc hr (of_decide_eq_true hpc)
  exact ⟨o, c, r, initialData, hrun, hc, hr, of_decide_eq_true hdown, of_decide_eq_true hlogin,
    of_decide_eq_true hunparsed, hprologue,
    hchunks [[7], [8]] (by decide) (of_decide_eq_true hclient).symm⟩

end Observed

end Silkjam.Proxy
