import Silkjam.Protocol.Json
import Silkjam.Proxy.Routing

/-!
# Answering for a backend

While a backend sleeps the proxy answers in its place: a status request with what the backend's
listing and properties say, a ping with the same number, a login with a kick message.
`MCClient.request_status` asks for a status in one go, so that its three packets may arrive in any
pieces, among them behind the end of the attempt to read a legacy ping. Whatever the pieces, in both
directions, the client gets the status of the backend that its address is routed to
(`status_exchanged`).
-/

namespace Silkjam.Proxy

open Protocol

open Json (key)

structure Version where
  name : String
  protocol : Int

/-- What the proxy reads of a backend to answer for it. The integers were read from files, where
Python takes none with more digits, or count players. -/
structure Displayed where
  /-- `mcproc_running()` -/
  running : Bool
  /-- `listing.version` -/
  version : Version
  /-- `listing.sleep_properties.motd` -/
  sleepMotd : Option String
  /-- `listing.sleep_properties.waking_kick_msg` -/
  wakingKickMsg : String
  /-- `properties.motd` -/
  propertiesMotd : String
  /-- `properties.max_players` -/
  maxPlayers : Int
  /-- `_online_players` -/
  playerCount : Int
  icon : Option String
  short : ∀ value ∈ [version.protocol, maxPlayers, playerCount], Json.Short 4300 value

namespace Displayed

def motd (b : Displayed) : String :=
  if b.running then b.propertiesMotd
  else
    match b.sleepMotd with
    | some motd => if motd ≠ "" then motd else "§e" ++ b.propertiesMotd
    | none => "§e" ++ b.propertiesMotd

def onlinePlayers (b : Displayed) : Int :=
  if b.running then b.playerCount else 0

end Displayed

def handshakeResponsePayload (b : Displayed) : Json :=
  .obj ([
    (key "version", .obj [
      (key "name", .str (key b.version.name)), (key "protocol", .int b.version.protocol)]),
    (key "players", .obj [
      (key "max", .int b.maxPlayers), (key "online", .int b.onlinePlayers),
      (key "sample", .arr [])]),
    (key "description", .obj [(key "text", .str (key b.motd))])] ++
    (b.icon.map fun icon => (key "favicon", Json.str (key icon))).toList)

def kickPayload (b : Displayed) : Json :=
  .obj [(key "text", .str (key b.wakingKickMsg))]

/-- `_handle_handshake`: what is written to the client. If the status is not drained, nothing is
written after it; every exception is logged. -/
def handleHandshake (stack : Stack) (b : Displayed) (handshake : Handshake) (atEnd : Err)
    (drained : Bool) (c : Connection) : Bytes :=
  match handshake with
  | .legacyPing _ =>
    encodeLegacyPingResponse b.version.protocol b.version.name b.motd b.maxPlayers
  | .modern handshake =>
    if handshake.nextState = 1 then
      match readPacket atEnd c with
      | (.error _, _) => []
      | (.ok packet, c) =>
        let packetId := packet.2.1
        if packetId = 0 then
          match encodeJsonPacket stack 0 (handshakeResponsePayload b) with
          | .error _ => []
          | .ok status =>
            if drained then
              match readPingpongPacket atEnd c with
              | (.ok pingPayload, _) => status ++ encodePingpongPacket pingPayload
              | (.error _, _) => status
            else status
        else if packetId = 1 then
          match decodePingpongPacket packet with
          | .ok (_, pingPayload) => encodePingpongPacket pingPayload
          | .error _ => []
        -- `ping_payload` is unbound
        else []
    else if handshake.nextState = 2 then
      match encodeJsonPacket stack 0 (kickPayload b) with
      | .error _ => []
      | .ok kick => kick
    else []

def encodeRequestPacket : Bytes :=
  encodePacket 0 []

/-! ### The client -/

/-- `MCClient` -/
structure MCClient where
  hostname : String
  port : UInt16
  version : Version

namespace MCClient

def handshake (client : MCClient) : HandshakeRequest where
  protocolVersion := client.version.protocol
  serverAddress := client.hostname
  serverPort := client.port
  nextState := 1

/-- What `request_status` sends; the number of the ping is random. -/
def statusRequest (client : MCClient) (ping : Int64) : Bytes :=
  encodeHandshakePacket client.handshake ++ encodeRequestPacket ++ encodePingpongPacket ping

/-- What `request_status` returns. -/
def requestStatus (stack : Stack) (atEnd : Err) (c : Connection) : Option Json :=
  match readJsonPacket stack atEnd c with
  | (.ok (_, statusResponse), _) => some statusResponse
  | (.error _, _) => none

end MCClient

/-! ### Payloads -/

theorem writes_key (name : String) : Json.Style.python.Writes (key name) :=
  Json.Style.python.writes_text name.toList

theorem plain_handshakeResponsePayload (b : Displayed) :
    (handshakeResponsePayload b).Plain .python := by
  unfold handshakeResponsePayload
  cases b.icon with
  | none =>
    simp only [Option.map_none, Option.toList_none, List.append_nil, Json.Plain, Json.PlainMembers,
      Json.PlainElements, writes_key, List.map_cons, List.map_nil, and_true, true_and]
    decide
  | some icon =>
    simp only [Option.map_some, Option.toList_some, List.cons_append, List.nil_append, Json.Plain,
      Json.PlainMembers, Json.PlainElements, writes_key, List.map_cons, List.map_nil, and_true,
      true_and]
    decide

theorem fits_handshakeResponsePayload (stack : Stack) (b : Displayed) :
    stack.Fits (handshakeResponsePayload b) := by
  have hroom := stack.room
  have hprotocol : Json.Short 4300 b.version.protocol := b.short _ (by simp)
  have hmax : Json.Short 4300 b.maxPlayers := b.short _ (by simp)
  have honline : Json.Short 4300 b.onlinePlayers := by
    unfold Displayed.onlinePlayers
    split
    · exact b.short _ (by simp)
    · decide
  have hdepth : 0 < stack.nesting ∧ 0 < stack.nesting - 1 ∧ 0 < stack.nesting - 1 - 1 := by
    omega
  unfold Stack.Fits Stack.limits handshakeResponsePayload
  cases b.icon with
  | none =>
    simp only [Option.map_none, Option.toList_none, List.append_nil, Json.Within,
      Json.MembersWithin, Json.ElementsWithin, hprotocol, hmax, honline, hdepth, and_true]
  | some icon =>
    simp only [Option.map_some, Option.toList_some, List.cons_append, List.nil_append, Json.Within,
      Json.MembersWithin, Json.ElementsWithin, hprotocol, hmax, honline, hdepth, and_true]

theorem encodeJsonPacket_displayed (stack : Stack) (b : Displayed) :
    encodeJsonPacket stack 0 (handshakeResponsePayload b) =
      .ok (jsonBytes 0 (handshakeResponsePayload b)) :=
  encodeJsonPacket_eq_ok.2 ⟨fits_handshakeResponsePayload stack b, rfl⟩

/-! ### The attempt to read a legacy ping -/

theorem take_three_encodePacket {packetData : Bytes}
    (hlength : (encodeVarint 0).length + packetData.length < 2 ^ 31) (s : Bytes) :
    (encodePacket 0 packetData ++ s).take 3 ≠ [0xFE, 0x01, 0xFA] := by
  intro htake
  have hzero : encodeVarint 0 = [0] := varintBytes_of_lt (n := 0) (by decide)
  have hencode : encodePacket 0 packetData ++ s =
      encodeVarint ((encodeVarint 0).length + packetData.length : Nat) ++
        (0 :: (packetData ++ s)) := by
    unfold encodePacket
    dsimp only
    rw [hzero, List.append_assoc, List.append_assoc, List.singleton_append]
  have hping : encodePacket 0 packetData ++ s =
      [0xFE, 0x01] ++ (0xFA :: (encodePacket 0 packetData ++ s).drop 3) := by
    have hsplit := List.take_append_drop 3 (encodePacket 0 packetData ++ s)
    rw [htake] at hsplit
    exact hsplit.symm
  have hdecode : decodeVarint ([0xFE, 0x01] : Bytes) = .ok (2, 254) := by
    decide
  have hdecode₁ := decodeVarint_append hdecode (0xFA :: (encodePacket 0 packetData ++ s).drop 3)
  have hdecode₂ := decodeVarint_encodeVarint
    (v := ((encodeVarint 0).length + packetData.length : Nat)) (by omega) (by omega)
    (0 :: (packetData ++ s))
  rw [← hping] at hdecode₁
  rw [← hencode, hdecode₁] at hdecode₂
  have hlen := congrArg Prod.fst (Except.ok.inj hdecode₂)
  obtain ⟨-, hrest⟩ := List.append_inj (hping.symm.trans hencode) hlen
  exact absurd (List.cons.inj hrest).1 (by decide)

/-- The first bytes of a stream that does not begin like a legacy ping are no request, and once
there are three of them they are refuted. -/
theorem decodeLegacyPing_other {u rest : Bytes}
    (hother : (u ++ rest).take 3 ≠ [0xFE, 0x01, 0xFA]) :
    (∃ err, decodeLegacyPing u = .error err ∧ err.isProtocol = true) ∨
      decodeLegacyPing u = .error .incompleteRead ∧ u.length < 3 := by
  have hheader : ¬ HasHeader u := by
    intro h
    rw [List.take_append_of_le_length (by have := h.1; omega)] at hother
    exact hother h.take_three
  obtain ⟨request, h, -⟩ | ⟨-, herr⟩ | ⟨⟨-, hnot⟩ | ⟨h, -⟩, hdecode⟩ := decodeLegacyPing_cases u
  · exact absurd h hheader
  · exact .inl herr
  · refine .inr ⟨hdecode, ?_⟩
    by_contra hlong
    rw [List.take_append_of_le_length (by omega)] at hother
    exact hnot (.inr (.inl ⟨by omega, hother⟩))
  · exact absurd h hheader

/-- Nothing was parsed, and the buffer has its first size. -/
structure Attempting (stream : Bytes) (c : Connection) : Prop extends Untouched stream c where
  size : c.1.n = DEFAULT_BUFFER_SIZE

theorem Attempting.turn {stream : Bytes} {c : Connection} (atEnd : Err)
    (h : Attempting stream c) (hother : stream.take 3 ≠ [0xFE, 0x01, 0xFA])
    (hlong : 3 ≤ stream.length) :
    (∃ err, legacyPingTurn atEnd c = .leave (.error err, c) ∧ err.isProtocol = true) ∨
      ∃ c', legacyPingTurn atEnd c = .again c' ∧ Attempting stream c' := by
  obtain ⟨u, free, hlayout, hu⟩ := h.layout
  have hunparsed := hlayout.unparsed_eq
  unfold legacyPingTurn
  rw [hunparsed]
  rcases decodeLegacyPing_other (hu ▸ hother) with ⟨err, hdecode, herr⟩ | ⟨hdecode, hshort⟩
  · refine .inl ⟨err, ?_, herr⟩
    rw [hdecode]
    split
    · next heq =>
      cases heq
      cases herr
    · next heq =>
      cases heq
      rfl
    · next heq => cases heq
  · have hmax : 3 < MAX_BUFFER_SIZE := by decide
    rw [hdecode]
    rcases Unread.refill atEnd hlayout hu h.chunks (by omega) with
      ⟨c', hagain, -⟩ | ⟨rfl, -⟩
    · have hfew : c.1.unparsed.length < MAX_BUFFER_SIZE := by
        rw [hunparsed]
        omega
      rcases h.toUntouched.refill atEnd hfew with ⟨c'', hagain', hc''⟩ | ⟨c'', hleave, -⟩
      · refine .inr ⟨c'', hagain', hc'', ?_⟩
        rcases refill_size hagain' with hsize | hsize
        · exact hsize.trans h.size
        · have hsave := hlayout.not_save
          have hoccupied := hlayout.occupied_eq
          have hdefault : DEFAULT_BUFFER_SIZE = 4096 := rfl
          rw [hsize, hsave, h.size]
          simp only [Bool.false_eq_true, if_false]
          unfold resized
          rw [hoccupied, if_pos (by rw [hdefault]; omega)]
          rfl
      · cases hleave.symm.trans hagain
    · omega

theorem Attempting.readLegacyPing {stream : Bytes} {c : Connection} (atEnd : Err)
    (h : Attempting stream c) (hother : stream.take 3 ≠ [0xFE, 0x01, 0xFA])
    (hlong : 3 ≤ stream.length) :
    ∃ err c', readLegacyPing atEnd c = (.error err, c') ∧ err.isProtocol = true ∧
      Attempting stream c' := by
  apply (legacyPingLoop atEnd).run_spec (P := Attempting stream)
    (Q := fun out => ∃ err c', out = (.error err, c') ∧ err.isProtocol = true ∧
      Attempting stream c') h
  · intro c₁ c₂ _ hc₁ hturn
    rcases hc₁.turn atEnd hother hlong with ⟨err, hleave, -⟩ | ⟨c₃, hagain, hc₃⟩
    · cases hleave.symm.trans hturn
    · cases hagain.symm.trans hturn
      exact hc₃
  · intro c₁ out _ hc₁ hturn
    rcases hc₁.turn atEnd hother hlong with ⟨err, hleave, herr⟩ | ⟨c₃, hagain, -⟩
    · cases hleave.symm.trans hturn
      exact ⟨err, c₁, rfl, herr, hc₁⟩
    · cases hagain.symm.trans hturn

/-! ### The exchange -/

theorem decode_of_roundTrips {α : Type} {decode : Packet → Except Err (Int × α)} {f : Frame}
    {value : α} (h : RoundTrips decode f.bytes value) :
    decode f.packet = .ok (f.bytes.length, value) := by
  have hdecode := h []
  rw [f.decodePacket_append] at hdecode
  exact hdecode

theorem length_encodeVarint_one : (encodeVarint 1).length = 1 :=
  congrArg List.length (varintBytes_of_lt (n := 1) (by decide))

theorem length_packQ (value : Int64) : (packQ value).length = 8 :=
  BigEndian.length_toBytes 8 _

def requestFrame : Frame :=
  encodedFrame 0 [] zero_signed (by rw [length_encodeVarint_zero]; decide)

def pingpongFrame (payload : Int64) : Frame :=
  encodedFrame 1 (packQ payload) (by decide)
    (by rw [length_packQ, length_encodeVarint_one]; decide)

theorem encodePacket_append_ne_nil (packetId : Int) (packetData s : Bytes) :
    encodePacket packetId packetData ++ s ≠ [] := by
  have hpos := length_varintBytes_pos ((encodeVarint packetId).length + packetData.length)
  intro h
  have hlength := congrArg List.length h
  unfold encodePacket at hlength
  dsimp only at hlength
  rw [encodeVarint_natCast] at hlength
  simp only [List.length_append, List.length_nil] at hlength
  omega

theorem isSmall_requestFrame : requestFrame.IsSmall :=
  Nat.le_trans (length_encodePacket_le zero_signed (by decide)) (by decide)

theorem isSmall_pingpongFrame (payload : Int64) : (pingpongFrame payload).IsSmall :=
  Nat.le_trans (length_encodePacket_le (by decide) (by rw [length_packQ]; decide))
    (by rw [length_packQ]; decide)

theorem decodePingpongPacket_pingpongFrame (payload : Int64) :
    decodePingpongPacket (pingpongFrame payload).packet =
      .ok ((pingpongFrame payload).bytes.length, payload) :=
  decode_of_roundTrips (f := pingpongFrame payload)
    (roundTrips_long "ping/pong packet" (by decide) (by decide) payload)

/-- The version is a number of 32 bits, and the address fits the first buffer. -/
structure MCClient.Reasonable (client : MCClient) : Prop where
  protocol : -2 ^ 31 ≤ client.version.protocol ∧ client.version.protocol < 2 ^ 31
  hostname : (encodeUtf8 client.hostname).length ≤ 3000

theorem MCClient.Reasonable.encodable {client : MCClient} (h : client.Reasonable) :
    client.handshake.Encodable where
  protocolVersion := h.protocol
  nextState := (by decide : -2 ^ 31 ≤ (1 : Int) ∧ (1 : Int) < 2 ^ 31)
  serverAddress := Nat.lt_of_le_of_lt (Nat.add_le_add_right h.hostname 32) (by decide)

theorem MCClient.Reasonable.isSmall {client : MCClient} (h : client.Reasonable) :
    (handshakeFrame h.encodable).IsSmall := by
  have hhostname := h.hostname
  have hstring := length_encodeString_le client.hostname (by omega)
  have hversion := length_encodeVarint_bounds h.protocol.1 h.protocol.2
  have hpayload : (handshakePayload client.handshake).length ≤ 3013 := by
    unfold handshakePayload MCClient.handshake
    simp only [List.length_append, length_packH, length_encodeVarint_one]
    omega
  have hlength : (encodePacket 0 (handshakePayload client.handshake)).length ≤
      (handshakePayload client.handshake).length + 10 :=
    length_encodePacket_le zero_signed (by omega)
  have hsmall : 3023 ≤ DEFAULT_BUFFER_SIZE - MIN_READ_SIZE + 1 := by decide
  exact Nat.le_trans hlength (by omega)

/-- The packets of a stream of small frames are read one after the other. -/
theorem read_next {atEnd : Err} {f : Frame} {s : Bytes} {c : Connection} {calls : Nat}
    (hc : Between (f.bytes ++ s) [] c) (hfits : FitsAll atEnd (calls + 1) c)
    (hsmall : f.IsSmall) :
    ∃ c', readPacket atEnd c = (.ok f.packet, c') ∧ Between s [] c' ∧ FitsAll atEnd calls c' := by
  have hmax : f.bytes.length ≤ MAX_BUFFER_SIZE := Nat.le_trans hsmall (by decide)
  obtain ⟨packet, c', hread⟩ :=
    (readPacket_ok_iff atEnd hc.reading).2 ⟨Nat.zero_le _, hmax, hfits.1⟩
  rcases readPacket_outcome atEnd hc.reading with ⟨c₁, hread₁, hc₁⟩ | ⟨err, c₁, hread₁, -⟩
  · have hrest := hfits.2
    rw [hread₁] at hrest
    exact ⟨c₁, hread₁, hc₁, hrest⟩
  · cases hread₁.symm.trans hread

section
variable {B : Type} {DOMAIN : Text} {listing : ProxyListing} {backends : Dict Text B}
  {client : MCClient} {ping : Int64} {chunks : List Bytes}

/-- The proxy reads the three packets of the client, whatever the pieces. -/
theorem reads_request (atEnd : Err) (h : client.Reasonable)
    (hchunks : ∀ chunk ∈ chunks, chunk ≠ [])
    (hstream : chunks.flatten = client.statusRequest ping) :
    ∃ err c₀ c₁ c₂ c₃, readLegacyPing atEnd (.fresh, chunks) = (.error err, c₀) ∧
      err.isProtocol = true ∧ readPacket atEnd c₀ = (.ok (handshakeFrame h.encodable).packet, c₁) ∧
      readPacket atEnd c₁ = (.ok requestFrame.packet, c₂) ∧
      readPacket atEnd c₂ = (.ok (pingpongFrame ping).packet, c₃) := by
  have hbytes : chunks.flatten = (handshakeFrame h.encodable).bytes ++
      (requestFrame.bytes ++ ((pingpongFrame ping).bytes ++ [])) := by
    rw [hstream, List.append_nil, ← List.append_assoc]
    rfl
  have hother := take_three_encodePacket h.encodable.length_payload
    (requestFrame.bytes ++ ((pingpongFrame ping).bytes ++ []))
  have hlong : 3 ≤ chunks.flatten.length := by
    have hpos := (handshakeFrame h.encodable).length_pos
    have hpos₁ := requestFrame.length_pos
    have hpos₂ := (pingpongFrame ping).length_pos
    rw [hbytes]
    simp only [List.length_append]
    omega
  have hfresh : Attempting chunks.flatten (.fresh, chunks) := ⟨untouched_fresh hchunks, rfl⟩
  obtain ⟨err, c₀, hlegacy, herr, hc₀⟩ := hfresh.readLegacyPing atEnd (hbytes ▸ hother) hlong
  have hbetween := hc₀.between
  rw [hbytes] at hbetween
  have hfits : FitsAll atEnd 3 c₀ := by
    refine small_frames_fit [handshakeFrame h.encodable, requestFrame, pingpongFrame ping] ?_
      (Nat.le_refl 3) ?_ hc₀.size
    · intro f hf
      simp only [List.mem_cons, List.not_mem_nil, or_false] at hf
      rcases hf with rfl | rfl | rfl
      · exact h.isSmall
      · exact isSmall_requestFrame
      · exact isSmall_pingpongFrame ping
    · simpa [bytesOf] using hbetween
  obtain ⟨c₁, hread₁, hc₁, hfits₁⟩ := read_next hbetween hfits h.isSmall
  obtain ⟨c₂, hread₂, hc₂, hfits₂⟩ := read_next hc₁ hfits₁ isSmall_requestFrame
  obtain ⟨c₃, hread₃, -, -⟩ := read_next hc₂ hfits₂ (isSmall_pingpongFrame ping)
  exact ⟨err, c₀, c₁, c₂, c₃, hlegacy, herr, hread₁, hread₂, hread₃⟩

theorem answers_request (atEnd : Err) (h : client.Reasonable)
    (hchunks : ∀ chunk ∈ chunks, chunk ≠ []) (hstream : chunks.flatten = client.statusRequest ping)
    {b : B} (hroute : modernBackend DOMAIN listing backends client.hostname.toList = some b) :
    ∃ c, identifyBackend DOMAIN listing backends atEnd (.fresh, chunks) =
        (some (b, .modern client.handshake), c) ∧
      ∀ (stack : Stack) (displayed : Displayed) (drained : Bool),
        handleHandshake stack displayed (.modern client.handshake) atEnd drained c =
          jsonBytes 0 (handshakeResponsePayload displayed) ++
            if drained then encodePingpongPacket ping else [] := by
  obtain ⟨err, c₀, c₁, c₂, c₃, hlegacy, herr, hread₁, hread₂, hread₃⟩ :=
    reads_request atEnd h hchunks hstream
  have hhandshake : readHandshakePacket atEnd c₀ = (.ok client.handshake, c₁) := by
    unfold readHandshakePacket
    rw [hread₁]
    dsimp only
    rw [decodeHandshakePacket_handshakeFrame]
    rfl
  have hping : readPingpongPacket atEnd c₂ = (.ok ping, c₃) := by
    unfold readPingpongPacket
    rw [hread₃]
    dsimp only
    rw [decodePingpongPacket_pingpongFrame]
    rfl
  refine ⟨c₁, ?_, ?_⟩
  · unfold identifyBackend
    rw [hlegacy]
    dsimp only
    rw [if_pos herr, hhandshake]
    dsimp only
    rw [show client.handshake.serverAddress = client.hostname from rfl, hroute]
    rfl
  · intro stack displayed drained
    have hstate : client.handshake.nextState = 1 := rfl
    have hid : requestFrame.packet.2.1 = 0 := rfl
    unfold handleHandshake
    dsimp only
    rw [if_pos hstate, hread₂]
    dsimp only
    rw [if_pos hid, encodeJsonPacket_displayed, hping]
    cases drained with
    | true => rfl
    | false => exact (List.append_nil _).symm

end

/-- **A status request is answered**: if the client's address is routed to a sleeping backend, then
in whatever pieces its request and the answer arrive, `request_status` returns what the backend
displays, exactly if that fits the largest buffer; and unless the status cannot be drained, the pong
with the number of the ping follows it. -/
theorem status_exchanged {B : Type} (DOMAIN : Text) (listing : ProxyListing)
    (backends : Dict Text B) (client : MCClient) (ping : Int64) (b : B) (atEnd : Err)
    (chunks : List Bytes) (h : client.Reasonable)
    (hroute : modernBackend DOMAIN listing backends client.hostname.toList = some b)
    (hchunks : ∀ chunk ∈ chunks, chunk ≠ [])
    (hstream : chunks.flatten = client.statusRequest ping) :
    ∃ c, identifyBackend DOMAIN listing backends atEnd (.fresh, chunks) =
        (some (b, .modern client.handshake), c) ∧
      ∀ (stack stack' : Stack) (displayed : Displayed) (drained : Bool),
        ∃ status, encodeJsonPacket stack 0 (handshakeResponsePayload displayed) = .ok status ∧
          ∀ (atEnd' : Err) (chunks' : List Bytes), status.length < 2 ^ 31 →
            (∀ chunk ∈ chunks', chunk ≠ []) →
            chunks'.flatten =
              handleHandshake stack displayed (.modern client.handshake) atEnd drained c →
            (MCClient.requestStatus stack' atEnd' (.fresh, chunks') =
                some (handshakeResponsePayload displayed) ↔ status.length ≤ MAX_BUFFER_SIZE) ∧
            ∃ pong, chunks'.flatten = status ++ pong ∧
              (drained = true → RoundTrips decodePingpongPacket pong ping) := by
  obtain ⟨c, hidentify, hhandle⟩ := answers_request atEnd h hchunks hstream hroute
  refine ⟨c, hidentify, ?_⟩
  intro stack stack' displayed drained
  refine ⟨_, encodeJsonPacket_displayed stack displayed, ?_⟩
  intro atEnd' chunks' hsize hchunks' hanswer
  have hflatten := hanswer.trans (hhandle stack displayed drained)
  have hfits := fits_handshakeResponsePayload stack' displayed
  have hencodable : JsonEncodable 0 (handshakeResponsePayload displayed) :=
    ⟨zero_signed, plain_handshakeResponsePayload displayed, hsize⟩
  refine ⟨?_, _, hflatten, ?_⟩
  · unfold MCClient.requestStatus
    rcases readJsonPacket_encoded atEnd' hencodable hfits hchunks' hflatten with
      ⟨⟨c', hread, -⟩, hmax⟩ | ⟨⟨err, c', hread⟩, hmax⟩
    · rw [hread]
      exact iff_of_true rfl hmax
    · rw [hread]
      exact iff_of_false (by simp) (Nat.not_le_of_lt hmax)
  · rintro rfl
    exact roundTrips_long "ping/pong packet" (by decide) (by decide) ping

def sleepingDisplay : Displayed where
  running := false
  version := ⟨"1.21", 767⟩
  sleepMotd := none
  wakingKickMsg := ""
  propertiesMotd := "A"
  maxPlayers := 20
  playerCount := 3
  icon := none
  short := by decide

def domainClient : MCClient where
  hostname := "mc"
  port := 25565
  version := ⟨"0.0.0", 127⟩

def domainListing : ProxyListing where
  port := ⟨25570, by decide⟩
  enabled := true
  subdomains := ⟨[([], ['s'])], by decide⟩

def domainBackends : Dict Text Nat where
  items := [(['s'], 0)]
  nodup := by decide

/-- A client that asks for `mc` in one piece, and is answered in one piece, gets the status of the
backend of the domain itself. -/
theorem status_exchanged_domain : ∃ c, identifyBackend ['m', 'c'] domainListing domainBackends
        .timeout (.fresh, [domainClient.statusRequest 7]) =
          (some (0, .modern domainClient.handshake), c) ∧
      MCClient.requestStatus shallowStack .connectionReset (.fresh, [handleHandshake shallowStack
        sleepingDisplay (.modern domainClient.handshake) .timeout true c]) =
          some (handshakeResponsePayload sleepingDisplay) := by
  have hreasonable : domainClient.Reasonable := ⟨by decide, by decide⟩
  have hchunks : ∀ chunk ∈ [domainClient.statusRequest 7], chunk ≠ [] := by
    intro chunk hchunk
    rw [List.mem_singleton.1 hchunk]
    unfold MCClient.statusRequest
    rw [List.append_assoc]
    exact encodePacket_append_ne_nil _ _ _
  have hstream : [domainClient.statusRequest 7].flatten = domainClient.statusRequest 7 := by
    simp
  obtain ⟨c, hidentify, hexchange⟩ := status_exchanged ['m', 'c'] domainListing
    domainBackends domainClient 7 0 .timeout _ hreasonable (by decide) hchunks hstream
  obtain ⟨c', hidentify', hanswer⟩ := @answers_request Nat ['m', 'c'] domainListing domainBackends
    domainClient 7 _ .timeout hreasonable hchunks hstream 0 (by decide)
  obtain rfl : c' = c := congrArg Prod.snd (hidentify'.symm.trans hidentify)
  have hsize : (jsonBytes 0 (handshakeResponsePayload sleepingDisplay)).length ≤ 200 := by
    unfold jsonBytes
    generalize htext : String.ofList (handshakeResponsePayload sleepingDisplay).dumps = text
    have hshort : (encodeUtf8 text).length ≤ 150 := by
      rw [← htext]
      decide +kernel
    have hstring := length_encodeString_le text (by omega)
    have hlength : (encodePacket 0 (encodeString text)).length ≤ (encodeString text).length + 10 :=
      length_encodePacket_le zero_signed (by omega)
    omega
  have hmax : 200 ≤ MAX_BUFFER_SIZE := by decide
  obtain ⟨status, hstatus, hreads⟩ := hexchange shallowStack shallowStack sleepingDisplay true
  obtain rfl := Except.ok.inj ((encodeJsonPacket_displayed _ _).symm.trans hstatus)
  refine ⟨c', hidentify, ?_⟩
  refine (hreads .connectionReset [handleHandshake shallowStack sleepingDisplay
    (.modern domainClient.handshake) .timeout true c'] (by omega) ?_ (by simp)).1.2 (by omega)
  intro chunk hchunk
  rw [List.mem_singleton.1 hchunk, hanswer]
  exact encodePacket_append_ne_nil _ _ _

end Silkjam.Proxy
