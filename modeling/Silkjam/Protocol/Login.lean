import Silkjam.Protocol.Packet

/-!
# Handshake and Login Start

The two packets with which a client logs in. The payload of a Login Start depends on the version of
the protocol: before 759 it is a name, before 764 bytes follow that are not interpreted, and from
then on a UUID stands before these. What a decoder of either packet returns is encoded to a packet
that decodes to the same (`decodeHandshakePacket_payload`, `decodeLoginStartPacket_payload`).
-/

namespace Silkjam.Protocol

open Slice

structure HandshakeRequest where
  protocolVersion : Int
  serverAddress : String
  serverPort : UInt16
  nextState : Int
  deriving DecidableEq

structure UUID where
  bytes : Bytes
  length_eq : bytes.length = 16
  deriving DecidableEq

structure LoginStart where
  username : String
  playerId : Option UUID
  extraData : Bytes
  deriving DecidableEq

/-- `struct.unpack(">H", data)[0]` -/
def unpackH : Bytes → Except Err UInt16
  | [a, b] => .ok (UInt16.ofNat (256 * a.toNat + b.toNat))
  | _ => .error .structError

/-- `struct.pack(">H", value)` -/
def packH (value : UInt16) : Bytes :=
  [UInt8.ofNat (value.toNat / 256), UInt8.ofNat (value.toNat % 256)]

/-- `uuid.UUID(bytes=data)` -/
def uuidOfBytes (data : Bytes) : Except Err UUID :=
  if h : data.length = 16 then .ok ⟨data, h⟩ else .error .valueError

def decodeHandshakePacket (packet : Packet) : Except Err (Int × HandshakeRequest) :=
  malformed "handshake packet" (fun err => err.isProtocol || err = .structError) do
    let (n, packetId, packetData) := packet
    if packetId ≠ 0 then throw (.protocol s!"Expected packet id 0 but got {packetId}")
    let i : Int := 0
    let (m, protocolVersion) ← decodeVarint packetData
    let i := i + m
    let (m, serverAddress) ← decodeString (sliceFrom packetData i)
    let i := i + m
    let serverPort ← unpackH (slice packetData i (i + 2))
    let i := i + 2
    let (m, nextState) ← decodeVarint (sliceFrom packetData i)
    let i := i + m
    if i ≠ packetData.length then throw (.protocol "Extra data")
    return (n, ⟨protocolVersion, serverAddress, serverPort, nextState⟩)

def encodeHandshakePacket (h : HandshakeRequest) : Bytes :=
  encodePacket 0 (encodeVarint h.protocolVersion ++ encodeString h.serverAddress ++
    packH h.serverPort ++ encodeVarint h.nextState)

def decodeLoginStartPacket (packet : Packet) (protocolVersion : Int) :
    Except Err (Int × LoginStart) :=
  malformed "login start packet" Err.isProtocol do
    let (n, packetId, packetData) := packet
    if packetId ≠ 0 then throw (.protocol s!"Expected packet id 0 but got {packetId}")
    let i : Int := 0
    let (m, username) ← decodeString (sliceFrom packetData i)
    let i := i + m
    if protocolVersion < 759 then
      if i ≠ packetData.length then throw (.protocol "Extra data")
      return (n, ⟨username, none, []⟩)
    if protocolVersion < 764 then return (n, ⟨username, none, sliceFrom packetData i⟩)
    if packetData.length - i < 16 then throw (.protocol "Missing player UUID")
    let playerId ← uuidOfBytes (slice packetData i (i + 16))
    let i := i + 16
    return (n, ⟨username, some playerId, sliceFrom packetData i⟩)

def encodeLoginStartPacket (l : LoginStart) : Bytes :=
  encodePacket 0 (encodeString l.username ++ (l.playerId.elim [] UUID.bytes) ++ l.extraData)

/-! ### Fields -/

theorem unpackH_packH (value : UInt16) : unpackH (packH value) = .ok value := by
  have hlt : value.toNat < 65536 := value.toNat_lt
  unfold packH unpackH
  dsimp only
  rw [toNat_byte (by omega), toNat_byte (by omega), Nat.div_add_mod]
  exact congrArg Except.ok UInt16.ofNat_toNat

theorem length_packH (value : UInt16) : (packH value).length = 2 :=
  rfl

theorem uuidOfBytes_bytes (id : UUID) : uuidOfBytes id.bytes = .ok id := by
  unfold uuidOfBytes
  rw [dif_pos id.length_eq]

theorem length_of_uuidOfBytes {data : Bytes} {id : UUID} (h : uuidOfBytes data = .ok id) :
    data.length = 16 := by
  unfold uuidOfBytes at h
  split at h
  · next hlength => exact hlength
  · cases h

theorem length_encodeString_le (value : String) (h : (encodeUtf8 value).length < 2 ^ 31) :
    (encodeString value).length ≤ (encodeUtf8 value).length + 5 := by
  have hlen := length_encodeVarint_bounds (v := (encodeUtf8 value).length) (by omega) (by omega)
  unfold encodeString
  dsimp only
  rw [List.length_append]
  omega

/-! ### Handshake -/

/-- The handshakes that are encoded and decoded back. -/
structure HandshakeRequest.Encodable (h : HandshakeRequest) : Prop where
  protocolVersion : -2 ^ 31 ≤ h.protocolVersion ∧ h.protocolVersion < 2 ^ 31
  nextState : -2 ^ 31 ≤ h.nextState ∧ h.nextState < 2 ^ 31
  serverAddress : (encodeUtf8 h.serverAddress).length + 32 < 2 ^ 31

/-- The payload of the packet of a handshake. -/
def handshakePayload (h : HandshakeRequest) : Bytes :=
  encodeVarint h.protocolVersion ++ encodeString h.serverAddress ++ packH h.serverPort ++
    encodeVarint h.nextState

/-- What `decode_handshake_packet` returns, in terms of what its cursor reads. -/
theorem decodeHandshakePacket_eq_ok {n n' : Int} {payload : Bytes} {h : HandshakeRequest} :
    decodeHandshakePacket (n, 0, payload) = .ok (n', h) ↔ n' = n ∧
      ∃ (versionLength : Nat) (addressLength : Int) (stateLength : Nat),
        decodeVarint payload = .ok (versionLength, h.protocolVersion) ∧
        decodeString (payload.drop versionLength) = .ok (addressLength, h.serverAddress) ∧
        unpackH (slice payload (versionLength + addressLength)
          (versionLength + addressLength + 2)) = .ok h.serverPort ∧
        decodeVarint (sliceFrom payload (versionLength + addressLength + 2)) =
          .ok (stateLength, h.nextState) ∧
        versionLength + addressLength + 2 + stateLength = payload.length := by
  unfold decodeHandshakePacket
  rw [malformed_eq_ok]
  dsimp only
  rw [if_neg (by decide)]
  constructor
  · intro hdecode
    obtain ⟨⟨versionLength, version⟩, hversion, hdecode⟩ := bind_eq_ok.1 hdecode
    obtain ⟨⟨addressLength, address⟩, haddress, hdecode⟩ := bind_eq_ok.1 hdecode
    obtain ⟨port, hport, hdecode⟩ := bind_eq_ok.1 hdecode
    obtain ⟨⟨stateLength, state⟩, hstate, hdecode⟩ := bind_eq_ok.1 hdecode
    dsimp only at haddress hport hstate hdecode
    rw [Int.zero_add] at haddress hport hstate hdecode
    rw [sliceFrom_natCast] at haddress
    split at hdecode
    · cases hdecode
    · next hend =>
      cases hdecode
      exact ⟨rfl, _, _, _, hversion, haddress, hport, hstate, not_not.1 hend⟩
  · rintro ⟨rfl, versionLength, addressLength, stateLength, hversion, haddress, hport, hstate, hend⟩
    rw [← sliceFrom_natCast] at haddress
    rw [hversion]
    dsimp only [bind, Except.bind]
    rw [Int.zero_add, haddress]
    dsimp only
    rw [hport]
    dsimp only
    rw [hstate]
    dsimp only
    rw [if_neg (not_not.2 hend)]
    rfl

theorem decodeHandshakePacket_id {n n' packetId : Int} {payload : Bytes} {h : HandshakeRequest}
    (hdecode : decodeHandshakePacket (n, packetId, payload) = .ok (n', h)) : packetId = 0 := by
  unfold decodeHandshakePacket at hdecode
  rw [malformed_eq_ok] at hdecode
  dsimp only at hdecode
  split at hdecode
  · cases hdecode
  · next hid => exact not_not.1 hid

/-- The payload is a version, an address with its length in bytes, a port and a state. -/
def HandshakeGrammar (payload : Bytes) (h : HandshakeRequest) : Prop :=
  ∃ versionBytes lengthBytes addressBytes portBytes stateBytes : Bytes,
    payload = versionBytes ++ lengthBytes ++ addressBytes ++ portBytes ++ stateBytes ∧
    IsVarint versionBytes h.protocolVersion ∧ IsVarint lengthBytes addressBytes.length ∧
    decodeUtf8 addressBytes = .ok h.serverAddress ∧ unpackH portBytes = .ok h.serverPort ∧
    IsVarint stateBytes h.nextState

theorem length_of_unpackH {data : Bytes} {port : UInt16} (h : unpackH data = .ok port) :
    data.length = 2 := by
  unfold unpackH at h
  split at h
  · rfl
  · cases h

theorem unpackH_of_length {data : Bytes} (h : data.length = 2) : ∃ port, unpackH data = .ok port := by
  obtain ⟨a, b, rfl⟩ := List.length_eq_two.1 h
  exact ⟨_, rfl⟩

theorem HandshakeGrammar.decode {payload : Bytes} {h : HandshakeRequest}
    (hgrammar : HandshakeGrammar payload h) (n : Int) :
    decodeHandshakePacket (n, 0, payload) = .ok (n, h) := by
  obtain ⟨versionBytes, lengthBytes, addressBytes, portBytes, stateBytes, rfl, hversion, hlength,
    haddress, hport, hstate⟩ := hgrammar
  have htwo := length_of_unpackH hport
  generalize hpayload : versionBytes ++ lengthBytes ++ addressBytes ++ portBytes ++ stateBytes =
    payload
  -- where the cursor stands before the port and after it
  have hbefore : (versionBytes.length + (lengthBytes.length + addressBytes.length : Int)) =
      (versionBytes ++ lengthBytes ++ addressBytes).length := by
    simp only [List.length_append]
    omega
  have hafter : ((versionBytes ++ lengthBytes ++ addressBytes).length + 2 : Int) =
      (versionBytes ++ lengthBytes ++ addressBytes ++ portBytes).length := by
    simp only [List.length_append, htwo]
    omega
  refine decodeHandshakePacket_eq_ok.2 ⟨rfl, versionBytes.length,
    lengthBytes.length + addressBytes.length, stateBytes.length, ?_, ?_, ?_, ?_, ?_⟩
  · rw [← hpayload]
    simp only [List.append_assoc]
    exact hversion.decode_append _
  · rw [← hpayload]
    simp only [List.append_assoc, List.drop_left]
    rw [← List.append_assoc]
    exact decodeString_append hlength haddress _
  · have hslice := slice_append (versionBytes ++ lengthBytes ++ addressBytes) portBytes stateBytes
    rw [hpayload, htwo] at hslice
    rw [hbefore]
    exact (congrArg unpackH hslice).trans hport
  · rw [hbefore, hafter, ← hpayload, sliceFrom_append]
    exact hstate
  · rw [hbefore, hafter, ← hpayload]
    simp only [List.length_append]
    omega

theorem handshakeGrammar_payload {h : HandshakeRequest}
    (hversion : -2 ^ 31 ≤ h.protocolVersion ∧ h.protocolVersion < 2 ^ 31)
    (hstate : -2 ^ 31 ≤ h.nextState ∧ h.nextState < 2 ^ 31)
    (haddress : (encodeUtf8 h.serverAddress).length < 2 ^ 31) :
    HandshakeGrammar (handshakePayload h) h := by
  refine ⟨_, _, _, _, _, ?_, isVarint_encodeVarint hversion.1 hversion.2, isVarint_length haddress,
    decodeUtf8_encodeUtf8 _, unpackH_packH _, isVarint_encodeVarint hstate.1 hstate.2⟩
  unfold handshakePayload encodeString
  dsimp only
  rw [← List.append_assoc]

theorem decodeHandshakePacket_payload {h : HandshakeRequest} (hh : h.Encodable) (n : Int) :
    decodeHandshakePacket (n, 0, handshakePayload h) = .ok (n, h) :=
  (handshakeGrammar_payload hh.protocolVersion hh.nextState
    (Nat.lt_of_add_right_lt hh.serverAddress)).decode n

theorem encodable_of_decodeHandshakePacket {n n' packetId : Int} {packetData : Bytes}
    {h : HandshakeRequest} (hdata : packetData.length + 32 < 2 ^ 31)
    (hdecode : decodeHandshakePacket (n, packetId, packetData) = .ok (n', h)) : h.Encodable := by
  obtain rfl : packetId = 0 := decodeHandshakePacket_id hdecode
  obtain ⟨-, versionLength, addressLength, stateLength, hversion, haddress, -, hstate, -⟩ :=
    decodeHandshakePacket_eq_ok.1 hdecode
  refine ⟨decodeVarint_signed hversion, decodeVarint_signed hstate, ?_⟩
  have hle := length_encodeUtf8_of_decodeString haddress
  rw [List.length_drop] at hle
  omega

/-! ### Login Start -/

/-- What a Login Start of a version of the protocol can hold. -/
structure LoginStart.Encodable (l : LoginStart) (protocolVersion : Int) : Prop where
  username : (encodeUtf8 l.username).length + l.extraData.length + 32 < 2 ^ 31
  playerId : l.playerId.isSome ↔ 764 ≤ protocolVersion
  extraData : protocolVersion < 759 → l.extraData = []

def loginStartPayload (l : LoginStart) : Bytes :=
  encodeString l.username ++ (l.playerId.elim [] UUID.bytes) ++ l.extraData

/-- What `decode_login_start_packet` returns. -/
theorem decodeLoginStartPacket_eq_ok {n n' protocolVersion : Int} {payload : Bytes}
    {l : LoginStart} :
    decodeLoginStartPacket (n, 0, payload) protocolVersion = .ok (n', l) ↔ n' = n ∧
      ∃ i : Int, decodeString payload = .ok (i, l.username) ∧
        (protocolVersion < 759 ∧ i = payload.length ∧ l.playerId = none ∧ l.extraData = [] ∨
          759 ≤ protocolVersion ∧ protocolVersion < 764 ∧ l.playerId = none ∧
            l.extraData = sliceFrom payload i ∨
          764 ≤ protocolVersion ∧ 16 ≤ payload.length - i ∧
            (∃ playerId, uuidOfBytes (slice payload i (i + 16)) = .ok playerId ∧
              l.playerId = some playerId) ∧
            l.extraData = sliceFrom payload (i + 16)) := by
  obtain ⟨username, playerId, extraData⟩ := l
  unfold decodeLoginStartPacket
  rw [malformed_eq_ok]
  dsimp only
  rw [if_neg (by decide), sliceFrom_zero]
  constructor
  · intro hdecode
    obtain ⟨⟨i, name⟩, hname, hdecode⟩ := bind_eq_ok.1 hdecode
    dsimp only at hdecode
    rw [Int.zero_add] at hdecode
    split at hdecode
    · next hold =>
      split at hdecode
      · cases hdecode
      · next hend =>
        cases hdecode
        exact ⟨rfl, i, hname, .inl ⟨hold, not_not.1 hend, rfl, rfl⟩⟩
    · next hold =>
      split at hdecode
      · next hmid =>
        cases hdecode
        exact ⟨rfl, i, hname, .inr (.inl ⟨not_lt.1 hold, hmid, rfl, rfl⟩)⟩
      · next hmid =>
        split at hdecode
        · cases hdecode
        · next hroom =>
          obtain ⟨id, hid, hdecode⟩ := bind_eq_ok.1 hdecode
          cases hdecode
          exact ⟨rfl, i, hname,
            .inr (.inr ⟨not_lt.1 hmid, not_lt.1 hroom, ⟨id, hid, rfl⟩, rfl⟩)⟩
  · rintro ⟨rfl, i, hname, hrest⟩
    rw [hname]
    dsimp only [bind, Except.bind]
    rw [Int.zero_add]
    obtain ⟨hold, hend, rfl, rfl⟩ | ⟨hold, hmid, rfl, rfl⟩ | ⟨hmid, hroom, ⟨id, hid, rfl⟩, rfl⟩ :=
      hrest
    · rw [if_pos hold, if_neg (not_not.2 hend)]
      rfl
    · rw [if_neg (not_lt.2 hold), if_pos hmid]
      rfl
    · rw [if_neg (by omega), if_neg (not_lt.2 hmid), if_neg (not_lt.2 hroom), hid]
      rfl

theorem decodeLoginStartPacket_id {n n' packetId protocolVersion : Int} {payload : Bytes}
    {l : LoginStart}
    (hdecode : decodeLoginStartPacket (n, packetId, payload) protocolVersion = .ok (n', l)) :
    packetId = 0 := by
  unfold decodeLoginStartPacket at hdecode
  rw [malformed_eq_ok] at hdecode
  dsimp only at hdecode
  split at hdecode
  · cases hdecode
  · next hid => exact not_not.1 hid

theorem decodeLoginStartPacket_payload {l : LoginStart} {protocolVersion : Int}
    (husername : (encodeUtf8 l.username).length < 2 ^ 31)
    (hplayerId : l.playerId.isSome ↔ 764 ≤ protocolVersion)
    (hextra : protocolVersion < 759 → l.extraData = []) (n : Int) :
    decodeLoginStartPacket (n, 0, loginStartPayload l) protocolVersion = .ok (n, l) := by
  obtain ⟨username, playerId, extraData⟩ := l
  dsimp only at husername hplayerId hextra
  unfold loginStartPayload
  dsimp only
  rw [List.append_assoc]
  refine decodeLoginStartPacket_eq_ok.2 ⟨rfl, (encodeString username).length,
    decodeString_encodeString husername _, ?_⟩
  cases playerId with
  | none =>
    have hversion : protocolVersion < 764 := by
      have := hplayerId.not
      simp at this
      omega
    rw [Option.elim_none, List.nil_append]
    rcases lt_or_ge protocolVersion 759 with hold | hmid
    · rw [hextra hold, List.append_nil]
      exact .inl ⟨hold, rfl, rfl, rfl⟩
    · exact .inr (.inl ⟨hmid, hversion, rfl, (sliceFrom_append _ _).symm⟩)
  | some id =>
    have hid : slice (encodeString username ++ (id.bytes ++ extraData))
        (encodeString username).length ((encodeString username).length + 16) = id.bytes := by
      have hslice := slice_append (encodeString username) id.bytes extraData
      rwa [id.length_eq, List.append_assoc] at hslice
    have hrest : sliceFrom (encodeString username ++ (id.bytes ++ extraData))
        ((encodeString username).length + 16) = extraData := by
      have hslice := sliceFrom_append (encodeString username ++ id.bytes) extraData
      rwa [List.length_append, id.length_eq, List.append_assoc] at hslice
    rw [Option.elim_some]
    refine .inr (.inr ⟨hplayerId.1 rfl, ?_, ⟨id, ?_, rfl⟩, hrest.symm⟩)
    · simp only [List.length_append, id.length_eq]
      omega
    · rw [hid]
      exact uuidOfBytes_bytes id

theorem fields_of_decodeLoginStartPacket {n n' protocolVersion : Int} {payload : Bytes}
    {l : LoginStart}
    (hdecode : decodeLoginStartPacket (n, 0, payload) protocolVersion = .ok (n', l)) :
    (l.playerId.isSome ↔ 764 ≤ protocolVersion) ∧ (protocolVersion < 759 → l.extraData = []) := by
  obtain ⟨-, i, -, hrest⟩ := decodeLoginStartPacket_eq_ok.1 hdecode
  obtain ⟨hold, -, hid, hextra⟩ | ⟨hold, hmid, hid, -⟩ | ⟨hmid, -, ⟨id, -, hid⟩, -⟩ := hrest
  · rw [hid]
    exact ⟨by simp; omega, fun _ => hextra⟩
  · rw [hid]
    exact ⟨by simp; omega, fun h => absurd h (not_lt.2 hold)⟩
  · rw [hid]
    exact ⟨by simp; omega, fun h => absurd h (by omega)⟩

theorem encodable_of_decodeLoginStartPacket {n n' packetId protocolVersion : Int}
    {packetData : Bytes} {l : LoginStart} (hdata : 2 * packetData.length + 32 < 2 ^ 31)
    (hdecode : decodeLoginStartPacket (n, packetId, packetData) protocolVersion = .ok (n', l)) :
    packetId = 0 ∧ l.Encodable protocolVersion := by
  obtain rfl : packetId = 0 := decodeLoginStartPacket_id hdecode
  obtain ⟨hplayerId, hextra⟩ := fields_of_decodeLoginStartPacket hdecode
  obtain ⟨-, i, husername, hrest⟩ := decodeLoginStartPacket_eq_ok.1 hdecode
  have hle := length_encodeUtf8_of_decodeString husername
  have hextra_le : l.extraData.length ≤ packetData.length := by
    obtain ⟨-, -, -, h⟩ | ⟨-, -, -, h⟩ | ⟨-, -, -, h⟩ := hrest
    · rw [h]
      exact Nat.zero_le _
    · rw [h]
      exact length_sliceFrom_le _ _
    · rw [h]
      exact length_sliceFrom_le _ _
  exact ⟨rfl, by omega, hplayerId, hextra⟩

end Silkjam.Protocol
