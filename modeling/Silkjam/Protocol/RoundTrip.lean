import Silkjam.Lib.BigEndian
import Silkjam.Protocol.Framing
import Silkjam.Protocol.Grammar

/-!
# Round trips

Every packet that is encoded is decoded to the same fields, whatever follows it on the stream
(`RoundTrips`), as long as its length fits a VarInt. For the packets that a decoder accepted this
holds again of what it returned: the encoding of their fields is longer than their payload by one
byte at most, since VarInts are encoded in as few bytes as possible
(`length_encodeVarint_le_of_decodeVarint`) and the fields of a payload do not overlap.
-/

namespace Silkjam.Protocol

open Slice

/-- `struct.unpack(">q", data)[0]` -/
def unpackQ (data : Bytes) : Except Err Int64 :=
  if data.length = 8 then .ok (UInt64.ofNat (BigEndian.ofBytes data)).toInt64
  else .error .structError

/-- `struct.pack(">q", value)` -/
def packQ (value : Int64) : Bytes :=
  BigEndian.toBytes 8 value.toUInt64.toNat

/-- The decoder of a packet of this type that holds a signed number of 64 bits. -/
def decodeLongPacket (what : String) (packetType : Int) (packet : Packet) :
    Except Err (Int × Int64) :=
  malformed what (fun err => err.isProtocol || err = .structError) do
    let (n, packetId, packetData) := packet
    if packetId ≠ packetType then
      throw (.protocol s!"Expected packet id {packetType} but got {packetId}")
    if packetData.length ≠ 8 then
      throw (.protocol s!"Expected 8 bytes of payload but received {packetData.length}")
    let payload ← unpackQ packetData
    return (n, payload)

def decodePingpongPacket : Packet → Except Err (Int × Int64) :=
  decodeLongPacket "ping/pong packet" 1

def decodeKeepalivePacket : Packet → Except Err (Int × Int64) :=
  decodeLongPacket "keepalive packet" 31

def encodePingpongPacket (payload : Int64) : Bytes :=
  encodePacket 1 (packQ payload)

def encodeKeepalivePacket (keepaliveId : Int64) : Bytes :=
  encodePacket 31 (packQ keepaliveId)

/-- The bytes are decoded to the value with their length, whatever follows them. -/
def RoundTrips {α : Type} (decode : Packet → Except Err (Int × α)) (bytes : Bytes) (value : α) :
    Prop :=
  ∀ s, (decodePacket (bytes ++ s) >>= decode) = .ok ((bytes.length : Int), value)

theorem roundTrips_encodePacket {α : Type} {decode : Packet → Except Err (Int × α)} {value : α}
    {packetId : Int} {payload : Bytes} (hid : -2 ^ 31 ≤ packetId ∧ packetId < 2 ^ 31)
    (hlength : (encodeVarint packetId).length + payload.length < 2 ^ 31)
    (hdecode : ∀ n, decode (n, packetId, payload) = .ok (n, value)) :
    RoundTrips decode (encodePacket packetId payload) value := by
  intro s
  have hframe := (encodedFrame packetId payload hid hlength).decodePacket_append s
  unfold Frame.packet at hframe
  rw [payload_encodedFrame] at hframe
  exact bind_eq_ok.2 ⟨_, hframe, hdecode _⟩

/-! ### Numbers of 64 bits -/

theorem unpackQ_packQ (value : Int64) : unpackQ (packQ value) = .ok value := by
  have hlt : value.toUInt64.toNat < 256 ^ 8 := value.toUInt64.toNat_lt
  unfold packQ unpackQ
  rw [if_pos (BigEndian.length_toBytes 8 _), BigEndian.ofBytes_toBytes hlt, UInt64.ofNat_toNat,
    Int64.toInt64_toUInt64]

theorem roundTrips_long (what : String) {packetType : Int} (hlo : 0 ≤ packetType)
    (hhi : packetType < 128) (value : Int64) :
    RoundTrips (decodeLongPacket what packetType) (encodePacket packetType (packQ value))
      value := by
  have hid : -2 ^ 31 ≤ packetType ∧ packetType < 2 ^ 31 := by omega
  have hidLength := length_encodeVarint_bounds hid.1 hid.2
  have hlength : (packQ value).length = 8 := BigEndian.length_toBytes 8 _
  apply roundTrips_encodePacket hid (by omega)
  intro n
  unfold decodeLongPacket
  rw [malformed_eq_ok]
  dsimp only
  rw [if_neg (not_not.2 rfl), if_neg (not_not.2 hlength), unpackQ_packQ]
  rfl

/-! ### Handshake and Login Start -/

theorem length_encodeVarint_zero : (encodeVarint 0).length = 1 :=
  congrArg List.length (varintBytes_of_lt (n := 0) (by decide))

theorem roundTrips_handshake {h : HandshakeRequest}
    (hversion : -2 ^ 31 ≤ h.protocolVersion ∧ h.protocolVersion < 2 ^ 31)
    (hstate : -2 ^ 31 ≤ h.nextState ∧ h.nextState < 2 ^ 31)
    (hsize : (handshakePayload h).length + 1 < 2 ^ 31) :
    RoundTrips decodeHandshakePacket (encodeHandshakePacket h) h := by
  have haddress : (encodeUtf8 h.serverAddress).length < 2 ^ 31 := by
    unfold handshakePayload encodeString at hsize
    simp only [List.length_append] at hsize
    omega
  refine roundTrips_encodePacket zero_signed ?_ fun n =>
    (handshakeGrammar_payload hversion hstate haddress).decode n
  rw [length_encodeVarint_zero, Nat.add_comm]
  exact hsize

theorem roundTrips_loginStart {l : LoginStart} {protocolVersion : Int}
    (hsize : (loginStartPayload l).length + 1 < 2 ^ 31)
    (hplayerId : l.playerId.isSome ↔ 764 ≤ protocolVersion)
    (hextra : protocolVersion < 759 → l.extraData = []) :
    RoundTrips (decodeLoginStartPacket · protocolVersion) (encodeLoginStartPacket l) l := by
  have husername : (encodeUtf8 l.username).length < 2 ^ 31 := by
    unfold loginStartPayload encodeString at hsize
    simp only [List.length_append] at hsize
    omega
  refine roundTrips_encodePacket zero_signed ?_ fun n =>
    decodeLoginStartPacket_payload husername hplayerId hextra n
  rw [length_encodeVarint_zero, Nat.add_comm]
  exact hsize

/-! ### Encoding what was decoded -/

theorem length_encodeVarint_le_of_decodeVarint {data : Bytes} {m : Nat} {v : Int}
    (h : decodeVarint data = .ok (m, v)) : (encodeVarint v).length ≤ m := by
  have hsigned := decodeVarint_signed h
  rcases lt_or_ge v 0 with hneg | hnonneg
  · rw [length_of_neg h hneg]
    exact (length_encodeVarint_bounds hsigned.1 hsigned.2).2
  · obtain ⟨i, num, hloop, rfl, rfl⟩ := decodeVarint_eq_ok h
    have hlt := varintLoop_lt hloop (by simp)
    obtain ⟨k, hk⟩ := Int.eq_ofNat_of_zero_le hnonneg
    have hle : k ≤ num := by
      have hmask : num &&& 0xFFFFFFFF ≤ num := Nat.and_le_left
      unfold toSigned at hk
      dsimp only at hk
      rw [Nat.one_shiftLeft, Nat.one_shiftLeft] at hk
      split at hk <;> omega
    rw [hk, encodeVarint_natCast]
    refine length_varintBytes_le (hle.trans_lt ?_)
    rwa [Nat.pow_mul] at hlt

/-- A string that was decoded is encoded in no more bytes than stand before the cursor after it, or
in the one byte of an empty string. -/
theorem length_encodeString_le_of_decodeString {data : Bytes} {i : Int} {value : String}
    (hdata : data.length < 2 ^ 31) (h : decodeString data = .ok (i, value)) :
    (encodeString value).length ≤ max 1 (position data.length i) := by
  obtain ⟨varintLength, stringLength, hlength, hle, rfl, hutf⟩ := decodeString_eq_ok.1 h
  have hbounds := decodeVarint_bounds hlength
  unfold encodeString
  dsimp only
  rw [encodeUtf8_of_decodeUtf8 hutf, List.length_append, length_slice, position_natCast,
    Nat.min_eq_left hbounds.2.1]
  have hend := position_le data.length (varintLength + stringLength)
  generalize hp : position data.length (varintLength + stringLength) = p at hend ⊢
  rcases Nat.le_total p varintLength with hempty | hlonger
  · rw [Nat.sub_eq_zero_of_le hempty, Nat.cast_zero, length_encodeVarint_zero]
    exact Nat.le_max_left 1 p
  · have hfirst : (encodeVarint (p - varintLength : Nat)).length ≤ varintLength := by
      rcases lt_or_ge stringLength 0 with hneg | hnonneg
      · rw [length_of_neg hlength hneg]
        exact (length_encodeVarint_bounds (by omega) (by omega)).2
      · have hsize : ((p - varintLength : Nat) : Int) = stringLength := by
          rw [← hp]
          unfold position
          rw [if_neg (by omega)]
          omega
        rw [hsize]
        exact length_encodeVarint_le_of_decodeVarint hlength
    omega

theorem length_handshakePayload_le {n n' : Int} {payload : Bytes} {h : HandshakeRequest}
    (hdata : payload.length + 2 < 2 ^ 31)
    (hdecode : decodeHandshakePacket (n, 0, payload) = .ok (n', h)) :
    (handshakePayload h).length + 1 < 2 ^ 31 := by
  obtain ⟨-, versionLength, addressLength, stateLength, hversion, haddress, -, hstate, hend⟩ :=
    decodeHandshakePacket_eq_ok.1 hdecode
  have hversionLength := length_encodeVarint_le_of_decodeVarint hversion
  have hstateLength := length_encodeVarint_le_of_decodeVarint hstate
  have hversionBounds := decodeVarint_bounds hversion
  have hstateBounds := decodeVarint_bounds hstate
  have haddressLength := length_encodeString_le_of_decodeString
    (by rw [List.length_drop]; omega) haddress
  rw [List.length_drop] at haddressLength
  unfold handshakePayload
  simp only [List.length_append, length_packH]
  unfold position at haddressLength
  split at haddressLength <;> omega

theorem length_loginStartPayload_le {n n' protocolVersion : Int} {payload : Bytes} {l : LoginStart}
    (hdata : payload.length + 2 < 2 ^ 31)
    (hdecode : decodeLoginStartPacket (n, 0, payload) protocolVersion = .ok (n', l)) :
    (loginStartPayload l).length + 1 < 2 ^ 31 := by
  obtain ⟨-, i, husername, hrest⟩ := decodeLoginStartPacket_eq_ok.1 hdecode
  have husernameLength := length_encodeString_le_of_decodeString (by omega) husername
  have hi := position_le payload.length i
  unfold loginStartPayload
  simp only [List.length_append]
  obtain ⟨-, -, hid, hextra⟩ | ⟨-, -, hid, hextra⟩ | ⟨-, -, ⟨id, huuid, hid⟩, hextra⟩ := hrest
  · rw [hid, hextra, Option.elim_none, List.length_nil]
    omega
  · rw [hid, hextra, Option.elim_none, List.length_nil, length_sliceFrom]
    omega
  · have hi' := position_le payload.length (i + 16)
    have hsixteen : (slice payload i (i + 16)).length = 16 := length_of_uuidOfBytes huuid
    rw [length_slice] at hsixteen
    rw [hid, hextra, Option.elim_some, id.length_eq, length_sliceFrom]
    omega

/-! ### All packets -/

/-- **Packets round-trip**: those that are encoded, if their length fits a VarInt, and what was
decoded from a packet, which may be as long as a packet can be but for one byte. -/
theorem packets_roundTrip :
    (∀ h : HandshakeRequest, (-2 ^ 31 ≤ h.protocolVersion ∧ h.protocolVersion < 2 ^ 31) →
      (-2 ^ 31 ≤ h.nextState ∧ h.nextState < 2 ^ 31) → (handshakePayload h).length + 1 < 2 ^ 31 →
      RoundTrips decodeHandshakePacket (encodeHandshakePacket h) h) ∧
    (∀ (l : LoginStart) (protocolVersion : Int), (loginStartPayload l).length + 1 < 2 ^ 31 →
      (l.playerId.isSome ↔ 764 ≤ protocolVersion) → (protocolVersion < 759 → l.extraData = []) →
      RoundTrips (decodeLoginStartPacket · protocolVersion) (encodeLoginStartPacket l) l) ∧
    (∀ value, RoundTrips decodePingpongPacket (encodePingpongPacket value) value) ∧
    (∀ value, RoundTrips decodeKeepalivePacket (encodeKeepalivePacket value) value) ∧
    (∀ (n n' packetId : Int) (payload : Bytes) (h : HandshakeRequest),
      payload.length + 2 < 2 ^ 31 →
      decodeHandshakePacket (n, packetId, payload) = .ok (n', h) →
      RoundTrips decodeHandshakePacket (encodeHandshakePacket h) h) ∧
    (∀ (n n' packetId protocolVersion : Int) (payload : Bytes) (l : LoginStart),
      payload.length + 2 < 2 ^ 31 →
      decodeLoginStartPacket (n, packetId, payload) protocolVersion = .ok (n', l) →
      RoundTrips (decodeLoginStartPacket · protocolVersion) (encodeLoginStartPacket l) l) := by
  refine ⟨fun h hversion hstate hsize => roundTrips_handshake hversion hstate hsize,
    fun l protocolVersion hsize hplayerId hextra => roundTrips_loginStart hsize hplayerId hextra,
    roundTrips_long _ (by decide) (by decide), roundTrips_long _ (by decide) (by decide), ?_, ?_⟩
  · intro n n' packetId payload h hdata hdecode
    obtain rfl : packetId = 0 := decodeHandshakePacket_id hdecode
    obtain ⟨-, _, _, _, hversion, -, -, hstate, -⟩ := decodeHandshakePacket_eq_ok.1 hdecode
    exact roundTrips_handshake (decodeVarint_signed hversion) (decodeVarint_signed hstate)
      (length_handshakePayload_le hdata hdecode)
  · intro n n' packetId protocolVersion payload l hdata hdecode
    obtain rfl : packetId = 0 := decodeLoginStartPacket_id hdecode
    obtain ⟨hplayerId, hextra⟩ := fields_of_decodeLoginStartPacket hdecode
    exact roundTrips_loginStart (length_loginStartPayload_le hdata hdecode) hplayerId hextra

/-- The nil UUID is encoded like any other. -/
theorem packets_roundTrip_nil :
    RoundTrips (decodeLoginStartPacket · 764)
      (encodeLoginStartPacket ⟨"A", some ⟨List.replicate 16 0, rfl⟩, [7]⟩)
      ⟨"A", some ⟨List.replicate 16 0, rfl⟩, [7]⟩ :=
  packets_roundTrip.2.2.2.2.2 0 0 0 764 ([1, 65] ++ List.replicate 16 0 ++ [7]) _ (by decide)
    (by decide)

end Silkjam.Protocol
