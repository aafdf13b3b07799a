import Silkjam.Protocol.RoundTrip

/-!
# Malformed packets

The decoders of complete packets turn most of what their parts raise into `MCProtocolError`. What
they let through is `IncompleteReadError`, which a VarInt or a string raises that the end of the
payload cuts off (`CutVarint`, `CutString`), although no more data can arrive; and the `ValueError`
of a UUID that is read behind a name of negative length. The packets of a status request have no
such part; a handshake and a Login Start do (`malformed_caught_iff`).
-/

namespace Silkjam.Protocol

open Slice

def decodeRequestPacket (packet : Packet) : Except Err (Int × Unit) :=
  malformed "request packet" Err.isProtocol do
    let (n, packetId, packetData) := packet
    if packetId ≠ 0 then throw (.protocol s!"Expected packet id 0 but got {packetId}")
    if packetData.length ≠ 0 then throw (.protocol "Extra data")
    return (n, ())

/-- The call returns a value or raises `MCProtocolError`. -/
def ReturnsOrProtocol {α : Type} (result : Except Err α) : Prop :=
  ∀ err, result = .error err → err.isProtocol = true

/-- Every decoder of packets returns a value or raises `MCProtocolError`. -/
def MalformedCaught (packet : Packet) (protocolVersion : Int) : Prop :=
  ReturnsOrProtocol (decodeHandshakePacket packet) ∧
    ReturnsOrProtocol (decodeRequestPacket packet) ∧
    ReturnsOrProtocol (decodePingpongPacket packet) ∧
    ReturnsOrProtocol (decodeKeepalivePacket packet) ∧
    ReturnsOrProtocol (decodeLoginStartPacket packet protocolVersion)

/-! ### What is cut off -/

/-- The data ends before the string does, in its length or in its text. -/
def CutString (data : Bytes) : Prop :=
  CutVarint data ∨
    ∃ (varintLength : Nat) (stringLength : Int),
      decodeVarint data = .ok (varintLength, stringLength) ∧
        (data.length : Int) < varintLength + stringLength

/-- The payload of a handshake ends within its version, its address or its next state. -/
def CutHandshake : Packet → Prop
  | (_, packetId, payload) => packetId = 0 ∧
    (CutVarint payload ∨
      ∃ (versionLength : Nat) (version : Int), decodeVarint payload = .ok (versionLength, version) ∧
        (CutString (payload.drop versionLength) ∨
          ∃ (addressLength : Int) (address : String),
            decodeString (payload.drop versionLength) = .ok (addressLength, address) ∧
            (slice payload (versionLength + addressLength)
              (versionLength + addressLength + 2)).length = 2 ∧
            CutVarint (sliceFrom payload (versionLength + addressLength + 2))))

/-- The payload of a Login Start ends within its name; or a UUID is to be read behind a name of
negative length, where the slice of 16 bytes is a shorter one. -/
def CutLoginStart (protocolVersion : Int) : Packet → Prop
  | (_, packetId, payload) => packetId = 0 ∧
    (CutString payload ∨
      764 ≤ protocolVersion ∧ ∃ (i : Int) (username : String),
        decodeString payload = .ok (i, username) ∧ 16 ≤ payload.length - i ∧
          (slice payload i (i + 16)).length ≠ 16)

/-! ### Exceptions -/

section
variable {α β : Type} {x : Except Err α} {f : α → Except Err β} {err : Err} {data : Bytes}

theorem malformed_eq_error {what : String} {caught : Err → Bool} :
    malformed what caught x = .error err ↔
      ∃ err', x = .error err' ∧ (if caught err' then .malformed what err' else err') = err := by
  cases x <;> simp [malformed]

/-- A decoder that catches all but `IncompleteReadError` lets just that one through. -/
theorem returnsOrProtocol_malformed {what : String} {caught : Err → Bool}
    (hcaught : ∀ err, x = .error err → err = .incompleteRead ∨ caught err = true)
    (hincomplete : caught .incompleteRead = false) :
    ReturnsOrProtocol (malformed what caught x) ↔ x ≠ .error .incompleteRead := by
  constructor
  · rintro h rfl
    have hraised := h .incompleteRead (malformed_eq_error.2 ⟨_, rfl, by rw [hincomplete]; rfl⟩)
    cases hraised
  · intro hne err herr
    obtain ⟨err', hx, rfl⟩ := malformed_eq_error.1 herr
    rcases hcaught err' hx with rfl | hc
    · exact absurd hx hne
    · rw [if_pos hc]
      rfl

/-! ### VarInts and strings -/

theorem decodeUtf8_eq_error (h : decodeUtf8 data = .error err) : err = .unicodeDecode := by
  unfold decodeUtf8 at h
  split at h
  · cases h
  · cases h
    rfl

/-- What `decode_string` raises is an `MCProtocolError`, but for a string that is cut off. -/
theorem decodeString_eq_error (h : decodeString data = .error err) :
    err = .incompleteRead ∧ CutString data ∨ err.isProtocol = true := by
  unfold decodeString at h
  obtain ⟨err', hx, rfl⟩ := malformed_eq_error.1 h
  rcases bind_eq_error.1 hx with hx | ⟨⟨varintLength, stringLength⟩, hlength, hx⟩
  · rcases decodeVarint_eq_error hx with rfl | hprotocol
    · exact .inl ⟨rfl, .inl (decodeVarint_incomplete.1 hx)⟩
    · refine .inr ?_
      rw [if_pos (by simp [hprotocol])]
      rfl
  · dsimp only at hx
    split at hx
    · next hshort =>
      cases hx
      exact .inl ⟨rfl, .inr ⟨_, _, hlength, hshort⟩⟩
    · rcases bind_eq_error.1 hx with hx | ⟨string, -, hx⟩
      · rw [decodeUtf8_eq_error hx]
        exact .inr rfl
      · cases hx

theorem decodeString_incomplete : decodeString data = .error .incompleteRead ↔ CutString data := by
  constructor
  · intro h
    rcases decodeString_eq_error h with ⟨-, hcut⟩ | hprotocol
    · exact hcut
    · cases hprotocol
  · intro hcut
    unfold decodeString
    refine malformed_eq_error.2 ⟨.incompleteRead, bind_eq_error.2 ?_, rfl⟩
    rcases hcut with hcut | ⟨varintLength, stringLength, hlength, hshort⟩
    · exact .inl (decodeVarint_incomplete.2 hcut)
    · refine .inr ⟨_, hlength, ?_⟩
      dsimp only
      rw [if_pos hshort]
      rfl

theorem decodeString_cases (h : decodeString data = .error err) :
    err = .incompleteRead ∨ err.isProtocol = true := by
  rcases decodeString_eq_error h with ⟨rfl, -⟩ | hprotocol
  · exact .inl rfl
  · exact .inr hprotocol

theorem unpackH_eq_error (h : unpackH data = .error err) : err = .structError := by
  unfold unpackH at h
  split at h
  · cases h
  · cases h
    rfl

end

/-! ### The packets -/

section
variable (packet : Packet)

theorem decodeRequestPacket_returnsOrProtocol : ReturnsOrProtocol (decodeRequestPacket packet) := by
  obtain ⟨n, packetId, payload⟩ := packet
  intro err herr
  unfold decodeRequestPacket at herr
  obtain ⟨err', hx, rfl⟩ := malformed_eq_error.1 herr
  dsimp only at hx
  split at hx
  · cases hx
    rfl
  · split at hx
    · cases hx
      rfl
    · cases hx

theorem decodeLongPacket_returnsOrProtocol (what : String) (packetType : Int) :
    ReturnsOrProtocol (decodeLongPacket what packetType packet) := by
  obtain ⟨n, packetId, payload⟩ := packet
  intro err herr
  unfold decodeLongPacket at herr
  obtain ⟨err', hx, rfl⟩ := malformed_eq_error.1 herr
  dsimp only at hx
  split at hx
  · cases hx
    rfl
  · split at hx
    · cases hx
      rfl
    · next height =>
      rcases bind_eq_error.1 hx with hx | ⟨value, -, hx⟩
      · unfold unpackQ at hx
        rw [if_pos (not_not.1 height)] at hx
        cases hx
      · cases hx

/-- **A handshake** that is malformed is a protocol error unless its payload ends within a VarInt or
the address. -/
theorem decodeHandshakePacket_returnsOrProtocol_iff :
    ReturnsOrProtocol (decodeHandshakePacket packet) ↔ ¬ CutHandshake packet := by
  obtain ⟨n, packetId, payload⟩ := packet
  unfold decodeHandshakePacket
  rw [returnsOrProtocol_malformed ?_ rfl]
  · rw [not_iff_not]
    dsimp only
    unfold CutHandshake
    by_cases hid : packetId = 0
    · subst hid
      rw [if_neg (not_not.2 rfl)]
      constructor
      · intro h
        refine ⟨rfl, ?_⟩
        rcases bind_eq_error.1 h with h | ⟨⟨versionLength, version⟩, hversion, h⟩
        · exact .inl (decodeVarint_incomplete.1 h)
        refine .inr ⟨versionLength, version, hversion, ?_⟩
        dsimp only at h
        rw [Int.zero_add, sliceFrom_natCast] at h
        rcases bind_eq_error.1 h with h | ⟨⟨addressLength, address⟩, haddress, h⟩
        · exact .inl (decodeString_incomplete.1 h)
        refine .inr ⟨addressLength, address, haddress, ?_⟩
        rcases bind_eq_error.1 h with h | ⟨port, hport, h⟩
        · cases unpackH_eq_error h
        refine ⟨length_of_unpackH hport, ?_⟩
        rcases bind_eq_error.1 h with h | ⟨⟨stateLength, state⟩, -, h⟩
        · exact decodeVarint_incomplete.1 h
        · split at h <;> cases h
      · rintro ⟨-, hcut | ⟨versionLength, version, hversion, hcut⟩⟩
        · exact bind_eq_error.2 (.inl (decodeVarint_incomplete.2 hcut))
        refine bind_eq_error.2 (.inr ⟨_, hversion, ?_⟩)
        dsimp only
        rw [Int.zero_add, sliceFrom_natCast]
        obtain hcut | ⟨addressLength, address, haddress, hport, hcut⟩ := hcut
        · exact bind_eq_error.2 (.inl (decodeString_incomplete.2 hcut))
        refine bind_eq_error.2 (.inr ⟨_, haddress, ?_⟩)
        obtain ⟨port, hport⟩ := unpackH_of_length hport
        refine bind_eq_error.2 (.inr ⟨port, hport, ?_⟩)
        exact bind_eq_error.2 (.inl (decodeVarint_incomplete.2 hcut))
    · rw [if_pos hid]
      constructor
      · intro h
        cases h
      · intro h
        exact absurd h.1 hid
  · -- every other exception of a part is caught
    intro err h
    dsimp only at h
    split at h
    · cases h
      exact .inr rfl
    · rcases bind_eq_error.1 h with h | ⟨version, -, h⟩
      · exact (decodeVarint_eq_error h).imp_right fun h => by simp [h]
      rcases bind_eq_error.1 h with h | ⟨address, -, h⟩
      · exact (decodeString_cases h).imp_right fun h => by simp [h]
      rcases bind_eq_error.1 h with h | ⟨port, -, h⟩
      · rw [unpackH_eq_error h]
        exact .inr rfl
      rcases bind_eq_error.1 h with h | ⟨state, -, h⟩
      · exact (decodeVarint_eq_error h).imp_right fun h => by simp [h]
      · split at h <;> cases h
        exact .inr rfl

theorem uuidOfBytes_eq_error {data : Bytes} {err : Err} :
    uuidOfBytes data = .error err ↔ data.length ≠ 16 ∧ err = .valueError := by
  unfold uuidOfBytes
  split
  · next hlength => simp [hlength]
  · next hlength => simp [hlength, eq_comm]

theorem decodeLoginStartPacket_escapes (protocolVersion : Int) {err : Err}
    (h : decodeLoginStartPacket packet protocolVersion = .error err)
    (herr : err.isProtocol = false) : CutLoginStart protocolVersion packet := by
  obtain ⟨n, packetId, payload⟩ := packet
  unfold decodeLoginStartPacket at h
  obtain ⟨err', hx, rfl⟩ := malformed_eq_error.1 h
  have herr' : err'.isProtocol = false := by
    by_contra hprotocol
    rw [Bool.not_eq_false] at hprotocol
    rw [if_pos hprotocol] at herr
    cases herr
  dsimp only at hx
  split at hx
  · cases hx
    cases herr'
  · next hid =>
    refine ⟨not_not.1 hid, ?_⟩
    rw [sliceFrom_zero] at hx
    rcases bind_eq_error.1 hx with hx | ⟨⟨i, username⟩, hname, hx⟩
    · rcases decodeString_eq_error hx with ⟨-, hcut⟩ | hprotocol
      · exact .inl hcut
      · rw [hprotocol] at herr'
        cases herr'
    · dsimp only at hx
      rw [Int.zero_add] at hx
      split at hx
      · split at hx <;> cases hx
        cases herr'
      · split at hx
        · cases hx
        · next hversion =>
          split at hx
          · cases hx
            cases herr'
          · next hroom =>
            rcases bind_eq_error.1 hx with hx | ⟨playerId, -, hx⟩
            · exact .inr ⟨not_lt.1 hversion, i, username, hname, not_lt.1 hroom,
                (uuidOfBytes_eq_error.1 hx).1⟩
            · cases hx

theorem CutLoginStart.raises {packet : Packet} {protocolVersion : Int}
    (h : CutLoginStart protocolVersion packet) :
    ∃ err, decodeLoginStartPacket packet protocolVersion = .error err ∧ err.isProtocol = false := by
  obtain ⟨n, packetId, payload⟩ := packet
  obtain ⟨rfl, hcut⟩ := h
  unfold decodeLoginStartPacket
  dsimp only
  rw [if_neg (not_not.2 rfl), sliceFrom_zero]
  rcases hcut with hcut | ⟨hversion, i, username, hname, hroom, hlength⟩
  · exact ⟨.incompleteRead,
      malformed_eq_error.2 ⟨_, bind_eq_error.2 (.inl (decodeString_incomplete.2 hcut)), rfl⟩, rfl⟩
  · refine ⟨.valueError, malformed_eq_error.2 ⟨.valueError, ?_, rfl⟩, rfl⟩
    refine bind_eq_error.2 (.inr ⟨_, hname, ?_⟩)
    dsimp only
    rw [Int.zero_add, if_neg (by omega), if_neg (not_lt.2 hversion), if_neg (not_lt.2 hroom)]
    exact bind_eq_error.2 (.inl (uuidOfBytes_eq_error.2 ⟨hlength, rfl⟩))

/-- **A Login Start** that is malformed is a protocol error unless its payload ends within the
name, or its name is of negative length and the UUID is cut off. -/
theorem decodeLoginStartPacket_returnsOrProtocol_iff (protocolVersion : Int) :
    ReturnsOrProtocol (decodeLoginStartPacket packet protocolVersion) ↔
      ¬ CutLoginStart protocolVersion packet := by
  constructor
  · intro h hcut
    obtain ⟨err, herr, hprotocol⟩ := hcut.raises
    rw [h err herr] at hprotocol
    cases hprotocol
  · intro hcut err herr
    by_contra hprotocol
    exact hcut (decodeLoginStartPacket_escapes packet protocolVersion herr
      (Bool.eq_false_iff.2 hprotocol))

end

/-- **Malformed packets are protocol errors** exactly if no part of a handshake or of a Login Start
is cut off by the end of the payload. -/
theorem malformed_caught_iff (packet : Packet) (protocolVersion : Int) :
    MalformedCaught packet protocolVersion ↔
      ¬ CutHandshake packet ∧ ¬ CutLoginStart protocolVersion packet := by
  unfold MalformedCaught
  rw [decodeHandshakePacket_returnsOrProtocol_iff, decodeLoginStartPacket_returnsOrProtocol_iff]
  constructor
  · rintro ⟨hhandshake, -, -, -, hlogin⟩
    exact ⟨hhandshake, hlogin⟩
  · rintro ⟨hhandshake, hlogin⟩
    exact ⟨hhandshake, decodeRequestPacket_returnsOrProtocol packet,
      decodeLongPacket_returnsOrProtocol packet _ _, decodeLongPacket_returnsOrProtocol packet _ _,
      hlogin⟩

/-- A complete packet with id 0 and no payload is no protocol error of the handshake decoder. -/
theorem not_malformed_caught : ¬ ∀ (data : Bytes) (packet : Packet) (protocolVersion : Int),
    decodePacket data = .ok packet → MalformedCaught packet protocolVersion := by
  intro h
  have hcaught := (h [1, 0] (2, 0, []) 763 rfl).1
  cases hcaught .incompleteRead rfl

end Silkjam.Protocol
