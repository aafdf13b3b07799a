import Silkjam.Lib.Slice
import Silkjam.Protocol.Varint

/-!
# Strings and packets

A packet is framed by its length, which counts its id and its payload; a string by its length in
bytes. The lengths are VarInts from the peer, so they may be negative, and the slices of the
decoders are those of `Slice`. A `Frame` is the well-formed case, in which the length covers the id:
the decoder returns its packet once it is all there and asks for more until then
(`Frame.decodePacket_take`).
-/

namespace Silkjam.Protocol

open Slice

/-- `(n, (packet_id, packet_data))` -/
abbrev Packet := Int × Int × Bytes

/-- `str(data, "utf-8")` -/
def decodeUtf8 (data : Bytes) : Except Err String :=
  match String.fromUTF8? ⟨data.toArray⟩ with
  | some s => .ok s
  | none => .error .unicodeDecode

/-- `value.encode()` -/
def encodeUtf8 (value : String) : Bytes :=
  value.toUTF8.data.toList

def decodeString (data : Bytes) : Except Err (Int × String) :=
  malformed "string" (fun err => err.isProtocol || err = .unicodeDecode) do
    let (varintLength, stringLength) ← decodeVarint data
    if (data.length : Int) < varintLength + stringLength then throw .incompleteRead
    let string ← decodeUtf8 (slice data varintLength (varintLength + stringLength))
    return (varintLength + stringLength, string)

def encodeString (value : String) : Bytes :=
  let strData := encodeUtf8 value
  encodeVarint strData.length ++ strData

def decodePacket (data : Bytes) : Except Err Packet :=
  malformed "packet" Err.isProtocol do
    let (varintLength, totalPacketLength) ← decodeVarint data
    if (data.length : Int) < varintLength + totalPacketLength then throw .incompleteRead
    let (packetIdLength, packetId) ← decodeVarint (sliceFrom data varintLength)
    let packetData := slice data (varintLength + packetIdLength) (varintLength + totalPacketLength)
    return (varintLength + totalPacketLength, packetId, packetData)

def encodePacket (packetId : Int) (packetData : Bytes) : Bytes :=
  let packetIdData := encodeVarint packetId
  let n := packetIdData.length + packetData.length
  encodeVarint n ++ packetIdData ++ packetData

/-! ### Strings -/

theorem decodeUtf8_encodeUtf8 (value : String) : decodeUtf8 (encodeUtf8 value) = .ok value := by
  have hbytes : (⟨(encodeUtf8 value).toArray⟩ : ByteArray) = value.toByteArray := by
    unfold encodeUtf8
    rw [Array.toArray_toList]
    rfl
  unfold decodeUtf8
  rw [hbytes]
  unfold String.fromUTF8?
  rw [dif_pos value.isValidUTF8]
  rfl

theorem encodeUtf8_of_decodeUtf8 {data : Bytes} {s : String} (h : decodeUtf8 data = .ok s) :
    encodeUtf8 s = data := by
  unfold decodeUtf8 String.fromUTF8? at h
  split at h
  · next hs =>
    split at hs
    · cases hs
      cases h
      exact List.toList_toArray
    · cases hs
  · cases h

theorem decodeString_eq_ok {data : Bytes} {m : Int} {s : String} :
    decodeString data = .ok (m, s) ↔
      ∃ (varintLength : Nat) (stringLength : Int),
        decodeVarint data = .ok (varintLength, stringLength) ∧
        varintLength + stringLength ≤ data.length ∧ m = varintLength + stringLength ∧
        decodeUtf8 (slice data varintLength (varintLength + stringLength)) = .ok s := by
  unfold decodeString
  rw [malformed_eq_ok, bind_eq_ok]
  constructor
  · rintro ⟨⟨varintLength, stringLength⟩, hlength, h⟩
    dsimp only at h
    split at h
    · cases h
    · next hle =>
      rw [bind_eq_ok] at h
      obtain ⟨s', hutf, h⟩ := h
      cases h
      exact ⟨_, _, hlength, not_lt.1 hle, rfl, hutf⟩
  · rintro ⟨varintLength, stringLength, hlength, hle, rfl, hutf⟩
    refine ⟨_, hlength, ?_⟩
    dsimp only
    rw [if_neg (not_lt.2 hle), bind_eq_ok]
    exact ⟨s, hutf, rfl⟩

theorem length_encodeUtf8_of_decodeString {data : Bytes} {m : Int} {s : String}
    (h : decodeString data = .ok (m, s)) : (encodeUtf8 s).length ≤ data.length := by
  obtain ⟨i, j, -, -, -, hutf⟩ := decodeString_eq_ok.1 h
  rw [encodeUtf8_of_decodeUtf8 hutf]
  exact length_slice_le data i (i + j)

theorem decodeString_append {lengthBytes text : Bytes} {value : String}
    (hlength : IsVarint lengthBytes text.length) (hutf : decodeUtf8 text = .ok value) (s : Bytes) :
    decodeString (lengthBytes ++ text ++ s) = .ok (lengthBytes.length + text.length, value) := by
  rw [decodeString_eq_ok]
  refine ⟨lengthBytes.length, text.length, ?_, ?_, rfl, ?_⟩
  · rw [List.append_assoc]
    exact hlength.decode_append _
  · simp only [List.length_append]
    omega
  · rwa [slice_append]

theorem isVarint_length {value : String} (h : (encodeUtf8 value).length < 2 ^ 31) :
    IsVarint (encodeVarint (encodeUtf8 value).length) (encodeUtf8 value).length :=
  isVarint_encodeVarint (by omega) (by omega)

theorem decodeString_encodeString {value : String} (h : (encodeUtf8 value).length < 2 ^ 31)
    (s : Bytes) :
    decodeString (encodeString value ++ s) = .ok ((encodeString value).length, value) := by
  rw [encodeString, decodeString_append (isVarint_length h) (decodeUtf8_encodeUtf8 value),
    List.length_append]
  rfl

/-! ### Frames -/

/-- A well-formed frame: its declared length is that of what follows, which begins with an id. -/
structure Frame where
  bytes : Bytes
  varintLength : Nat
  packetLength : Int
  packetIdLength : Nat
  packetId : Int
  length_eq : decodeVarint bytes = .ok (varintLength, packetLength)
  packetId_eq : decodeVarint (bytes.drop varintLength) = .ok (packetIdLength, packetId)
  complete : varintLength + packetLength = bytes.length

namespace Frame

variable (f g : Frame)

def payload : Bytes :=
  f.bytes.drop (f.varintLength + f.packetIdLength)

def packet : Packet :=
  (f.bytes.length, f.packetId, f.payload)

theorem varintLength_bounds : 1 ≤ f.varintLength ∧ f.varintLength ≤ f.bytes.length :=
  ⟨(decodeVarint_bounds f.length_eq).1, (decodeVarint_bounds f.length_eq).2.1⟩

theorem packetIdLength_bounds :
    1 ≤ f.packetIdLength ∧ f.varintLength + f.packetIdLength ≤ f.bytes.length := by
  have hid := decodeVarint_bounds f.packetId_eq
  rw [List.length_drop] at hid
  omega

theorem packetLength_pos : 0 < f.packetLength := by
  have hid := f.packetIdLength_bounds
  have := f.complete
  omega

theorem length_pos : 0 < f.bytes.length := by
  have := f.varintLength_bounds
  omega

theorem length_payload_le : f.payload.length ≤ f.bytes.length := by
  unfold payload
  rw [List.length_drop]
  omega

theorem decodePacket_append (s : Bytes) : decodePacket (f.bytes ++ s) = .ok f.packet := by
  have hid := f.packetIdLength_bounds
  have hlength : decodeVarint (f.bytes ++ s) = .ok (f.varintLength, f.packetLength) :=
    decodeVarint_append f.length_eq s
  have hpacketId : decodeVarint (sliceFrom (f.bytes ++ s) f.varintLength) =
      .ok (f.packetIdLength, f.packetId) := by
    rw [sliceFrom_natCast, List.drop_append_of_le_length f.varintLength_bounds.2]
    exact decodeVarint_append f.packetId_eq s
  have hpayload : slice (f.bytes ++ s) (f.varintLength + f.packetIdLength)
      (f.varintLength + f.packetLength) = f.payload := by
    have hslice := slice_append (f.bytes.take (f.varintLength + f.packetIdLength)) f.payload s
    unfold payload at hslice
    rw [List.take_append_drop, List.length_take, List.length_drop, Nat.min_eq_left hid.2] at hslice
    have hend : (f.varintLength + f.packetIdLength : Nat) +
        (f.bytes.length - (f.varintLength + f.packetIdLength) : Nat) = (f.bytes.length : Int) := by
      omega
    rw [hend] at hslice
    rw [f.complete]
    exact hslice
  unfold decodePacket
  rw [hlength]
  dsimp only [bind, Except.bind, pure, Except.pure]
  rw [if_neg (by rw [f.complete, List.length_append]; omega), hpacketId]
  dsimp only
  rw [hpayload, f.complete]
  rfl

/-- **A packet is decoded as soon as its frame is there**; until then the decoder asks for more. -/
theorem decodePacket_take (s : Bytes) (k : Nat) :
    decodePacket ((f.bytes ++ s).take k) =
      if f.bytes.length ≤ k then .ok f.packet else .error .incompleteRead := by
  by_cases hk : f.bytes.length ≤ k
  · rw [if_pos hk, List.take_append, List.take_of_length_le hk]
    exact f.decodePacket_append _
  · rw [if_neg hk, List.take_append_of_le_length (by omega)]
    have hlength := decodeVarint_take f.length_eq k
    unfold decodePacket
    rw [hlength]
    by_cases hm : f.varintLength ≤ k
    · rw [if_pos hm]
      dsimp only [bind, Except.bind]
      rw [if_pos (by rw [f.complete, List.length_take]; omega)]
      rfl
    · rw [if_neg hm]
      rfl

theorem decodeVarint_take_append (s : Bytes) (k : Nat) :
    decodeVarint ((f.bytes ++ s).take k) =
      if f.varintLength ≤ k then .ok (f.varintLength, f.packetLength)
      else .error .incompleteRead :=
  decodeVarint_take (decodeVarint_append f.length_eq s) k

variable {f g} in
/-- A stream begins with at most one frame. -/
theorem bytes_eq_of_append {s t : Bytes} (h : f.bytes ++ s = g.bytes ++ t) :
    f.bytes = g.bytes ∧ s = t := by
  have hf := f.decodePacket_append s
  rw [h, g.decodePacket_append t] at hf
  have hlength : f.bytes.length = g.bytes.length :=
    Int.ofNat_inj.1 (congrArg Prod.fst (Except.ok.inj hf)).symm
  exact List.append_inj h hlength

end Frame

/-- The frame that `encode_packet` makes. -/
def encodedFrame (packetId : Int) (packetData : Bytes) (hid : -2 ^ 31 ≤ packetId ∧ packetId < 2 ^ 31)
    (hlength : (encodeVarint packetId).length + packetData.length < 2 ^ 31) : Frame where
  bytes := encodePacket packetId packetData
  varintLength :=
    (encodeVarint ((encodeVarint packetId).length + packetData.length : Nat)).length
  packetLength := ((encodeVarint packetId).length + packetData.length : Nat)
  packetIdLength := (encodeVarint packetId).length
  packetId := packetId
  length_eq := by
    unfold encodePacket
    dsimp only
    rw [List.append_assoc]
    exact decodeVarint_encodeVarint (by omega) (by omega) _
  packetId_eq := by
    unfold encodePacket
    dsimp only
    rw [List.append_assoc, List.drop_left]
    exact decodeVarint_encodeVarint hid.1 hid.2 _
  complete := by
    unfold encodePacket
    simp only [List.length_append]
    push_cast
    omega

theorem payload_encodedFrame {packetId : Int} {packetData : Bytes}
    (hid : -2 ^ 31 ≤ packetId ∧ packetId < 2 ^ 31)
    (hlength : (encodeVarint packetId).length + packetData.length < 2 ^ 31) :
    (encodedFrame packetId packetData hid hlength).payload = packetData := by
  unfold Frame.payload encodedFrame encodePacket
  dsimp only
  rw [← List.length_append, List.drop_left]

end Silkjam.Protocol
