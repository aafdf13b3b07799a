import Silkjam.Protocol.Packet

/-!
# Packets and their frames

`decode_packet` takes the declared length from the peer as it is. If it covers the packet's id, what
is returned is read from the frame alone, and the number of bytes to advance by is that of the frame
(`RespectsFrame`). If it does not (it is zero, negative, or less than the length of the id), the
packet is still accepted: its id is read from the bytes after the frame, and the reader may advance
by nothing or move back. So the frame is respected in one of the two cases only
(`decodePacket_respectsFrame_iff`).
-/

namespace Silkjam.Protocol

open Slice

/-- The packet is what the first `n` bytes of the data hold, whatever follows them. -/
def RespectsFrame (data : Bytes) (packet : Packet) : Prop :=
  let (n, packetId, payload) := packet
  1 ≤ n ∧ n ≤ data.length ∧
    (∃ lengthBytes idBytes : Bytes, ∃ totalPacketLength : Int,
      slice data 0 n = lengthBytes ++ idBytes ++ payload ∧
      IsVarint lengthBytes totalPacketLength ∧ IsVarint idBytes packetId ∧
      totalPacketLength = idBytes.length + payload.length) ∧
    ∀ s, decodePacket (slice data 0 n ++ s) = .ok packet

/-- If a frame is there with the id after it, its declared length is at least that of the id. -/
def LengthCoversId (data : Bytes) : Prop :=
  ∀ (varintLength : Nat) (totalPacketLength : Int) (packetIdLength : Nat) (packetId : Int),
    decodeVarint data = .ok (varintLength, totalPacketLength) →
    varintLength + totalPacketLength ≤ data.length →
    decodeVarint (data.drop varintLength) = .ok (packetIdLength, packetId) →
    packetIdLength ≤ totalPacketLength

section
variable {data payload : Bytes} {n packetId : Int}

/-- What `decode_packet` returns, in terms of the two VarInts at the beginning. -/
theorem decodePacket_eq_ok : decodePacket data = .ok (n, packetId, payload) ↔
    ∃ (varintLength : Nat) (totalPacketLength : Int) (packetIdLength : Nat),
      decodeVarint data = .ok (varintLength, totalPacketLength) ∧
      varintLength + totalPacketLength ≤ data.length ∧
      decodeVarint (data.drop varintLength) = .ok (packetIdLength, packetId) ∧
      n = varintLength + totalPacketLength ∧
      payload = slice data (varintLength + packetIdLength) (varintLength + totalPacketLength) := by
  unfold decodePacket
  rw [malformed_eq_ok, bind_eq_ok]
  constructor
  · rintro ⟨⟨varintLength, totalPacketLength⟩, hlength, h⟩
    dsimp only at h
    split at h
    · cases h
    · next hle =>
      rw [bind_eq_ok] at h
      obtain ⟨⟨packetIdLength, id⟩, hid, h⟩ := h
      rw [sliceFrom_natCast] at hid
      cases h
      exact ⟨_, _, _, hlength, not_lt.1 hle, hid, rfl, rfl⟩
  · rintro ⟨varintLength, totalPacketLength, packetIdLength, hlength, hle, hid, rfl, rfl⟩
    refine ⟨_, hlength, ?_⟩
    dsimp only
    rw [if_neg (not_lt.2 hle), bind_eq_ok]
    exact ⟨_, (sliceFrom_natCast data varintLength).symm ▸ hid, rfl⟩

/-- With a length that covers the id the decoder has read a frame, which the data begins with. -/
theorem exists_frame {varintLength packetIdLength : Nat} {totalPacketLength : Int}
    (hlength : decodeVarint data = .ok (varintLength, totalPacketLength))
    (hle : varintLength + totalPacketLength ≤ data.length)
    (hid : decodeVarint (data.drop varintLength) = .ok (packetIdLength, packetId))
    (hcovers : packetIdLength ≤ totalPacketLength) :
    ∃ f : Frame, f.varintLength = varintLength ∧ f.packetLength = totalPacketLength ∧
      f.packetIdLength = packetIdLength ∧ f.packetId = packetId ∧
      f.bytes = data.take (varintLength + totalPacketLength.toNat) := by
  have hend :
      (varintLength + totalPacketLength.toNat : Nat) = varintLength + totalPacketLength := by
    omega
  have hlength' := decodeVarint_take hlength (varintLength + totalPacketLength.toNat)
  rw [if_pos (by omega)] at hlength'
  have hid' := decodeVarint_take hid totalPacketLength.toNat
  rw [if_pos (by omega)] at hid'
  refine ⟨⟨data.take (varintLength + totalPacketLength.toNat), varintLength, totalPacketLength,
    packetIdLength, packetId, hlength', ?_, ?_⟩, rfl, rfl, rfl, rfl, rfl⟩
  · rw [List.drop_take, Nat.add_sub_cancel_left]
    exact hid'
  · rw [List.length_take, Nat.min_eq_left (by omega)]
    exact hend.symm

theorem Frame.bytes_eq (f : Frame) : f.bytes = f.bytes.take f.varintLength ++
    (f.bytes.drop f.varintLength).take f.packetIdLength ++ f.payload := by
  unfold Frame.payload
  rw [List.append_assoc, Nat.add_comm, ← List.drop_drop, List.drop_drop, Nat.add_comm,
    ← List.drop_drop, List.take_append_drop, List.take_append_drop]

theorem Frame.respectsFrame (f : Frame) (s : Bytes) :
    RespectsFrame (f.bytes ++ s) f.packet := by
  have hid := f.packetIdLength_bounds
  have hslice : slice (f.bytes ++ s) 0 (f.bytes.length : Int) = f.bytes := by
    have h := slice_append [] f.bytes s
    simpa using h
  refine ⟨by have := f.length_pos; omega, by rw [List.length_append]; omega, ?_, ?_⟩
  · refine ⟨_, _, f.packetLength, hslice.trans f.bytes_eq, isVarint_take f.length_eq,
      isVarint_take f.packetId_eq, ?_⟩
    have hcomplete := f.complete
    unfold Frame.payload
    rw [List.length_take, List.length_drop, List.length_drop, Nat.min_eq_left (by omega)]
    omega
  · intro t
    rw [hslice]
    exact f.decodePacket_append t

end

/-- **The frame is respected exactly if its declared length covers the id.** -/
theorem decodePacket_respectsFrame_iff (data : Bytes) :
    (∀ packet, decodePacket data = .ok packet → RespectsFrame data packet) ↔
      LengthCoversId data := by
  constructor
  · intro h varintLength totalPacketLength packetIdLength packetId hlength hle hid
    obtain ⟨-, -, ⟨lengthBytes, idBytes, total, heq, hlengthBytes, hidBytes, htotal⟩, -⟩ :=
      h _ (decodePacket_eq_ok.2 ⟨_, _, _, hlength, hle, hid, rfl, rfl⟩)
    obtain ⟨rest, hrest⟩ : ∃ rest, data = lengthBytes ++ (idBytes ++ rest) := by
      have hdata := slice_zero_append_drop data (varintLength + totalPacketLength)
      rw [heq, List.append_assoc, List.append_assoc] at hdata
      exact ⟨_, hdata.symm⟩
    rw [hrest, hlengthBytes.decode_append] at hlength
    obtain ⟨rfl, rfl⟩ := Prod.mk.inj (Except.ok.inj hlength)
    rw [hrest, List.drop_left, hidBytes.decode_append] at hid
    obtain ⟨rfl, -⟩ := Prod.mk.inj (Except.ok.inj hid)
    omega
  · intro hcovers packet hpacket
    obtain ⟨n, packetId, payload⟩ := packet
    obtain ⟨varintLength, totalPacketLength, packetIdLength, hlength, hle, hid, rfl, rfl⟩ :=
      decodePacket_eq_ok.1 hpacket
    obtain ⟨f, -, -, -, -, hbytes⟩ := exists_frame hlength hle hid (hcovers _ _ _ _ hlength hle hid)
    have hdata : f.bytes ++ data.drop (varintLength + totalPacketLength.toNat) = data := by
      rw [hbytes, List.take_append_drop]
    have hf := f.decodePacket_append (data.drop (varintLength + totalPacketLength.toNat))
    rw [hdata, hpacket] at hf
    rw [Except.ok.inj hf, ← hdata]
    exact f.respectsFrame _

/-- A length of -5 is that of its own VarInt taken back: the reader does not advance. -/
theorem decodePacket_not_respectsFrame :
    ¬ ∀ data packet, decodePacket data = .ok packet → RespectsFrame data packet := by
  intro h
  have hpacket : decodePacket [0xFB, 0xFF, 0xFF, 0xFF, 0x0F, 0x00] = .ok (0, 0, []) := by decide
  have hpos := (h _ _ hpacket).1
  omega

end Silkjam.Protocol
