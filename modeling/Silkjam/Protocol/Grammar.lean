import Silkjam.Protocol.Login

/-!
# The grammar of the handshake

The cursor of `decode_handshake_packet` is advanced by lengths from the payload, and of these the
length of the address may be negative. Whatever follows the grammar is accepted
(`HandshakeGrammar.decode`), and so is a payload in which a negative length takes the cursor back to
where a port and a last VarInt happen to reach the end (`BacktracksToEnd`). Nothing else is
(`parsesExactly_iff`).
-/

namespace Silkjam.Protocol

open Slice

/-- What is accepted is what follows the grammar, with the values of its parts. -/
def ParsesExactly (payload : Bytes) : Prop :=
  ∀ n n' request, decodeHandshakePacket (n, 0, payload) = .ok (n', request) ↔
    n' = n ∧ HandshakeGrammar payload request

/-- The address has a negative length, and one VarInt stands between the end of the payload and
where the cursor is after the port. -/
def BacktracksToEnd (payload : Bytes) : Prop :=
  ∃ (versionLength : Nat) (version : Int) (varintLength : Nat) (stringLength : Int)
    (stateLength : Nat) (state : Int),
    decodeVarint payload = .ok (versionLength, version) ∧
    decodeVarint (payload.drop versionLength) = .ok (varintLength, stringLength) ∧
    stringLength < 0 ∧ 0 ≤ versionLength + (varintLength + stringLength) ∧
    decodeVarint (sliceFrom payload (versionLength + (varintLength + stringLength) + 2)) =
      .ok (stateLength, state) ∧
    versionLength + (varintLength + stringLength) + 2 + stateLength = payload.length

section
variable {payload : Bytes} {versionLength varintLength stateLength : Nat}
  {version stringLength state : Int}

/-- A negative length makes the address empty: if its slice were to end before the end of the
payload, the cursor would stand before the payload, or too far from its end. -/
theorem slice_address_eq_nil
    (hlength : decodeVarint (payload.drop versionLength) = .ok (varintLength, stringLength))
    (hneg : stringLength < 0) (hstate : stateLength ≤ 5)
    (hend : versionLength + (varintLength + stringLength) + 2 + stateLength = payload.length) :
    slice (payload.drop versionLength) varintLength (varintLength + stringLength) = [] := by
  have hfive := length_of_neg hlength hneg
  have hbounds := decodeVarint_bounds hlength
  apply slice_eq_nil
  rw [position_natCast]
  rw [List.length_drop] at hbounds ⊢
  unfold position
  split <;> omega

theorem cursor_nonneg {port : UInt16}
    (hversion : decodeVarint payload = .ok (versionLength, version))
    (hlength : decodeVarint (payload.drop versionLength) = .ok (varintLength, stringLength))
    (hneg : stringLength < 0)
    (hport : unpackH (slice payload (versionLength + (varintLength + stringLength))
      (versionLength + (varintLength + stringLength) + 2)) = .ok port)
    (hstate : 1 ≤ stateLength ∧ stateLength ≤ 5)
    (hend : versionLength + (varintLength + stringLength) + 2 + stateLength = payload.length) :
    0 ≤ versionLength + (varintLength + stringLength) := by
  have hfive := length_of_neg hlength hneg
  have hversionLength := decodeVarint_bounds hversion
  have hbounds := decodeVarint_bounds hlength
  have htwo := length_of_unpackH hport
  rw [List.length_drop] at hbounds
  rw [length_slice] at htwo
  by_contra hbefore
  unfold position at htwo
  split at htwo <;> split at htwo <;> omega

theorem BacktracksToEnd.accepted (h : BacktracksToEnd payload) (n : Int) :
    ∃ request, decodeHandshakePacket (n, 0, payload) = .ok (n, request) := by
  obtain ⟨versionLength, version, varintLength, stringLength, stateLength, state, hversion, hlength,
    hneg, hnonneg, hstate, hend⟩ := h
  have hstateLength := decodeVarint_bounds hstate
  have hbounds := decodeVarint_bounds hlength
  obtain ⟨i, hi⟩ := Int.eq_ofNat_of_zero_le hnonneg
  have hport : (slice payload (versionLength + (varintLength + stringLength))
      (versionLength + (varintLength + stringLength) + 2)).length = 2 := by
    rw [length_slice, hi]
    have htwo := position_natCast_add payload.length i 2
    rw [show ((2 : Nat) : Int) = 2 from rfl] at htwo
    rw [position_natCast, htwo]
    omega
  obtain ⟨port, hport⟩ := unpackH_of_length hport
  refine ⟨⟨version, "", port, state⟩, decodeHandshakePacket_eq_ok.2 ⟨rfl, versionLength,
    varintLength + stringLength, stateLength, hversion, ?_, hport, hstate, hend⟩⟩
  rw [decodeString_eq_ok]
  refine ⟨varintLength, stringLength, hlength, by omega, rfl, ?_⟩
  rw [slice_address_eq_nil hlength hneg hstateLength.2.2 hend]
  exact decodeUtf8_encodeUtf8 ""

theorem BacktracksToEnd.not_grammar (h : BacktracksToEnd payload) (request : HandshakeRequest) :
    ¬ HandshakeGrammar payload request := by
  rintro ⟨versionBytes, lengthBytes, addressBytes, portBytes, stateBytes, rfl, hversionBytes,
    hlengthBytes, -, -, -⟩
  obtain ⟨versionLength, version, varintLength, stringLength, stateLength, state, hversion, hlength,
    hneg, -, -, -⟩ := h
  simp only [List.append_assoc] at hversion hlength
  rw [hversionBytes.decode_append] at hversion
  obtain ⟨rfl, rfl⟩ := Prod.mk.inj (Except.ok.inj hversion)
  rw [List.drop_left, hlengthBytes.decode_append] at hlength
  obtain ⟨-, rfl⟩ := Prod.mk.inj (Except.ok.inj hlength)
  omega

theorem grammar_of_decode {n n' : Int} {request : HandshakeRequest}
    (hback : ¬ BacktracksToEnd payload)
    (hdecode : decodeHandshakePacket (n, 0, payload) = .ok (n', request)) :
    HandshakeGrammar payload request := by
  obtain ⟨-, versionLength, addressLength, stateLength, hversion, haddress, hport, hstate, hend⟩ :=
    decodeHandshakePacket_eq_ok.1 hdecode
  obtain ⟨varintLength, stringLength, hlength, hle, rfl, hutf⟩ := decodeString_eq_ok.1 haddress
  have hstateLength := decodeVarint_bounds hstate
  rcases lt_or_ge stringLength 0 with hneg | hnonneg
  · exact absurd ⟨versionLength, _, varintLength, stringLength, stateLength, _, hversion, hlength,
      hneg, cursor_nonneg hversion hlength hneg hport ⟨hstateLength.1, hstateLength.2.2⟩ hend,
      hstate, hend⟩ hback
  · obtain ⟨k, rfl⟩ := Int.eq_ofNat_of_zero_le hnonneg
    have hlengths := decodeVarint_bounds hlength
    rw [List.length_drop] at hlengths hle
    have hi : (versionLength + (varintLength + k) : Int) =
        (versionLength + (varintLength + k) : Nat) := by
      omega
    rw [hi] at hport hstate
    have htwo := slice_natCast_add payload (versionLength + (varintLength + k)) 2
    rw [show ((2 : Nat) : Int) = 2 from rfl] at htwo
    have hrest := sliceFrom_natCast payload (versionLength + (varintLength + k) + 2)
    rw [show ((versionLength + (varintLength + k) + 2 : Nat) : Int) =
      (versionLength + (varintLength + k) : Nat) + 2 from rfl] at hrest
    rw [htwo] at hport
    rw [hrest] at hstate
    rw [slice_natCast_add] at hutf
    refine ⟨payload.take versionLength, (payload.drop versionLength).take varintLength,
      ((payload.drop versionLength).drop varintLength).take k, _,
      payload.drop (versionLength + (varintLength + k) + 2), ?_, isVarint_take hversion, ?_, hutf,
      hport, ?_⟩
    · have hdrop : payload.drop (versionLength + (varintLength + k)) =
          ((payload.drop versionLength).drop varintLength).drop k := by
        rw [List.drop_drop, List.drop_drop]
      have hlast : payload.drop (versionLength + (varintLength + k) + 2) =
          (payload.drop (versionLength + (varintLength + k))).drop 2 := by
        rw [List.drop_drop]
      rw [hlast, hdrop]
      simp only [List.append_assoc, List.take_append_drop]
    · rw [List.length_take, List.length_drop, List.length_drop, Nat.min_eq_left (by omega)]
      exact isVarint_take hlength
    · unfold IsVarint
      rw [hstate, List.length_drop]
      congr 2
      omega

end

/-- **The grammar is what is accepted exactly if no negative length backtracks to the end.** -/
theorem parsesExactly_iff (payload : Bytes) :
    ParsesExactly payload ↔ ¬ BacktracksToEnd payload := by
  constructor
  · intro hexact hback
    obtain ⟨request, hdecode⟩ := hback.accepted 0
    exact hback.not_grammar request ((hexact 0 0 request).1 hdecode).2
  · intro hback n n' request
    constructor
    · intro hdecode
      exact ⟨(decodeHandshakePacket_eq_ok.1 hdecode).1, grammar_of_decode hback hdecode⟩
    · rintro ⟨rfl, hgrammar⟩
      exact hgrammar.decode n'

/-- A length of -6 takes the cursor back to the version: port and state are read from the VarInt of
the length. -/
theorem not_parsesExactly : ¬ ∀ payload, ParsesExactly payload := by
  intro h
  have hback : BacktracksToEnd [0x00, 0xFA, 0xFF, 0xFF, 0xFF, 0x0F] :=
    ⟨1, 0, 5, -6, 4, 0x1FFFFFF, by decide, by decide, by decide, by decide, by decide, by decide⟩
  obtain ⟨request, hdecode⟩ := hback.accepted 7
  exact hback.not_grammar request ((h _ 7 7 request).1 hdecode).2

end Silkjam.Protocol
