import Silkjam.Protocol.LegacyPing
import Silkjam.Protocol.Reading

/-!
# The frame of the legacy ping

The remaining length of a legacy ping is compared with what has arrived, and not with the fields
that are read after it. If the two agree, what is decoded is confined to the frame, and an error
stays one when more arrives (`Confined`), so that a ping is read alike however it is fragmented
(`legacyPing_confined_iff`). If they do not agree, a request reaches beyond the frame or ends before it,
or an error depends on how much has arrived; only for a hostname that cannot become valid does it
not matter (`confined_iff`).
-/

namespace Silkjam.Protocol

open Slice Loop

/-- A request is decoded from its frame alone, whose length is that of the fields; and what is
malformed remains so whatever follows. -/
def Confined (data : Bytes) : Prop :=
  (∀ n request, decodeLegacyPing data = .ok (n, request) →
    n = 29 + remainingLength data ∧ remainingLength data = 7 + 2 * hostnameLength data ∧
    ∀ s, decodeLegacyPing (data.take n ++ s) = .ok (n, request)) ∧
  ∀ err, decodeLegacyPing data = .error err → err.isProtocol = true →
    ∀ s, ∃ err', decodeLegacyPing (data ++ s) = .error err' ∧ err'.isProtocol = true

/-- The bytes of the hostname that are there can be completed to a hostname of its length. -/
def HostnamePossible (data : Bytes) : Prop :=
  data.length < 32 ∨ ∃ rest hostname,
    (bytesAt data 32 (2 * hostnameLength data) ++ rest).length = 2 * hostnameLength data ∧
    decodeUtf16be (bytesAt data 32 (2 * hostnameLength data) ++ rest) = .ok hostname

/-- The remaining length is that of the fields, if the header and as many bytes are there, and the
hostname is not invalid. -/
def RemainingAgrees (data : Bytes) : Prop :=
  HasHeader data → 29 + remainingLength data ≤ data.length → HostnamePossible data →
    remainingLength data = 7 + 2 * hostnameLength data

section
variable {data : Bytes} {request : LegacyPingRequest}

theorem bytesAt_append_left {i k : Nat} (h : i + k ≤ data.length) (s : Bytes) :
    bytesAt (data ++ s) i k = bytesAt data i k := by
  rw [bytesAt_eq, bytesAt_eq, List.drop_append_of_le_length (by omega),
    List.take_append_of_le_length (by rw [List.length_drop]; omega)]

theorem HasHeader.remainingLength_append (h : HasHeader data) (s : Bytes) :
    remainingLength (data ++ s) = remainingLength data := by
  unfold remainingLength
  rw [bytesAt_append_left (by have := h.1; omega)]

theorem hostnameLength_append (h : 32 ≤ data.length) (s : Bytes) :
    hostnameLength (data ++ s) = hostnameLength data := by
  unfold hostnameLength
  rw [bytesAt_append_left (by omega)]

theorem LegacyFields.append (h : LegacyFields data request) (s : Bytes) :
    LegacyFields (data ++ s) request := by
  have hcomplete := h.complete
  have hlength := hostnameLength_append (show 32 ≤ data.length by omega) s
  refine ⟨?_, ?_, ?_, ?_⟩
  · rw [hlength, List.length_append]
    omega
  · rw [bytesAt_append_left (by omega)]
    exact h.protocolVersion
  · rw [hlength, bytesAt_append_left (by omega)]
    exact h.hostname
  · rw [hlength, bytesAt_append_left (by omega)]
    exact h.port

theorem LegacyFields.of_append {s : Bytes} (h : LegacyFields (data ++ s) request)
    (hcomplete : 36 + 2 * hostnameLength data ≤ data.length) : LegacyFields data request := by
  have hlength := hostnameLength_append (show 32 ≤ data.length by omega) s
  obtain ⟨-, hversion, hhostname, hport⟩ := h
  rw [hlength] at hhostname hport
  rw [bytesAt_append_left (by omega)] at hversion hhostname hport
  exact ⟨hcomplete, hversion, hhostname, hport⟩

theorem HasHeader.of_append {s : Bytes} (h : HasHeader (data ++ s)) (hlen : 29 ≤ data.length) :
    HasHeader data := by
  refine ⟨hlen, ?_⟩
  have htake := h.2
  rwa [List.take_append_of_le_length (by omega)] at htake

theorem LegacyFields.hostnamePossible (h : LegacyFields data request) : HostnamePossible data := by
  have hcomplete := h.complete
  refine .inr ⟨[], request.hostname, ?_, ?_⟩
  · rw [List.append_nil, length_bytesAt]
    omega
  · rw [List.append_nil]
    exact h.hostname

theorem exists_legacyFields {hostname : String}
    (hcomplete : 36 + 2 * hostnameLength data ≤ data.length)
    (hhostname : decodeUtf16be (bytesAt data 32 (2 * hostnameLength data)) = .ok hostname) :
    ∃ request, LegacyFields data request := by
  obtain ⟨version, hversion⟩ : ∃ version, bytesAt data 29 1 = [version] :=
    List.length_eq_one_iff.1 (by rw [length_bytesAt]; omega)
  obtain ⟨port, hport⟩ :
      ∃ port, unpackI (bytesAt data (32 + 2 * hostnameLength data) 4) = .ok port := by
    unfold unpackI
    rw [if_pos (by rw [length_bytesAt]; omega)]
    exact ⟨_, rfl⟩
  exact ⟨⟨version, hostname, port⟩, hcomplete, hversion, hhostname, hport⟩

theorem ofBytes_bytesAt_lt {i : Nat} (h : i + 2 ≤ data.length) :
    BigEndian.ofBytes (bytesAt data i 2) < 65536 := by
  have htwo : (bytesAt data i 2).length = 2 := by
    rw [length_bytesAt]
    omega
  obtain ⟨v, -, hvalue⟩ := unpackH_of_two htwo
  have hlt := v.toNat_lt
  rwa [hvalue] at hlt

/-- Before the length of the hostname is there, NUL characters make up any hostname. -/
theorem exists_legacyFields_of_short (hlen : data.length < 32) :
    ∃ s request, LegacyFields (data ++ s) request := by
  generalize hdata : data ++ List.replicate (7 + 2 * 65535 + 32) (0 : UInt8) = data'
  have hlength : data'.length = data.length + (7 + 2 * 65535 + 32) := by
    rw [← hdata, List.length_append, List.length_replicate]
  have hlt : hostnameLength data' < 65536 := ofBytes_bytesAt_lt (by omega)
  have hzeros : bytesAt data' 32 (2 * hostnameLength data') =
      List.replicate (2 * hostnameLength data') 0 := by
    rw [bytesAt_eq, ← hdata, List.drop_append, List.drop_eq_nil_of_le (by omega), List.nil_append,
      List.drop_replicate, List.take_replicate, hdata, Nat.min_eq_left (by omega)]
  have hcomplete : 36 + 2 * hostnameLength data' ≤ data'.length := by
    omega
  obtain ⟨request, hrequest⟩ := exists_legacyFields hcomplete
    (hzeros ▸ decodeUtf16be_eq_ok.2 (Utf16.decodeBytes_replicate _))
  exact ⟨_, request, hdata ▸ hrequest⟩

theorem bytesAt_append_rest {i k : Nat} {rest : Bytes} (s : Bytes) (hi : i ≤ data.length)
    (hlength : (bytesAt data i k ++ rest).length = k) :
    bytesAt (data ++ (rest ++ s)) i k = bytesAt data i k ++ rest := by
  rw [List.length_append, length_bytesAt] at hlength
  rw [bytesAt_eq, bytesAt_eq, List.drop_append_of_le_length hi]
  rcases Nat.le_total k (data.length - i) with hle | hle
  · obtain rfl : rest = [] := List.length_eq_zero_iff.1 (by omega)
    rw [List.append_nil, List.take_append_of_le_length (by rw [List.length_drop]; omega)]
  · rw [List.take_of_length_le (l := data.drop i) (by rw [List.length_drop]; omega),
      ← List.append_assoc]
    exact List.take_left' (by rw [List.length_append, List.length_drop]; omega)

theorem HostnamePossible.exists_append (h : HostnamePossible data) :
    ∃ s request, LegacyFields (data ++ s) request := by
  by_cases hshort : data.length < 32
  · exact exists_legacyFields_of_short hshort
  · obtain ⟨rest, hostname, hlength, hhostname⟩ := h.resolve_left hshort
    have hrest := hlength
    rw [List.length_append, length_bytesAt] at hrest
    generalize hs : rest ++ List.replicate 4 (0 : UInt8) = s
    have hfield := hostnameLength_append (not_lt.1 hshort) s
    have hbytes := bytesAt_append_rest (List.replicate 4 0) (not_lt.1 hshort) hlength
    rw [hs] at hbytes
    rw [← hbytes, ← hfield] at hhostname
    refine ⟨s, exists_legacyFields ?_ hhostname⟩
    rw [hfield, ← hs]
    simp only [List.length_append, List.length_replicate]
    omega

theorem HostnamePossible.of_append {s : Bytes} (h : LegacyFields (data ++ s) request) :
    HostnamePossible data := by
  by_cases hshort : data.length < 32
  · exact .inl hshort
  · have hfield := hostnameLength_append (not_lt.1 hshort) s
    have hhostname := h.hostname
    have hcomplete := h.complete
    rw [hfield] at hhostname hcomplete
    rw [List.length_append] at hcomplete
    have hsplit : bytesAt (data ++ s) 32 (2 * hostnameLength data) =
        bytesAt data 32 (2 * hostnameLength data) ++
          s.take (2 * hostnameLength data - (data.length - 32)) := by
      rw [bytesAt_eq, bytesAt_eq, List.drop_append_of_le_length (not_lt.1 hshort),
        List.take_append, List.length_drop]
    refine .inr ⟨s.take (2 * hostnameLength data - (data.length - 32)), request.hostname, ?_, ?_⟩
    · rw [← hsplit, length_bytesAt, List.length_append]
      omega
    · rw [← hsplit]
      exact hhostname

theorem Refuted.decodeLegacyPing_error (h : Refuted data) :
    ∃ err, decodeLegacyPing data = .error err ∧ err.isProtocol = true := by
  obtain ⟨_, hheader, -⟩ | ⟨-, herr⟩ | ⟨⟨-, hnot⟩ | ⟨hheader, -⟩, -⟩ := decodeLegacyPing_cases data
  · exact absurd h hheader.not_refuted
  · exact herr
  · exact absurd h hnot
  · exact absurd h hheader.not_refuted

/-- A request is decoded from any data that begins with its bytes, if these are as many as the
remaining length says. -/
theorem decodeLegacyPing_take {n : Nat} (hagrees : RemainingAgrees data)
    (hdecode : decodeLegacyPing data = .ok (n, request)) :
    n = 29 + remainingLength data ∧ remainingLength data = 7 + 2 * hostnameLength data ∧
      ∀ s, decodeLegacyPing (data.take n ++ s) = .ok (n, request) := by
  obtain ⟨request', h, hlen, hfields, heq⟩ | ⟨-, err, heq, -⟩ | ⟨-, heq⟩ :=
    decodeLegacyPing_cases data
  · rw [hdecode] at heq
    obtain ⟨rfl, rfl⟩ := Prod.mk.inj (Except.ok.inj heq)
    have hcomplete := hfields.complete
    have hagree := hagrees h hlen hfields.hostnamePossible
    refine ⟨by omega, hagree, ?_⟩
    intro s
    generalize hframe : data.take (36 + 2 * hostnameLength data) = frame
    have hdata : frame ++ data.drop (36 + 2 * hostnameLength data) = data := by
      rw [← hframe, List.take_append_drop]
    have hlength : frame.length = 36 + 2 * hostnameLength data := by
      rw [← hframe, List.length_take, Nat.min_eq_left hcomplete]
    have hframeHeader : HasHeader frame := (hdata.symm ▸ h).of_append (by omega)
    have hremaining : remainingLength frame = remainingLength data := by
      rw [← hframeHeader.remainingLength_append (data.drop (36 + 2 * hostnameLength data)), hdata]
    have hhostname : hostnameLength frame = hostnameLength data := by
      rw [← hostnameLength_append (by omega) (data.drop (36 + 2 * hostnameLength data)), hdata]
    have hframeFields : LegacyFields frame request :=
      (hdata.symm ▸ hfields).of_append (by omega)
    rw [(hframeHeader.append s).decodeLegacyPing_eq ?_ (hframeFields.append s),
      hostnameLength_append (by omega), hhostname]
    rw [hframeHeader.remainingLength_append, List.length_append]
    omega
  · rw [hdecode] at heq
    cases heq
  · rw [hdecode] at heq
    cases heq

theorem decodeLegacyPing_error_append {err : Err} (hagrees : RemainingAgrees data)
    (hdecode : decodeLegacyPing data = .error err) (hprotocol : err.isProtocol = true) (s : Bytes) :
    ∃ err', decodeLegacyPing (data ++ s) = .error err' ∧ err'.isProtocol = true := by
  obtain ⟨_, -, -, -, heq⟩ | ⟨hnot, -⟩ | ⟨-, heq⟩ := decodeLegacyPing_cases data
  · rw [hdecode] at heq
    cases heq
  · obtain hrefuted | ⟨h, hlen, hnone⟩ := hnot
    · exact (hrefuted.append s).decodeLegacyPing_error
    · have hlength := h.remainingLength_append s
      obtain ⟨request', -, -, hfields, -⟩ | ⟨-, herr⟩ | ⟨hmore, -⟩ :=
        decodeLegacyPing_cases (data ++ s)
      · have hagree := hagrees h hlen (.of_append hfields)
        exact absurd (hfields.of_append (by omega)) (hnone request')
      · exact herr
      · have := h.1
        rw [List.length_append] at hmore
        omega
  · rw [hdecode] at heq
    cases heq
    cases hprotocol

end

/-- **Decoding is confined to the frame** exactly if the remaining length agrees with the fields. -/
theorem confined_iff (data : Bytes) : Confined data ↔ RemainingAgrees data := by
  constructor
  · rintro ⟨hok, herr⟩ h hlen hpossible
    obtain ⟨request, -, -, -, hdecode⟩ | ⟨hnot, err, hdecode, hprotocol⟩ | ⟨hmore, -⟩ :=
      decodeLegacyPing_cases data
    · exact (hok _ _ hdecode).2.1
    · obtain ⟨s, request, hrequest⟩ := hpossible.exists_append
      obtain ⟨err', hdecode', -⟩ := herr err hdecode hprotocol s
      have hlen' : 29 + remainingLength (data ++ s) ≤ (data ++ s).length := by
        rw [h.remainingLength_append, List.length_append]
        omega
      rw [(h.append s).decodeLegacyPing_eq hlen' hrequest] at hdecode'
      cases hdecode'
    · have := h.1
      omega
  · intro hagrees
    exact ⟨fun _ _ hdecode => decodeLegacyPing_take hagrees hdecode,
      fun _ hdecode hprotocol s => decodeLegacyPing_error_append hagrees hdecode hprotocol s⟩

end Silkjam.Protocol
