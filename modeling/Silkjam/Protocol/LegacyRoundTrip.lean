import Silkjam.Protocol.LegacyPing

/-!
# Round trip of the legacy ping

The length of a text is written as the number of its characters, and read as the number of its code
units. So a ping is decoded back to the same request exactly if all the characters of its hostname
are in the Basic Multilingual Plane, and the length in a response is that of the text exactly if all
characters of the version's name and of the message of the day are (`legacyPing_roundTrip_iff`).
-/

namespace Silkjam.Protocol

open Slice

/-- The ping is decoded back with its length, whatever follows it. -/
def LegacyRoundTrips (request : LegacyPingRequest) : Prop :=
  ∃ bytes, encodeLegacyPing request.protocolVersion request.hostname request.port = .ok bytes ∧
    ∀ s, decodeLegacyPing (bytes ++ s) = .ok (bytes.length, request)

/-- The length in the response is the number of code units of the text after it. -/
def CountsCodeUnits (response : Bytes) : Prop :=
  ∃ (length : UInt16) (text : List UInt16),
    response = [0xFF] ++ packH length ++ Utf16.toBytes text ∧ length.toNat = text.length

/-- The number of code units of a text. -/
def codeUnits (s : String) : Nat :=
  (Utf16.encode s.toList).length

theorem length_encodeBytes (s : String) : (Utf16.encodeBytes s).length = 2 * codeUnits s :=
  Utf16.length_toBytes _

theorem length_le_codeUnits (s : String) : s.length ≤ codeUnits s :=
  Utf16.length_le_length_encode s.toList

theorem codeUnits_eq_iff (s : String) : codeUnits s = s.length ↔ Utf16.IsBmp s.toList :=
  Utf16.length_encode_eq_iff s.toList

/-! ### The ping -/

section
variable {request : LegacyPingRequest}

/-- The bytes of the ping. -/
def legacyPingBytes (request : LegacyPingRequest) : Bytes :=
  legacyHeader ++ packH (UInt16.ofNat (7 + 2 * codeUnits request.hostname)) ++
    [request.protocolVersion] ++ packH (UInt16.ofNat request.hostname.length) ++
    Utf16.encodeBytes request.hostname ++ packI request.port

theorem encodeLegacyPing_eq (hsize : 7 + 2 * codeUnits request.hostname < 65536) :
    encodeLegacyPing request.protocolVersion request.hostname request.port =
      .ok (legacyPingBytes request) := by
  have hlength : request.hostname.length < 65536 := by
    have := length_le_codeUnits request.hostname
    omega
  have hchannel : packLength "MC|PingHost".length = .ok (packH 11) := rfl
  have hremaining : ([request.protocolVersion] ++
      packH (UInt16.ofNat request.hostname.length) ++ Utf16.encodeBytes request.hostname ++
      packI request.port).length = 7 + 2 * codeUnits request.hostname := by
    simp only [List.length_append, length_packH, length_encodeBytes, List.length_singleton]
    unfold packI
    rw [BigEndian.length_toBytes]
    omega
  unfold encodeLegacyPing
  dsimp only
  rw [hchannel]
  dsimp only [bind, Except.bind]
  unfold packLength
  rw [if_pos hlength]
  dsimp only
  rw [hremaining, if_pos hsize]
  rfl

theorem length_legacyPingBytes :
    (legacyPingBytes request).length = 36 + 2 * codeUnits request.hostname := by
  unfold legacyPingBytes packI
  simp only [List.length_append, length_packH, length_encodeBytes, List.length_singleton,
    length_legacyHeader, BigEndian.length_toBytes]
  omega

theorem ofBytes_packH {k : Nat} (h : k < 65536) :
    BigEndian.ofBytes (packH (UInt16.ofNat k)) = k := by
  obtain ⟨v, hv, hvalue⟩ := unpackH_of_two (length_packH (UInt16.ofNat k))
  rw [unpackH_packH] at hv
  rw [← hvalue, ← Except.ok.inj hv]
  exact UInt16.toNat_ofNat_of_lt' h

theorem hasHeader_legacyPingBytes (s : Bytes) : HasHeader (legacyPingBytes request ++ s) := by
  refine ⟨by rw [List.length_append, length_legacyPingBytes]; omega, ?_⟩
  unfold legacyPingBytes
  simp only [List.append_assoc]
  exact List.take_left' length_legacyHeader

theorem remainingLength_legacyPingBytes (hsize : 7 + 2 * codeUnits request.hostname < 65536)
    (s : Bytes) :
    remainingLength (legacyPingBytes request ++ s) = 7 + 2 * codeUnits request.hostname := by
  have hfield := bytesAt_append (a := legacyHeader)
    (b := packH (UInt16.ofNat (7 + 2 * codeUnits request.hostname)))
    (c := [request.protocolVersion] ++ packH (UInt16.ofNat request.hostname.length) ++
      Utf16.encodeBytes request.hostname ++ packI request.port ++ s)
    length_legacyHeader.symm (length_packH _).symm
  unfold remainingLength legacyPingBytes
  simp only [List.append_assoc] at hfield ⊢
  rw [hfield, ofBytes_packH hsize]

theorem hostnameLength_legacyPingBytes (hsize : 7 + 2 * codeUnits request.hostname < 65536)
    (s : Bytes) :
    hostnameLength (legacyPingBytes request ++ s) = request.hostname.length := by
  have hlength : request.hostname.length < 65536 := by
    have := length_le_codeUnits request.hostname
    omega
  have hfield := bytesAt_append
    (a := legacyHeader ++ packH (UInt16.ofNat (7 + 2 * codeUnits request.hostname)) ++
      [request.protocolVersion])
    (b := packH (UInt16.ofNat request.hostname.length))
    (c := Utf16.encodeBytes request.hostname ++ packI request.port ++ s) (i := 30)
    (by simp [length_legacyHeader, length_packH]) (length_packH _).symm
  unfold hostnameLength legacyPingBytes
  simp only [List.append_assoc] at hfield ⊢
  rw [hfield, ofBytes_packH hlength]

/-- The hostname is read in full if its characters are as many as its code units. -/
theorem legacyFields_legacyPingBytes (hsize : 7 + 2 * codeUnits request.hostname < 65536)
    (hbmp : codeUnits request.hostname = request.hostname.length) (s : Bytes) :
    LegacyFields (legacyPingBytes request ++ s) request := by
  have hhostnameLength := hostnameLength_legacyPingBytes hsize s
  rw [← hbmp] at hhostnameLength
  have hversion := bytesAt_append
    (a := legacyHeader ++ packH (UInt16.ofNat (7 + 2 * codeUnits request.hostname)))
    (b := [request.protocolVersion])
    (c := packH (UInt16.ofNat request.hostname.length) ++ Utf16.encodeBytes request.hostname ++
      packI request.port ++ s) (i := 29)
    (by simp [length_legacyHeader, length_packH]) rfl
  have hhostname := bytesAt_append
    (a := legacyHeader ++ packH (UInt16.ofNat (7 + 2 * codeUnits request.hostname)) ++
      [request.protocolVersion] ++ packH (UInt16.ofNat request.hostname.length))
    (b := Utf16.encodeBytes request.hostname) (c := packI request.port ++ s) (i := 32)
    (by simp [length_legacyHeader, length_packH]) (length_encodeBytes request.hostname).symm
  have hport := bytesAt_append
    (a := legacyHeader ++ packH (UInt16.ofNat (7 + 2 * codeUnits request.hostname)) ++
      [request.protocolVersion] ++ packH (UInt16.ofNat request.hostname.length) ++
      Utf16.encodeBytes request.hostname)
    (b := packI request.port) (c := s) (i := 32 + 2 * codeUnits request.hostname)
    (by
      simp only [List.length_append, length_legacyHeader, length_packH, length_encodeBytes,
        List.length_singleton])
    (BigEndian.length_toBytes 4 _).symm
  refine ⟨?_, ?_, ?_, ?_⟩
  · rw [hhostnameLength, List.length_append, length_legacyPingBytes]
    omega
  · unfold legacyPingBytes
    simp only [List.append_assoc] at hversion ⊢
    exact hversion
  · rw [hhostnameLength]
    unfold legacyPingBytes
    simp only [List.append_assoc] at hhostname ⊢
    rw [hhostname]
    exact decodeUtf16be_encodeBytes request.hostname
  · rw [hhostnameLength]
    unfold legacyPingBytes
    simp only [List.append_assoc] at hport ⊢
    rw [hport]
    exact unpackI_packI request.port

theorem legacyRoundTrips_iff (hsize : 7 + 2 * codeUnits request.hostname < 65536) :
    LegacyRoundTrips request ↔ Utf16.IsBmp request.hostname.toList := by
  rw [← codeUnits_eq_iff]
  constructor
  · rintro ⟨bytes, hencode, hdecode⟩
    rw [encodeLegacyPing_eq hsize] at hencode
    obtain rfl := Except.ok.inj hencode
    have hlength := hostnameLength_legacyPingBytes hsize []
    obtain ⟨request', -, -, -, h⟩ | ⟨-, err, h, -⟩ | ⟨-, h⟩ :=
      decodeLegacyPing_cases (legacyPingBytes request ++ [])
    · rw [hdecode] at h
      have hn := congrArg Prod.fst (Except.ok.inj h)
      dsimp only at hn
      rw [hlength, length_legacyPingBytes] at hn
      omega
    · rw [hdecode] at h
      cases h
    · rw [hdecode] at h
      cases h
  · intro hbmp
    refine ⟨_, encodeLegacyPing_eq hsize, ?_⟩
    intro s
    rw [(hasHeader_legacyPingBytes s).decodeLegacyPing_eq ?_
      (legacyFields_legacyPingBytes hsize hbmp s), hostnameLength_legacyPingBytes hsize, ← hbmp,
      length_legacyPingBytes]
    rw [remainingLength_legacyPingBytes hsize, List.length_append, length_legacyPingBytes]
    omega

end

/-! ### The response -/

theorem isBmp_append {a b : List Char} :
    Utf16.IsBmp (a ++ b) ↔ Utf16.IsBmp a ∧ Utf16.IsBmp b :=
  List.forall_mem_append

theorem isBmp_toString_nat (n : Nat) : Utf16.IsBmp n.repr.toList := by
  intro c hc
  rw [Nat.toList_repr] at hc
  have hdigit := Char.isDigit_iff_toNat.1 (Nat.isDigit_of_mem_toDigits (by decide) (by decide) hc)
  have hnine : '9'.toNat < 0x10000 := by decide
  omega

theorem isBmp_toString (i : Int) : Utf16.IsBmp (toString i).toList := by
  rw [Int.toString_eq_repr, Int.repr_eq_if]
  split
  · exact isBmp_toString_nat _
  · rw [String.toList_append, isBmp_append]
    exact ⟨by decide, isBmp_toString_nat _⟩

theorem isBmp_legacyPingText (protocolVersion : Int) (mcVersion motd : String)
    (maxPlayers : Int) :
    Utf16.IsBmp (legacyPingText protocolVersion mcVersion motd maxPlayers).toList ↔
      Utf16.IsBmp mcVersion.toList ∧ Utf16.IsBmp motd.toList := by
  have hnul : Utf16.IsBmp "\x00".toList := by decide
  have hstart : Utf16.IsBmp "§1\x00".toList := by decide
  have hversion := isBmp_toString protocolVersion
  have hcurrent := isBmp_toString 0
  have hmax := isBmp_toString maxPlayers
  unfold legacyPingText
  have hstring (s : String) : toString s = s := rfl
  simp only [String.toList_append, isBmp_append, hstring, hnul, hstart, hversion, hcurrent, hmax,
    true_and, and_true]

theorem countsCodeUnits_iff {protocolVersion maxPlayers : Int} {mcVersion motd : String}
    (hsize : codeUnits (legacyPingText protocolVersion mcVersion motd maxPlayers) ≤ 65535) :
    CountsCodeUnits (encodeLegacyPingResponse protocolVersion mcVersion motd maxPlayers) ↔
      Utf16.IsBmp mcVersion.toList ∧ Utf16.IsBmp motd.toList := by
  rw [← isBmp_legacyPingText protocolVersion mcVersion motd maxPlayers, ← codeUnits_eq_iff]
  have hlength := length_le_codeUnits (legacyPingText protocolVersion mcVersion motd maxPlayers)
  unfold encodeLegacyPingResponse CountsCodeUnits
  generalize legacyPingText protocolVersion mcVersion motd maxPlayers = string at hsize hlength ⊢
  have hfield : (UInt16.ofNat string.length).toNat = string.length :=
    UInt16.toNat_ofNat_of_lt' (by show _ < 65536; omega)
  dsimp only
  rw [Nat.min_eq_left (by omega)]
  constructor
  · rintro ⟨length, text, heq, hcount⟩
    obtain ⟨hfirst, htext⟩ := List.append_inj heq rfl
    have hunpack := congrArg unpackH (List.append_cancel_left hfirst)
    rw [unpackH_packH, unpackH_packH] at hunpack
    have hunits := congrArg Utf16.ofBytes htext
    unfold Utf16.encodeBytes at hunits
    rw [Utf16.ofBytes_toBytes, Utf16.ofBytes_toBytes] at hunits
    unfold codeUnits
    rw [Option.some.inj hunits, ← hcount, ← Except.ok.inj hunpack, hfield]
  · intro hbmp
    exact ⟨_, _, rfl, hfield.trans hbmp.symm⟩

/-- **The legacy ping round-trips**, and its response has the right length, exactly if no character
outside the Basic Multilingual Plane is written. -/
theorem legacyPing_roundTrip_iff (request : LegacyPingRequest)
    (hping : 7 + 2 * codeUnits request.hostname < 65536) (protocolVersion : Int)
    (mcVersion motd : String) (maxPlayers : Int)
    (htext : codeUnits (legacyPingText protocolVersion mcVersion motd maxPlayers) ≤ 65535) :
    (LegacyRoundTrips request ↔ Utf16.IsBmp request.hostname.toList) ∧
      (CountsCodeUnits (encodeLegacyPingResponse protocolVersion mcVersion motd maxPlayers) ↔
        Utf16.IsBmp mcVersion.toList ∧ Utf16.IsBmp motd.toList) :=
  ⟨legacyRoundTrips_iff hping, countsCodeUnits_iff htext⟩

/-- A ping and a response in ASCII. -/
theorem legacyPing_roundTrip_ascii :
    LegacyRoundTrips ⟨78, "localhost", 25565⟩ ∧
      CountsCodeUnits (encodeLegacyPingResponse 47 "1.8" "A server" 20) := by
  obtain ⟨hping, hresponse⟩ := legacyPing_roundTrip_iff ⟨78, "localhost", 25565⟩ (by decide) 47
    "1.8" "A server" 20 (by decide)
  exact ⟨hping.2 (by decide), hresponse.2 ⟨by decide, by decide⟩⟩

/-- A face is two code units and one character. -/
theorem not_legacyRoundTrips :
    ¬ ((∀ request : LegacyPingRequest, 7 + 2 * codeUnits request.hostname < 65536 →
        LegacyRoundTrips request) ∧
      ∀ (protocolVersion : Int) (mcVersion motd : String) (maxPlayers : Int),
        codeUnits (legacyPingText protocolVersion mcVersion motd maxPlayers) ≤ 65535 →
        CountsCodeUnits (encodeLegacyPingResponse protocolVersion mcVersion motd maxPlayers)) := by
  rintro ⟨h, -⟩
  have hbmp := (legacyRoundTrips_iff (by decide)).1 (h ⟨78, "😀", 25565⟩ (by decide))
  exact absurd hbmp (by decide)

end Silkjam.Protocol
