import Silkjam.Lib.BigEndian
import Silkjam.Lib.Utf16
import Silkjam.Protocol.Login

/-!
# The legacy ping

Clients before 1.7 send a ping of another format, whose texts are UTF-16 and preceded by their
length in code units. The decoder first reads a header that is the same in all of them, which takes
as few bytes as tell that it is not there (`Refuted`); then it waits for as many bytes as the
remaining length says, and reads the fields (`LegacyFields`) without comparing their length to it
(`decodeLegacyPing_cases`).
-/

namespace Silkjam.Protocol

open Slice

structure LegacyPingRequest where
  protocolVersion : UInt8
  hostname : String
  port : UInt32
  deriving DecidableEq

/-- `data[i : i + k]` -/
def bytesAt (data : Bytes) (i k : Nat) : Bytes :=
  slice data i (i + k)

/-- `struct.unpack(">B", data)[0]` -/
def unpackB : Bytes → Except Err UInt8
  | [a] => .ok a
  | _ => .error .structError

/-- `struct.unpack(">I", data)[0]` -/
def unpackI (data : Bytes) : Except Err UInt32 :=
  if data.length = 4 then .ok (UInt32.ofNat (BigEndian.ofBytes data)) else .error .structError

/-- `struct.pack(">I", value)` -/
def packI (value : UInt32) : Bytes :=
  BigEndian.toBytes 4 value.toNat

/-- `struct.pack(">H", length)` -/
def packLength (length : Nat) : Except Err Bytes :=
  if length < 65536 then .ok (packH (UInt16.ofNat length)) else .error .structError

/-- `str(data, "utf-16-be")` -/
def decodeUtf16be (data : Bytes) : Except Err String :=
  match Utf16.decodeBytes data with
  | some s => .ok s
  | none => .error .unicodeDecode

/-- The part of `decode_legacy_ping` before the remaining length; returns the cursor. -/
def readLegacyHeader (data : Bytes) : Except Err Nat := do
  if data.length < 1 then throw .incompleteRead
  if data.head? ≠ some 0xFE then throw (.protocol "Bad header")
  if data.length < 3 then throw .incompleteRead
  let i := 0
  if bytesAt data i 3 ≠ [0xFE, 0x01, 0xFA] then throw (.protocol "Bad header")
  let i := i + 3
  if data.length < 3 + 2 + 22 + 2 then throw .incompleteRead
  let stringLength ← unpackH (bytesAt data i 2)
  let i := i + 2
  let string ← decodeUtf16be (bytesAt data i (stringLength.toNat * 2))
  if string ≠ "MC|PingHost" then
    throw (.protocol s!"Expected string \"MC|PingHost\", received \"{string}\"")
  return i + stringLength.toNat * 2

/-- The part of `decode_legacy_ping` after the remaining length. -/
def readLegacyFields (data : Bytes) (i : Nat) : Except Err (Nat × LegacyPingRequest) := do
  let protocolVersion ← unpackB (bytesAt data i 1)
  let i := i + 1
  let hostnameLength ← unpackH (bytesAt data i 2)
  let i := i + 2
  let hostname ← decodeUtf16be (bytesAt data i (hostnameLength.toNat * 2))
  let i := i + hostnameLength.toNat * 2
  let port ← unpackI (bytesAt data i 4)
  let i := i + 4
  return (i, ⟨protocolVersion, hostname, port⟩)

/-- The exceptions that `decode_legacy_ping` turns into `MCProtocolError`. -/
def caughtLegacy (err : Err) : Bool :=
  err.isProtocol || err = .structError || err = .unicodeDecode

def decodeLegacyPing (data : Bytes) : Except Err (Nat × LegacyPingRequest) :=
  malformed "legacy ping" caughtLegacy do
    let i ← readLegacyHeader data
    let remainingLength ← unpackH (bytesAt data i 2)
    let i := i + 2
    if (sliceFrom data i).length < remainingLength.toNat then throw .incompleteRead
    readLegacyFields data i

def encodeLegacyPing (protocolVersion : UInt8) (hostname : String) (port : UInt32) :
    Except Err Bytes := do
  let header : Bytes := [0xFE, 0x01, 0xFA]
  let channel := "MC|PingHost"
  let stringLength ← packLength channel.length
  let channelData := Utf16.encodeBytes channel
  let protocolVersionData : Bytes := [protocolVersion]
  let hostnameLength ← packLength hostname.length
  let hostnameData := Utf16.encodeBytes hostname
  let portData := packI port
  let remainingLength ←
    packLength (protocolVersionData ++ hostnameLength ++ hostnameData ++ portData).length
  return header ++ stringLength ++ channelData ++ remainingLength ++ protocolVersionData ++
    hostnameLength ++ hostnameData ++ portData

/-- The text of the response. -/
def legacyPingText (protocolVersion : Int) (mcVersion motd : String) (maxPlayers : Int) : String :=
  let currentPlayerCount : Int := 0
  s!"§1\x00{protocolVersion}\x00{mcVersion}\x00{motd}\x00{currentPlayerCount}\x00{maxPlayers}"

def encodeLegacyPingResponse (protocolVersion : Int) (mcVersion motd : String) (maxPlayers : Int) :
    Bytes :=
  let string := legacyPingText protocolVersion mcVersion motd maxPlayers
  let stringLength := string.length
  [0xFF] ++ packH (UInt16.ofNat (min stringLength 65535)) ++ Utf16.encodeBytes string

/-! ### Fields -/

section
variable {data a b c text : Bytes} {value : UInt16}

theorem bytesAt_eq (data : Bytes) (i k : Nat) : bytesAt data i k = (data.drop i).take k :=
  slice_natCast_add data i k

theorem bytesAt_append {i k : Nat} (hi : i = a.length) (hk : k = b.length) :
    bytesAt (a ++ b ++ c) i k = b := by
  rw [bytesAt_eq, hi, hk, List.append_assoc, List.drop_left, List.take_left]

theorem length_bytesAt (data : Bytes) (i k : Nat) :
    (bytesAt data i k).length = min k (data.length - i) := by
  rw [bytesAt_eq, List.length_take, List.length_drop]

theorem packH_of_unpackH (h : unpackH data = .ok value) : packH value = data := by
  unfold unpackH at h
  split at h
  · next a b =>
    cases h
    have ha := a.toNat_lt
    have hb := b.toNat_lt
    have hvalue : (UInt16.ofNat (256 * a.toNat + b.toNat)).toNat = 256 * a.toNat + b.toNat :=
      UInt16.toNat_ofNat_of_lt' (by show _ < 65536; omega)
    unfold packH
    rw [hvalue, Nat.mul_add_div (by decide), Nat.div_eq_of_lt hb, Nat.add_zero, Nat.mul_add_mod,
      Nat.mod_eq_of_lt hb, UInt8.ofNat_toNat, UInt8.ofNat_toNat]
  · cases h

theorem unpackI_packI (port : UInt32) : unpackI (packI port) = .ok port := by
  unfold unpackI packI
  rw [if_pos (BigEndian.length_toBytes 4 _), BigEndian.ofBytes_toBytes port.toNat_lt,
    UInt32.ofNat_toNat]

theorem length_of_unpackI {port : UInt32} (h : unpackI data = .ok port) : data.length = 4 := by
  unfold unpackI at h
  split at h
  · next hlength => exact hlength
  · cases h

theorem unpackB_eq_ok {version : UInt8} (h : unpackB data = .ok version) : data = [version] := by
  unfold unpackB at h
  split at h
  · cases h
    rfl
  · cases h

theorem decodeUtf16be_eq_ok {s : String} :
    decodeUtf16be data = .ok s ↔ Utf16.decodeBytes data = some s := by
  unfold decodeUtf16be
  cases Utf16.decodeBytes data <;> simp

theorem decodeUtf16be_encodeBytes (s : String) : decodeUtf16be (Utf16.encodeBytes s) = .ok s :=
  decodeUtf16be_eq_ok.2 (Utf16.decodeBytes_encodeBytes s)

/-! ### The header -/

/-- What a legacy ping begins with. -/
def legacyHeader : Bytes :=
  [0xFE, 0x01, 0xFA] ++ packH 11 ++ Utf16.encodeBytes "MC|PingHost"

theorem length_legacyHeader : legacyHeader.length = 27 := by
  decide

/-- The known length of the starting fields is there, and they are what they have to be. -/
def HasHeader (data : Bytes) : Prop :=
  29 ≤ data.length ∧ data.take 27 = legacyHeader

/-- Whatever follows, the data is not a legacy ping. -/
def Refuted (data : Bytes) : Prop :=
  1 ≤ data.length ∧ data.head? ≠ some 0xFE ∨
    3 ≤ data.length ∧ data.take 3 ≠ [0xFE, 0x01, 0xFA] ∨
    29 ≤ data.length ∧ data.take 27 ≠ legacyHeader

theorem Refuted.append (h : Refuted data) (s : Bytes) : Refuted (data ++ s) := by
  obtain ⟨hlen, h⟩ | ⟨hlen, h⟩ | ⟨hlen, h⟩ := h
  · refine .inl ⟨by rw [List.length_append]; omega, ?_⟩
    obtain ⟨b, data, rfl⟩ := List.exists_cons_of_length_pos hlen
    exact h
  · refine .inr (.inl ⟨by rw [List.length_append]; omega, ?_⟩)
    rwa [List.take_append_of_le_length hlen]
  · refine .inr (.inr ⟨by rw [List.length_append]; omega, ?_⟩)
    rwa [List.take_append_of_le_length (by omega)]

theorem HasHeader.append (h : HasHeader data) (s : Bytes) : HasHeader (data ++ s) := by
  refine ⟨by rw [List.length_append]; have := h.1; omega, ?_⟩
  rw [List.take_append_of_le_length (by have := h.1; omega)]
  exact h.2

/-- The channel is read in full since no other text is as long. -/
theorem take_eq_legacyHeader (hlen : 29 ≤ data.length) (hthree : data.take 3 = [0xFE, 0x01, 0xFA])
    {stringLength : UInt16} (hlength : unpackH (bytesAt data 3 2) = .ok stringLength)
    (hstring : decodeUtf16be (bytesAt data 5 (stringLength.toNat * 2)) = .ok "MC|PingHost") :
    data.take 27 = legacyHeader := by
  have hchannel := Utf16.encodeBytes_of_decodeBytes (decodeUtf16be_eq_ok.1 hstring)
  have htwentyTwo : (Utf16.encodeBytes "MC|PingHost").length = 22 := by decide
  have hlengths := length_bytesAt data 5 (stringLength.toNat * 2)
  rw [← hchannel, htwentyTwo] at hlengths
  have heleven : stringLength.toNat = 11 := by omega
  obtain rfl : stringLength = 11 := UInt16.toNat_inj.1 heleven
  have hsplit : data.take 27 = data.take 3 ++ bytesAt data 3 2 ++ bytesAt data 5 22 := by
    rw [bytesAt_eq, bytesAt_eq, List.append_assoc, show 27 = 3 + (2 + 22) from rfl, List.take_add,
      List.take_add, List.drop_drop]
  have hlengthBytes := packH_of_unpackH hlength
  rw [hsplit, hthree, ← hlengthBytes]
  unfold legacyHeader
  rw [hchannel]
  rfl

theorem HasHeader.take_three (h : HasHeader data) : data.take 3 = [0xFE, 0x01, 0xFA] := by
  have htake := congrArg (List.take 3) h.2
  rwa [List.take_take] at htake

theorem head?_of_take_three (h : data.take 3 = [0xFE, 0x01, 0xFA]) : data.head? = some 0xFE := by
  have hhead := congrArg List.head? h
  rwa [List.head?_take, if_neg (by decide)] at hhead

theorem HasHeader.not_refuted (h : HasHeader data) : ¬ Refuted data := by
  rintro (⟨-, hne⟩ | ⟨-, hne⟩ | ⟨-, hne⟩)
  · exact hne (head?_of_take_three h.take_three)
  · exact hne h.take_three
  · exact hne h.2

/-- With the known length of the starting fields, the channel is what remains to be read. -/
theorem readLegacyHeader_complete (hlen : 29 ≤ data.length)
    (hthree : data.take 3 = [0xFE, 0x01, 0xFA]) :
    readLegacyHeader data = do
      let stringLength ← unpackH (bytesAt data 3 2)
      let string ← decodeUtf16be (bytesAt data 5 (stringLength.toNat * 2))
      if string ≠ "MC|PingHost" then
        throw (.protocol s!"Expected string \"MC|PingHost\", received \"{string}\"")
      return 5 + stringLength.toNat * 2 := by
  have hzero : bytesAt data 0 3 = data.take 3 := by
    rw [bytesAt_eq, List.drop_zero]
  unfold readLegacyHeader
  rw [if_neg (by omega), if_neg (not_not.2 (head?_of_take_three hthree)), if_neg (by omega)]
  dsimp only
  rw [hzero, if_neg (not_not.2 hthree), if_neg (by omega)]

theorem HasHeader.readLegacyHeader_eq (h : HasHeader data) : readLegacyHeader data = .ok 27 := by
  have hdata : [0xFE, 0x01, 0xFA] ++ packH 11 ++ Utf16.encodeBytes "MC|PingHost" ++ data.drop 27 =
      data := by
    have hsplit := List.take_append_drop 27 data
    rwa [h.2] at hsplit
  have hlength : bytesAt data 3 2 = packH 11 := by
    rw [← hdata, List.append_assoc _ (Utf16.encodeBytes _)]
    exact bytesAt_append rfl rfl
  have hchannel : bytesAt data 5 22 = Utf16.encodeBytes "MC|PingHost" := by
    rw [← hdata]
    exact bytesAt_append rfl (by decide)
  rw [readLegacyHeader_complete h.1 h.take_three, hlength, unpackH_packH]
  dsimp only [bind, Except.bind]
  rw [show (11 : UInt16).toNat * 2 = 22 from rfl, hchannel, decodeUtf16be_encodeBytes]
  rfl

theorem readLegacyHeader_error (hlen : 29 ≤ data.length)
    (hthree : data.take 3 = [0xFE, 0x01, 0xFA]) (hne : data.take 27 ≠ legacyHeader) :
    ∃ err, readLegacyHeader data = .error err ∧ caughtLegacy err = true := by
  have htwo : (bytesAt data 3 2).length = 2 := by
    rw [length_bytesAt]
    omega
  obtain ⟨stringLength, hlength⟩ := unpackH_of_length htwo
  rw [readLegacyHeader_complete hlen hthree, hlength]
  dsimp only [bind, Except.bind]
  cases hstring : decodeUtf16be (bytesAt data 5 (stringLength.toNat * 2)) with
  | error err =>
    unfold decodeUtf16be at hstring
    split at hstring
    · cases hstring
    · cases hstring
      exact ⟨_, rfl, rfl⟩
  | ok string =>
    dsimp only
    by_cases hchannel : string = "MC|PingHost"
    · subst hchannel
      exact absurd (take_eq_legacyHeader hlen hthree hlength hstring) hne
    · rw [if_pos hchannel]
      exact ⟨_, rfl, rfl⟩

theorem not_refuted_of_short (hlen : data.length < 29)
    (hhead : 1 ≤ data.length → data.head? = some 0xFE)
    (hthree : 3 ≤ data.length → data.take 3 = [0xFE, 0x01, 0xFA]) : ¬ Refuted data := by
  rintro (⟨hle, hne⟩ | ⟨hle, hne⟩ | ⟨hle, -⟩)
  · exact hne (hhead hle)
  · exact hne (hthree hle)
  · omega

/-- **The header** is there, or it is refuted, or more data is needed to tell. -/
theorem readLegacyHeader_cases (data : Bytes) :
    (HasHeader data ∧ readLegacyHeader data = .ok 27) ∨
    (Refuted data ∧ ∃ err, readLegacyHeader data = .error err ∧ caughtLegacy err = true) ∨
    (data.length < 29 ∧ ¬ Refuted data ∧ readLegacyHeader data = .error .incompleteRead) := by
  have hzero : bytesAt data 0 3 = data.take 3 := by
    rw [bytesAt_eq, List.drop_zero]
  by_cases hone : data.length < 1
  · refine .inr (.inr ⟨by omega, not_refuted_of_short (by omega) (by omega) (by omega), ?_⟩)
    unfold readLegacyHeader
    rw [if_pos hone]
    rfl
  by_cases hhead : data.head? = some 0xFE
  · by_cases hshort : data.length < 3
    · refine .inr (.inr ⟨by omega, not_refuted_of_short (by omega) (fun _ => hhead) (by omega), ?_⟩)
      unfold readLegacyHeader
      rw [if_neg hone, if_neg (not_not.2 hhead), if_pos hshort]
      rfl
    by_cases hthree : data.take 3 = [0xFE, 0x01, 0xFA]
    · by_cases hlen : data.length < 29
      · refine .inr (.inr ⟨hlen, not_refuted_of_short hlen (fun _ => hhead) fun _ => hthree, ?_⟩)
        unfold readLegacyHeader
        rw [if_neg hone, if_neg (not_not.2 hhead), if_neg hshort]
        dsimp only
        rw [hzero, if_neg (not_not.2 hthree), if_pos hlen]
        rfl
      · by_cases hchannel : data.take 27 = legacyHeader
        · have h : HasHeader data := ⟨not_lt.1 hlen, hchannel⟩
          exact .inl ⟨h, h.readLegacyHeader_eq⟩
        · exact .inr (.inl ⟨.inr (.inr ⟨not_lt.1 hlen, hchannel⟩),
            readLegacyHeader_error (not_lt.1 hlen) hthree hchannel⟩)
    · refine .inr (.inl ⟨.inr (.inl ⟨by omega, hthree⟩), .protocol "Bad header", ?_, rfl⟩)
      unfold readLegacyHeader
      rw [if_neg hone, if_neg (not_not.2 hhead), if_neg hshort]
      dsimp only
      rw [hzero, if_pos hthree]
      rfl
  · refine .inr (.inl ⟨.inl ⟨by omega, hhead⟩, .protocol "Bad header", ?_, rfl⟩)
    unfold readLegacyHeader
    rw [if_neg hone, if_pos hhead]
    rfl

/-! ### What is decoded -/

/-- The field of bytes 27 and 28. -/
def remainingLength (data : Bytes) : Nat :=
  BigEndian.ofBytes (bytesAt data 27 2)

/-- The field of bytes 30 and 31. -/
def hostnameLength (data : Bytes) : Nat :=
  BigEndian.ofBytes (bytesAt data 30 2)

/-- The fields after the remaining length are there and are those of the request. -/
structure LegacyFields (data : Bytes) (request : LegacyPingRequest) : Prop where
  complete : 36 + 2 * hostnameLength data ≤ data.length
  protocolVersion : bytesAt data 29 1 = [request.protocolVersion]
  hostname : decodeUtf16be (bytesAt data 32 (2 * hostnameLength data)) = .ok request.hostname
  port : unpackI (bytesAt data (32 + 2 * hostnameLength data) 4) = .ok request.port

theorem unpackH_of_two (h : data.length = 2) :
    ∃ v, unpackH data = .ok v ∧ v.toNat = BigEndian.ofBytes data := by
  obtain ⟨a, b, rfl⟩ := List.length_eq_two.1 h
  have ha := a.toNat_lt
  have hb := b.toNat_lt
  refine ⟨_, rfl, ?_⟩
  have hvalue : (UInt16.ofNat (256 * a.toNat + b.toNat)).toNat = 256 * a.toNat + b.toNat :=
    UInt16.toNat_ofNat_of_lt' (by show _ < 65536; omega)
  rw [hvalue]
  show _ = 256 * (256 * 0 + a.toNat) + b.toNat
  omega

theorem LegacyFields.readLegacyFields_eq {request : LegacyPingRequest}
    (h : LegacyFields data request) :
    readLegacyFields data 29 = .ok (36 + 2 * hostnameLength data, request) := by
  have hcomplete := h.complete
  have htwo : (bytesAt data 30 2).length = 2 := by
    rw [length_bytesAt]
    omega
  obtain ⟨length, hlength, hvalue⟩ := unpackH_of_two htwo
  have hwords : length.toNat * 2 = 2 * hostnameLength data := by
    rw [hvalue, Nat.mul_comm]
    rfl
  unfold readLegacyFields
  rw [h.protocolVersion]
  dsimp only [unpackB, bind, Except.bind]
  rw [hlength]
  dsimp only
  rw [hwords, h.hostname]
  dsimp only
  rw [h.port]
  dsimp only [pure, Except.pure]
  congr 2
  omega

theorem legacyFields_of_readLegacyFields {n : Nat} {request : LegacyPingRequest}
    (h : readLegacyFields data 29 = .ok (n, request)) : LegacyFields data request := by
  unfold readLegacyFields at h
  obtain ⟨version, hversion, h⟩ := bind_eq_ok.1 h
  obtain ⟨length, hlength, h⟩ := bind_eq_ok.1 h
  obtain ⟨hostname, hhostname, h⟩ := bind_eq_ok.1 h
  obtain ⟨port, hport, h⟩ := bind_eq_ok.1 h
  cases h
  obtain ⟨length', hlength', hvalue⟩ := unpackH_of_two (length_of_unpackH hlength)
  rw [hlength] at hlength'
  obtain rfl : length = length' := Except.ok.inj hlength'
  have hwords : length.toNat * 2 = 2 * hostnameLength data := by
    rw [hvalue, Nat.mul_comm]
    rfl
  rw [hwords] at hhostname hport
  have hfour := length_of_unpackI hport
  rw [length_bytesAt] at hfour
  exact ⟨by omega, unpackB_eq_ok hversion, hhostname, hport⟩

theorem caught_of_bind {α β : Type} {x : Except Err α} {f : α → Except Err β}
    (hx : ∀ err, x = .error err → caughtLegacy err = true)
    (hf : ∀ a err, f a = .error err → caughtLegacy err = true) (err : Err)
    (h : (x >>= f) = .error err) : caughtLegacy err = true := by
  cases x with
  | error err' =>
    exact hx err (congrArg Except.error (Except.error.inj h))
  | ok a => exact hf a err h

theorem caught_of_readLegacyFields (i : Nat) (err : Err)
    (h : readLegacyFields data i = .error err) : caughtLegacy err = true := by
  unfold readLegacyFields at h
  refine caught_of_bind (fun err h => ?_) (fun version => caught_of_bind (fun err h => ?_)
    fun length => caught_of_bind (fun err h => ?_) fun hostname => caught_of_bind
      (fun err h => ?_) fun port err h => ?_) err h
  · unfold unpackB at h
    split at h <;> cases h
    rfl
  · unfold unpackH at h
    split at h <;> cases h
    rfl
  · unfold decodeUtf16be at h
    split at h <;> cases h
    rfl
  · unfold unpackI at h
    split at h <;> cases h
    rfl
  · cases h

/-- **What is decoded**: a request if its fields are there, as many bytes as the remaining length
says, and nothing else if the header is refuted or the fields are not there with that many bytes. -/
theorem decodeLegacyPing_cases (data : Bytes) :
    (∃ request, HasHeader data ∧ 29 + remainingLength data ≤ data.length ∧
      LegacyFields data request ∧
      decodeLegacyPing data = .ok (36 + 2 * hostnameLength data, request)) ∨
    ((Refuted data ∨ HasHeader data ∧ 29 + remainingLength data ≤ data.length ∧
      ∀ request, ¬ LegacyFields data request) ∧
      ∃ err, decodeLegacyPing data = .error err ∧ err.isProtocol = true) ∨
    ((data.length < 29 ∧ ¬ Refuted data ∨
      HasHeader data ∧ data.length < 29 + remainingLength data) ∧
      decodeLegacyPing data = .error .incompleteRead) := by
  unfold decodeLegacyPing
  obtain ⟨h, hread⟩ | ⟨h, err, hread, hcaught⟩ | ⟨hlen, h, hread⟩ := readLegacyHeader_cases data
  · have hlen := h.1
    have htwo : (bytesAt data 27 2).length = 2 := by
      rw [length_bytesAt]
      omega
    obtain ⟨length, hlength, hvalue⟩ := unpackH_of_two htwo
    have hrest : (sliceFrom data ((27 + 2 : Nat) : Int)).length = data.length - 29 := by
      rw [sliceFrom_natCast, List.length_drop]
    have hfield : length.toNat = remainingLength data := hvalue
    rw [hread]
    dsimp only [bind, Except.bind]
    rw [hlength]
    dsimp only
    rw [hrest, hfield]
    by_cases hroom : data.length - 29 < remainingLength data
    · rw [if_pos hroom]
      exact .inr (.inr ⟨.inr ⟨h, by omega⟩, rfl⟩)
    · rw [if_neg hroom]
      cases hfields : readLegacyFields data 29 with
      | error err =>
        have hcaught := caught_of_readLegacyFields 29 err hfields
        refine .inr (.inl ⟨.inr ⟨h, by omega, fun request hrequest => ?_⟩, ?_⟩)
        · rw [hrequest.readLegacyFields_eq] at hfields
          cases hfields
        · unfold malformed
          dsimp only
          rw [if_pos hcaught]
          exact ⟨_, rfl, rfl⟩
      | ok result =>
        obtain ⟨n, request⟩ := result
        have hrequest := legacyFields_of_readLegacyFields hfields
        rw [hrequest.readLegacyFields_eq] at hfields
        exact .inl ⟨request, h, by omega, hrequest, by rw [← Except.ok.inj hfields]; rfl⟩
  · rw [hread]
    dsimp only [bind, Except.bind, malformed]
    rw [if_pos hcaught]
    exact .inr (.inl ⟨.inl h, _, rfl, rfl⟩)
  · rw [hread]
    exact .inr (.inr ⟨.inl ⟨hlen, h⟩, rfl⟩)

theorem HasHeader.decodeLegacyPing_eq {request : LegacyPingRequest} (h : HasHeader data)
    (hlen : 29 + remainingLength data ≤ data.length) (hrequest : LegacyFields data request) :
    decodeLegacyPing data = .ok (36 + 2 * hostnameLength data, request) := by
  obtain ⟨request', -, -, hrequest', hdecode⟩ | ⟨hrefuted, -⟩ | ⟨hmore, -⟩ :=
    decodeLegacyPing_cases data
  · have heq := hrequest.readLegacyFields_eq.symm.trans hrequest'.readLegacyFields_eq
    rw [hdecode, Except.ok.inj heq]
  · obtain hrefuted | ⟨-, -, hnone⟩ := hrefuted
    · exact absurd hrefuted h.not_refuted
    · exact absurd hrequest (hnone request)
  · have := h.1
    omega

end

end Silkjam.Protocol
