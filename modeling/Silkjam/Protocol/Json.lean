import Silkjam.Lib.JsonLimits
import Silkjam.Protocol.Fallback
import Silkjam.Protocol.RoundTrip

/-!
# JSON packets

Status responses and kick messages are JSON in a string. A payload is encoded exactly if its
integers are not too long and it does not nest too deeply for the stack, and then it is decoded,
whatever follows it on the stream, exactly if the stack of the reader goes as deep
(`json_roundTrip`). Such a packet is read from a new reader whatever the chunks it arrives in,
exactly if it is not larger than the largest buffer (`readJsonPacket_encoded`).
-/

namespace Silkjam.Protocol

/-- The levels of nesting for which the stack has room when JSON is read or written. There is room
for what the program writes itself. -/
structure Stack where
  nesting : Nat
  room : 16 ≤ nesting

/-- `sys.get_int_max_str_digits()` is 4300. -/
def Stack.limits (stack : Stack) : Json.Limits where
  digits := 4300
  nesting := stack.nesting

/-- No limit is met. -/
def Stack.Fits (stack : Stack) (payload : Json) : Prop :=
  payload.Within stack.limits.digits stack.limits.nesting

/-- A `ValueError` that is no `JSONDecodeError`, or a `RecursionError`. -/
def faultErr : Json.Fault → Err
  | .digits => .valueError
  | .nesting => .recursionError

/-- `json.dumps(payload)` -/
def jsonDumps (stack : Stack) (payload : Json) : Except Err String :=
  match payload.dumpsFault stack.limits.digits stack.limits.nesting with
  | some fault => .error (faultErr fault)
  | none => .ok (String.ofList payload.dumps)

/-- `json.loads(json_string)` -/
def jsonLoads (stack : Stack) (jsonString : String) : Except Err Json :=
  match Json.loadsFault stack.limits jsonString.toList with
  | some fault => .error (faultErr fault)
  | none =>
    match Json.loads jsonString.toList with
    | some payload => .ok payload
    | none => .error .jsonDecodeError

def encodeJsonPacket (stack : Stack) (packetId : Int) (payload : Json) : Except Err Bytes := do
  let jsonString ← jsonDumps stack payload
  return encodePacket packetId (encodeString jsonString)

def decodeJsonPacket (stack : Stack) (packet : Packet) : Except Err (Int × Int × Json) :=
  malformed "json packet"
      (fun err => err.isProtocol || err = .incompleteRead || err = .jsonDecodeError) do
    let (n, packetId, packetData) := packet
    let (jsonLength, jsonString) ← decodeString packetData
    if jsonLength ≠ packetData.length then throw (.protocol "Extra data")
    let payload ← jsonLoads stack jsonString
    return (n, packetId, payload)

def readJsonPacket (stack : Stack) (atEnd : Err) (c : Connection) : Outcome (Int × Json) :=
  match readPacket atEnd c with
  | (.ok packet, c) => ((decodeJsonPacket stack packet).map Prod.snd, c)
  | (.error err, c) => (.error err, c)

def readPingpongPacket (atEnd : Err) (c : Connection) : Outcome Int64 :=
  match readPacket atEnd c with
  | (.ok packet, c) => ((decodePingpongPacket packet).map Prod.snd, c)
  | (.error err, c) => (.error err, c)

theorem length_encodePacket_le {packetId : Int} {packetData : Bytes}
    (hid : -2 ^ 31 ≤ packetId ∧ packetId < 2 ^ 31) (hlength : packetData.length + 5 < 2 ^ 31) :
    (encodePacket packetId packetData).length ≤ packetData.length + 10 := by
  have hidLength := length_encodeVarint_bounds hid.1 hid.2
  have hn := length_encodeVarint_bounds
    (v := ((encodeVarint packetId).length + packetData.length : Nat)) (by omega) (by omega)
  unfold encodePacket
  simp only [List.length_append]
  omega

section
variable {packetId : Int} {payload : Json} {stack : Stack}

/-! ### Limits -/

theorem jsonDumps_eq_ok {jsonString : String} : jsonDumps stack payload = .ok jsonString ↔
    stack.Fits payload ∧ jsonString = String.ofList payload.dumps := by
  unfold jsonDumps Stack.Fits
  rw [← Json.dumpsFault_eq_none]
  cases payload.dumpsFault stack.limits.digits stack.limits.nesting with
  | none => simp [eq_comm]
  | some fault => simp

theorem jsonLoads_dumps (h : payload.Plain .python) :
    jsonLoads stack (String.ofList payload.dumps) =
      match payload.dumpsFault stack.limits.digits stack.limits.nesting with
      | some fault => .error (faultErr fault)
      | none => .ok payload := by
  unfold jsonLoads
  rw [String.toList_ofList, Json.dumps, Json.loadsFault_write stack.limits h, Json.loads_write h]

/-! ### Packets -/

/-- The packet of a payload, when no limit is met. -/
def jsonBytes (packetId : Int) (payload : Json) : Bytes :=
  encodePacket packetId (encodeString (String.ofList payload.dumps))

theorem encodeJsonPacket_eq_ok {data : Bytes} : encodeJsonPacket stack packetId payload = .ok data ↔
    stack.Fits payload ∧ data = jsonBytes packetId payload := by
  unfold encodeJsonPacket
  rw [bind_eq_ok]
  constructor
  · rintro ⟨jsonString, hdumps, hdata⟩
    obtain ⟨hfits, rfl⟩ := jsonDumps_eq_ok.1 hdumps
    exact ⟨hfits, (Except.ok.inj hdata).symm⟩
  · rintro ⟨hfits, rfl⟩
    exact ⟨_, jsonDumps_eq_ok.2 ⟨hfits, rfl⟩, rfl⟩

/-- The packet is as long as a length can say. -/
structure JsonEncodable (packetId : Int) (payload : Json) : Prop where
  id_bounds : -2 ^ 31 ≤ packetId ∧ packetId < 2 ^ 31
  plain : payload.Plain .python
  length_lt : (jsonBytes packetId payload).length < 2 ^ 31

theorem JsonEncodable.length_payload (h : JsonEncodable packetId payload) :
    (encodeVarint packetId).length +
      (encodeString (String.ofList payload.dumps)).length < 2 ^ 31 := by
  have hlength := h.length_lt
  unfold jsonBytes encodePacket at hlength
  simp only [List.length_append] at hlength
  omega

theorem decodeJsonPacket_encodeString (stack : Stack) (h : JsonEncodable packetId payload)
    (n : Int) :
    decodeJsonPacket stack (n, packetId, encodeString (String.ofList payload.dumps)) =
      match payload.dumpsFault stack.limits.digits stack.limits.nesting with
      | some fault => .error (faultErr fault)
      | none => .ok (n, packetId, payload) := by
  have hlength := h.length_payload
  have htext : (encodeUtf8 (String.ofList payload.dumps)).length < 2 ^ 31 := by
    unfold encodeString at hlength
    simp only [List.length_append] at hlength
    omega
  have hstring := decodeString_encodeString htext []
  rw [List.append_nil] at hstring
  unfold decodeJsonPacket
  dsimp only
  rw [hstring]
  simp only [bind, Except.bind]
  rw [if_neg (not_not.2 rfl), jsonLoads_dumps h.plain]
  cases payload.dumpsFault stack.limits.digits stack.limits.nesting with
  | none => rfl
  | some fault => cases fault <;> rfl

/-- The frame of an encoded JSON packet. -/
def jsonFrame (h : JsonEncodable packetId payload) : Frame :=
  encodedFrame packetId (encodeString (String.ofList payload.dumps)) h.id_bounds h.length_payload

theorem decodeJsonPacket_jsonFrame (stack : Stack) (h : JsonEncodable packetId payload) :
    decodeJsonPacket stack (jsonFrame h).packet =
      match payload.dumpsFault stack.limits.digits stack.limits.nesting with
      | some fault => .error (faultErr fault)
      | none => .ok ((jsonFrame h).bytes.length, packetId, payload) := by
  unfold Frame.packet jsonFrame
  rw [payload_encodedFrame]
  exact decodeJsonPacket_encodeString stack h _

/-- **JSON packets round-trip**: a payload is encoded exactly if no limit is met, and then decoded,
whatever follows it, exactly if the reader meets none. A limit that is met raises an error that is
not converted. -/
theorem json_roundTrip (stack stack' : Stack) (h : JsonEncodable packetId payload) :
    ((∃ data, encodeJsonPacket stack packetId payload = .ok data) ↔ stack.Fits payload) ∧
    ∀ data, encodeJsonPacket stack packetId payload = .ok data →
      (RoundTrips (decodeJsonPacket stack') data (packetId, payload) ↔ stack'.Fits payload) ∧
      (¬ stack'.Fits payload → ∀ s, ∃ fault,
        (decodePacket (data ++ s) >>= decodeJsonPacket stack') = .error (faultErr fault)) := by
  constructor
  · constructor
    · rintro ⟨data, hdata⟩
      exact (encodeJsonPacket_eq_ok.1 hdata).1
    · intro hfits
      exact ⟨_, encodeJsonPacket_eq_ok.2 ⟨hfits, rfl⟩⟩
  · intro data hdata
    obtain ⟨-, rfl⟩ := encodeJsonPacket_eq_ok.1 hdata
    have hdecode (s : Bytes) : (decodePacket (jsonBytes packetId payload ++ s) >>=
        decodeJsonPacket stack') =
          match payload.dumpsFault stack'.limits.digits stack'.limits.nesting with
          | some fault => .error (faultErr fault)
          | none => .ok ((jsonBytes packetId payload).length, packetId, payload) := by
      have hframe := (jsonFrame h).decodePacket_append s
      have hpacket := decodeJsonPacket_jsonFrame stack' h
      rw [show jsonBytes packetId payload = (jsonFrame h).bytes from rfl, hframe]
      exact hpacket
    have hfits : stack'.Fits payload ↔
        payload.dumpsFault stack'.limits.digits stack'.limits.nesting = none :=
      Json.dumpsFault_eq_none _ _ _ |>.symm
    rw [hfits]
    cases hfault : payload.dumpsFault stack'.limits.digits stack'.limits.nesting with
    | none =>
      refine ⟨iff_of_true (fun s => ?_) rfl, fun h => absurd rfl h⟩
      rw [hdecode s, hfault]
    | some fault =>
      refine ⟨iff_of_false (fun hround => ?_) nofun, fun _ s => ⟨fault, ?_⟩⟩
      · have herror := hround []
        rw [hdecode [], hfault] at herror
        cases herror
      · rw [hdecode s, hfault]

/-- A character beyond the plane, and a surrogate alone. -/
def surrogateText : Json :=
  .obj [([0x61], .str [0x1F600, 0xD800])]

/-- A stack with room for a few levels. -/
def shallowStack : Stack :=
  ⟨16, Nat.le_refl 16⟩

theorem json_roundTrip_surrogates :
    ∃ data, encodeJsonPacket shallowStack 0 surrogateText = .ok data ∧
      RoundTrips (decodeJsonPacket shallowStack) data (0, surrogateText) := by
  have hfits : shallowStack.Fits surrogateText := by
    simp [Stack.Fits, surrogateText, shallowStack, Stack.limits, Json.Within, Json.MembersWithin]
  have hencodable : JsonEncodable 0 surrogateText := by
    refine ⟨zero_signed, ?_, ?_⟩
    · simp only [surrogateText, Json.Plain, Json.PlainMembers, Json.Style.python, and_true]
      exact ⟨by decide, ⟨by decide, .singleton _⟩, by decide,
        .cons_cons (by decide) (.singleton _)⟩
    · unfold jsonBytes
      generalize htext : String.ofList surrogateText.dumps = text
      have hshort : (encodeUtf8 text).length ≤ 50 := by
        rw [← htext]
        decide +kernel
      have hstring := length_encodeString_le text (by omega)
      have hlength : (encodePacket 0 (encodeString text)).length ≤
          (encodeString text).length + 10 := length_encodePacket_le zero_signed (by omega)
      omega
  obtain ⟨hencode, hdecode⟩ := json_roundTrip shallowStack shallowStack hencodable
  obtain ⟨data, hdata⟩ := hencode.2 hfits
  exact ⟨data, hdata, (hdecode data hdata).1.2 hfits⟩

/-- A JSON packet that comes first is read exactly if it fits the largest buffer. -/
theorem readJsonPacket_encoded (atEnd : Err) (h : JsonEncodable packetId payload)
    (hfits : stack.Fits payload) {chunks : List Bytes} {rest : Bytes}
    (hchunks : ∀ chunk ∈ chunks, chunk ≠ [])
    (hstream : chunks.flatten = jsonBytes packetId payload ++ rest) :
    (∃ c, readJsonPacket stack atEnd (.fresh, chunks) = (.ok (packetId, payload), c) ∧
        Between rest [] c) ∧ (jsonBytes packetId payload).length ≤ MAX_BUFFER_SIZE ∨
      (∃ err c, readJsonPacket stack atEnd (.fresh, chunks) = (.error err, c)) ∧
        MAX_BUFFER_SIZE < (jsonBytes packetId payload).length := by
  have hbytes : (jsonFrame h).bytes = jsonBytes packetId payload := rfl
  have hfresh : Untouched ((jsonFrame h).bytes ++ rest) (.fresh, chunks) := by
    have huntouched := untouched_fresh hchunks
    rwa [hstream] at huntouched
  unfold readJsonPacket
  by_cases hmax : (jsonBytes packetId payload).length ≤ MAX_BUFFER_SIZE
  · obtain ⟨c, hread, hrest⟩ := hfresh.readPacket atEnd (hbytes ▸ hmax)
    refine .inl ⟨⟨c, ?_, hrest⟩, hmax⟩
    rw [hread]
    dsimp only
    rw [decodeJsonPacket_jsonFrame stack h, (Json.dumpsFault_eq_none _ _ _).2 hfits]
    rfl
  · have hreading : Reading (jsonFrame h) rest [] (.fresh, chunks) := hfresh.between.reading
    refine .inr ⟨?_, Nat.lt_of_not_le hmax⟩
    cases hread : readPacket atEnd (.fresh, chunks) with
    | mk result c =>
      cases result with
      | ok packet =>
        exact absurd ((readPacket_ok_iff atEnd hreading).1 ⟨_, _, hread⟩).2.1 hmax
      | error err => exact ⟨err, c, rfl⟩

end

end Silkjam.Protocol
