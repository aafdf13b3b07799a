import Silkjam.Protocol.Calls
import Silkjam.Protocol.Login

/-!
# Forwarding a login

When a client logs in the proxy has read two packets from it before the backend sees any. It sends
the backend the handshake and the Login Start as it understood them, encoded again, then what else
it has received, and from then on what it receives. If the second packet was read but is not a Login
Start that it can parse, the packet is not in what is sent; otherwise nothing is lost
(`login_forwarded`).
-/

namespace Silkjam.Protocol

open Loop

/-- `MCProxy.BUFFER_SIZE` -/
def BUFFER_SIZE : Nat := 1 <<< 16

def readHandshakePacket (atEnd : Err) (c : Connection) : Outcome HandshakeRequest :=
  match readPacket atEnd c with
  | (.ok packet, c) => ((decodeHandshakePacket packet).map Prod.snd, c)
  | (.error err, c) => (.error err, c)

def readLoginStartPacket (atEnd : Err) (protocolVersion : Int) (c : Connection) :
    Outcome LoginStart :=
  match readPacket atEnd c with
  | (.ok packet, c) => ((decodeLoginStartPacket packet protocolVersion).map Prod.snd, c)
  | (.error err, c) => (.error err, c)

/-- `_read_login_start`, which logs every exception. -/
def readLoginStart (atEnd : Err) (protocolVersion : Int) (c : Connection) :
    Option LoginStart × Connection :=
  match readLoginStartPacket atEnd protocolVersion c with
  | (.ok loginStart, c) => (some loginStart, c)
  | (.error _, c) => (none, c)

/-- One turn of the loop of `forward`, with what was written so far. -/
def forwardTurn (c : Bytes × List Bytes) : Turn (Bytes × List Bytes) Bytes :=
  match streamRead BUFFER_SIZE c.2 with
  | ([], _) => .leave c.1
  | (data, chunks) => .again (c.1 ++ data, chunks)

theorem forwardTurn_again {c c' : Bytes × List Bytes} (h : forwardTurn c = .again c') :
    c'.2.flatten.length < c.2.flatten.length := by
  have hlength := length_streamRead BUFFER_SIZE c.2
  unfold forwardTurn at h
  split at h
  · cases h
  · next data chunks hne hread =>
    rw [hread] at hlength
    have hpos : 0 < data.length := List.length_pos_iff.2 hne
    cases h
    dsimp only at hlength ⊢
    omega

def forward (initialData : Bytes) (chunks : List Bytes) : Bytes :=
  ({ turn := forwardTurn, size c := c.2.flatten.length, size_lt := forwardTurn_again } :
    Body (Bytes × List Bytes) Bytes).run (initialData, chunks)

/-- What `_forward_to_backend` sends to the backend for a client with a handshake. The chunks of
`later` arrive after the Login Start was read or given up. -/
def forwardToBackend (atEnd : Err) (handshake : HandshakeRequest) (c : Connection)
    (later : List Bytes) : Bytes :=
  let initialData := encodeHandshakePacket handshake
  let playerJoining := handshake.nextState = 2
  let (initialData, c) :=
    if playerJoining then
      match readLoginStart atEnd handshake.protocolVersion c with
      | (some loginStart, c) => (initialData ++ encodeLoginStartPacket loginStart, c)
      | (none, c) => (initialData, c)
    else (initialData, c)
  forward (initialData ++ c.1.unparsed) (c.2 ++ later)

/-! ### What is forwarded -/

theorem streamRead_flatten {m : Nat} (hm : 0 < m) {chunks : List Bytes}
    (hchunks : ∀ chunk ∈ chunks, chunk ≠ []) :
    (streamRead m chunks).1 ++ (streamRead m chunks).2.flatten = chunks.flatten ∧
      (∀ chunk ∈ (streamRead m chunks).2, chunk ≠ []) ∧
      ((streamRead m chunks).1 = [] → chunks = []) := by
  unfold streamRead
  cases chunks with
  | nil => simp
  | cons chunk chunks =>
    dsimp only
    rw [if_neg (by omega), Int.toNat_natCast]
    have hchunk := hchunks chunk (by simp)
    split
    · next hle =>
      exact ⟨rfl, fun c hc => hchunks c (by simp [hc]), fun h => absurd h hchunk⟩
    · next hle =>
      refine ⟨?_, ?_, ?_⟩
      · rw [List.flatten_cons, ← List.append_assoc, List.take_append_drop, List.flatten_cons]
      · intro c hc
        rcases List.mem_cons.1 hc with rfl | hc
        · rw [← List.length_pos_iff, List.length_drop]
          omega
        · exact hchunks c (by simp [hc])
      · intro h
        have hlen := congrArg List.length h
        have hpos := List.length_pos_iff.2 hchunk
        rw [List.length_take, List.length_nil] at hlen
        omega

theorem forward_eq (initialData : Bytes) {chunks : List Bytes}
    (hchunks : ∀ chunk ∈ chunks, chunk ≠ []) :
    forward initialData chunks = initialData ++ chunks.flatten := by
  unfold forward
  refine Body.run_spec _ (P := fun c : Bytes × List Bytes =>
    c.1 ++ c.2.flatten = initialData ++ chunks.flatten ∧ ∀ chunk ∈ c.2, chunk ≠ [])
    (Q := fun sent => sent = initialData ++ chunks.flatten) ⟨rfl, hchunks⟩ ?_ ?_
  · rintro c c' - ⟨hsent, hne⟩ hturn
    obtain ⟨hflatten, hne', -⟩ := streamRead_flatten (m := BUFFER_SIZE) (by decide) hne
    dsimp only at hturn
    unfold forwardTurn at hturn
    split at hturn
    · cases hturn
    · next data rest _ hread =>
      rw [hread] at hflatten hne'
      cases hturn
      exact ⟨by rw [← hsent, ← hflatten, List.append_assoc], hne'⟩
  · rintro c sent - ⟨hsent, hne⟩ hturn
    obtain ⟨-, -, hend⟩ := streamRead_flatten (m := BUFFER_SIZE) (by decide) hne
    dsimp only at hturn
    unfold forwardTurn at hturn
    split at hturn
    · next rest hread =>
      rw [hread] at hend
      cases hturn
      rw [← hsent, hend rfl, List.flatten_nil, List.append_nil]
    · cases hturn

/-! ### Encoded packets -/

section
variable {h : HandshakeRequest} {l : LoginStart} {protocolVersion : Int}

theorem HandshakeRequest.Encodable.length_payload (hh : h.Encodable) :
    (encodeVarint 0).length + (handshakePayload h).length < 2 ^ 31 := by
  have hid := length_encodeVarint_bounds zero_signed.1 zero_signed.2
  have hversion := length_encodeVarint_bounds hh.protocolVersion.1 hh.protocolVersion.2
  have hstate := length_encodeVarint_bounds hh.nextState.1 hh.nextState.2
  have haddress := hh.serverAddress
  have hstring := length_encodeString_le h.serverAddress (by omega)
  unfold handshakePayload
  simp only [List.length_append, length_packH]
  omega

/-- The frame of an encoded handshake. -/
def handshakeFrame (hh : h.Encodable) : Frame :=
  encodedFrame 0 (handshakePayload h) zero_signed hh.length_payload

theorem decodeHandshakePacket_handshakeFrame (hh : h.Encodable) :
    decodeHandshakePacket (handshakeFrame hh).packet =
      .ok ((handshakeFrame hh).bytes.length, h) := by
  unfold Frame.packet handshakeFrame
  rw [payload_encodedFrame]
  exact decodeHandshakePacket_payload hh _

theorem LoginStart.Encodable.length_payload (hl : l.Encodable protocolVersion) :
    (encodeVarint 0).length + (loginStartPayload l).length < 2 ^ 31 := by
  have hid := length_encodeVarint_bounds zero_signed.1 zero_signed.2
  have husername := hl.username
  have hstring := length_encodeString_le l.username (by omega)
  have hplayerId : (l.playerId.elim [] UUID.bytes).length ≤ 16 := by
    cases l.playerId with
    | none => simp
    | some id => exact Nat.le_of_eq id.length_eq
  unfold loginStartPayload
  simp only [List.length_append]
  omega

/-- The frame of an encoded Login Start. -/
def loginStartFrame (hl : l.Encodable protocolVersion) : Frame :=
  encodedFrame 0 (loginStartPayload l) zero_signed hl.length_payload

theorem decodeLoginStartPacket_loginStartFrame (hl : l.Encodable protocolVersion) :
    decodeLoginStartPacket (loginStartFrame hl).packet protocolVersion =
      .ok ((loginStartFrame hl).bytes.length, l) := by
  unfold Frame.packet loginStartFrame
  rw [payload_encodedFrame]
  exact decodeLoginStartPacket_payload (Nat.lt_of_le_of_lt (Nat.le_add_right _ _)
    (Nat.lt_of_add_right_lt hl.username)) hl.playerId hl.extraData _

end

/-! ### Transparency -/

/-- What the backend receives is the handshake, then a packet that stands for `p`, then the rest: a
packet with the same id and Login Start if `p` is one, and else with the same payload. -/
def Transparent (handshake : HandshakeRequest) (p : Frame) (rest sent : Bytes) : Prop :=
  ∃ h' p' : Frame, sent = h'.bytes ++ p'.bytes ++ rest ∧
    decodeHandshakePacket h'.packet = .ok (h'.bytes.length, handshake) ∧
    p'.packetId = p.packetId ∧
    match (decodeLoginStartPacket p.packet handshake.protocolVersion).map Prod.snd with
    | .ok loginStart =>
      (decodeLoginStartPacket p'.packet handshake.protocolVersion).map Prod.snd = .ok loginStart
    | .error _ => p'.payload = p.payload

/-- `decode_login_start_packet` accepts the packet. -/
def IsLoginStart (p : Frame) (protocolVersion : Int) : Prop :=
  ∃ loginStart, decodeLoginStartPacket p.packet protocolVersion = .ok loginStart

/-- The frame is read: it arrives before the proxy gives up on it, is not larger than the largest
buffer, and the buffer is never halved below what it holds. -/
def IsRead (atEnd : Err) (p : Frame) (rest : Bytes) (c : Connection) (later : List Bytes) : Prop :=
  later.flatten.length ≤ rest.length ∧ p.bytes.length ≤ MAX_BUFFER_SIZE ∧
    ∀ c', (packetLoop atEnd).Visits c c' → c'.1.Fits

section
variable (atEnd : Err) {handshake : HandshakeRequest} {p : Frame} {rest : Bytes} {c : Connection}
  {later : List Bytes}

/-- After the second packet was read or given up, the rest of the stream is forwarded as it is. -/
theorem forwardToBackend_eq (hlater : ∀ chunk ∈ later, chunk ≠ [])
    (hc : Between (p.bytes ++ rest) later.flatten c) (hjoin : handshake.nextState = 2) :
    (IsRead atEnd p rest c later ∧ forwardToBackend atEnd handshake c later =
      encodeHandshakePacket handshake ++
        (match decodeLoginStartPacket p.packet handshake.protocolVersion with
          | .ok (_, loginStart) => encodeLoginStartPacket loginStart
          | .error _ => []) ++ rest) ∨
    (¬ IsRead atEnd p rest c later ∧ forwardToBackend atEnd handshake c later =
      encodeHandshakePacket handshake ++ p.bytes ++ rest) := by
  have hread := readPacket_ok_iff atEnd hc.reading
  unfold forwardToBackend readLoginStart readLoginStartPacket
  dsimp only
  rw [if_pos hjoin]
  rcases readPacket_outcome atEnd hc.reading with
    ⟨c', hok, hc'⟩ | ⟨err, c', herr, hc'⟩
  · refine .inl ⟨hread.1 ⟨_, _, hok⟩, ?_⟩
    have hne : ∀ chunk ∈ c'.2 ++ later, chunk ≠ [] := fun chunk hmem =>
      (List.mem_append.1 hmem).elim (hc'.chunks chunk) (hlater chunk)
    have hrest := hc'.unparsed_eq
    rw [hok]
    dsimp only
    cases decodeLoginStartPacket p.packet handshake.protocolVersion with
    | ok r =>
      dsimp only [Except.map]
      rw [forward_eq _ hne, List.flatten_append, ← hrest]
      simp only [List.append_assoc]
    | error err =>
      dsimp only [Except.map]
      rw [forward_eq _ hne, List.flatten_append, ← hrest]
      simp only [List.append_assoc, List.nil_append]
  · refine .inr ⟨fun h => ?_, ?_⟩
    · obtain ⟨packet, c'', hok⟩ := hread.2 h
      cases herr.symm.trans hok
    · have hne : ∀ chunk ∈ c'.2 ++ later, chunk ≠ [] := fun chunk hmem =>
        (List.mem_append.1 hmem).elim (hc'.chunks chunk) (hlater chunk)
      have hstream := hc'.unparsed_eq
      rw [herr]
      dsimp only
      rw [forward_eq _ hne, List.flatten_append, List.append_assoc _ p.bytes, ← hstream]
      simp only [List.append_assoc]

theorem not_transparent_of_dropped (hh : handshake.Encodable) :
    ¬ Transparent handshake p rest (encodeHandshakePacket handshake ++ rest) := by
  rintro ⟨h', p', hsent, -⟩
  rw [List.append_assoc] at hsent
  have hbytes : (handshakeFrame hh).bytes = encodeHandshakePacket handshake := rfl
  rw [← hbytes] at hsent
  obtain ⟨-, hrest⟩ := Frame.bytes_eq_of_append hsent
  have hlength := congrArg List.length hrest
  rw [List.length_append] at hlength
  have := p'.length_pos
  omega

theorem transparent_iff (hlater : ∀ chunk ∈ later, chunk ≠ [])
    (hc : Between (p.bytes ++ rest) later.flatten c) (hh : handshake.Encodable)
    (hjoin : handshake.nextState = 2) :
    Transparent handshake p rest (forwardToBackend atEnd handshake c later) ↔
      IsLoginStart p handshake.protocolVersion ∨ ¬ IsRead atEnd p rest c later := by
  have hhandshake := decodeHandshakePacket_handshakeFrame hh
  rcases forwardToBackend_eq atEnd hlater hc hjoin with ⟨hread, hsent⟩ | ⟨hread, hsent⟩
  · rw [hsent]
    cases hlogin : decodeLoginStartPacket p.packet handshake.protocolVersion with
    | ok r =>
      obtain ⟨n, loginStart⟩ := r
      refine ⟨fun _ => .inl ⟨_, hlogin⟩, ?_⟩
      intro _
      -- the packet was in the buffer
      have hlength : 2 * p.payload.length + 32 < 2 ^ 31 := by
        have hmax : p.bytes.length ≤ 8388608 := hread.2.1
        have := p.length_payload_le
        omega
      obtain ⟨hid, hl⟩ := encodable_of_decodeLoginStartPacket hlength hlogin
      refine ⟨handshakeFrame hh, loginStartFrame hl, rfl, hhandshake, hid.symm, ?_⟩
      rw [hlogin]
      dsimp only [Except.map]
      rw [decodeLoginStartPacket_loginStartFrame hl]
    | error err =>
      dsimp only
      rw [List.append_nil]
      refine ⟨fun h => absurd h (not_transparent_of_dropped hh), ?_⟩
      intro h
      rcases h with ⟨r, hr⟩ | h
      · cases hlogin.symm.trans hr
      · exact absurd hread h
  · rw [hsent]
    refine ⟨fun _ => .inr hread, fun _ => ⟨handshakeFrame hh, p, rfl, hhandshake, rfl, ?_⟩⟩
    split
    · next hlogin => exact hlogin
    · rfl

end

theorem readPacket_small (atEnd : Err) {h p : Frame} (hh : h.IsSmall) (hp : p.IsSmall)
    (chunks : List Bytes) (hchunks : ∀ chunk ∈ chunks, chunk ≠ [])
    (hstream : chunks.flatten = h.bytes ++ (p.bytes ++ [])) :
    Between (h.bytes ++ (p.bytes ++ [])) [] (.fresh, chunks) ∧
      ∃ c, readPacket atEnd (.fresh, chunks) = (.ok h.packet, c) ∧ Between (p.bytes ++ []) [] c ∧
        IsRead atEnd p [] c [] := by
  have hc : Between (h.bytes ++ (p.bytes ++ [])) [] (.fresh, chunks) :=
    hstream ▸ between_fresh hchunks
  have hbytes : bytesOf [h, p] = h.bytes ++ (p.bytes ++ []) := by
    simp [bytesOf]
  have hsmall : ∀ f ∈ [h, p], f.IsSmall := by
    intro f hf
    rcases List.mem_cons.1 hf with rfl | hf
    · exact hh
    · rw [List.mem_singleton.1 hf]
      exact hp
  obtain ⟨hfits, hfits', -⟩ : FitsAll atEnd 2 (.fresh, chunks) :=
    small_frames_fit _ hsmall (Nat.le_refl _) (hbytes ▸ hc) rfl
  obtain ⟨packet, c, hread⟩ := (readPacket_ok_iff atEnd hc.reading).2
    ⟨Nat.zero_le _, Nat.le_trans hh (by decide), hfits⟩
  rcases readPacket_outcome atEnd hc.reading with
    ⟨c₁, hread₁, hc₁⟩ | ⟨err, c₁, hread₁, -⟩
  · rw [hread₁] at hfits'
    exact ⟨hc, c₁, hread₁, hc₁, Nat.zero_le _, Nat.le_trans hp (by decide), hfits'⟩
  · cases hread₁.symm.trans hread

def shortHandshake : HandshakeRequest where
  protocolVersion := 0
  serverAddress := ""
  serverPort := 0
  nextState := 2

def shortHandshakeFrame : Frame where
  bytes := [6, 0, 0, 0, 0, 0, 2]
  varintLength := 1
  packetLength := 6
  packetIdLength := 1
  packetId := 0
  length_eq := rfl
  packetId_eq := rfl
  complete := rfl

/-- A Login Start with the name `A`. -/
def namedFrame : Frame where
  bytes := [3, 0, 1, 65]
  varintLength := 1
  packetLength := 3
  packetIdLength := 1
  packetId := 0
  length_eq := rfl
  packetId_eq := rfl
  complete := rfl

theorem decode_shortHandshakeFrame :
    decodeHandshakePacket shortHandshakeFrame.packet = .ok (7, shortHandshake) := by
  decide +kernel

/-- **Login forwarding is transparent** if and only if the second packet is a Login Start that the
proxy can parse, or the proxy gives up reading it: whatever chunks the client's packets and the rest
arrive in, the backend receives the same handshake, the same Login Start or packet, and the rest. -/
theorem login_forwarded (atEnd atEnd' : Err) (h p : Frame) (rest : Bytes) (c c' : Connection)
    (later : List Bytes) (hlater : ∀ chunk ∈ later, chunk ≠ [])
    (hc : Between (h.bytes ++ (p.bytes ++ rest)) later.flatten c) (n : Int)
    (handshake handshake' : HandshakeRequest)
    (hdecode : decodeHandshakePacket h.packet = .ok (n, handshake))
    (hjoin : handshake.nextState = 2)
    (hread : readHandshakePacket atEnd c = (.ok handshake', c')) :
    Transparent handshake p rest (forwardToBackend atEnd' handshake' c' later) ↔
      IsLoginStart p handshake.protocolVersion ∨ ¬ IsRead atEnd' p rest c' later := by
  unfold readHandshakePacket at hread
  rcases readPacket_outcome atEnd hc.reading with ⟨c₁, hok, hc₁⟩ | ⟨err, c₁, herr, -⟩
  · have hmax : h.bytes.length ≤ 8388608 :=
      ((readPacket_ok_iff atEnd hc.reading).1 ⟨_, _, hok⟩).2.1
    have hlength : h.payload.length + 32 < 2 ^ 31 := by
      have := h.length_payload_le
      omega
    rw [hok] at hread
    dsimp only at hread
    rw [hdecode] at hread
    cases hread
    exact transparent_iff atEnd' hlater hc₁ (encodable_of_decodeHandshakePacket hlength hdecode) hjoin
  · rw [herr] at hread
    cases hread

/-- A Login Start that arrives with part of the handshake is forwarded. -/
theorem login_forwarded_named :
    ∃ c', readHandshakePacket .connectionReset (.fresh, [[6, 0, 0], [0, 0, 0, 2, 3, 0, 1, 65]]) =
        (.ok shortHandshake, c') ∧
      Transparent shortHandshake namedFrame []
        (forwardToBackend .connectionReset shortHandshake c' []) := by
  obtain ⟨hc, c', hread, -, -⟩ := readPacket_small .connectionReset
    (h := shortHandshakeFrame) (p := namedFrame) (by decide) (by decide)
    [[6, 0, 0], [0, 0, 0, 2, 3, 0, 1, 65]] (by decide) rfl
  have hhandshake : readHandshakePacket .connectionReset
      (.fresh, [[6, 0, 0], [0, 0, 0, 2, 3, 0, 1, 65]]) = (.ok shortHandshake, c') := by
    unfold readHandshakePacket
    rw [hread]
    dsimp only
    rw [decode_shortHandshakeFrame]
    rfl
  have hlogin : decodeLoginStartPacket namedFrame.packet 0 = .ok (4, ⟨"A", none, []⟩) := by
    decide +kernel
  exact ⟨c', hhandshake, (login_forwarded .connectionReset .connectionReset shortHandshakeFrame
    namedFrame [] _ c' [] (by decide) hc 7 shortHandshake shortHandshake
    decode_shortHandshakeFrame rfl hhandshake).2 (.inl ⟨_, hlogin⟩)⟩

/-- A second packet that is not a Login Start is dropped. -/
theorem login_dropped :
    ∃ c', readHandshakePacket .connectionReset (.fresh, [[6, 0, 0, 0, 0, 0, 2], [1, 0]]) =
        (.ok shortHandshake, c') ∧
      forwardToBackend .connectionReset shortHandshake c' [] = [6, 0, 0, 0, 0, 0, 2] ∧
      ¬ Transparent shortHandshake emptyFrame []
        (forwardToBackend .connectionReset shortHandshake c' []) := by
  obtain ⟨-, c', hread, hc', hisRead⟩ := readPacket_small .connectionReset
    (h := shortHandshakeFrame) (p := emptyFrame) (by decide) (by decide)
    [[6, 0, 0, 0, 0, 0, 2], [1, 0]] (by decide) rfl
  have hencodable : shortHandshake.Encodable :=
    ⟨by decide, by decide, by decide⟩
  have hencode : encodeHandshakePacket shortHandshake = [6, 0, 0, 0, 0, 0, 2] := by
    decide +kernel
  have hlogin : decodeLoginStartPacket emptyFrame.packet 0 = .error .incompleteRead := by
    decide +kernel
  have hsent : forwardToBackend .connectionReset shortHandshake c' [] =
      encodeHandshakePacket shortHandshake ++ [] := by
    have hlater : ∀ chunk ∈ ([] : List Bytes), chunk ≠ [] := by decide
    rcases forwardToBackend_eq .connectionReset hlater hc'
        (show shortHandshake.nextState = 2 from rfl) with
      ⟨-, hsent⟩ | ⟨hnot, -⟩
    · rw [show shortHandshake.protocolVersion = 0 from rfl, hlogin] at hsent
      simpa using hsent
    · exact absurd hisRead hnot
  refine ⟨c', ?_, ?_, ?_⟩
  · unfold readHandshakePacket
    rw [hread]
    dsimp only
    rw [decode_shortHandshakeFrame]
    rfl
  · rw [hsent, hencode]
    rfl
  · rw [hsent]
    exact not_transparent_of_dropped hencodable

end Silkjam.Protocol
