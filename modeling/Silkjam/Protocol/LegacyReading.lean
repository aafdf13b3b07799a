import Silkjam.Protocol.Calls
import Silkjam.Protocol.LegacyFrame

/-!
# Reading a legacy ping

`_read_legacy_ping` decodes what has arrived, and reads more until there is a request or an error.
On a new reader the buffer only grows, and never has to hold more than a header and as many bytes as
a remaining length can say, so nothing but the decoder ends the call while bytes arrive
(`readLegacyPing_ends`). Where decoding is confined to the frame, the bytes that happen to have
arrived do not matter, and the call ends alike for every fragmentation (`legacyPing_confined_iff`).
-/

namespace Silkjam.Protocol

open Loop

/-- One turn of the loop of `_read_legacy_ping`. -/
def legacyPingTurn (atEnd : Err) (c : Connection) : Turn Connection (Outcome LegacyPingRequest) :=
  match decodeLegacyPing c.1.unparsed with
  | .error .incompleteRead => refill atEnd MIN_READ_SIZE c
  | .error err => .leave (.error err, c)
  | .ok (totalLength, legacyPing) =>
    .leave (.ok legacyPing, { c.1 with i := c.1.i + totalLength }, c.2)

theorem legacyPingTurn_again {atEnd : Err} {c c' : Connection}
    (h : legacyPingTurn atEnd c = .again c') : c'.2.flatten.length < c.2.flatten.length := by
  unfold legacyPingTurn at h
  split at h
  · exact refill_again h
  · cases h
  · cases h

/-- The loop of `_read_legacy_ping`. -/
def legacyPingLoop (atEnd : Err) : Body Connection (Outcome LegacyPingRequest) where
  turn := legacyPingTurn atEnd
  size c := c.2.flatten.length
  size_lt := legacyPingTurn_again

def readLegacyPing (atEnd : Err) (c : Connection) : Outcome LegacyPingRequest :=
  (legacyPingLoop atEnd).run c

section
variable {atEnd : Err} {stream : Bytes} {c : Connection}

/-- Nothing of the stream has been parsed; what has not been received is in chunks. -/
structure Unread (stream : Bytes) (c : Connection) : Prop where
  layout : ∃ u free, c.1.Layout [] u free ∧ u ++ c.2.flatten = stream
  chunks : ∀ chunk ∈ c.2, chunk ≠ []

theorem unread_fresh {chunks : List Bytes} (h : ∀ chunk ∈ chunks, chunk ≠ []) :
    Unread chunks.flatten (.fresh, chunks) :=
  ⟨⟨[], _, PacketReader.layout_fresh, rfl⟩, h⟩

/-- Data that is incomplete is short of what a remaining length can say. -/
theorem length_lt_of_incomplete {data : Bytes}
    (h : decodeLegacyPing data = .error .incompleteRead) :
    data.length < 29 + 65536 := by
  obtain ⟨_, -, -, -, heq⟩ | ⟨-, err, heq, hprotocol⟩ | ⟨⟨hlen, -⟩ | ⟨hheader, hlen⟩, -⟩ :=
    decodeLegacyPing_cases data
  · rw [h] at heq
    cases heq
  · rw [h] at heq
    cases heq
    cases hprotocol
  · omega
  · have hlt : remainingLength data < 65536 := ofBytes_bytesAt_lt (by have := hheader.1; omega)
    omega

theorem room_of_unparsed {r : PacketReader} {u free : Bytes} (h : r.Layout [] u free)
    (hlen : u.length < MAX_BUFFER_SIZE) : r.Room MIN_READ_SIZE := by
  apply h.room hlen
  intro hfree hhalve
  have hi := h.i_eq
  have hdefault := h.default_le
  have hquarter : r.n >>> 2 = r.n / 4 := Nat.shiftRight_eq_div_pow r.n 2
  have hsizes : DEFAULT_BUFFER_SIZE = 4 * MIN_READ_SIZE := by decide
  rw [List.length_nil] at hi
  omega

theorem Unread.refill (atEnd : Err) {u free : Bytes} (hlayout : c.1.Layout [] u free)
    (hstream : u ++ c.2.flatten = stream) (hchunks : ∀ chunk ∈ c.2, chunk ≠ [])
    (hlen : u.length < MAX_BUFFER_SIZE) :
    (∃ c', refill (α := LegacyPingRequest) atEnd MIN_READ_SIZE c = .again c' ∧ Unread stream c') ∨
    (u = stream ∧ ∃ c', refill (α := LegacyPingRequest) atEnd MIN_READ_SIZE c =
      .leave (.error atEnd, c')) := by
  obtain ⟨r, chunks⟩ := c
  obtain ⟨r₁, parsed₁, free₁, hr₁, -, h₁, hpos, hparsed⟩ :=
    hlayout.ready (by decide) (room_of_unparsed hlayout hlen)
  obtain rfl := hparsed rfl
  cases chunks with
  | nil =>
    exact .inr ⟨by simpa using hstream, (r₁, []), refill_nil atEnd hr₁ h₁ hpos⟩
  | cons chunk chunks =>
    have hchunk := hchunks chunk (by simp)
    obtain ⟨r', hturn, hlayout', -⟩ := refill_receives (α := LegacyPingRequest) atEnd chunks hr₁ h₁
      hpos hchunk
    refine .inl ⟨_, hturn, ⟨_, _, hlayout', ?_⟩, received_ne_nil hchunks⟩
    rw [← hstream, List.append_assoc]
    exact congrArg (u ++ ·) (flatten_received free₁.length chunk chunks)

/-- The call may end like this: with what the decoder makes of some of the stream, which is all of
it if that is incomplete. -/
def PingEnds (atEnd : Err) (stream : Bytes) (result : Except Err LegacyPingRequest) : Prop :=
  ∃ u rest, u ++ rest = stream ∧
    ((∃ n request, decodeLegacyPing u = .ok (n, request) ∧ result = .ok request) ∨
      (∃ err, decodeLegacyPing u = .error err ∧ err.isProtocol = true ∧ result = .error err) ∨
      (rest = [] ∧ decodeLegacyPing u = .error .incompleteRead ∧ result = .error atEnd))

theorem Unread.turn (atEnd : Err) (hc : Unread stream c) :
    (∃ out, legacyPingTurn atEnd c = .leave out ∧ PingEnds atEnd stream out.1) ∨
      ∃ c', legacyPingTurn atEnd c = .again c' ∧ Unread stream c' := by
  obtain ⟨u, free, hlayout, hstream⟩ := hc.layout
  unfold legacyPingTurn
  rw [hlayout.unparsed_eq]
  obtain ⟨request, -, -, -, hdecode⟩ | ⟨-, err, hdecode, hprotocol⟩ | ⟨-, hdecode⟩ :=
    decodeLegacyPing_cases u
  · rw [hdecode]
    exact .inl ⟨_, rfl, u, _, hstream, .inl ⟨_, request, hdecode, rfl⟩⟩
  · have hne : err ≠ .incompleteRead := by
      rintro rfl
      cases hprotocol
    rw [hdecode]
    refine .inl ⟨(.error err, c), ?_, u, _, hstream, .inr (.inl ⟨err, hdecode, hprotocol, rfl⟩)⟩
    split
    · next heq => exact absurd (Except.error.inj heq) hne
    · next heq => rw [Except.error.inj heq]
    · next heq => cases heq
  · have hlen := length_lt_of_incomplete hdecode
    have hmax : 29 + 65536 < MAX_BUFFER_SIZE := by decide
    rw [hdecode]
    obtain ⟨c', hagain, hc'⟩ | ⟨rfl, c', hleave⟩ :=
      Unread.refill atEnd hlayout hstream hc.chunks (by omega)
    · exact .inr ⟨c', hagain, hc'⟩
    · exact .inl ⟨_, hleave, u, [], List.append_nil u, .inr (.inr ⟨rfl, hdecode, rfl⟩)⟩

/-- **The call ends** so for every fragmentation. -/
theorem readLegacyPing_ends (atEnd : Err) (hc : Unread stream c) :
    PingEnds atEnd stream (readLegacyPing atEnd c).1 := by
  refine (legacyPingLoop atEnd).run_spec (P := Unread stream)
    (Q := fun out => PingEnds atEnd stream out.1) hc ?_ ?_
  · intro c₁ c₂ _ hc₁ hturn
    obtain ⟨out, hleave, -⟩ | ⟨c', hagain, hc'⟩ := hc₁.turn atEnd
    · cases hleave.symm.trans hturn
    · cases hagain.symm.trans hturn
      exact hc'
  · intro c₁ out _ hc₁ hturn
    obtain ⟨out', hleave, hends⟩ | ⟨c', hagain, -⟩ := hc₁.turn atEnd
    · cases hleave.symm.trans hturn
      exact hends
    · cases hagain.symm.trans hturn

/-- A result but for what an exception carries besides its being an `MCProtocolError`. -/
def outcomeKind (result : Except Err LegacyPingRequest) : Except Bool LegacyPingRequest :=
  result.mapError Err.isProtocol

/-- What the decoder makes of the whole stream. -/
def streamKind (atEnd : Err) (stream : Bytes) : Except Bool LegacyPingRequest :=
  match decodeLegacyPing stream with
  | .ok (_, request) => .ok request
  | .error err => .error (if err = .incompleteRead then atEnd.isProtocol else err.isProtocol)

/-- Where decoding is confined to the frame, the call ends with what the decoder makes of the whole
stream. -/
theorem PingEnds.kind_eq {result : Except Err LegacyPingRequest}
    (h : PingEnds atEnd stream result) (hconfined : ∀ k, Confined (stream.take k)) :
    outcomeKind result = streamKind atEnd stream := by
  obtain ⟨u, rest, rfl, hends⟩ := h
  have hu : Confined u := by
    have htake := hconfined u.length
    rwa [List.take_left] at htake
  unfold streamKind
  obtain ⟨n, request, hdecode, rfl⟩ | ⟨err, hdecode, hprotocol, rfl⟩ | ⟨rfl, hdecode, rfl⟩ := hends
  · have hrest := (hu.1 n request hdecode).2.2 (u.drop n ++ rest)
    rw [← List.append_assoc, List.take_append_drop] at hrest
    rw [hrest]
    rfl
  · obtain ⟨err', hdecode', hprotocol'⟩ := hu.2 err hdecode hprotocol rest
    have hne : err' ≠ .incompleteRead := by
      rintro rfl
      cases hprotocol'
    rw [hdecode']
    dsimp only
    rw [if_neg hne, hprotocol', ← hprotocol]
    rfl
  · rw [List.append_nil, hdecode]
    rfl

end

/-- **Decoding a legacy ping is confined to its frame** exactly if the remaining length agrees with
the fields; and a stream of which this holds, however much has arrived, is read alike for every
fragmentation. -/
theorem legacyPing_confined_iff (data : Bytes) :
    (Confined data ↔ RemainingAgrees data) ∧
    ∀ (atEnd : Err) (chunks chunks' : List Bytes), (∀ chunk ∈ chunks, chunk ≠ []) →
      (∀ chunk ∈ chunks', chunk ≠ []) → chunks.flatten = data → chunks'.flatten = data →
      (∀ k, RemainingAgrees (data.take k)) →
      outcomeKind (readLegacyPing atEnd (.fresh, chunks)).1 =
        outcomeKind (readLegacyPing atEnd (.fresh, chunks')).1 := by
  refine ⟨confined_iff data, ?_⟩
  intro atEnd chunks chunks' hchunks hchunks' h h' hagrees
  have hconfined (k : Nat) : Confined (data.take k) := (confined_iff _).2 (hagrees k)
  have hends := readLegacyPing_ends atEnd (unread_fresh hchunks)
  have hends' := readLegacyPing_ends atEnd (unread_fresh hchunks')
  rw [h] at hends
  rw [h'] at hends'
  rw [hends.kind_eq hconfined, hends'.kind_eq hconfined]

/-- A ping of the hostname `A`, whole and in two pieces. -/
def shortPing : Bytes :=
  legacyHeader ++ [0, 9, 78, 0, 1, 0, 65, 0, 0, 0x63, 0xDD]

theorem shortPing_same : outcomeKind (readLegacyPing .timeout (.fresh, [shortPing])).1 =
    outcomeKind (readLegacyPing .timeout (.fresh, [shortPing.take 30, shortPing.drop 30])).1 := by
  have hlength : shortPing.length = 38 := by decide
  have hshort : ∀ k < 38, (shortPing.take k).length < 29 ∨
      (shortPing.take k).length < 29 + remainingLength (shortPing.take k) := by
    decide
  refine (legacyPing_confined_iff shortPing).2 .timeout _ _ (by decide) (by decide) (by decide)
    (by decide) fun k => ?_
  intro hheader hlen _
  rcases Nat.lt_or_ge k 38 with hk | hk
  · have := hshort k hk
    have := hheader.1
    omega
  · rw [List.take_of_length_le (by omega)]
    decide

/-- A remaining length of 0: 29 bytes are malformed, and with seven more they are a request. -/
theorem not_confined : ¬ ∀ data, Confined data := by
  intro h
  have hagrees := (confined_iff (legacyHeader ++ [0, 0])).1 (h _)
  have hfield := hagrees ⟨by decide, by decide⟩ (by decide) (.inl (by decide))
  exact absurd hfield (by decide)

end Silkjam.Protocol
