import Silkjam.Protocol.LegacyReading

/-!
# Falling back from the legacy ping

The proxy first reads a client's bytes as a legacy ping, and where they are not one it reads them
again as a handshake. Nothing of what the first call received is lost: it has parsed nothing, and as
long as nothing is parsed the buffer only grows, so the second call finds room for every frame up to
the largest buffer (`fallback_loses_nothing`).
-/

namespace Silkjam.Protocol

open Loop

/-- The bytes of the stream that are received when `c` is what became of the connection. -/
def received (chunks : List Bytes) (c : Connection) : Bytes :=
  chunks.flatten.take (chunks.flatten.length - c.2.flatten.length)

section
variable {atEnd : Err} {stream u free : Bytes} {minFree : Int} {c c' : Connection}
  {r : PacketReader}

/-! ### The first call -/

/-- Nothing of the stream has been parsed, not even the length of a packet. -/
structure Untouched (stream : Bytes) (c : Connection) : Prop extends Unread stream c where
  packetLength : c.1.packetLength = none

theorem untouched_fresh {chunks : List Bytes} (h : ∀ chunk ∈ chunks, chunk ≠ []) :
    Untouched chunks.flatten (.fresh, chunks) :=
  ⟨unread_fresh h, rfl⟩

theorem Untouched.received_eq {chunks : List Bytes} (h : Untouched chunks.flatten c) :
    received chunks c = c.1.unparsed := by
  obtain ⟨u, free, hlayout, hstream⟩ := h.layout
  unfold received
  rw [hlayout.unparsed_eq, ← hstream, List.length_append, Nat.add_sub_cancel, List.take_left]

variable (atEnd) in
theorem Untouched.refill (h : Untouched stream c) (hshort : c.1.unparsed.length < MAX_BUFFER_SIZE) :
    (∃ c', refill (α := LegacyPingRequest) atEnd MIN_READ_SIZE c = .again c' ∧
      Untouched stream c') ∨
    ∃ c', refill (α := LegacyPingRequest) atEnd MIN_READ_SIZE c = .leave (.error atEnd, c') ∧
      Untouched stream c' := by
  obtain ⟨r, chunks⟩ := c
  obtain ⟨u, free, hlayout, hstream⟩ := h.layout
  rw [hlayout.unparsed_eq] at hshort
  obtain ⟨r₁, parsed₁, free₁, hr₁, hl₁, h₁, hpos, hparsed⟩ :=
    hlayout.ready (by decide) (room_of_unparsed hlayout hshort)
  obtain rfl := hparsed rfl
  have hlength : r₁.packetLength = none := hl₁.trans h.packetLength
  cases chunks with
  | nil =>
    exact .inr ⟨(r₁, []), refill_nil atEnd hr₁ h₁ hpos, ⟨⟨u, free₁, h₁, hstream⟩, h.chunks⟩,
      hlength⟩
  | cons chunk chunks =>
    obtain ⟨r', hturn, -, hl'⟩ := refill_receives (α := LegacyPingRequest) atEnd chunks hr₁ h₁ hpos
      (h.chunks chunk (by simp))
    rcases Unread.refill atEnd hlayout hstream h.chunks hshort with ⟨c', hagain, hc'⟩ | ⟨-, c', hleave⟩
    · obtain rfl := Turn.again.inj (hturn.symm.trans hagain)
      exact .inl ⟨_, hagain, hc', hl'.trans hlength⟩
    · cases hturn.symm.trans hleave

theorem Untouched.turn (atEnd : Err) (h : Untouched stream c) :
    (∃ request c', legacyPingTurn atEnd c = .leave (.ok request, c')) ∨
    (∃ err c', legacyPingTurn atEnd c = .leave (.error err, c') ∧ Untouched stream c') ∨
    ∃ c', legacyPingTurn atEnd c = .again c' ∧ Untouched stream c' := by
  unfold legacyPingTurn
  cases hdecode : decodeLegacyPing c.1.unparsed with
  | ok result => exact .inl ⟨_, _, rfl⟩
  | error err =>
    by_cases herr : err = .incompleteRead
    · subst herr
      have hlen := length_lt_of_incomplete hdecode
      have hmax : 29 + 65536 < MAX_BUFFER_SIZE := by decide
      rcases h.refill atEnd (by omega) with ⟨c', hagain, hc'⟩ | ⟨c', hleave, hc'⟩
      · exact .inr (.inr ⟨c', hagain, hc'⟩)
      · exact .inr (.inl ⟨atEnd, c', hleave, hc'⟩)
    · refine .inr (.inl ⟨err, c, ?_, h⟩)
      split
      · next heq => exact absurd (Except.error.inj heq) herr
      · next heq => rw [Except.error.inj heq]
      · next heq => cases heq

theorem readLegacyPing_untouched (h : Untouched stream c) {err : Err}
    (hread : readLegacyPing atEnd c = (.error err, c')) : Untouched stream c' := by
  have hrun : ∀ err c', readLegacyPing atEnd c = (.error err, c') → Untouched stream c' := by
    apply (legacyPingLoop atEnd).run_spec (P := Untouched stream)
      (Q := fun out => ∀ err c', out = (.error err, c') → Untouched stream c') h
    · intro c₁ c₂ _ h₁ hturn
      rcases h₁.turn atEnd with ⟨request, c₃, hleave⟩ | ⟨err, c₃, hleave, -⟩ | ⟨c₃, hagain, h₃⟩
      · cases hleave.symm.trans hturn
      · cases hleave.symm.trans hturn
      · cases hagain.symm.trans hturn
        exact h₃
    · intro c₁ out _ h₁ hturn
      rcases h₁.turn atEnd with ⟨request, c₃, hleave⟩ | ⟨err, c₃, hleave, h₃⟩ | ⟨c₃, hagain, -⟩
      · cases hleave.symm.trans hturn
        rintro err c' ⟨⟩
      · cases hleave.symm.trans hturn
        rintro err c' ⟨⟩
        exact h₃
      · cases hagain.symm.trans hturn
  exact hrun err c' hread

/-! ### The second call -/

variable {f : Frame} {s : Bytes}

theorem Untouched.between (h : Untouched stream c) : Between stream [] c where
  holds := by
    obtain ⟨u, free, hlayout, hstream⟩ := h.layout
    exact ⟨u, ⟨[], free, hlayout⟩, by rw [List.append_nil, hstream]⟩
  packetLength := h.packetLength
  chunks := h.chunks

theorem PacketReader.minFree_le (h : r.minFree = some minFree) : minFree ≤ MIN_READ_SIZE := by
  unfold PacketReader.minFree at h
  split at h
  · cases h
    exact le_rfl
  · cases h
  · split at h
    · cases h
      exact Int.min_le_left _ _
    · cases h

/-- A buffer of unparsed bytes alone is never halved: it has so little free space that more than
three quarters of it are occupied. -/
theorem PacketReader.Layout.fits (h : r.Layout [] u free) : r.Fits := by
  intro minFree hmin hfree hhalve
  have hle := PacketReader.minFree_le hmin
  have hi := h.i_eq
  have hdefault := h.default_le
  have hquarter : r.n >>> 2 = r.n / 4 := Nat.shiftRight_eq_div_pow r.n 2
  have hsizes : DEFAULT_BUFFER_SIZE = 4 * MIN_READ_SIZE := by decide
  rw [List.length_nil] at hi
  omega

theorem Reading.unparsed_again (hc : Reading f s [] c) (h : ∃ u free, c.1.Layout [] u free)
    (hturn : packetTurn atEnd c = .again c') : ∃ u free, c'.1.Layout [] u free := by
  obtain ⟨r, chunks⟩ := c
  obtain ⟨u, free, hlayout⟩ := h
  have hstream := hc.unparsed_eq
  rw [hlayout.unparsed_eq] at hstream
  rcases hc.turn atEnd ⟨_, _, hlayout⟩ hstream with
    ⟨-, -, hleave⟩ | ⟨-, packetLength, minFree, hmin, -, -, hrefill⟩
  · cases hleave.symm.trans hturn
  · have hlength := f.packetLength_pos
    have hread : MIN_READ_SIZE = 1024 := rfl
    have hlayout' : { r with packetLength := packetLength : PacketReader }.Layout [] u free :=
      ⟨hlayout.1, hlayout.2, hlayout.3, hlayout.4, hlayout.5, hlayout.6, hlayout.7⟩
    by_cases hraise : ¬ { r with packetLength := packetLength : PacketReader }.Room minFree ∨
        chunks = []
    · obtain ⟨err, r', hleave, -⟩ := refill_raises (α := Packet) atEnd hlayout' hraise
      cases hleave.symm.trans (hrefill.symm.trans hturn)
    · rw [not_or, not_not] at hraise
      obtain ⟨chunk, chunks, rfl⟩ := List.exists_cons_of_ne_nil hraise.2
      obtain ⟨r₁, parsed₁, free₁, hr₁, -, h₁, hpos, hparsed⟩ := hlayout'.ready (by omega) hraise.1
      obtain rfl := hparsed rfl
      obtain ⟨r', hagain, h', -⟩ := refill_receives (α := Packet) atEnd chunks hr₁ h₁ hpos
        (hc.chunks chunk (by simp))
      cases hagain.symm.trans (hrefill.symm.trans hturn)
      exact ⟨_, _, h'⟩

variable (atEnd) in
theorem Untouched.readPacket (h : Untouched (f.bytes ++ s) c)
    (hmax : f.bytes.length ≤ MAX_BUFFER_SIZE) :
    ∃ c', readPacket atEnd c = (.ok f.packet, c') ∧ Between s [] c' := by
  have hreading : Reading f s [] c := h.between.reading
  have hfits (c₁ : Connection) (hv : (packetLoop atEnd).Visits c c₁) : c₁.1.Fits := by
    have hunparsed : ∃ u free, c₁.1.Layout [] u free := by
      apply hv.invariant (P := fun c => ∃ u free, c.1.Layout [] u free)
      · obtain ⟨u, free, hlayout, -⟩ := h.layout
        exact ⟨u, free, hlayout⟩
      · intro c₂ c₃ hv₂ h₂ hturn
        exact (hreading.visits hv₂).unparsed_again h₂ hturn
    obtain ⟨u, free, hlayout⟩ := hunparsed
    exact hlayout.fits
  obtain ⟨packet, c', hok⟩ := (readPacket_ok_iff atEnd hreading).2 ⟨Nat.zero_le _, hmax, hfits⟩
  rcases readPacket_outcome atEnd hreading with ⟨c₁, hread, hc₁⟩ | ⟨err, c₁, hread, -⟩
  · exact ⟨c₁, hread, hc₁⟩
  · cases hread.symm.trans hok

end

/-- **Falling back loses nothing**: if reading a legacy ping ends with an exception, on any stream
in any chunks, all that was received is unparsed; and if the stream begins with a frame of at most 8
MiB, reading a packet then returns what decoding the stream does and leaves what was received after
that frame. -/
theorem fallback_loses_nothing (atEnd atEnd' : Err) (chunks : List Bytes)
    (hchunks : ∀ chunk ∈ chunks, chunk ≠ []) {err : Err} {c : Connection}
    (hread : readLegacyPing atEnd (.fresh, chunks) = (.error err, c)) :
    c.1.unparsed = received chunks c ∧ received chunks c ++ c.2.flatten = chunks.flatten ∧
      ∀ (f : Frame) (s : Bytes), chunks.flatten = f.bytes ++ s →
        f.bytes.length ≤ MAX_BUFFER_SIZE →
        ∃ c', readPacket atEnd' c = (decodePacket chunks.flatten, c') ∧
          decodePacket chunks.flatten = .ok f.packet ∧
          c'.1.unparsed = (received chunks c').drop f.bytes.length ∧
          received chunks c' ++ c'.2.flatten = chunks.flatten := by
  have h := readLegacyPing_untouched (untouched_fresh hchunks) hread
  refine ⟨h.received_eq.symm, ?_, ?_⟩
  · have hstream := h.between.unparsed_eq
    rwa [List.append_nil, ← h.received_eq] at hstream
  · intro f s hstream hmax
    rw [hstream] at h
    obtain ⟨c', hpacket, hbetween⟩ := h.readPacket atEnd' hmax
    have hrest := hbetween.unparsed_eq
    rw [List.append_nil] at hrest
    have hreceived : received chunks c' = f.bytes ++ c'.1.unparsed := by
      unfold received
      rw [hstream, ← hrest, ← List.append_assoc, List.length_append, Nat.add_sub_cancel,
        List.take_left]
    refine ⟨c', ?_, ?_, ?_, ?_⟩
    · rw [hstream, f.decodePacket_append]
      exact hpacket
    · rw [hstream]
      exact f.decodePacket_append s
    · rw [hreceived, List.drop_left]
    · rw [hreceived, hstream, ← hrest, List.append_assoc]

/-- A packet without payload and a byte of the next, in two pieces: no legacy ping, but a packet. -/
theorem fallback_loses_nothing_short :
    ∃ err c c', readLegacyPing .connectionReset (.fresh, [[1], [0, 7]]) = (.error err, c) ∧
      err.isProtocol = true ∧ readPacket .timeout c = (.ok emptyFrame.packet, c') ∧
      c'.1.unparsed = (received [[1], [0, 7]] c').drop 2 := by
  have hchunks : ∀ chunk ∈ ([[1], [0, 7]] : List Bytes), chunk ≠ [] := by decide
  obtain ⟨u, rest, hstream, hends⟩ :=
    readLegacyPing_ends .connectionReset (unread_fresh hchunks)
  have hbad : u ≠ [] → Refuted u := by
    intro hne
    obtain ⟨b, u, rfl⟩ := List.exists_cons_of_ne_nil hne
    obtain ⟨rfl, -⟩ := List.cons.inj hstream
    exact .inl ⟨by simp, by simp⟩
  obtain ⟨err, hresult, hprotocol⟩ : ∃ err,
      (readLegacyPing .connectionReset (.fresh, [[1], [0, 7]])).1 = .error err ∧
        err.isProtocol = true := by
    rcases hends with ⟨n, request, hdecode, -⟩ | ⟨err, -, hprotocol, hresult⟩ | ⟨rfl, hdecode, -⟩
    · by_cases hne : u = []
      · subst hne
        cases hdecode
      · obtain ⟨err, herr, -⟩ := (hbad hne).decodeLegacyPing_error
        cases herr.symm.trans hdecode
    · exact ⟨err, hresult, hprotocol⟩
    · have hne : u ≠ [] := by
        rintro rfl
        cases hstream
      obtain ⟨err, herr, hprotocol⟩ := (hbad hne).decodeLegacyPing_error
      cases herr.symm.trans hdecode
      cases hprotocol
  have hread : readLegacyPing .connectionReset (.fresh, [[1], [0, 7]]) =
      (.error err, (readLegacyPing .connectionReset (.fresh, [[1], [0, 7]])).2) :=
    Prod.ext hresult rfl
  obtain ⟨-, -, hpacket⟩ := fallback_loses_nothing .connectionReset .timeout _ hchunks hread
  obtain ⟨c', hpacket, hdecode, hunparsed, -⟩ := hpacket emptyFrame [7] rfl (by decide)
  rw [hdecode] at hpacket
  exact ⟨err, _, c', hread, hprotocol, hpacket, hunparsed⟩

end Silkjam.Protocol
