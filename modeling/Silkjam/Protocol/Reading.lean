import Silkjam.Protocol.Reader

/-!
# Reading a frame

Whatever the chunks in which a stream of frames arrives, a call of `_read_packet` either returns the
packet of the first frame, and keeps the rest of what was received unparsed, or raises and keeps all
of it (`readPacket_outcome`). It returns the packet if the frame arrives, is not larger than the
largest buffer, and the buffer is never halved below what it has to hold (`readPacket_ok_iff`); the
last may fail, since the buffer is halved when up to three quarters of it are occupied.
-/

namespace Silkjam.Protocol

open Loop

/-! ### Room in the buffer -/

/-- The free space that a turn asks for, if it reads more. -/
def PacketReader.minFree (r : PacketReader) : Option Int :=
  match r.decodeLength with
  | .error .incompleteRead => some MIN_READ_SIZE
  | .error _ => none
  | .ok packetLength =>
    match decodePacket r.unparsed with
    | .error .incompleteRead => some (min MIN_READ_SIZE packetLength)
    | _ => none

/-- If the turn moves to another buffer and takes one of half the size, the unparsed bytes fill less
than that. -/
def PacketReader.Fits (r : PacketReader) : Prop :=
  ∀ minFree, r.minFree = some minFree → r.n - r.j < minFree →
    r.j - r.i < (r.n : Int) - (r.n >>> 2 : Nat) →
      r.j - r.i < (max (r.n >>> 1) DEFAULT_BUFFER_SIZE : Nat)

section
variable {α : Type} (atEnd : Err) {r : PacketReader} {chunks : List Bytes}
  {parsed u free : Bytes} {minFree : Int}

/-- The buffer that a turn reads into has room for more than the unparsed bytes. -/
def PacketReader.Room (r : PacketReader) (minFree : Int) : Prop :=
  r.n - r.j < minFree → r.j - r.i < (resized r.n (r.j - r.i) : Nat)

theorem PacketReader.Layout.room (h : r.Layout parsed u free) (hmax : u.length < MAX_BUFFER_SIZE)
    (hfits : r.n - r.j < minFree → r.j - r.i < (r.n : Int) - (r.n >>> 2 : Nat) →
      r.j - r.i < (max (r.n >>> 1) DEFAULT_BUFFER_SIZE : Nat)) : r.Room minFree := by
  intro hfree
  have hfits := hfits hfree
  have hn := h.n_eq
  have hdefault := h.default_le
  have hdouble : r.n <<< 1 = 2 * r.n := by
    rw [Nat.shiftLeft_eq]
    omega
  have hpos : 0 < DEFAULT_BUFFER_SIZE ∧ 0 < MIN_READ_SIZE := by decide
  rw [h.occupied_eq] at hfits ⊢
  unfold resized
  split
  · next hhalve => exact hfits hhalve
  · split <;> omega

theorem PacketReader.not_room (hfree : r.n - r.j < minFree)
    (hhalve : r.j - r.i < (r.n : Int) - (r.n >>> 2 : Nat))
    (hfull : ¬ r.j - r.i < (max (r.n >>> 1) DEFAULT_BUFFER_SIZE : Nat)) : ¬ r.Room minFree := by
  intro hroom
  have hroom := hroom hfree
  unfold resized at hroom
  rw [if_pos hhalve] at hroom
  exact hfull hroom

/-! ### One turn -/

theorem PacketReader.Layout.ready (h : r.Layout parsed u free) (hmin : 0 < minFree)
    (hroom : r.Room minFree) :
    ∃ r₁ parsed₁ free₁, (if r.n - r.j < minFree then r.reallocate else some r) = some r₁ ∧
      r₁.packetLength = r.packetLength ∧ r₁.Layout parsed₁ u free₁ ∧ 0 < free₁.length ∧
      (parsed = [] → parsed₁ = []) := by
  have hoccupied := h.occupied_eq
  by_cases hfree : r.n - r.j < minFree
  · have hlt := hroom hfree
    rw [hoccupied] at hlt
    obtain ⟨r₁, hr₁, hl₁, h₁⟩ := h.reallocate (by omega)
    refine ⟨r₁, _, _, by rw [if_pos hfree, hr₁], hl₁, h₁, ?_, fun _ => rfl⟩
    rw [List.length_replicate]
    omega
  · have hfree_eq := h.free_eq
    exact ⟨r, parsed, free, if_neg hfree, rfl, h, by omega, id⟩

theorem flatten_received (k : Nat) (chunk : Bytes) (chunks : List Bytes) :
    chunk.take k ++ (if chunk.length ≤ k then chunks else chunk.drop k :: chunks).flatten =
      (chunk :: chunks).flatten := by
  split
  · next hle => rw [List.take_of_length_le hle, List.flatten_cons]
  · rw [List.flatten_cons, ← List.append_assoc, List.take_append_drop, List.flatten_cons]

theorem received_ne_nil {k : Nat} {chunk : Bytes} {chunks : List Bytes}
    (h : ∀ c ∈ chunk :: chunks, c ≠ []) :
    ∀ c ∈ (if chunk.length ≤ k then chunks else chunk.drop k :: chunks), c ≠ [] := by
  rw [List.forall_mem_cons] at h
  split
  · exact h.2
  · refine List.forall_mem_cons.2 ⟨?_, h.2⟩
    rw [← List.length_pos_iff, List.length_drop]
    omega

theorem refill_receives {r₁ : PacketReader} {chunk : Bytes} (chunks : List Bytes)
    (hr₁ : (if r.n - r.j < minFree then r.reallocate else some r) = some r₁)
    (h₁ : r₁.Layout parsed u free) (hpos : 0 < free.length) (hchunk : chunk ≠ []) :
    ∃ r', refill (α := α) atEnd minFree (r, chunk :: chunks) =
        .again (r', if chunk.length ≤ free.length then chunks
          else chunk.drop free.length :: chunks) ∧
      r'.Layout parsed (u ++ chunk.take free.length) (free.drop chunk.length) ∧
      r'.packetLength = r₁.packetLength := by
  have hfree := h₁.free_eq
  have hlen : 0 < chunk.length := List.length_pos_iff.2 hchunk
  obtain ⟨data, hset, hlayout⟩ := h₁.receive (chunk.take free.length)
    (by rw [List.length_take]; omega)
  have hdrop : free.drop (chunk.take free.length).length = free.drop chunk.length := by
    rw [List.length_take]
    rcases Nat.le_total free.length chunk.length with hle | hle
    · rw [Nat.min_eq_left hle, List.drop_length, List.drop_eq_nil_of_le hle]
    · rw [Nat.min_eq_right hle]
  have hread : streamRead (r₁.n - r₁.j) (chunk :: chunks) =
      (chunk.take free.length, if chunk.length ≤ free.length then chunks
        else chunk.drop free.length :: chunks) := by
    unfold streamRead
    dsimp only
    rw [if_neg (by omega), hfree, Int.toNat_natCast]
    by_cases hfit : chunk.length ≤ free.length
    · rw [if_pos hfit, if_pos hfit, List.take_of_length_le hfit]
    · rw [if_neg hfit, if_neg hfit]
  have hne : chunk.take free.length ≠ [] := by
    rw [← List.length_pos_iff, List.length_take]
    omega
  obtain ⟨b, newData, hnew⟩ := List.exists_cons_of_ne_nil hne
  rw [hdrop] at hlayout
  unfold refill
  dsimp only
  rw [hr₁]
  dsimp only
  rw [if_neg (by omega), hread, hnew]
  dsimp only
  rw [← hnew, hset]
  exact ⟨_, rfl, hlayout, rfl⟩

/-- With nothing more to come the call ends, on the buffer that it would have read into. -/
theorem refill_nil {r₁ : PacketReader}
    (hr₁ : (if r.n - r.j < minFree then r.reallocate else some r) = some r₁)
    (h₁ : r₁.Layout parsed u free) (hpos : 0 < free.length) :
    refill (α := α) atEnd minFree (r, []) = .leave (.error atEnd, r₁, []) := by
  have hfree := h₁.free_eq
  unfold refill
  dsimp only
  rw [hr₁]
  dsimp only
  rw [if_neg (by omega)]
  rfl

theorem refill_raises (h : r.Layout parsed u free) (hraise : ¬ r.Room minFree ∨ chunks = []) :
    ∃ err r', refill (α := α) atEnd minFree (r, chunks) = .leave (.error err, r', chunks) ∧
      r'.Holds u := by
  have hoccupied := h.occupied_eq
  unfold refill
  dsimp only
  by_cases hfree : r.n - r.j < minFree
  · rw [if_pos hfree]
    rcases Nat.lt_or_ge (resized r.n u.length) u.length with hlt | hle
    · rw [h.reallocate_eq_none hlt]
      exact ⟨_, _, rfl, parsed, free, h⟩
    · obtain ⟨r₁, hr₁, -, h₁⟩ := h.reallocate hle
      rw [hr₁]
      dsimp only
      split
      · exact ⟨_, _, rfl, _, _, h₁⟩
      · next hj =>
        -- there is room, so nothing more comes
        have hchunks : chunks = [] := by
          refine hraise.resolve_left fun hno => hno fun _ => ?_
          have hn := h₁.n_eq
          have hj₁ := h₁.j_eq
          rw [List.length_replicate] at hn
          rw [hoccupied]
          omega
        subst hchunks
        exact ⟨_, _, rfl, _, _, h₁⟩
  · rw [if_neg hfree]
    have hchunks : chunks = [] := hraise.resolve_left fun hno => hno fun hlt => absurd hlt hfree
    subst hchunks
    dsimp only
    split
    · exact ⟨_, _, rfl, _, _, h⟩
    · exact ⟨_, _, rfl, _, _, h⟩

/-! ### Reading a frame -/

variable {f : Frame} {s later : Bytes} {c : Connection}

/-- The unparsed bytes and those that have not been received make up the stream; the bytes of
`later` do not arrive during the call. -/
structure Pending (stream later : Bytes) (c : Connection) : Prop where
  holds : ∃ u, c.1.Holds u ∧ u ++ c.2.flatten ++ later = stream
  chunks : ∀ chunk ∈ c.2, chunk ≠ []

/-- The call is reading the frame `f`, which `s` follows. -/
structure Reading (f : Frame) (s later : Bytes) (c : Connection) : Prop
    extends Pending (f.bytes ++ s) later c where
  packetLength : c.1.packetLength = none ∨ c.1.packetLength = some f.packetLength

/-- Between calls. -/
structure Between (stream later : Bytes) (c : Connection) : Prop extends Pending stream later c where
  packetLength : c.1.packetLength = none

theorem Pending.unparsed_eq {stream : Bytes} (h : Pending stream later c) :
    c.1.unparsed ++ c.2.flatten ++ later = stream := by
  obtain ⟨u, ⟨parsed, free, hlayout⟩, hstream⟩ := h.holds
  rw [hlayout.unparsed_eq, hstream]

theorem Between.reading (h : Between (f.bytes ++ s) later c) : Reading f s later c where
  toPending := h.toPending
  packetLength := .inl h.packetLength

theorem unparsed_eq_take {u rest : Bytes} (h : u ++ c.2.flatten ++ rest = f.bytes ++ s) :
    u = (f.bytes ++ s).take u.length := by
  rw [← h, List.append_assoc, List.take_left]

theorem Reading.decodeLength (hc : Reading f s later c) {u : Bytes} (hu : c.1.Holds u)
    (hstream : u ++ c.2.flatten ++ later = f.bytes ++ s) :
    c.1.decodeLength = .ok f.packetLength ∨
      c.1.decodeLength = .error .incompleteRead ∧ u.length < f.varintLength := by
  obtain ⟨parsed, free, hlayout⟩ := hu
  have hvarint := f.decodeVarint_take_append s u.length
  rw [← unparsed_eq_take hstream] at hvarint
  unfold PacketReader.decodeLength
  rcases hc.packetLength with hlen | hlen
  · rw [hlen]
    dsimp only
    rw [hlayout.unparsed_eq, hvarint]
    by_cases hle : f.varintLength ≤ u.length
    · rw [if_pos hle]
      exact .inl rfl
    · rw [if_neg hle]
      exact .inr ⟨rfl, by omega⟩
  · rw [hlen]
    exact .inl rfl

/-- **A turn of the call** returns the packet of the frame if all of it was received, and otherwise
reads more. -/
theorem Reading.turn (hc : Reading f s later c) {u : Bytes} (hu : c.1.Holds u)
    (hstream : u ++ c.2.flatten ++ later = f.bytes ++ s) :
    (f.bytes.length ≤ u.length ∧ c.1.minFree = none ∧
      packetTurn atEnd c = .leave (.ok f.packet,
        { c.1 with i := c.1.i + f.bytes.length, packetLength := none }, c.2)) ∨
    (u.length < f.bytes.length ∧ ∃ packetLength minFree,
      (minFree = (MIN_READ_SIZE : Int) ∨ minFree = min (MIN_READ_SIZE : Int) f.packetLength) ∧
      c.1.minFree = some minFree ∧
      (packetLength = none ∨ packetLength = some f.packetLength) ∧
      packetTurn atEnd c = refill atEnd minFree ({ c.1 with packetLength := packetLength }, c.2)) := by
  have hlength := hc.decodeLength hu hstream
  obtain ⟨parsed, free, hlayout⟩ := hu
  have hunparsed := hlayout.unparsed_eq
  have hpacket : decodePacket u =
      if f.bytes.length ≤ u.length then .ok f.packet else .error .incompleteRead := by
    have htake := f.decodePacket_take s u.length
    rwa [← unparsed_eq_take hstream] at htake
  have hvarint := f.varintLength_bounds
  unfold packetTurn PacketReader.minFree
  rcases hlength with hlength | ⟨hlength, hlt⟩
  · rw [hlength]
    dsimp only
    have hsame : { c.1 with packetLength := some f.packetLength : PacketReader }.unparsed = u :=
      hunparsed
    rw [hsame, hunparsed, hpacket]
    by_cases hle : f.bytes.length ≤ u.length
    · rw [if_pos hle]
      exact .inl ⟨hle, rfl, rfl⟩
    · rw [if_neg hle]
      exact .inr ⟨by omega, some f.packetLength, _, .inr rfl, rfl, .inr rfl, rfl⟩
  · have hnone : c.1.packetLength = none := by
      rcases hc.packetLength with h | h
      · exact h
      · unfold PacketReader.decodeLength at hlength
        rw [h] at hlength
        cases hlength
    rw [hlength]
    refine .inr ⟨by omega, none, _, .inl rfl, rfl, .inl rfl, ?_⟩
    rw [← hnone]

theorem Reading.again {packetLength : Option Int} {r : PacketReader}
    {newData : Bytes} {chunks : List Bytes} (hc : Reading f s later c) {u : Bytes}
    (hstream : u ++ c.2.flatten ++ later = f.bytes ++ s)
    (hlen : packetLength = none ∨ packetLength = some f.packetLength)
    (hr : r.Holds (u ++ newData)) (hrlen : r.packetLength = packetLength)
    (hnew : newData ++ chunks.flatten = c.2.flatten)
    (hne : (∀ chunk ∈ c.2, chunk ≠ []) → ∀ chunk ∈ chunks, chunk ≠ []) :
    Reading f s later (r, chunks) where
  holds := ⟨u ++ newData, hr, by rw [← hstream, ← hnew, List.append_assoc u]⟩
  packetLength := by rw [hrlen]; exact hlen
  chunks := hne hc.chunks

/-- A turn that reads more goes on in a state that is `Reading`, or raises. -/
theorem Reading.refill {minFree : Int} {packetLength : Option Int} (hc : Reading f s later c)
    {u : Bytes} (hu : c.1.Holds u) (hstream : u ++ c.2.flatten ++ later = f.bytes ++ s)
    (hlen : packetLength = none ∨ packetLength = some f.packetLength) (hmin : 0 < minFree) :
    (c.1.Room minFree ∧ c.2 ≠ [] ∧ ∃ c', refill (α := α) atEnd minFree
        ({ c.1 with packetLength := packetLength }, c.2) = .again c' ∧ Reading f s later c') ∨
    ((¬ c.1.Room minFree ∨ c.2 = []) ∧ ∃ err c', refill (α := α) atEnd minFree
        ({ c.1 with packetLength := packetLength }, c.2) = .leave (.error err, c') ∧
      Pending (f.bytes ++ s) later c') := by
  obtain ⟨parsed, free, hlayout⟩ := hu
  have hlayout' : { c.1 with packetLength := packetLength : PacketReader }.Layout parsed u free :=
    ⟨hlayout.1, hlayout.2, hlayout.3, hlayout.4, hlayout.5, hlayout.6, hlayout.7⟩
  by_cases hraise : ¬ c.1.Room minFree ∨ c.2 = []
  · obtain ⟨err, r', hturn, hr'⟩ := refill_raises (α := α) atEnd hlayout' hraise
    exact .inr ⟨hraise, err, _, hturn, ⟨u, hr', hstream⟩, hc.chunks⟩
  · rw [not_or, not_not] at hraise
    obtain ⟨r, chunks⟩ := c
    obtain ⟨chunk, chunks, rfl⟩ := List.exists_cons_of_ne_nil hraise.2
    obtain ⟨r₁, parsed₁, free₁, hr₁, hl₁, h₁, hpos, -⟩ := hlayout'.ready hmin hraise.1
    have hchunk := hc.chunks chunk (by simp)
    obtain ⟨r', hturn, hlayout, hl⟩ := refill_receives (α := α) atEnd chunks hr₁ h₁ hpos
      hchunk
    refine .inl ⟨hraise.1, hraise.2, _, hturn, hc.again hstream hlen ⟨_, _, hlayout⟩
      (hl.trans hl₁) (flatten_received free₁.length chunk chunks) received_ne_nil⟩

theorem Reading.leave (hc : Reading f s later c) {u : Bytes} (hu : c.1.Holds u)
    (hstream : u ++ c.2.flatten ++ later = f.bytes ++ s) (hle : f.bytes.length ≤ u.length) :
    Between s later
      ({ c.1 with i := c.1.i + f.bytes.length, packetLength := none }, c.2) where
  holds := by
    obtain ⟨parsed, free, hlayout⟩ := hu
    refine ⟨_, ⟨_, _, hlayout.parse hle⟩, ?_⟩
    have hdrop := congrArg (List.drop f.bytes.length) hstream
    rw [List.append_assoc, List.drop_append_of_le_length hle, List.drop_left] at hdrop
    rw [List.append_assoc]
    exact hdrop
  packetLength := rfl
  chunks := hc.chunks

/-- **A turn of a call**: it returns the packet if its frame was received; otherwise it goes on if
there is room in the buffer and more to come, and raises if not. -/
theorem Reading.turn_cases (hc : Reading f s later c) :
    (f.bytes.length ≤ c.1.unparsed.length ∧ c.1.minFree = none ∧
      ∃ c', packetTurn atEnd c = .leave (.ok f.packet, c') ∧ Between s later c') ∨
    (c.1.unparsed.length < f.bytes.length ∧ ∃ minFree, c.1.minFree = some minFree ∧
      ((c.1.Room minFree ∧ c.2 ≠ [] ∧
          ∃ c', packetTurn atEnd c = .again c' ∧ Reading f s later c') ∨
        ((¬ c.1.Room minFree ∨ c.2 = []) ∧ ∃ err c',
          packetTurn atEnd c = .leave (.error err, c') ∧
            Pending (f.bytes ++ s) later c'))) := by
  obtain ⟨u, hu, hstream⟩ := hc.holds
  have hunparsed : c.1.unparsed = u := by
    obtain ⟨parsed, free, hlayout⟩ := hu
    exact hlayout.unparsed_eq
  rw [hunparsed]
  have hpos : (0 : Int) < MIN_READ_SIZE := by decide
  have hlength := f.packetLength_pos
  rcases hc.turn atEnd hu hstream with
    ⟨hle, hnone, hleave⟩ | ⟨hlt, packetLength, minFree, hmin, hsome, hlen, hrefill⟩
  · exact .inl ⟨hle, hnone, _, hleave, hc.leave hu hstream hle⟩
  · refine .inr ⟨hlt, minFree, hsome, ?_⟩
    rw [hrefill]
    exact hc.refill atEnd hu hstream hlen (by omega)

/-- **What a call can do**: it returns the packet of the frame and keeps the rest of what was
received, or it raises and keeps all of it. -/
theorem readPacket_outcome (hc : Reading f s later c) :
    (∃ c', readPacket atEnd c = (.ok f.packet, c') ∧ Between s later c') ∨
    ∃ err c', readPacket atEnd c = (.error err, c') ∧
      Pending (f.bytes ++ s) later c' := by
  refine (packetLoop atEnd).run_spec (P := Reading f s later)
    (Q := fun outcome => (∃ c', outcome = (.ok f.packet, c') ∧ Between s later c') ∨
      ∃ err c', outcome = (.error err, c') ∧
        Pending (f.bytes ++ s) later c') hc ?_ ?_
  · intro c₁ c₂ _ hc₁ hturn
    rcases hc₁.turn_cases atEnd with
      ⟨-, -, c', hleave, -⟩ | ⟨-, minFree, -, ⟨-, -, c', hagain, hc'⟩ | ⟨-, err, c', hleave, -⟩⟩
    · cases hleave.symm.trans hturn
    · cases hagain.symm.trans hturn
      exact hc'
    · cases hleave.symm.trans hturn
  · intro c₁ outcome _ hc₁ hturn
    rcases hc₁.turn_cases atEnd with
      ⟨-, -, c', hleave, hc'⟩ | ⟨-, minFree, -, ⟨-, -, c', hagain, -⟩ | ⟨-, err, c', hleave, hkept⟩⟩
    · cases hleave.symm.trans hturn
      exact .inl ⟨c', rfl, hc'⟩
    · cases hagain.symm.trans hturn
    · cases hleave.symm.trans hturn
      exact .inr ⟨err, c', rfl, hkept⟩

variable {atEnd} in
theorem Reading.visits (hc : Reading f s later c) {c' : Connection}
    (hv : (packetLoop atEnd).Visits c c') : Reading f s later c' := by
  apply hv.invariant hc
  intro c₁ c₂ _ hc₁ hturn
  rcases hc₁.turn_cases atEnd with
    ⟨-, -, c', hleave, -⟩ | ⟨-, minFree, -, ⟨-, -, c', hagain, hc'⟩ | ⟨-, err, c', hleave, -⟩⟩
  · cases hleave.symm.trans hturn
  · cases hagain.symm.trans hturn
    exact hc'
  · cases hleave.symm.trans hturn

/-- Where the buffer is halved too early the call raises. -/
theorem Reading.turn_of_not_fits (hc : Reading f s later c) (hfits : ¬ c.1.Fits) :
    ∃ err c', packetTurn atEnd c = .leave (.error err, c') := by
  unfold PacketReader.Fits at hfits
  simp only [not_forall] at hfits
  obtain ⟨minFree, hsome, hfree, hhalve, hfull⟩ := hfits
  rcases hc.turn_cases atEnd with
    ⟨-, hnone, -⟩ | ⟨-, minFree', hsome', ⟨hroom, -⟩ | ⟨-, err, c', hleave, -⟩⟩
  · cases hnone.symm.trans hsome
  · cases hsome'.symm.trans hsome
    exact absurd hroom (PacketReader.not_room hfree hhalve hfull)
  · exact ⟨err, c', hleave⟩

theorem Reading.room (hc : Reading f s later c) (hfits : c.1.Fits) {minFree : Int}
    (hsome : c.1.minFree = some minFree) (hlt : c.1.unparsed.length < f.bytes.length)
    (hmax : f.bytes.length ≤ MAX_BUFFER_SIZE) : c.1.Room minFree := by
  obtain ⟨u, ⟨parsed, free, hlayout⟩, -⟩ := hc.holds
  rw [hlayout.unparsed_eq] at hlt
  exact hlayout.room (by omega) (hfits minFree hsome)

/-- **When a call returns the packet**: its frame arrives, is not larger than the largest buffer,
and the buffer is never halved below what it holds. -/
theorem readPacket_ok_iff (hc : Reading f s later c) :
    (∃ packet c', readPacket atEnd c = (.ok packet, c')) ↔
      later.length ≤ s.length ∧ f.bytes.length ≤ MAX_BUFFER_SIZE ∧
        ∀ c', (packetLoop atEnd).Visits c c' → c'.1.Fits := by
  obtain ⟨c₁, hv, hturn⟩ := (packetLoop atEnd).exists_leave c
  have hc₁ := hc.visits hv
  have hstream := hc₁.holds
  obtain ⟨u, ⟨parsed, free, hlayout⟩, hstream⟩ := hstream
  have hunparsed := hlayout.unparsed_eq
  have htotal := congrArg List.length hstream
  simp only [List.length_append] at htotal
  constructor
  · rintro ⟨packet, c', hok⟩
    have hend : packetTurn atEnd c₁ = .leave (.ok packet, c') := by
      rw [← hok]
      exact hturn
    rcases hc₁.turn_cases atEnd with
      ⟨hle, -, -⟩ | ⟨-, minFree, -, ⟨-, -, c₂, hagain, -⟩ | ⟨-, err, c₂, hleave, -⟩⟩
    · have hn := hlayout.n_eq
      have hmax := hlayout.le_max
      rw [hunparsed] at hle
      refine ⟨by omega, by omega, fun c₂ hv₂ => ?_⟩
      by_contra hfits
      obtain ⟨err, c₃, hraise⟩ := (hc.visits hv₂).turn_of_not_fits atEnd hfits
      have hrun := (Body.run_eq_of_visits hv₂).trans ((packetLoop atEnd).run_of_leave hraise)
      cases hrun.symm.trans hok
    · cases hagain.symm.trans hend
    · cases hleave.symm.trans hend
  · rintro ⟨harrives, hmax, hfits⟩
    rcases hc₁.turn_cases atEnd with
      ⟨-, -, c', hleave, -⟩ | ⟨hlt, minFree, hsome, ⟨-, -, c₂, hagain, -⟩ | ⟨hno | hno, -⟩⟩
    · exact ⟨f.packet, c', Turn.leave.inj (hturn.symm.trans hleave)⟩
    · cases hagain.symm.trans hturn
    · exact absurd (hc₁.room (hfits c₁ hv) hsome hlt hmax) hno
    · rw [hno, List.flatten_nil, List.length_nil] at htotal
      rw [hunparsed] at hlt
      omega

end

end Silkjam.Protocol
