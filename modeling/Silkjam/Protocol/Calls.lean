import Silkjam.Protocol.Reading

/-!
# Reading refines decoding

Successive calls of `_read_packet` on one reader. On every stream of frames of at most 8 MiB, in
whatever chunks it arrives, they return what decoding the whole stream does as long as each halving
of the buffer fits (`reading_refines_decoding`), which it always does for frames so small that the
buffer keeps its first size (`small_frames_fit`). With larger frames it may not: `halved_too_early`
is a stream of two valid packets of which the second call raises.
-/

namespace Silkjam.Protocol

open Loop

/-! ### Successive calls -/

/-- The calls return the packets of the stream, and after each the unparsed bytes are those that
were received and not consumed. -/
def Refines (atEnd : Err) : Nat → Bytes → Connection → Prop
  | 0, _, _ => True
  | calls + 1, stream, c =>
    ∃ packet c', readPacket atEnd c = (.ok packet, c') ∧ decodePacket stream = .ok packet ∧
      c'.1.unparsed ++ c'.2.flatten = stream.drop packet.1.toNat ∧
      Refines atEnd calls (stream.drop packet.1.toNat) c'

/-- Whenever the calls halve the buffer, the unparsed bytes fill less than the new one. -/
def FitsAll (atEnd : Err) : Nat → Connection → Prop
  | 0, _ => True
  | calls + 1, c =>
    (∀ c', (packetLoop atEnd).Visits c c' → c'.1.Fits) ∧ FitsAll atEnd calls (readPacket atEnd c).2

/-- The bytes of a list of frames. -/
def bytesOf (frames : List Frame) : Bytes :=
  frames.flatMap Frame.bytes

theorem refines_iff {atEnd : Err} {frames : List Frame} {calls : Nat} {c : Connection}
    (hmax : ∀ f ∈ frames, f.bytes.length ≤ MAX_BUFFER_SIZE) (hcalls : calls ≤ frames.length)
    (hc : Between (bytesOf frames) [] c) :
    Refines atEnd calls (bytesOf frames) c ↔ FitsAll atEnd calls c := by
  induction calls generalizing frames c with
  | zero => exact Iff.rfl
  | succ calls ih =>
    obtain ⟨f, frames, rfl⟩ : ∃ f fs, frames = f :: fs :=
      List.exists_cons_of_length_pos (by omega)
    have hstream : bytesOf (f :: frames) = f.bytes ++ bytesOf frames := List.flatMap_cons
    rw [hstream] at hc ⊢
    have hok := readPacket_ok_iff atEnd hc.reading
    have hdecode := f.decodePacket_append (bytesOf frames)
    have hdrop : (f.bytes ++ bytesOf frames).drop f.packet.1.toNat = bytesOf frames :=
      List.drop_left
    have hmax' : ∀ g ∈ frames, g.bytes.length ≤ MAX_BUFFER_SIZE := fun g hg => hmax g (by simp [hg])
    rw [List.length_cons] at hcalls
    constructor
    · rintro ⟨packet, c', hread, hpacket, -, hrest⟩
      cases hdecode.symm.trans hpacket
      rw [hdrop] at hrest
      refine ⟨(hok.1 ⟨_, _, hread⟩).2.2, ?_⟩
      rcases readPacket_outcome atEnd hc.reading with
        ⟨c₁, hread₁, hc₁⟩ | ⟨err, c₁, hread₁, -⟩
      · cases hread₁.symm.trans hread
        rw [hread]
        exact (ih hmax' (by omega) hc₁).1 hrest
      · cases hread₁.symm.trans hread
    · rintro ⟨hfits, hrest⟩
      obtain ⟨packet, c', hread⟩ := hok.2 ⟨Nat.zero_le _, hmax f (by simp), hfits⟩
      rcases readPacket_outcome atEnd hc.reading with
        ⟨c₁, hread₁, hc₁⟩ | ⟨err, c₁, hread₁, -⟩
      · rw [hread₁] at hrest
        refine ⟨f.packet, c₁, hread₁, hdecode, ?_, ?_⟩
        · rw [hdrop, ← hc₁.unparsed_eq, List.append_nil]
        · rw [hdrop]
          exact (ih hmax' (by omega) hc₁).2 hrest
      · cases hread₁.symm.trans hread

/-- `PacketReader(reader)` -/
def PacketReader.fresh : PacketReader where
  data := List.replicate DEFAULT_BUFFER_SIZE 0
  i := 0
  j := 0
  k := 0
  n := DEFAULT_BUFFER_SIZE
  packetLength := none
  save := false

theorem PacketReader.layout_fresh :
    fresh.Layout [] [] (List.replicate DEFAULT_BUFFER_SIZE 0) where
  data_eq := rfl
  i_eq := rfl
  j_eq := rfl
  n_eq := by
    rw [List.length_replicate]
    rfl
  default_le := by decide
  le_max := by decide
  not_save := rfl

theorem PacketReader.new_nil : new [] = some fresh := by
  have hset := Slice.setSlice?_append_left [] (List.replicate DEFAULT_BUFFER_SIZE (0 : UInt8)) [] rfl
  unfold new allocateBuffer
  simp only [Bool.false_eq_true, if_false]
  exact congrArg (Option.map _) (congrArg (Option.map _) hset)

theorem between_fresh {chunks : List Bytes} (hchunks : ∀ chunk ∈ chunks, chunk ≠ []) :
    Between chunks.flatten [] (.fresh, chunks) where
  holds := ⟨[], ⟨[], _, PacketReader.layout_fresh⟩, by simp⟩
  packetLength := rfl
  chunks := hchunks

/-! ### Small frames -/

/-- Frames that fit the buffer of a new reader with `MIN_READ_SIZE` bytes to spare, but for the
last. -/
def Frame.IsSmall (f : Frame) : Prop :=
  f.bytes.length ≤ DEFAULT_BUFFER_SIZE - MIN_READ_SIZE + 1

instance (f : Frame) : Decidable f.IsSmall :=
  inferInstanceAs (Decidable (_ ≤ _))

theorem refill_size {α : Type} {atEnd : Err} {minFree : Int} {c c' : Connection}
    (h : refill (α := α) atEnd minFree c = .again c') :
    c'.1.n = c.1.n ∨ c'.1.n = resized c.1.n (c.1.j - if c.1.save then c.1.k else c.1.i) := by
  unfold refill at h
  split at h
  · cases h
  · next r hr =>
    have hsize : r.n = c.1.n ∨
        r.n = resized c.1.n (c.1.j - if c.1.save then c.1.k else c.1.i) := by
      split at hr
      · unfold PacketReader.reallocate allocateBuffer at hr
        dsimp only at hr
        rw [Option.map_map, Option.map_eq_some_iff] at hr
        obtain ⟨data, -, rfl⟩ := hr
        exact .inr rfl
      · cases hr
        exact .inl rfl
    split at h
    · cases h
    · split at h
      · cases h
      · split at h
        · cases h
        · cases h
          exact hsize

section
variable {atEnd : Err} {f : Frame} {s later : Bytes} {c : Connection}

theorem PacketReader.fits_of_default {r : PacketReader} (hn : r.n = DEFAULT_BUFFER_SIZE) :
    r.Fits := by
  intro minFree _ _ hhalve
  have hdefault : DEFAULT_BUFFER_SIZE = 4096 := rfl
  omega

theorem Reading.size_of_isSmall (hc : Reading f s later c) (hsmall : f.IsSmall)
    (hn : c.1.n = DEFAULT_BUFFER_SIZE) {c' : Connection} (hturn : packetTurn atEnd c = .again c') :
    c'.1.n = DEFAULT_BUFFER_SIZE := by
  have hdefault : DEFAULT_BUFFER_SIZE = 4096 := rfl
  have hread : MIN_READ_SIZE = 1024 := rfl
  obtain ⟨u, ⟨parsed, free, hlayout⟩, hstream⟩ := hc.holds
  rcases hc.turn atEnd ⟨_, _, hlayout⟩ hstream with
    ⟨-, -, hleave⟩ | ⟨hlt, packetLength, minFree, -, -, -, hrefill⟩
  · cases hleave.symm.trans hturn
  · rcases refill_size (hrefill.symm.trans hturn) with hsize | hsize
    · exact hsize.trans hn
    · rw [hsize]
      dsimp only
      rw [hlayout.not_save, hn, hdefault]
      simp only [Bool.false_eq_true, if_false]
      rw [hlayout.occupied_eq]
      have hle : u.length ≤ 3072 := by
        unfold Frame.IsSmall at hsmall
        omega
      unfold resized
      split
      · rfl
      · rw [if_neg (by omega)]

/-- A call that returns a packet leaves the buffer as the last of its turns found it. -/
theorem Reading.size_readPacket (hc : Reading f s later c) {packet : Packet} {c' : Connection}
    (hread : readPacket atEnd c = (.ok packet, c')) :
    ∃ c₁, (packetLoop atEnd).Visits c c₁ ∧ c'.1.n = c₁.1.n := by
  obtain ⟨c₁, hv, hturn⟩ := (packetLoop atEnd).exists_leave c
  have hturn : packetTurn atEnd c₁ = .leave (.ok packet, c') := hread ▸ hturn
  have hc₁ := hc.visits hv
  obtain ⟨u, hu, hstream⟩ := hc₁.holds
  refine ⟨c₁, hv, ?_⟩
  rcases hc₁.turn atEnd hu hstream with ⟨-, -, hleave⟩ | ⟨hlt, -⟩
  · cases hleave.symm.trans hturn
    rfl
  · rcases hc₁.turn_cases atEnd with
      ⟨hle, -⟩ | ⟨-, minFree, -, ⟨-, -, c₂, hagain, -⟩ | ⟨-, err, c₂, hleave, -⟩⟩
    · obtain ⟨parsed, free, hlayout⟩ := hu
      rw [hlayout.unparsed_eq] at hle
      omega
    · cases hagain.symm.trans hturn
    · cases hleave.symm.trans hturn

/-- Small frames are read without moving to a buffer of another size. -/
theorem small_frames_fit (frames : List Frame) {calls : Nat} (hsmall : ∀ f ∈ frames, f.IsSmall)
    (hcalls : calls ≤ frames.length) (hc : Between (bytesOf frames) [] c)
    (hn : c.1.n = DEFAULT_BUFFER_SIZE) : FitsAll atEnd calls c := by
  induction calls generalizing frames c with
  | zero => trivial
  | succ calls ih =>
    obtain ⟨f, frames, rfl⟩ : ∃ f fs, frames = f :: fs :=
      List.exists_cons_of_length_pos (by omega)
    rw [show bytesOf (f :: frames) = f.bytes ++ bytesOf frames from List.flatMap_cons] at hc
    have hf := hsmall f (by simp)
    have hvisits : ∀ c', (packetLoop atEnd).Visits c c' → c'.1.n = DEFAULT_BUFFER_SIZE := by
      intro c' hv
      exact hv.invariant hn fun c₁ c₂ hv₁ hn₁ hturn =>
        (hc.reading.visits hv₁).size_of_isSmall hf hn₁ hturn
    have hfits : ∀ c', (packetLoop atEnd).Visits c c' → c'.1.Fits := fun c' hv =>
      PacketReader.fits_of_default (hvisits c' hv)
    have hmax : f.bytes.length ≤ MAX_BUFFER_SIZE := Nat.le_trans hf (by decide)
    obtain ⟨packet, c', hread⟩ :=
      (readPacket_ok_iff atEnd hc.reading).2 ⟨Nat.zero_le _, hmax, hfits⟩
    refine ⟨hfits, ?_⟩
    rcases readPacket_outcome atEnd hc.reading with
      ⟨c₁, hread₁, hc₁⟩ | ⟨err, c₁, hread₁, -⟩
    · obtain ⟨c₂, hv, hsize⟩ := hc.reading.size_readPacket hread₁
      rw [hread₁]
      rw [List.length_cons] at hcalls
      exact ih frames (fun g hg => hsmall g (by simp [hg])) (by omega) hc₁ (hsize.trans (hvisits c₂ hv))
    · cases hread₁.symm.trans hread

end

/-! ### The refinement -/

/-- **Reading refines decoding** unless the buffer is halved too early: on every stream of frames of
at most 8 MiB, in whatever chunks it arrives, successive calls of `_read_packet` on a new reader
return what decoding the whole stream does, and keep the rest, if and only if each halving fits. -/
theorem reading_refines_decoding (atEnd : Err) (frames : List Frame)
    (hmax : ∀ f ∈ frames, f.bytes.length ≤ MAX_BUFFER_SIZE) (chunks : List Bytes)
    (hchunks : ∀ chunk ∈ chunks, chunk ≠ []) (hstream : chunks.flatten = bytesOf frames)
    (calls : Nat) (hcalls : calls ≤ frames.length) :
    Refines atEnd calls (bytesOf frames) (.fresh, chunks) ↔
      FitsAll atEnd calls (.fresh, chunks) :=
  refines_iff hmax hcalls (hstream ▸ between_fresh hchunks)

/-- The frame of a packet with no payload. -/
def emptyFrame : Frame where
  bytes := [1, 0]
  varintLength := 1
  packetLength := 1
  packetIdLength := 1
  packetId := 0
  length_eq := rfl
  packetId_eq := rfl
  complete := rfl

/-- The frame of a packet with one byte of payload. -/
def byteFrame : Frame where
  bytes := [2, 1, 7]
  varintLength := 1
  packetLength := 2
  packetIdLength := 1
  packetId := 1
  length_eq := rfl
  packetId_eq := rfl
  complete := rfl

/-- The packets of two small frames are read, whatever comes first of the second. -/
theorem reading_refines_decoding_small :
    Refines .connectionReset 2 [1, 0, 2, 1, 7] (.fresh, [[1, 0, 2], [1, 7]]) := by
  have hchunks : ∀ chunk ∈ ([[1, 0, 2], [1, 7]] : List Bytes), chunk ≠ [] := by decide
  have hfits : FitsAll .connectionReset 2 (.fresh, [[1, 0, 2], [1, 7]]) :=
    small_frames_fit [emptyFrame, byteFrame] (by decide) (by decide) (between_fresh hchunks) rfl
  exact (reading_refines_decoding .connectionReset [emptyFrame, byteFrame] (by decide) _ hchunks rfl 2
    (by decide)).2 hfits

/-! ### A buffer halved too early -/

/-- The frame of a packet with id 0 and `k` zero bytes of payload. -/
def zeroFrame (k : Nat) (hk : k < 2 ^ 31 - 5) : Frame :=
  encodedFrame 0 (List.replicate k 0) zero_signed (by
    have := length_encodeVarint_bounds zero_signed.1 zero_signed.2
    rw [List.length_replicate]
    omega)

theorem length_zeroFrame {k : Nat} (hk : k < 2 ^ 31 - 5) (hlo : 128 ≤ k + 1)
    (hhi : k + 1 < 128 * 128) : (zeroFrame k hk).bytes.length = k + 3 := by
  have hid : (encodeVarint 0).length = 1 := by
    have hzero := encodeVarint_natCast 0
    rw [varintBytes_of_lt (by omega)] at hzero
    exact congrArg List.length hzero
  unfold zeroFrame encodedFrame encodePacket
  dsimp only
  rw [hid, List.length_replicate, encodeVarint_natCast, varintBytes_of_ge (by omega),
    varintBytes_of_lt (by omega)]
  simp only [List.length_append, List.length_cons, List.length_nil, hid, List.length_replicate]
  omega

/-- With a frame that asks for `MIN_READ_SIZE` bytes, a turn of the call receives the next chunk if
the buffer, or the one it moves to, has room for all of it. -/
theorem Reading.receives (atEnd : Err) {f : Frame} {s later : Bytes} {r : PacketReader}
    {chunk : Bytes} {chunks : List Bytes} {parsed u free : Bytes}
    (hc : Reading f s later (r, chunk :: chunks)) (h : r.Layout parsed u free)
    (hlarge : (MIN_READ_SIZE : Int) ≤ f.packetLength) (hlt : u.length < f.bytes.length)
    (hroom : chunk.length ≤
      if free.length < MIN_READ_SIZE then resized r.n u.length - u.length else free.length) :
    ∃ r' parsed' free', packetTurn atEnd (r, chunk :: chunks) = .again (r', chunks) ∧
      Reading f s later (r', chunks) ∧ r'.Layout parsed' (u ++ chunk) free' ∧
      r'.n = (if free.length < MIN_READ_SIZE then resized r.n u.length else r.n) ∧
      free'.length = (if free.length < MIN_READ_SIZE then resized r.n u.length - u.length
        else free.length) - chunk.length := by
  have hpos : 0 < chunk.length := List.length_pos_iff.2 (hc.chunks chunk (by simp))
  have hstream : u ++ (chunk :: chunks).flatten ++ later = f.bytes ++ s := by
    obtain ⟨u', ⟨parsed', free', h'⟩, hstream⟩ := hc.holds
    rwa [← h'.unparsed_eq, h.unparsed_eq] at hstream
  rcases hc.turn atEnd ⟨parsed, free, h⟩ hstream with
    ⟨hle, -⟩ | ⟨-, packetLength, minFree, hmin, -, hlen, hrefill⟩
  · omega
  · have hmin : minFree = MIN_READ_SIZE := by omega
    subst hmin
    have hfree := h.free_eq
    have h' : { r with packetLength := packetLength : PacketReader }.Layout parsed u free :=
      ⟨h.1, h.2, h.3, h.4, h.5, h.6, h.7⟩
    obtain ⟨r₁, parsed₁, free₁, hr₁, hl₁, h₁, hn₁, hfree₁⟩ : ∃ r₁ parsed₁ free₁,
        (if (r.n : Int) - r.j < MIN_READ_SIZE then
          { r with packetLength := packetLength : PacketReader }.reallocate
        else some { r with packetLength := packetLength }) = some r₁ ∧
        r₁.packetLength = packetLength ∧ r₁.Layout parsed₁ u free₁ ∧
        r₁.n = (if free.length < MIN_READ_SIZE then resized r.n u.length else r.n) ∧
        free₁.length = if free.length < MIN_READ_SIZE then resized r.n u.length - u.length
          else free.length := by
      by_cases hless : free.length < MIN_READ_SIZE
      · rw [if_pos hless] at hroom
        obtain ⟨r₁, hr₁, hl₁, h₁⟩ := h'.reallocate (by dsimp only; omega)
        rw [if_pos hless, if_pos hless, if_pos (by omega)]
        have hn := h₁.n_eq
        rw [List.length_replicate, List.length_nil] at hn
        refine ⟨r₁, _, _, hr₁, hl₁, h₁, ?_, by rw [List.length_replicate]⟩
        dsimp only at hn ⊢
        omega
      · rw [if_neg hless, if_neg hless, if_neg (by omega)]
        exact ⟨_, _, _, rfl, rfl, h', rfl, rfl⟩
    rw [← hfree₁] at hroom
    obtain ⟨r', hturn, hlayout, hl'⟩ := refill_receives (α := Packet) atEnd
      (r := { r with packetLength := packetLength }) chunks hr₁ h₁ (by omega)
      (hc.chunks chunk (by simp))
    rw [if_pos hroom] at hturn
    rw [List.take_of_length_le hroom] at hlayout
    refine ⟨r', _, _, hrefill.trans hturn, ?_, hlayout, ?_, ?_⟩
    · refine hc.again hstream hlen ⟨_, _, hlayout⟩ (hl'.trans hl₁) List.flatten_cons.symm
        fun hne c hmem => hne c (by simp [hmem])
    · have hn := hlayout.n_eq
      have hn' := h₁.n_eq
      rw [List.length_append, List.length_drop] at hn
      rw [← hn₁]
      omega
    · rw [List.length_drop, hfree₁]

/-- A frame of 3100 bytes that arrives in two reads makes the buffer grow to 8192 bytes, all of
which are received; of these 5092 are of the next frame, and moving them to a buffer of 4096
fails. -/
theorem not_fitsAll {atEnd : Err} {r : PacketReader} {free : Bytes} (hr : r.Layout [] [] free)
    (hfree : free.length = DEFAULT_BUFFER_SIZE) (hlen : r.packetLength = none) {f₁ f₂ : Frame}
    (h₁ : f₁.bytes.length = 3100) (h₂ : f₂.bytes.length = 6000) {a b c : Bytes}
    (hstream : a ++ b ++ c = f₁.bytes ++ f₂.bytes) (ha : a.length = 3073) (hb : b.length = 5119) :
    ¬ FitsAll atEnd 2 (r, [a, b, c]) := by
  have hc : c.length = 908 := by
    have := congrArg List.length hstream
    simp only [List.length_append] at this
    omega
  have hread : MIN_READ_SIZE = 1024 := rfl
  have hdefault : DEFAULT_BUFFER_SIZE = 4096 := rfl
  have hne : ∀ chunk ∈ [a, b, c], chunk ≠ [] := by
    intro chunk hmem
    simp only [List.mem_cons, List.not_mem_nil, or_false] at hmem
    rw [← List.length_pos_iff]
    rcases hmem with rfl | rfl | rfl <;> omega
  have hlarge (f : Frame) (hf : 3000 ≤ f.bytes.length) : (MIN_READ_SIZE : Int) ≤ f.packetLength := by
    have := f.complete
    have := (decodeVarint_bounds f.length_eq).2.2
    omega
  have hc₀ : Reading f₁ f₂.bytes [] (r, [a, b, c]) :=
    ⟨⟨⟨[], ⟨_, _, hr⟩, by rw [← hstream]; simp⟩, hne⟩, .inl hlen⟩
  have hn := hr.n_eq
  rw [List.length_nil, hfree] at hn
  -- the first read leaves less than `MIN_READ_SIZE` bytes free
  obtain ⟨r₁, parsed₁, free₁, hturn₁, hc₁, hl₁, hn₁, hfree₁⟩ := hc₀.receives atEnd hr
    (hlarge f₁ (by omega)) (by rw [h₁, List.length_nil]; omega)
    (by rw [if_neg (by omega)]; omega)
  rw [if_neg (by omega)] at hn₁ hfree₁
  rw [List.nil_append] at hl₁
  -- the second fills a buffer of twice the size
  have hresized : resized r₁.n a.length = 8192 := by
    have hn₁ : r₁.n = 4096 := by omega
    rw [hn₁, ha]
    decide
  obtain ⟨r₂, parsed₂, free₂, hturn₂, hc₂, hl₂, hn₂, hfree₂⟩ := hc₁.receives atEnd hl₁
    (hlarge f₁ (by omega)) (by omega) (by rw [if_pos (by omega), hresized]; omega)
  rw [if_pos (by omega), hresized] at hn₂ hfree₂
  have hu₂ : (a ++ b).length = 8192 := by
    rw [List.length_append]
    omega
  have hstream₂ : a ++ b ++ [c].flatten ++ [] = f₁.bytes ++ f₂.bytes := by
    rw [← hstream]
    simp
  rcases hc₂.turn atEnd ⟨_, _, hl₂⟩ hstream₂ with ⟨hle, -, hleave⟩ | ⟨hlt, -⟩
  · have hcall := ((packetLoop atEnd).run_of_again hturn₁).trans
      (((packetLoop atEnd).run_of_again hturn₂).trans ((packetLoop atEnd).run_of_leave hleave))
    -- the second call begins with a full buffer
    have hl₃ := hl₂.parse hle
    have hc₃ := hc₂.leave ⟨_, _, hl₂⟩ hstream₂ hle
    rw [← List.append_nil f₂.bytes] at hc₃
    have hu₃ : ((a ++ b).drop f₁.bytes.length).length = 5092 := by
      rw [List.length_drop]
      omega
    rintro ⟨-, hfits, -⟩
    unfold readPacket at hfits
    rw [hcall] at hfits
    have hfits := hfits _ .refl
    obtain ⟨u, hu, hstream₃⟩ := hc₃.holds
    rcases hc₃.reading.turn atEnd hu hstream₃ with
      ⟨hle₃, -⟩ | ⟨-, -, minFree, hmin, hsome, -⟩
    · obtain ⟨parsed, free, hlayout⟩ := hu
      rw [← hlayout.unparsed_eq, hl₃.unparsed_eq] at hle₃
      omega
    · have hlt := hfits minFree hsome
      have hn₃ : r₂.n >>> 2 = 2048 ∧ r₂.n >>> 1 = 4096 := by
        rw [hn₂]
        decide
      have hlarge₂ := hlarge f₂ (by omega)
      rw [hl₃.free_eq, hl₃.occupied_eq, hu₃] at hlt
      dsimp only at hlt
      omega
  · omega

/-- Frames of 3100 and 6000 bytes. -/
def haltingFrames : List Frame :=
  [zeroFrame 3097 (by decide), zeroFrame 5997 (by decide)]

/-- The first of them arrives in two reads. -/
def haltingChunks : List Bytes :=
  [(bytesOf haltingFrames).take 3073, ((bytesOf haltingFrames).drop 3073).take 5119,
    (bytesOf haltingFrames).drop 8192]

/-- On these chunks the second call raises. -/
theorem halved_too_early :
    (∀ f ∈ haltingFrames, f.bytes.length ≤ MAX_BUFFER_SIZE) ∧
      (∀ chunk ∈ haltingChunks, chunk ≠ []) ∧ haltingChunks.flatten = bytesOf haltingFrames ∧
      2 ≤ haltingFrames.length ∧
      ¬ Refines .connectionReset 2 (bytesOf haltingFrames) (.fresh, haltingChunks) := by
  have h₁ : (zeroFrame 3097 (by decide)).bytes.length = 3100 :=
    length_zeroFrame _ (by omega) (by omega)
  have h₂ : (zeroFrame 5997 (by decide)).bytes.length = 6000 :=
    length_zeroFrame _ (by omega) (by omega)
  have hbytes : bytesOf haltingFrames =
      (zeroFrame 3097 (by decide)).bytes ++ (zeroFrame 5997 (by decide)).bytes := by
    simp [bytesOf, haltingFrames]
  have hlength : (bytesOf haltingFrames).length = 9100 := by
    rw [hbytes, List.length_append]
    omega
  have hsplit : (bytesOf haltingFrames).take 3073 ++ ((bytesOf haltingFrames).drop 3073).take 5119 ++
      (bytesOf haltingFrames).drop 8192 = bytesOf haltingFrames := by
    have hrest : (bytesOf haltingFrames).drop 8192 = ((bytesOf haltingFrames).drop 3073).drop 5119 := by
      rw [List.drop_drop]
    rw [hrest, List.append_assoc, List.take_append_drop, List.take_append_drop]
  have hmax : ∀ f ∈ haltingFrames, f.bytes.length ≤ MAX_BUFFER_SIZE := by
    have hsize : MAX_BUFFER_SIZE = 8388608 := rfl
    intro f hf
    unfold haltingFrames at hf
    simp only [List.mem_cons, List.not_mem_nil, or_false] at hf
    rcases hf with rfl | rfl <;> omega
  have hne : ∀ chunk ∈ haltingChunks, chunk ≠ [] := by
    intro chunk hmem
    unfold haltingChunks at hmem
    simp only [List.mem_cons, List.not_mem_nil, or_false] at hmem
    rw [← List.length_pos_iff]
    rcases hmem with rfl | rfl | rfl <;> simp only [List.length_take, List.length_drop] <;> omega
  have hflatten : haltingChunks.flatten = bytesOf haltingFrames := by
    rw [← hsplit]
    simp [haltingChunks]
  refine ⟨hmax, hne, hflatten, by decide, ?_⟩
  intro hrefines
  have hfits := (refines_iff hmax (by decide) (hflatten ▸ between_fresh hne)).1 hrefines
  rw [hbytes] at hsplit hlength
  unfold haltingChunks at hfits
  rw [hbytes] at hfits
  refine not_fitsAll PacketReader.layout_fresh List.length_replicate rfl h₁ h₂ hsplit ?_ ?_ hfits
  · rw [List.length_take]
    omega
  · rw [List.length_take, List.length_drop]
    omega

end Silkjam.Protocol
