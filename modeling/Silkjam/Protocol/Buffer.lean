import Silkjam.Lib.Transition
import Silkjam.Protocol.Framing
import Silkjam.Protocol.LegacyReading

/-!
# The buffer of a reader

`0 <= k <= i <= j <= n = len(data)` (`Valid`) is what the offsets of a `PacketReader` are meant to
satisfy. `_allocate_buffer` subtracts the start of the kept bytes from `i` and `j`, but returns that
start as `k`, so that they have to begin at 0; and it halves the buffer as soon as a quarter of it
is free, whether the rest fits the half or not. A packet may declare a negative length, which moves
`i` back. In the runs that do neither the offsets stay in order (`buffer_representation`), and `k`
stays 0.

A run goes turn by turn of the two read loops, and `save()` may be entered and left between any two
turns: `_read_legacy_ping` has read `_save` when it began, `_read_packet` reads it whenever it moves
to a new buffer.
-/

namespace Silkjam.Protocol

open Loop Slice Transition

namespace PacketReader

def saved (r : PacketReader) : Bytes :=
  slice r.data r.k r.j

/-- Where the bytes begin that a new buffer keeps. -/
def start (r : PacketReader) : Int :=
  if r.save then r.k else r.i

/-- `0 <= k <= i <= j <= n = len(data)` -/
structure Valid (r : PacketReader) : Prop where
  k_nonneg : 0 ≤ r.k
  k_le : r.k ≤ r.i
  i_le : r.i ≤ r.j
  j_le : r.j ≤ r.n
  length_eq : r.data.length = r.n

/-! ### A new buffer -/

/-- The new buffer has the offsets in order, what the old one kept, and room for a read. -/
def AllocatesWell (r : PacketReader) : Prop :=
  ∃ r', r.reallocate = some r' ∧ r'.Valid ∧ r'.unparsed = r.unparsed ∧
    (r.save = true → r'.saved = r.saved) ∧
    ((MIN_READ_SIZE : Int) ≤ r'.n - r'.j ∨ r'.n = MAX_BUFFER_SIZE)

/-- What is kept leaves room for a read in a buffer of half the size if it takes up less than three
quarters of the old one, and else in one of twice the size, or that is the largest. -/
def Roomy (r : PacketReader) : Prop :=
  if r.j - r.start < (r.n : Int) - (r.n >>> 2 : Nat) then
    r.j - r.start + MIN_READ_SIZE ≤ (max (r.n >>> 1) DEFAULT_BUFFER_SIZE : Nat)
  else
    r.j - r.start + MIN_READ_SIZE ≤ (r.n <<< 1 : Nat) ∨ MAX_BUFFER_SIZE ≤ r.n <<< 1

/-- What is kept takes up less than three quarters, and does not fit half the buffer. -/
def Overfull (r : PacketReader) : Prop :=
  r.j - r.start < (r.n : Int) - (r.n >>> 2 : Nat) ∧
    ((max (r.n >>> 1) DEFAULT_BUFFER_SIZE : Nat) : Int) < r.j - r.start

section
variable {r r' : PacketReader}

theorem resized_eq (n : Nat) (occupied : Int) :
    resized n occupied =
      if occupied < (n : Int) - (n / 4 : Nat) then max (n / 2) 4096
      else if occupied > (n : Int) - 1024 then min (n * 2) 8388608
      else n := by
  unfold resized
  rw [Nat.shiftRight_eq_div_pow, Nat.shiftRight_eq_div_pow, Nat.shiftLeft_eq]
  rfl

theorem Valid.start_bounds (h : r.Valid) : 0 ≤ r.start ∧ r.start ≤ r.i := by
  obtain ⟨hk, hki, -, -, -⟩ := h
  unfold start
  split <;> omega

theorem slice_kept {s i j : Nat} {l z : Bytes} (hs : s ≤ i) (hi : i ≤ j) (hj : j ≤ l.length) :
    slice (slice l s j ++ z) ((i : Int) - s) ((j : Int) - s) = slice l i j := by
  have hkept : slice l s j = (l.take j).drop s := by
    unfold slice
    rw [position_natCast, position_natCast, Nat.min_eq_left hj, Nat.min_eq_left (by omega)]
  have hpart : slice l i j = (l.take j).drop i := by
    unfold slice
    rw [position_natCast, position_natCast, Nat.min_eq_left hj, Nat.min_eq_left (by omega)]
  have hlength : ((l.take j).drop s).length = j - s := by
    rw [List.length_drop, List.length_take, Nat.min_eq_left hj]
  have hto : (j : Int) - s = (j - s : Nat) := by omega
  have hfrom : (i : Int) - s = (i - s : Nat) := by omega
  rw [hpart, hkept, hto, hfrom]
  unfold slice
  rw [position_natCast, position_natCast, List.length_append, hlength, Nat.min_eq_left (by omega),
    Nat.min_eq_left (by omega), ← hlength, List.take_left, List.drop_drop]
  congr 1
  omega

/-- The reader that a new buffer gives, if what is kept fits. -/
def rebased (r : PacketReader) : PacketReader :=
  { r with
    data := slice r.data r.start r.j ++
      List.replicate (resized r.n (r.j - r.start) - (r.j - r.start).toNat) 0
    i := r.i - r.start
    j := r.j - r.start
    k := r.start
    n := resized r.n (r.j - r.start) }

/-- **The new buffer**, if what is kept fits. -/
theorem Valid.reallocate (h : r.Valid) :
    r.reallocate =
      if r.j - r.start ≤ (resized r.n (r.j - r.start) : Nat) then
        some r.rebased
      else none := by
  obtain ⟨hs, hsi⟩ := h.start_bounds
  have hij := h.i_le
  have hjn := h.j_le
  have hlength : (slice r.data r.start r.j).length = (r.j - r.start).toNat := by
    rw [length_slice]
    unfold position
    rw [if_neg (by omega), if_neg (by omega), h.length_eq]
    omega
  unfold PacketReader.reallocate allocateBuffer
  dsimp only
  rw [show (if r.save = true then r.k else r.i) = r.start from rfl]
  split
  · next hfits =>
    have hsplit : List.replicate (resized r.n (r.j - r.start)) (0 : UInt8) =
        List.replicate (r.j - r.start).toNat 0 ++
          List.replicate (resized r.n (r.j - r.start) - (r.j - r.start).toNat) 0 := by
      rw [List.replicate_append_replicate]
      congr 1
      omega
    have hset := setSlice?_append_left (List.replicate (r.j - r.start).toNat (0 : UInt8))
      (List.replicate (resized r.n (r.j - r.start) - (r.j - r.start).toNat) 0)
      (slice r.data r.start r.j) (by rw [hlength, List.length_replicate])
    rw [← hsplit, hlength, Int.toNat_of_nonneg (by omega)] at hset
    rw [hset]
    rfl
  · next hfits =>
    rw [setSlice?_eq_none (by rw [hlength, List.length_replicate]; omega)]
    rfl

theorem Valid.length_rebased (h : r.Valid)
    (hfits : r.j - r.start ≤ (resized r.n (r.j - r.start) : Nat)) :
    r.rebased.data.length = r.rebased.n := by
  obtain ⟨hs, hsi⟩ := h.start_bounds
  have hij := h.i_le
  have hjn := h.j_le
  have hkept : (slice r.data r.start r.j).length = (r.j - r.start).toNat := by
    rw [length_slice]
    unfold position
    rw [if_neg (by omega), if_neg (by omega), h.length_eq]
    omega
  show (slice r.data r.start r.j ++
    List.replicate (resized r.n (r.j - r.start) - (r.j - r.start).toNat) 0).length = _
  rw [List.length_append, hkept, List.length_replicate]
  show _ = resized r.n (r.j - r.start)
  omega

theorem Valid.rebased_iff (h : r.Valid)
    (hfits : r.j - r.start ≤ (resized r.n (r.j - r.start) : Nat)) :
    r.rebased.Valid ↔ r.start ≤ r.i - r.start := by
  obtain ⟨hs, hsi⟩ := h.start_bounds
  have hij := h.i_le
  constructor
  · intro hvalid
    exact hvalid.k_le
  · intro hle
    exact ⟨hs, hle, Int.sub_le_sub_right hij r.start, hfits, h.length_rebased hfits⟩

theorem Valid.unparsed_rebased (h : r.Valid) : r.rebased.unparsed = r.unparsed := by
  obtain ⟨hs, hsi⟩ := h.start_bounds
  obtain ⟨s, hs'⟩ := Int.eq_ofNat_of_zero_le hs
  obtain ⟨i, hi'⟩ := Int.eq_ofNat_of_zero_le (hs.trans hsi)
  obtain ⟨j, hj'⟩ := Int.eq_ofNat_of_zero_le ((hs.trans hsi).trans h.i_le)
  have hij := h.i_le
  have hjn := h.j_le
  have hlength := h.length_eq
  unfold unparsed rebased
  dsimp only
  rw [hs', hi', hj']
  exact slice_kept (by omega) (by omega) (by omega)

theorem Valid.saved_rebased (h : r.Valid) (hstart : r.start = 0) (hsave : r.save = true) :
    r.rebased.saved = r.saved := by
  obtain ⟨j, hj'⟩ := Int.eq_ofNat_of_zero_le ((h.k_nonneg.trans h.k_le).trans h.i_le)
  have hk : r.k = 0 := by
    rw [← hstart, start, if_pos hsave]
  have hjn := h.j_le
  have hlength := h.length_eq
  have hslice := slice_kept (z := List.replicate (resized r.n (j : Int) - j) 0) (Nat.le_refl 0)
    (Nat.zero_le j) (show j ≤ r.data.length by omega)
  unfold saved rebased
  dsimp only
  rw [hk, hstart, Int.sub_zero, hj']
  simpa using hslice

/-- What is saved is shorter in the new buffer, unless it begins at 0. -/
theorem Valid.saved_ne (h : r.Valid) (hvalid : r.rebased.Valid) (hsave : r.save = true)
    (hsaved : r.rebased.saved = r.saved) : r.start = 0 := by
  obtain ⟨hs, -⟩ := h.start_bounds
  have hk : r.k = r.start := (if_pos hsave).symm
  have hkj : r.k ≤ r.j := h.k_le.trans h.i_le
  have hjn := h.j_le
  have hk' : r.rebased.k ≤ r.rebased.j := hvalid.k_le.trans hvalid.i_le
  have hjn' := hvalid.j_le
  have hlengths := congrArg List.length hsaved
  unfold saved at hlengths
  rw [length_slice, length_slice, h.length_eq, hvalid.length_eq] at hlengths
  unfold position at hlengths
  have hnew : r.rebased.k = r.start ∧ r.rebased.j = r.j - r.start := ⟨rfl, rfl⟩
  rw [if_neg (by omega), if_neg (by omega), if_neg (by omega), if_neg (by omega)] at hlengths
  omega

/-- **A new buffer is as it should be** exactly if what it keeps begins at 0 and is roomy. -/
theorem Valid.allocatesWell_iff (h : r.Valid) (hmax : r.n ≤ MAX_BUFFER_SIZE) :
    r.AllocatesWell ↔ r.start = 0 ∧ r.Roomy := by
  have hjn := h.j_le
  obtain ⟨hs, hsi⟩ := h.start_bounds
  have hij := h.i_le
  have hroom : r.Roomy ↔ r.j - r.start ≤ (resized r.n (r.j - r.start) : Nat) ∧
      ((MIN_READ_SIZE : Int) ≤ (resized r.n (r.j - r.start) : Nat) - (r.j - r.start) ∨
        resized r.n (r.j - r.start) = MAX_BUFFER_SIZE) := by
    unfold Roomy
    rw [resized_eq, Nat.shiftRight_eq_div_pow, Nat.shiftRight_eq_div_pow, Nat.shiftLeft_eq]
    simp only [MIN_READ_SIZE, MAX_BUFFER_SIZE, DEFAULT_BUFFER_SIZE] at hmax ⊢
    by_cases hlow : r.j - r.start < (r.n : Int) - (r.n / 4 : Nat)
    · rw [if_pos hlow, if_pos hlow]
      omega
    · rw [if_neg hlow, if_neg hlow]
      by_cases hhigh : r.j - r.start > (r.n : Int) - 1024
      · rw [if_pos hhigh]
        omega
      · rw [if_neg hhigh]
        omega
  constructor
  · rintro ⟨r', hr', hvalid, -, hsaved, hfree⟩
    rw [h.reallocate] at hr'
    split at hr'
    · next hfits =>
      cases hr'
      have hle : r.start ≤ r.i - r.start := hvalid.k_le
      refine ⟨?_, hroom.2 ⟨hfits, hfree⟩⟩
      by_cases hsave : r.save = true
      · exact h.saved_ne hvalid hsave (hsaved hsave)
      · have hstart : r.start = r.i := if_neg hsave
        omega
    · cases hr'
  · rintro ⟨hstart, hroomy⟩
    obtain ⟨hfits, hfree⟩ := hroom.1 hroomy
    have hvalid : r.rebased.Valid := by
      rw [h.rebased_iff hfits, hstart]
      omega
    refine ⟨r.rebased, ?_, hvalid, h.unparsed_rebased, h.saved_rebased hstart, hfree⟩
    rw [h.reallocate, if_pos hfits]

end

/-! ### Calls and turns -/

inductive ReadKind where
  | legacyPing | packet
  deriving DecidableEq

/-- What a turn of a call finds: that it needs this many free bytes to read into, or that it has
parsed this many, or something it raises. -/
inductive Finding where
  | needs (minFree : Int)
  | parsed (length : Int)
  | raises

def find (r : PacketReader) : ReadKind → Finding
  | .legacyPing =>
    match decodeLegacyPing r.unparsed with
    | .error .incompleteRead => .needs MIN_READ_SIZE
    | .error _ => .raises
    | .ok (totalLength, _) => .parsed totalLength
  | .packet =>
    match r.decodeLength with
    | .error .incompleteRead => .needs MIN_READ_SIZE
    | .error _ => .raises
    | .ok packetLength =>
      match decodePacket r.unparsed with
      | .error .incompleteRead => .needs (min MIN_READ_SIZE packetLength)
      | .error _ => .raises
      | .ok (totalLength, _) => .parsed totalLength

/-- The reader after a turn, whether the loop goes round again or ends. -/
def afterTurn {α : Type} : Turn Connection (Outcome α) → PacketReader
  | .again c => c.1
  | .leave (_, c) => c.1

def goesOn {α : Type} : Turn Connection (Outcome α) → Bool
  | .again _ => true
  | .leave _ => false

/-- A turn of the loop of `_read_legacy_ping` or `_read_packet`: the reader after it, and whether the
call goes on. -/
def turn (kind : ReadKind) (atEnd : Err) (c : Connection) : PacketReader × Bool :=
  match kind with
  | .legacyPing => (afterTurn (legacyPingTurn atEnd c), goesOn (legacyPingTurn atEnd c))
  | .packet => (afterTurn (packetTurn atEnd c), goesOn (packetTurn atEnd c))

/-- A reader, and the call that holds its lock, if one does, with the value that `_save` had when it
began. While the call lasts, the fields of the reader are the local variables of the call. -/
structure InUse where
  reader : PacketReader
  call : Option (ReadKind × Bool) := none

inductive Event where
  /-- `save()` is entered or left -/
  | save (value : Bool)
  /-- a turn of a call, which may read from `chunks`; the first one if no call is in progress -/
  | turn (kind : ReadKind) (atEnd : Err) (chunks : List Bytes)

namespace InUse

/-- The reader with the value of `_save` that a turn goes by. -/
def seen (w : InUse) (kind : ReadKind) : PacketReader :=
  match kind, w.call with
  | .legacyPing, some (_, save) => { w.reader with save := save }
  | _, _ => w.reader

def step (w : InUse) : Event → Option InUse
  | .save value => some { w with reader := { w.reader with save := value } }
  | .turn kind atEnd chunks =>
    if ∀ call ∈ w.call, call.1 = kind then
      let (r, again) := turn kind atEnd (w.seen kind, chunks)
      some
        { reader := { r with save := w.reader.save }
          call := if again then some (kind, (w.seen kind).save) else none }
    else none

end InUse

instance (r : PacketReader) : Decidable r.Overfull :=
  inferInstanceAs (Decidable (_ ∧ _))

def InOrderAfter (r : PacketReader) : Finding → Prop
  | .needs minFree => r.n - r.j < minFree → r.save = true ∨ r.i = 0 ∨ r.Overfull
  | .parsed length => 0 ≤ r.i + length
  | .raises => True

instance (r : PacketReader) : (finding : Finding) → Decidable (r.InOrderAfter finding)
  | .needs minFree => inferInstanceAs
    (Decidable (r.n - r.j < minFree → r.save = true ∨ r.i = 0 ∨ r.Overfull))
  | .parsed length => inferInstanceAs (Decidable (0 ≤ r.i + length))
  | .raises => inferInstanceAs (Decidable True)

/-- A turn that moves to a new buffer does so while saving, or before anything is parsed, or the
copy raises; and no length that is parsed moves `i` below 0. -/
def InUse.InOrder (w : InUse) : Event → Prop
  | .save _ => True
  | .turn kind _ _ => (w.seen kind).InOrderAfter ((w.seen kind).find kind)

instance (w : InUse) : (e : Event) → Decidable (w.InOrder e)
  | .save _ => inferInstanceAs (Decidable True)
  | .turn kind _ _ => inferInstanceAs (Decidable ((w.seen kind).InOrderAfter _))

/-- The offsets are in order, and everything is saved. -/
structure Ordered (r : PacketReader) : Prop extends Valid r where
  k_eq : r.k = 0
  default_le : DEFAULT_BUFFER_SIZE ≤ r.n
  le_max : r.n ≤ MAX_BUFFER_SIZE

section
variable {r r' : PacketReader} {atEnd : Err} {chunks : List Bytes} {minFree : Int}

theorem length_streamRead_le {m : Int} (hm : 0 ≤ m) (chunks : List Bytes) :
    ((streamRead m chunks).1.length : Int) ≤ m := by
  unfold streamRead
  split
  · simpa using hm
  · rw [if_neg (by omega)]
    split
    · next hle =>
      dsimp only
      omega
    · dsimp only
      rw [List.length_take]
      omega

theorem Ordered.receive (h : r.Ordered) {newData data : Bytes}
    (hnew : (newData.length : Int) ≤ r.n - r.j)
    (hset : setSlice? r.data r.j (r.j + newData.length) newData = some data) :
    ({ r with data := data, j := r.j + newData.length } : PacketReader).Ordered := by
  have hj : 0 ≤ r.j := (h.k_nonneg.trans h.k_le).trans h.i_le
  have hij := h.i_le
  refine ⟨⟨h.k_nonneg, h.k_le, ?_, ?_, ?_⟩, h.k_eq, h.default_le, h.le_max⟩
  · show r.i ≤ r.j + newData.length
    omega
  · show r.j + newData.length ≤ r.n
    omega
  · exact (length_setSlice? hset).trans h.length_eq

/-- The copy raises exactly if the buffer is halved and what is kept does not fit. -/
theorem Ordered.fits_iff (h : r.Ordered) :
    r.j - r.start ≤ (resized r.n (r.j - r.start) : Nat) ↔ ¬ r.Overfull := by
  obtain ⟨hs, hsi⟩ := h.start_bounds
  have hij := h.i_le
  have hjn := h.j_le
  have hmax := h.le_max
  unfold Overfull
  rw [resized_eq, Nat.shiftRight_eq_div_pow, Nat.shiftRight_eq_div_pow]
  simp only [MAX_BUFFER_SIZE, DEFAULT_BUFFER_SIZE] at hmax ⊢
  by_cases hlow : r.j - r.start < (r.n : Int) - (r.n / 4 : Nat)
  · rw [if_pos hlow]
    omega
  · rw [if_neg hlow]
    by_cases hhigh : r.j - r.start > (r.n : Int) - 1024
    · rw [if_pos hhigh]
      omega
    · rw [if_neg hhigh]
      omega

/-- Moving to a new buffer keeps the order if the kept bytes begin at 0, and only then. -/
theorem Ordered.reallocate (h : r.Ordered) (hr' : r.reallocate = some r') :
    (r.save = true ∨ r.i = 0 → r'.Ordered) ∧ (¬ (r.save = true ∨ r.i = 0) → r'.i < r'.k) := by
  obtain ⟨hs, hsi⟩ := h.start_bounds
  rw [h.toValid.reallocate] at hr'
  split at hr'
  · next hfits =>
    cases hr'
    constructor
    · intro hkept
      have hstart : r.start = 0 := by
        by_cases hsave : r.save = true
        · exact (if_pos hsave).trans h.k_eq
        · exact (if_neg hsave).trans (hkept.resolve_left hsave)
      have hvalid : r.rebased.Valid := by
        rw [h.rebased_iff hfits, hstart]
        omega
      obtain ⟨hdefault, hmax⟩ := resized_bounds h.default_le h.le_max (r.j - r.start)
      exact ⟨hvalid, hstart, hdefault, hmax⟩
    · intro hlost
      rw [not_or] at hlost
      have hstart : r.start = r.i := if_neg hlost.1
      have hi : r.i ≠ 0 := hlost.2
      show r.i - r.start < r.start
      omega
  · cases hr'

/-- `r'` is `r` with what it read of the chunks, if anything. -/
def Received (chunks : List Bytes) (r r' : PacketReader) : Prop :=
  r' = r ∨ ∃ data, setSlice? r.data r.j (r.j + (streamRead (r.n - r.j) chunks).1.length)
      (streamRead (r.n - r.j) chunks).1 = some data ∧
    r' = { r with data := data, j := r.j + (streamRead (r.n - r.j) chunks).1.length }

theorem Received.ordered (hread : Received chunks r r') (h : r.Ordered) : r'.Ordered := by
  rcases hread with rfl | ⟨data, hset, rfl⟩
  · exact h
  · have hjn := h.j_le
    exact h.receive (length_streamRead_le (by omega) chunks) hset

theorem Received.not_valid (hread : Received chunks r r') (h : r.i < r.k) : ¬ r'.Valid := by
  intro hvalid
  have hle := hvalid.k_le
  rcases hread with rfl | ⟨data, -, rfl⟩
  · omega
  · dsimp only at hle
    omega

/-- What `refill` leaves: the reader it reads into, with or without what it read. -/
theorem afterTurn_refill {α : Type} (r : PacketReader) (atEnd : Err) (minFree : Int)
    (chunks : List Bytes) :
    match (if r.n - r.j < minFree then r.reallocate else some r) with
    | none => afterTurn (refill (α := α) atEnd minFree (r, chunks)) = r
    | some r₁ => Received chunks r₁ (afterTurn (refill (α := α) atEnd minFree (r, chunks))) := by
  unfold refill
  dsimp only
  cases hbuffer : (if r.n - r.j < minFree then r.reallocate else some r) with
  | none => rfl
  | some r₁ =>
    dsimp only
    by_cases hfull : r₁.j = r₁.n
    · rw [if_pos hfull]
      exact .inl rfl
    · rw [if_neg hfull]
      unfold Received
      cases hread : streamRead (r₁.n - r₁.j) chunks with
      | mk newData chunks' =>
        cases newData with
        | nil => exact .inl rfl
        | cons b newData =>
          dsimp only
          cases hset : setSlice? r₁.data r₁.j (r₁.j + (b :: newData).length) (b :: newData) with
          | none => exact .inl rfl
          | some data => exact .inr ⟨data, rfl, rfl⟩

/-- **A turn that reads** keeps the order exactly if its new buffer, if there is one, does. -/
theorem Ordered.refill {α : Type} (h : r.Ordered) (atEnd : Err) (minFree : Int)
    (chunks : List Bytes) :
    ((r.n - r.j < minFree → r.save = true ∨ r.i = 0 ∨ r.Overfull) →
      (afterTurn (refill (α := α) atEnd minFree (r, chunks))).Ordered) ∧
    (¬ (r.n - r.j < minFree → r.save = true ∨ r.i = 0 ∨ r.Overfull) →
      ¬ (afterTurn (refill (α := α) atEnd minFree (r, chunks))).Valid) := by
  have hafter := afterTurn_refill (α := α) r atEnd minFree chunks
  by_cases hnew : r.n - r.j < minFree
  · rw [if_pos hnew] at hafter
    cases hr' : r.reallocate with
    | none =>
      rw [hr'] at hafter
      dsimp only at hafter
      rw [hafter]
      refine ⟨fun _ => h, fun hno => absurd (fun _ => ?_) hno⟩
      have hover : r.Overfull := by
        by_contra hfits
        rw [h.toValid.reallocate, if_pos (h.fits_iff.2 hfits)] at hr'
        cases hr'
      exact .inr (.inr hover)
    | some r₁ =>
      rw [hr'] at hafter
      obtain ⟨hkeeps, hloses⟩ := h.reallocate hr'
      have hfits : ¬ r.Overfull := by
        intro hover
        rw [h.toValid.reallocate, if_neg (fun hfits => h.fits_iff.1 hfits hover)] at hr'
        cases hr'
      refine ⟨fun hok => hafter.ordered (hkeeps ?_), fun hno => hafter.not_valid (hloses ?_)⟩
      · exact (or_assoc.2 (hok hnew)).resolve_right hfits
      · exact fun hkept => hno fun _ => or_assoc.1 (.inl hkept)
  · rw [if_neg hnew] at hafter
    exact ⟨fun _ => hafter.ordered h, fun hno => absurd (fun hlt => absurd hlt hnew) hno⟩

theorem Valid.length_unparsed (h : r.Valid) : (r.unparsed.length : Int) = r.j - r.i := by
  have hi := h.k_nonneg.trans h.k_le
  have hij := h.i_le
  have hjn := h.j_le
  unfold PacketReader.unparsed
  rw [length_slice]
  unfold position
  rw [if_neg (by omega), if_neg (by omega), h.length_eq]
  omega

theorem parsed_le {kind : ReadKind} {length : Int} (h : r.find kind = .parsed length) :
    length ≤ r.unparsed.length := by
  cases kind with
  | legacyPing =>
    unfold find at h
    dsimp only at h
    obtain ⟨request, -, -, hfields, hok⟩ | ⟨-, err, herr, hprotocol⟩ | ⟨-, herr⟩ :=
      decodeLegacyPing_cases r.unparsed
    · rw [hok] at h
      cases h
      exact Int.ofNat_le.2 hfields.complete
    · rw [herr] at h
      cases err <;> cases h
    · rw [herr] at h
      cases h
  | packet =>
    unfold find at h
    dsimp only at h
    split at h
    · cases h
    · cases h
    · cases hdecode : decodePacket r.unparsed with
      | error err =>
        rw [hdecode] at h
        cases err <;> cases h
      | ok packet =>
        obtain ⟨totalLength, packetId, payload⟩ := packet
        rw [hdecode] at h
        cases h
        obtain ⟨_, _, _, -, hle, -, rfl, -⟩ := decodePacket_eq_ok.1 hdecode
        exact hle

/-- A turn that parses keeps the order exactly if it does not move `i` below 0. -/
theorem Ordered.parse (h : r.Ordered) {length : Int} (hle : length ≤ r.unparsed.length)
    (packetLength : Option Int) :
    (0 ≤ r.i + length →
      ({ r with i := r.i + length, packetLength := packetLength } : PacketReader).Ordered) ∧
    (¬ 0 ≤ r.i + length →
      ¬ ({ r with i := r.i + length, packetLength := packetLength } : PacketReader).Valid) := by
  have hk := h.k_eq
  rw [h.length_unparsed] at hle
  constructor
  · intro hnonneg
    refine ⟨⟨h.k_nonneg, ?_, ?_, h.j_le, h.length_eq⟩, hk, h.default_le, h.le_max⟩
    · show r.k ≤ r.i + length
      omega
    · show r.i + length ≤ r.j
      omega
  · intro hneg hvalid
    exact hneg (h.k_nonneg.trans hvalid.k_le)

theorem Ordered.legacyPingTurn (h : r.Ordered) :
    (r.InOrderAfter (r.find .legacyPing) →
      (afterTurn (legacyPingTurn atEnd (r, chunks))).Ordered) ∧
    (¬ r.InOrderAfter (r.find .legacyPing) →
      ¬ (afterTurn (legacyPingTurn atEnd (r, chunks))).Valid) := by
  have hparsed (length : Int) (hfind : r.find .legacyPing = .parsed length) := parsed_le hfind
  unfold InOrderAfter Protocol.legacyPingTurn
  unfold find at hparsed ⊢
  dsimp only at hparsed ⊢
  cases hdecode : decodeLegacyPing r.unparsed with
  | ok result =>
    rw [hdecode] at hparsed
    exact h.parse (hparsed _ rfl) r.packetLength
  | error err =>
    cases err with
    | incompleteRead => exact h.refill atEnd MIN_READ_SIZE chunks
    | protocol | malformed | structError | unicodeDecode | valueError | jsonDecodeError
    | recursionError | connectionReset | timeout =>
      exact ⟨fun _ => h, fun hno => absurd trivial hno⟩

theorem Ordered.packetTurn (h : r.Ordered) :
    (r.InOrderAfter (r.find .packet) →
      (afterTurn (packetTurn atEnd (r, chunks))).Ordered) ∧
    (¬ r.InOrderAfter (r.find .packet) →
      ¬ (afterTurn (packetTurn atEnd (r, chunks))).Valid) := by
  have hparsed (length : Int) (hfind : r.find .packet = .parsed length) := parsed_le hfind
  unfold InOrderAfter Protocol.packetTurn
  unfold find at hparsed ⊢
  dsimp only at hparsed ⊢
  cases hlength : r.decodeLength with
  | error err =>
    cases err with
    | incompleteRead => exact h.refill atEnd MIN_READ_SIZE chunks
    | protocol | malformed | structError | unicodeDecode | valueError | jsonDecodeError
    | recursionError | connectionReset | timeout =>
      exact ⟨fun _ => h, fun hno => absurd trivial hno⟩
  | ok packetLength =>
    rw [hlength] at hparsed
    have hknown : ({ r with packetLength := some packetLength } : PacketReader).Ordered :=
      ⟨⟨h.k_nonneg, h.k_le, h.i_le, h.j_le, h.length_eq⟩, h.k_eq, h.default_le, h.le_max⟩
    dsimp only at hparsed ⊢
    rw [show ({ r with packetLength := some packetLength } : PacketReader).unparsed = r.unparsed
      from rfl]
    cases hdecode : decodePacket r.unparsed with
    | ok result =>
      rw [hdecode] at hparsed
      exact h.parse (hparsed _ rfl) none
    | error err =>
      cases err with
      | incompleteRead => exact hknown.refill atEnd (min MIN_READ_SIZE packetLength) chunks
      | protocol | malformed | structError | unicodeDecode | valueError | jsonDecodeError
      | recursionError | connectionReset
      | timeout => exact ⟨fun _ => hknown, fun hno => absurd trivial hno⟩

theorem Valid.setSave (h : r.Valid) (value : Bool) : Valid { r with save := value } :=
  ⟨h.k_nonneg, h.k_le, h.i_le, h.j_le, h.length_eq⟩

theorem Ordered.setSave (h : r.Ordered) (value : Bool) : Ordered { r with save := value } :=
  ⟨h.toValid.setSave value, h.k_eq, h.default_le, h.le_max⟩

theorem Ordered.turn (h : r.Ordered) (kind : ReadKind) :
    (r.InOrderAfter (r.find kind) → (turn kind atEnd (r, chunks)).1.Ordered) ∧
      (¬ r.InOrderAfter (r.find kind) → ¬ (turn kind atEnd (r, chunks)).1.Valid) := by
  cases kind with
  | legacyPing => exact h.legacyPingTurn
  | packet => exact h.packetTurn

theorem Ordered.seen {w : InUse} (h : w.reader.Ordered) (kind : ReadKind) :
    (w.seen kind).Ordered := by
  unfold InUse.seen
  split
  · exact h.setSave _
  · exact h

/-- **One step**: the offsets stay in order exactly if the step is. -/
theorem Ordered.step {w w' : InUse} {e : Event} (h : w.reader.Ordered)
    (hstep : w.step e = some w') :
    (w.InOrder e → w'.reader.Ordered) ∧ (¬ w.InOrder e → ¬ w'.reader.Valid) := by
  cases e with
  | save value =>
    cases hstep
    exact ⟨fun _ => h.setSave value, fun hno => absurd trivial hno⟩
  | turn kind atEnd chunks =>
    unfold InUse.step at hstep
    dsimp only at hstep
    split at hstep
    · cases hstep
      obtain ⟨hkeeps, hbreaks⟩ := @Ordered.turn _ atEnd chunks (h.seen kind) kind
      exact ⟨fun hok => (hkeeps hok).setSave _, fun hno hvalid => hbreaks hno (hvalid.setSave _)⟩
    · cases hstep

theorem new_ordered {initialData : Bytes} (h : new initialData = some r) : r.Ordered := by
  obtain ⟨buffer, hbuffer, rfl⟩ := Option.map_eq_some_iff.1 h
  unfold allocateBuffer at hbuffer
  simp only [Bool.false_eq_true, if_false, Int.sub_zero] at hbuffer
  obtain ⟨data, hset, rfl⟩ := Option.map_eq_some_iff.1 hbuffer
  have hlength := length_setSlice? hset
  rw [List.length_replicate] at hlength
  have hsizes : DEFAULT_BUFFER_SIZE ≤ MAX_BUFFER_SIZE := by decide
  obtain ⟨hdefault, hmax⟩ := resized_bounds le_rfl hsizes initialData.length
  have hfits : initialData.length ≤ resized DEFAULT_BUFFER_SIZE initialData.length := by
    by_contra hlong
    have hslice : slice initialData 0 initialData.length = initialData := by
      simpa using slice_append [] initialData []
    rw [hslice, setSlice?_eq_none (by rw [List.length_replicate]; omega)] at hset
    cases hset
  have hjn : (initialData.length : Int) ≤
      (resized DEFAULT_BUFFER_SIZE initialData.length : Nat) := Int.ofNat_le.2 hfits
  have hj : (0 : Int) ≤ initialData.length := Int.natCast_nonneg _
  refine ⟨⟨?_, ?_, ?_, ?_, ?_⟩, ?_, ?_, ?_⟩ <;> dsimp only
  · exact le_refl 0
  · exact le_refl 0
  · exact hj
  · exact hjn
  · exact hlength
  · exact hdefault
  · exact hmax

/-! ### Calls as runs -/

theorem reallocate_save (h : r.reallocate = some r') : r'.save = r.save := by
  obtain ⟨buffer, -, rfl⟩ := Option.map_eq_some_iff.1 h
  rfl

theorem afterTurn_refill_save {α : Type} (r : PacketReader) (atEnd : Err) (minFree : Int)
    (chunks : List Bytes) :
    (afterTurn (refill (α := α) atEnd minFree (r, chunks))).save = r.save := by
  have hafter := afterTurn_refill (α := α) r atEnd minFree chunks
  cases hbuffer : (if r.n - r.j < minFree then r.reallocate else some r) with
  | none =>
    rw [hbuffer] at hafter
    exact congrArg save hafter
  | some r₁ =>
    rw [hbuffer] at hafter
    have hsave : r₁.save = r.save := by
      split at hbuffer
      · exact reallocate_save hbuffer
      · cases hbuffer
        rfl
    rw [← hsave]
    rcases hafter with heq | ⟨data, -, heq⟩ <;> rw [heq]

theorem turn_save (kind : ReadKind) (atEnd : Err) (c : Connection) :
    (turn kind atEnd c).1.save = c.1.save := by
  cases kind with
  | legacyPing =>
    show (afterTurn (Protocol.legacyPingTurn atEnd c)).save = c.1.save
    unfold Protocol.legacyPingTurn
    split
    · exact afterTurn_refill_save ..
    · rfl
    · rfl
  | packet =>
    show (afterTurn (Protocol.packetTurn atEnd c)).save = c.1.save
    unfold Protocol.packetTurn
    split
    · exact afterTurn_refill_save ..
    · rfl
    · dsimp only
      split
      · exact afterTurn_refill_save ..
      · rfl
      · rfl

/-- A turn of a call that began with `_save` as it still is. -/
theorem InUse.step_turn {kind : ReadKind} {call : Option (ReadKind × Bool)} (atEnd : Err)
    (c : Connection) (hcall : ∀ p ∈ call, p = (kind, c.1.save)) :
    InUse.step ⟨c.1, call⟩ (.turn kind atEnd c.2) =
      some ⟨(turn kind atEnd c).1,
        if (turn kind atEnd c).2 then some (kind, c.1.save) else none⟩ := by
  have hseen : InUse.seen ⟨c.1, call⟩ kind = c.1 := by
    unfold InUse.seen
    split
    · next hp =>
      cases hcall _ hp
      rfl
    · rfl
  have hsame : { (turn kind atEnd c).1 with save := c.1.save } = (turn kind atEnd c).1 := by
    rw [← turn_save kind atEnd c]
  unfold InUse.step
  dsimp only
  rw [if_pos fun p hp => by rw [hcall p hp], hseen]
  exact congrArg (fun reader => some (InUse.mk reader _)) hsame

/-- The reader is in use by a call of this kind, or by none, and came here from `r` by turns. -/
def Between (r : PacketReader) (kind : ReadKind) (r' : PacketReader) : Prop :=
  r'.save = r.save ∧ ∃ call : Option (ReadKind × Bool), (∀ p ∈ call, p = (kind, r.save)) ∧
    Reach InUse.step (fun _ _ => True) ⟨r, none⟩ ⟨r', call⟩

theorem Between.turn {kind : ReadKind} {c : Connection} (h : Between r kind c.1) (atEnd : Err) :
    ((turn kind atEnd c).2 = true → Between r kind (turn kind atEnd c).1) ∧
      ((turn kind atEnd c).2 = false →
        Reach InUse.step (fun _ _ => True) ⟨r, none⟩ ⟨(turn kind atEnd c).1, none⟩) := by
  obtain ⟨hsave, call, hcall, hrun⟩ := h
  rw [← hsave] at hcall
  have hstep := hrun.trans (.single trivial (InUse.step_turn atEnd c hcall))
  constructor
  · intro hgoes
    rw [if_pos hgoes] at hstep
    exact ⟨(turn_save kind atEnd c).trans hsave, _, by simp [hsave], hstep⟩
  · intro hleaves
    rw [if_neg (by simp [hleaves])] at hstep
    exact hstep

/-- **A call is a run of turns.** -/
theorem call_reach (r : PacketReader) (atEnd : Err) (chunks : List Bytes) :
    Reach InUse.step (fun _ _ => True) ⟨r, none⟩ ⟨(readPacket atEnd (r, chunks)).2.1, none⟩ ∧
      Reach InUse.step (fun _ _ => True) ⟨r, none⟩
        ⟨(readLegacyPing atEnd (r, chunks)).2.1, none⟩ := by
  have hbegin (kind : ReadKind) : Between r kind r := ⟨rfl, none, by simp, .refl⟩
  constructor
  · refine (packetLoop atEnd).run_spec (P := fun c => Between r .packet c.1)
      (Q := fun result => Reach InUse.step (fun _ _ => True) ⟨r, none⟩ ⟨result.2.1, none⟩)
      (hbegin .packet) ?_ ?_
    · intro c c' _ hc hturn
      replace hturn : Protocol.packetTurn atEnd c = .again c' := hturn
      have hnext := (hc.turn atEnd).1
      simp only [PacketReader.turn, hturn] at hnext
      exact hnext rfl
    · intro c result _ hc hturn
      replace hturn : Protocol.packetTurn atEnd c = .leave result := hturn
      have hend := (hc.turn atEnd).2
      simp only [PacketReader.turn, hturn] at hend
      exact hend rfl
  · refine (legacyPingLoop atEnd).run_spec (P := fun c => Between r .legacyPing c.1)
      (Q := fun result => Reach InUse.step (fun _ _ => True) ⟨r, none⟩ ⟨result.2.1, none⟩)
      (hbegin .legacyPing) ?_ ?_
    · intro c c' _ hc hturn
      replace hturn : Protocol.legacyPingTurn atEnd c = .again c' := hturn
      have hnext := (hc.turn atEnd).1
      simp only [PacketReader.turn, hturn] at hnext
      exact hnext rfl
    · intro c result _ hc hturn
      replace hturn : Protocol.legacyPingTurn atEnd c = .leave result := hturn
      have hend := (hc.turn atEnd).2
      simp only [PacketReader.turn, hturn] at hend
      exact hend rfl

end

/-- **The buffer**: in every run whose turns are in order the offsets are, and a turn that is not
leaves them out of order; and a new buffer is as it should be exactly if what it keeps begins at 0
and is roomy. -/
theorem buffer_representation {initialData : Bytes} {r₀ : PacketReader} {w : InUse}
    (hnew : new initialData = some r₀) (h : Reach InUse.step InUse.InOrder ⟨r₀, none⟩ w) :
    (w.reader.Valid ∧ ∀ e w', w.step e = some w' → (w'.reader.Valid ↔ w.InOrder e)) ∧
      ∀ r : PacketReader, r.Valid → r.n ≤ MAX_BUFFER_SIZE →
        (r.AllocatesWell ↔ r.start = 0 ∧ r.Roomy) := by
  have hw : w.reader.Ordered := by
    refine h.invariant (P := fun w => w.reader.Ordered) (new_ordered hnew) ?_
    intro w e w' hw hok hstep
    exact (hw.step hstep).1 hok
  refine ⟨⟨hw.toValid, fun e w' hstep => ?_⟩, fun r hr hmax => hr.allocatesWell_iff hmax⟩
  obtain ⟨hkeeps, hbreaks⟩ := hw.step hstep
  constructor
  · intro hvalid
    by_contra hno
    exact hbreaks hno hvalid
  · intro hok
    exact (hkeeps hok).toValid

/-- A turn that reads the first byte of a packet, and a new buffer for it. -/
theorem buffer_representation_first :
    (∃ w : InUse, InUse.step ⟨fresh, none⟩ (.turn .packet .connectionReset [[5]]) = some w ∧
      w.reader.Valid) ∧ fresh.AllocatesWell := by
  obtain ⟨⟨hvalid, hturn⟩, hallocates⟩ := buffer_representation new_nil .refl
  have hroomy : fresh.Roomy := by
    unfold Roomy
    decide +kernel
  have hwell := (hallocates fresh hvalid layout_fresh.le_max).2 ⟨rfl, hroomy⟩
  obtain ⟨e, he⟩ : ∃ e : Event, e = .turn .packet .connectionReset [[5]] := ⟨_, rfl⟩
  have horder : InUse.InOrder ⟨fresh, none⟩ e := by
    rw [he]
    decide +kernel
  obtain ⟨w, hstep⟩ : ∃ w, InUse.step ⟨fresh, none⟩ e = some w := by
    rw [he]
    exact ⟨_, rfl⟩
  rw [← he]
  exact ⟨⟨w, hstep, (hturn e w hstep).2 horder⟩, hwell⟩

/-- A packet of the length -16 was parsed; a buffer is replaced behind parsed bytes; and one of
8 KiB with 5000 bytes in it is to be replaced by its half. -/
theorem buffer_out_of_order :
    (∃ w, Reach InUse.step (fun _ _ => True) ⟨fresh, none⟩ w ∧ w.call.isNone = true ∧
      w.reader.i < 0) ∧
    (∃ r : PacketReader, r.Valid ∧ r.n ≤ MAX_BUFFER_SIZE ∧
      ∃ r', r.reallocate = some r' ∧ r'.i < r'.k) ∧
    ∃ r : PacketReader, r.Valid ∧ r.n ≤ MAX_BUFFER_SIZE ∧ r.reallocate = none := by
  have hvalid (i j : Int) (n : Nat) (hi : 0 ≤ i) (hij : i ≤ j) (hjn : j ≤ n) :
      ({ data := List.replicate n 0, i := i, j := j, k := 0, n := n, packetLength := none,
         save := false } : PacketReader).Valid :=
    ⟨le_refl 0, hi, hij, hjn, List.length_replicate⟩
  refine ⟨?_, ?_, ?_⟩
  · exact Reach.exists_of_runIn InUse.step (fun _ _ => True) ⟨fresh, none⟩
      [.turn .packet .connectionReset [[0xF0, 0xFF, 0xFF, 0xFF, 0x0F, 0x00]],
        .turn .packet .connectionReset []]
      (by decide +kernel)
  · have hr := hvalid 10 20 4096 (by decide) (by decide) (by decide)
    refine ⟨_, hr, by decide, _, hr.reallocate.trans (if_pos ?_), ?_⟩
    · decide +kernel
    · show (10 : Int) - 10 < 10
      decide
  · have hr := hvalid 0 5000 8192 (by decide) (by decide) (by decide)
    refine ⟨_, hr, by decide, hr.reallocate.trans (if_neg ?_)⟩
    decide +kernel

end PacketReader

end Silkjam.Protocol
