import Silkjam.Lib.Loop
import Silkjam.Protocol.Packet

/-!
# The packet reader

`PacketReader` keeps what it has received in a buffer: bytes that were parsed, bytes that were not,
and free space, in this order (`Layout`). When a packet is not complete it reads more into the free
space, after moving to another buffer if there is too little of it; the new buffer has half or twice
the size, or the same. Reads are taken from the chunks in which the stream arrives, of which a read
returns as much of the first one as there is room for.
-/

namespace Silkjam.Protocol

open Slice Loop

def DEFAULT_BUFFER_SIZE : Nat := 1 <<< 12

def MAX_BUFFER_SIZE : Nat := 1 <<< 23

def MIN_READ_SIZE : Nat := 1 <<< 10

/-- The size of the buffer after one of size `n`, of which `occupied` bytes are kept. -/
def resized (n : Nat) (occupied : Int) : Nat :=
  if occupied < (n : Int) - (n >>> 2 : Nat) then max (n >>> 1) DEFAULT_BUFFER_SIZE
  else if occupied > (n : Int) - MIN_READ_SIZE then min (n <<< 1) MAX_BUFFER_SIZE
  else n

/-- `_allocate_buffer`; `none` when the copy raises `ValueError`. -/
def allocateBuffer (data : Bytes) (i j k : Int) (n : Nat) (save : Bool) :
    Option (Bytes × Int × Int × Int × Nat) :=
  let k := if save then k else i
  let n := resized n (j - k)
  (setSlice? (List.replicate n 0) 0 (j - k) (slice data k j)).map
    fun data => (data, i - k, j - k, k, n)

structure PacketReader where
  data : Bytes
  /-- start of unparsed data -/
  i : Int
  /-- start of unread data -/
  j : Int
  /-- start of saved data -/
  k : Int
  /-- size of buffer -/
  n : Nat
  packetLength : Option Int
  save : Bool

namespace PacketReader

/-- `PacketReader(reader, initial_data)` -/
def new (initialData : Bytes) : Option PacketReader :=
  (allocateBuffer initialData 0 initialData.length 0 DEFAULT_BUFFER_SIZE false).map
    fun (data, i, j, k, n) => ⟨data, i, j, k, n, none, false⟩

def unparsed (r : PacketReader) : Bytes :=
  slice r.data r.i r.j

/-- `data, i, j, k, n = self._allocate_buffer(data, i, j, k, n, save=self._save)` -/
def reallocate (r : PacketReader) : Option PacketReader :=
  (allocateBuffer r.data r.i r.j r.k r.n r.save).map
    fun (data, i, j, k, n) => { r with data := data, i := i, j := j, k := k, n := n }

end PacketReader

/-- `reader.read(m)`, with the chunks that are left. -/
def streamRead (m : Int) : List Bytes → Bytes × List Bytes
  | [] => ([], [])
  | chunk :: chunks =>
    if m < 0 then ((chunk :: chunks).flatten, [])
    else if chunk.length ≤ m.toNat then (chunk, chunks)
    else (chunk.take m.toNat, chunk.drop m.toNat :: chunks)

/-- A reader and the chunks that have not been read. -/
abbrev Connection := PacketReader × List Bytes

/-- What a call returns or raises, and the connection after it. -/
abbrev Outcome (α : Type) := Except Err α × Connection

/-- Read more, with at least `minFree` bytes free. When no more arrives the read ends in `atEnd`: at
the end of the stream `ConnectionResetError`, and `TimeoutError` if the call's timer goes off. -/
def refill {α : Type} (atEnd : Err) (minFree : Int) (c : Connection) : Turn Connection (Outcome α) :=
  match (if c.1.n - c.1.j < minFree then c.1.reallocate else some c.1) with
  | none => .leave (.error .valueError, c)
  | some r =>
    if r.j = r.n then .leave (.error (.protocol "Exceeded maximum buffer size"), r, c.2)
    else
      match streamRead (r.n - r.j) c.2 with
      | ([], chunks) => .leave (.error atEnd, r, chunks)
      | (newData, chunks) =>
        match setSlice? r.data r.j (r.j + newData.length) newData with
        | none => .leave (.error .valueError, r, chunks)
        | some data => .again ({ r with data := data, j := r.j + newData.length }, chunks)

/-- `packet_length`, decoded unless it is known. -/
def PacketReader.decodeLength (r : PacketReader) : Except Err Int :=
  match r.packetLength with
  | some packetLength => .ok packetLength
  | none => (decodeVarint r.unparsed).map Prod.snd

/-- One turn of the loop of `_read_packet`. -/
def packetTurn (atEnd : Err) (c : Connection) : Turn Connection (Outcome Packet) :=
  match c.1.decodeLength with
  | .error .incompleteRead => refill atEnd MIN_READ_SIZE c
  | .error err => .leave (.error err, c)
  | .ok packetLength =>
    let r := { c.1 with packetLength := some packetLength }
    match decodePacket r.unparsed with
    | .error .incompleteRead => refill atEnd (min MIN_READ_SIZE packetLength) (r, c.2)
    | .error err => .leave (.error err, r, c.2)
    | .ok (totalLength, packet) =>
      .leave (.ok (totalLength, packet),
        { r with i := r.i + totalLength, packetLength := none }, c.2)

/-! ### Reading goes on as long as bytes arrive -/

theorem length_streamRead (m : Int) (chunks : List Bytes) :
    (streamRead m chunks).1.length + (streamRead m chunks).2.flatten.length =
      chunks.flatten.length := by
  unfold streamRead
  split
  · rfl
  · split
    · simp
    · split
      · simp
      · simp only [List.flatten_cons, List.length_append, List.length_take, List.length_drop]
        omega

theorem refill_again {α : Type} {atEnd : Err} {minFree : Int} {c c' : Connection}
    (h : refill (α := α) atEnd minFree c = .again c') :
    c'.2.flatten.length < c.2.flatten.length := by
  unfold refill at h
  split at h
  · cases h
  · next r _ =>
    split at h
    · cases h
    · have hlength := length_streamRead (r.n - r.j) c.2
      split at h
      · cases h
      · next newData chunks hne hread =>
        rw [hread] at hlength
        have hpos : 0 < newData.length := List.length_pos_iff.2 hne
        split at h
        · cases h
        · cases h
          dsimp only at hlength ⊢
          omega

theorem packetTurn_again {atEnd : Err} {c c' : Connection} (h : packetTurn atEnd c = .again c') :
    c'.2.flatten.length < c.2.flatten.length := by
  unfold packetTurn at h
  split at h
  · exact refill_again h
  · cases h
  · dsimp only at h
    split at h
    · have hlt := refill_again h
      exact hlt
    · cases h
    · cases h

/-- The loop of `_read_packet`. -/
def packetLoop (atEnd : Err) : Body Connection (Outcome Packet) where
  turn := packetTurn atEnd
  size c := c.2.flatten.length
  size_lt := packetTurn_again

def readPacket (atEnd : Err) (c : Connection) : Outcome Packet :=
  (packetLoop atEnd).run c

/-! ### The buffer -/

section
variable {r : PacketReader} {parsed u free : Bytes}

/-- `data = [parsed data] + [unparsed data] + [free space]` -/
structure PacketReader.Layout (r : PacketReader) (parsed u free : Bytes) : Prop where
  data_eq : r.data = parsed ++ u ++ free
  i_eq : r.i = parsed.length
  j_eq : r.j = parsed.length + u.length
  n_eq : r.n = parsed.length + u.length + free.length
  default_le : DEFAULT_BUFFER_SIZE ≤ r.n
  le_max : r.n ≤ MAX_BUFFER_SIZE
  not_save : r.save = false

/-- The reader has these unparsed bytes. -/
def PacketReader.Holds (r : PacketReader) (u : Bytes) : Prop :=
  ∃ parsed free, r.Layout parsed u free

theorem PacketReader.Layout.unparsed_eq (h : r.Layout parsed u free) : r.unparsed = u := by
  unfold PacketReader.unparsed
  rw [h.data_eq, h.i_eq, h.j_eq]
  exact slice_append parsed u free

theorem PacketReader.Layout.occupied_eq (h : r.Layout parsed u free) : r.j - r.i = u.length := by
  rw [h.i_eq, h.j_eq]
  omega

theorem PacketReader.Layout.free_eq (h : r.Layout parsed u free) : r.n - r.j = free.length := by
  rw [h.n_eq, h.j_eq]
  omega

theorem resized_bounds {n : Nat} (hn : DEFAULT_BUFFER_SIZE ≤ n) (hmax : n ≤ MAX_BUFFER_SIZE)
    (occupied : Int) :
    DEFAULT_BUFFER_SIZE ≤ resized n occupied ∧ resized n occupied ≤ MAX_BUFFER_SIZE := by
  have hsizes : DEFAULT_BUFFER_SIZE ≤ MAX_BUFFER_SIZE := by decide
  have hhalf : n >>> 1 ≤ n := Nat.shiftRight_le n 1
  have hdouble : n ≤ n <<< 1 := by
    rw [Nat.shiftLeft_eq]
    omega
  unfold resized
  split
  · omega
  · split <;> omega

/-- The new buffer holds what the old one did, if it has room for it. -/
theorem PacketReader.Layout.reallocate (h : r.Layout parsed u free)
    (hroom : u.length ≤ resized r.n u.length) :
    ∃ r', r.reallocate = some r' ∧ r'.packetLength = r.packetLength ∧
      r'.Layout [] u (List.replicate (resized r.n u.length - u.length) 0) := by
  have hsplit : List.replicate (resized r.n u.length) (0 : UInt8) =
      List.replicate u.length 0 ++ List.replicate (resized r.n u.length - u.length) 0 := by
    rw [List.replicate_append_replicate]
    congr 1
    omega
  have hset := setSlice?_append_left (List.replicate u.length (0 : UInt8))
    (List.replicate (resized r.n u.length - u.length) 0) u (by simp)
  rw [← hsplit] at hset
  have hoccupied := h.occupied_eq
  have hslice : slice r.data r.i r.j = u := h.unparsed_eq
  have hbounds := resized_bounds h.default_le h.le_max u.length
  unfold PacketReader.reallocate allocateBuffer
  rw [h.not_save]
  simp only [Bool.false_eq_true, if_false]
  rw [hoccupied, hslice, hset]
  refine ⟨_, rfl, rfl, ⟨rfl, by simp, by simp, ?_, hbounds.1, hbounds.2, rfl⟩⟩
  dsimp only
  rw [List.length_nil, List.length_replicate]
  omega

theorem PacketReader.Layout.reallocate_eq_none (h : r.Layout parsed u free)
    (hroom : resized r.n u.length < u.length) : r.reallocate = none := by
  have hslice : slice r.data r.i r.j = u := h.unparsed_eq
  unfold PacketReader.reallocate allocateBuffer
  rw [h.not_save]
  simp only [Bool.false_eq_true, if_false]
  rw [h.occupied_eq, hslice, setSlice?_eq_none (by simpa using hroom)]
  rfl

theorem PacketReader.Layout.receive (h : r.Layout parsed u free) (newData : Bytes)
    (hroom : newData.length ≤ free.length) :
    ∃ data, setSlice? r.data r.j (r.j + newData.length) newData = some data ∧
      { r with data := data, j := r.j + newData.length : PacketReader }.Layout parsed
        (u ++ newData) (free.drop newData.length) := by
  have hset := setSlice?_append (parsed ++ u) (free.take newData.length)
    (free.drop newData.length) newData (by rw [List.length_take]; omega)
  rw [List.append_assoc _ (free.take _), List.take_append_drop, ← h.data_eq, List.length_append]
    at hset
  have hj : r.j = (parsed.length + u.length : Nat) := by
    rw [h.j_eq]
    omega
  rw [hj]
  refine ⟨_, hset, ⟨by simp, h.i_eq, ?_, ?_, h.default_le, h.le_max, h.not_save⟩⟩
  · dsimp only
    rw [List.length_append]
    omega
  · dsimp only
    rw [h.n_eq, List.length_append, List.length_drop]
    omega

theorem PacketReader.Layout.parse (h : r.Layout parsed u free) {k : Nat} (hk : k ≤ u.length) :
    { r with i := r.i + k, packetLength := none : PacketReader }.Layout (parsed ++ u.take k)
      (u.drop k) free := by
  refine ⟨?_, ?_, ?_, ?_, h.default_le, h.le_max, h.not_save⟩
  · dsimp only
    rw [h.data_eq, List.append_assoc parsed (u.take k), List.take_append_drop]
  · dsimp only
    rw [h.i_eq, List.length_append, List.length_take]
    omega
  · dsimp only
    rw [h.j_eq, List.length_append, List.length_take, List.length_drop]
    omega
  · dsimp only
    rw [h.n_eq, List.length_append, List.length_take, List.length_drop]
    omega

end

end Silkjam.Protocol
