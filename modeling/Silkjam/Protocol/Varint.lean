import Mathlib.Algebra.Order.Ring.Int
import Mathlib.Data.List.Basic
import Mathlib.Tactic.Common

/-!
# VarInts

A VarInt holds a signed number of 32 bits in at most five bytes, seven bits a byte, of which all but
the last have the continuation bit. Decoding undoes encoding whatever follows
(`decodeVarint_encodeVarint`), and a definite outcome depends on the bytes of the VarInt alone
(`decodeVarint_take`), which is what lets a reader decode a stream that has not arrived yet
(`varint_coding`).
-/

namespace Silkjam.Protocol

abbrev Bytes := List UInt8

/-- The exceptions of the decoders and of the reader. -/
inductive Err where
  /-- `MCProtocolError(data, message)` -/
  | protocol (message : String)
  /-- `MCProtocolError(data, f"Malformed {what}: {err}")` -/
  | malformed (what : String) (err : Err)
  | incompleteRead
  | structError
  | unicodeDecode
  | valueError
  | jsonDecodeError
  | recursionError
  | connectionReset
  | timeout
  deriving DecidableEq

/-- `isinstance(err, MCProtocolError)` -/
def Err.isProtocol : Err → Bool
  | .protocol _ | .malformed _ _ => true
  | _ => false

/-- `try: x except (...) as err: raise MCProtocolError(data, f"Malformed {what}: {err}")` -/
def malformed {α : Type} (what : String) (caught : Err → Bool) : Except Err α → Except Err α
  | .ok a => .ok a
  | .error err => .error (if caught err then .malformed what err else err)

theorem malformed_eq_ok {α : Type} {what : String} {caught : Err → Bool} {x : Except Err α} {a : α} :
    malformed what caught x = .ok a ↔ x = .ok a := by
  cases x <;> simp [malformed]

theorem bind_eq_ok {α β : Type} {x : Except Err α} {f : α → Except Err β} {b : β} :
    (x >>= f) = .ok b ↔ ∃ a, x = .ok a ∧ f a = .ok b := by
  cases x <;> simp [bind, Except.bind]

theorem bind_eq_error {α β : Type} {x : Except Err α} {f : α → Except Err β} {err : Err} :
    (x >>= f) = .error err ↔ x = .error err ∨ ∃ a, x = .ok a ∧ f a = .error err := by
  cases x <;> simp [bind, Except.bind]

/-- The loop of `decode_varint` over the bytes from `i` on. -/
def varintLoop (num i : Nat) : Bytes → Except Err (Nat × Nat)
  | [] => .error (if 5 < i + 1 then .protocol "VarInt is too big" else .incompleteRead)
  | b :: data =>
    if 5 < i + 1 then .error (.protocol "VarInt is too big")
    else
      let num := num ||| (b.toNat &&& 0b01111111) <<< (7 * i)
      if b.toNat &&& 0b10000000 = 0 then .ok (i, num) else varintLoop num (i + 1) data

/-- `num &= 0xFFFFFFFF`, read as a signed number. -/
def toSigned (num : Nat) : Int :=
  let num := num &&& 0xFFFFFFFF
  if 1 <<< 31 ≤ num then (num : Int) - (1 <<< 32 : Nat) else num

/-- The length of the VarInt and its number. -/
def decodeVarint (data : Bytes) : Except Err (Nat × Int) := do
  let (i, num) ← varintLoop 0 0 data
  return (i + 1, toSigned num)

/-- The loop of `encode_varint`. -/
def varintBytes (value : Nat) : Bytes :=
  let temp := value &&& 0x7F
  let value' := value >>> 7
  if value' ≠ 0 then UInt8.ofNat (temp ||| 0x80) :: varintBytes value' else [UInt8.ofNat temp]
termination_by value
decreasing_by
  rename_i h
  simp only [value', Nat.shiftRight_eq_div_pow] at h ⊢
  omega

/-- `encode_varint` of a number from `-2 ^ 32` on, below which the source does not end. -/
def encodeVarint (value : Int) : Bytes :=
  varintBytes (if value < 0 then value + (1 <<< 32 : Nat) else value).toNat

/-! ### What is decoded -/

section
variable {data : Bytes} {num num' i i' m : Nat} {v : Int}

theorem varintLoop_append (h : varintLoop num i data = .ok (i', num')) (s : Bytes) :
    varintLoop num i (data ++ s) = .ok (i', num') := by
  induction data generalizing num i with
  | nil => cases h
  | cons b data ih =>
    rw [List.cons_append]
    unfold varintLoop at h ⊢
    split at h
    · cases h
    · next hi =>
      rw [if_neg hi]
      dsimp only at h ⊢
      split at h
      · next hb => rw [if_pos hb, h]
      · next hb => rw [if_neg hb, ih h]

/-- The loop ends at the last byte of the VarInt, which is one of the first five. -/
theorem varintLoop_bounds (h : varintLoop num i data = .ok (i', num')) :
    i ≤ i' ∧ i' < i + data.length ∧ i' < 5 := by
  induction data generalizing num i with
  | nil => cases h
  | cons b data ih =>
    unfold varintLoop at h
    rw [List.length_cons]
    split at h
    · cases h
    · next hi =>
      dsimp only at h
      split at h
      · cases h
        omega
      · have := ih h
        omega

theorem varintLoop_take (h : varintLoop num i data = .ok (i', num')) (k : Nat) :
    varintLoop num i (data.take k) =
      if i' < i + k then .ok (i', num') else .error .incompleteRead := by
  induction data generalizing num i k with
  | nil => cases h
  | cons b data ih =>
    have hbounds := varintLoop_bounds h
    unfold varintLoop at h
    split at h
    · cases h
    · next hi =>
      cases k with
      | zero =>
        rw [List.take_zero, if_neg (by omega)]
        unfold varintLoop
        rw [if_neg hi]
      | succ k =>
        rw [List.take_succ_cons]
        unfold varintLoop
        rw [if_neg hi]
        dsimp only at h ⊢
        split at h
        · next hb =>
          cases h
          rw [if_pos hb, if_pos (by omega)]
        · next hb =>
          rw [if_neg hb, ih h]
          exact if_congr (by omega) rfl rfl

theorem decodeVarint_eq_ok (h : decodeVarint data = .ok (m, v)) :
    ∃ i num, varintLoop 0 0 data = .ok (i, num) ∧ m = i + 1 ∧ v = toSigned num := by
  unfold decodeVarint at h
  cases hloop : varintLoop 0 0 data with
  | error err =>
    rw [hloop] at h
    cases h
  | ok r =>
    rw [hloop] at h
    cases h
    exact ⟨_, _, rfl, rfl, rfl⟩

theorem decodeVarint_bounds (h : decodeVarint data = .ok (m, v)) :
    1 ≤ m ∧ m ≤ data.length ∧ m ≤ 5 := by
  obtain ⟨i, num, hloop, rfl, -⟩ := decodeVarint_eq_ok h
  have := varintLoop_bounds hloop
  omega

theorem toSigned_bounds (num : Nat) : -2 ^ 31 ≤ toSigned num ∧ toSigned num < 2 ^ 31 := by
  have hlt : num &&& 0xFFFFFFFF < 2 ^ 32 := Nat.and_lt_two_pow num (by decide)
  unfold toSigned
  dsimp only
  rw [Nat.one_shiftLeft, Nat.one_shiftLeft]
  split <;> omega

theorem decodeVarint_signed (h : decodeVarint data = .ok (m, v)) : -2 ^ 31 ≤ v ∧ v < 2 ^ 31 := by
  obtain ⟨i, num, -, -, rfl⟩ := decodeVarint_eq_ok h
  exact toSigned_bounds num

theorem decodeVarint_append (h : decodeVarint data = .ok (m, v)) (s : Bytes) :
    decodeVarint (data ++ s) = .ok (m, v) := by
  obtain ⟨i, num, hloop, rfl, rfl⟩ := decodeVarint_eq_ok h
  unfold decodeVarint
  rw [varintLoop_append hloop]
  rfl

/-- **A VarInt is decoded as soon as its bytes are there**, and never to anything else. -/
theorem decodeVarint_take (h : decodeVarint data = .ok (m, v)) (k : Nat) :
    decodeVarint (data.take k) = if m ≤ k then .ok (m, v) else .error .incompleteRead := by
  obtain ⟨i, num, hloop, rfl, rfl⟩ := decodeVarint_eq_ok h
  unfold decodeVarint
  rw [varintLoop_take hloop]
  by_cases hk : i + 1 ≤ k
  · rw [if_pos hk, if_pos (by omega)]
    rfl
  · rw [if_neg hk, if_neg (by omega)]
    rfl

/-- These bytes are a VarInt of this number. -/
def IsVarint (bytes : Bytes) (value : Int) : Prop :=
  decodeVarint bytes = .ok (bytes.length, value)

theorem IsVarint.decode_append {bytes : Bytes} (h : IsVarint bytes v) (s : Bytes) :
    decodeVarint (bytes ++ s) = .ok (bytes.length, v) :=
  decodeVarint_append h s

theorem isVarint_take (h : decodeVarint data = .ok (m, v)) : IsVarint (data.take m) v := by
  have hm := decodeVarint_bounds h
  unfold IsVarint
  rw [decodeVarint_take h m, if_pos le_rfl, List.length_take, Nat.min_eq_left hm.2.1]

/-- The bits that have been read fit into the bytes that have been read. -/
theorem varintLoop_lt (h : varintLoop num i data = .ok (i', num')) (hnum : num < 2 ^ (7 * i)) :
    num' < 2 ^ (7 * (i' + 1)) := by
  induction data generalizing num i with
  | nil => cases h
  | cons b data ih =>
    have hlow : b.toNat &&& 0b01111111 < 2 ^ 7 := Nat.and_lt_two_pow b.toNat (by decide)
    have hnext : num ||| (b.toNat &&& 0b01111111) <<< (7 * i) < 2 ^ (7 * (i + 1)) := by
      apply Nat.or_lt_two_pow (hnum.trans_le (Nat.pow_le_pow_right (by decide) (by omega)))
      rw [Nat.shiftLeft_eq, Nat.mul_comm, Nat.mul_add, Nat.pow_add]
      exact Nat.mul_lt_mul_of_pos_left hlow (Nat.two_pow_pos _)
    unfold varintLoop at h
    split at h
    · cases h
    · dsimp only at h
      split at h
      · cases h
        exact hnext
      · exact ih h hnext

theorem length_of_neg (h : decodeVarint data = .ok (m, v)) (hv : v < 0) : m = 5 := by
  have hm := decodeVarint_bounds h
  obtain ⟨i, num, hloop, rfl, rfl⟩ := decodeVarint_eq_ok h
  have hlt := varintLoop_lt hloop (by simp)
  by_contra hne
  have hsmall : num < 2 ^ 31 :=
    hlt.trans_le (Nat.pow_le_pow_right (by decide) (by omega))
  have hmask : num &&& 0xFFFFFFFF ≤ num := Nat.and_le_left
  unfold toSigned at hv
  dsimp only at hv
  rw [Nat.one_shiftLeft, if_neg (by omega)] at hv
  omega

end

/-! ### Round trip -/

theorem and_127 (n : Nat) : n &&& 0x7F = n % 128 :=
  Nat.and_two_pow_sub_one_eq_mod n 7

theorem shiftRight_7 (n : Nat) : n >>> 7 = n / 128 :=
  Nat.shiftRight_eq_div_pow n 7

theorem varintBytes_of_lt {n : Nat} (h : n < 128) : varintBytes n = [UInt8.ofNat n] := by
  rw [varintBytes, and_127, shiftRight_7, if_neg (by omega), Nat.mod_eq_of_lt h]

theorem varintBytes_of_ge {n : Nat} (h : 128 ≤ n) :
    varintBytes n = UInt8.ofNat (n % 128 ||| 128) :: varintBytes (n / 128) := by
  rw [varintBytes, and_127, shiftRight_7, if_pos (by omega)]

theorem length_varintBytes_pos (n : Nat) : 0 < (varintBytes n).length := by
  rcases Nat.lt_or_ge n 128 with h | h
  · simp [varintBytes_of_lt h]
  · simp [varintBytes_of_ge h]

theorem length_varintBytes_le {k n : Nat} (h : n < 128 ^ (k + 1)) :
    (varintBytes n).length ≤ k + 1 := by
  induction k generalizing n with
  | zero => simp [varintBytes_of_lt (by simpa using h)]
  | succ k ih =>
    rcases Nat.lt_or_ge n 128 with hn | hn
    · simp [varintBytes_of_lt hn]
    · rw [varintBytes_of_ge hn, List.length_cons]
      have := ih (n := n / 128) (Nat.div_lt_of_lt_mul (by rw [Nat.pow_succ'] at h; exact h))
      omega

theorem toNat_byte {n : Nat} (h : n < 256) : (UInt8.ofNat n).toNat = n := by
  rw [UInt8.toNat_ofNat', Nat.mod_eq_of_lt h]

theorem low_bits_lt (n : Nat) : n % 128 < 128 :=
  Nat.mod_lt n (by decide)

theorem continued_byte (r : Nat) (h : r < 128) :
    (r ||| 128 < 256 ∧ (r ||| 128) &&& 127 = r) ∧ (r ||| 128) &&& 128 ≠ 0 := by
  revert r
  decide

theorem last_byte (r : Nat) (h : r < 128) : r &&& 127 = r ∧ r &&& 128 = 0 := by
  revert r
  decide

theorem or_shiftLeft_div (n i : Nat) :
    (n % 128) <<< (7 * i) ||| (n / 128) <<< (7 * (i + 1)) = n <<< (7 * i) := by
  have hn : n % 128 ||| (n / 128) <<< 7 = n := by
    rw [Nat.or_comm, ← Nat.shiftLeft_add_eq_or_of_lt (low_bits_lt n), Nat.shiftLeft_eq]
    omega
  have hshift : (n / 128) <<< (7 * (i + 1)) = ((n / 128) <<< 7) <<< (7 * i) := by
    rw [← Nat.shiftLeft_add]
    congr 1
    omega
  rw [hshift, ← Nat.shiftLeft_or_distrib, hn]

theorem varintLoop_varintBytes (n num i : Nat) (s : Bytes) (h : i + (varintBytes n).length ≤ 5) :
    varintLoop num i (varintBytes n ++ s) =
      .ok (i + (varintBytes n).length - 1, num ||| n <<< (7 * i)) := by
  induction n using Nat.strongRecOn generalizing num i with
  | _ n ih =>
    rcases Nat.lt_or_ge n 128 with hn | hn
    · rw [varintBytes_of_lt hn] at h ⊢
      obtain ⟨hlow, hlast⟩ := last_byte n hn
      simp only [List.cons_append, List.nil_append, varintLoop, List.length_singleton] at h ⊢
      rw [if_neg (by omega), toNat_byte (by omega), hlow, hlast, if_pos rfl]
      rfl
    · rw [varintBytes_of_ge hn] at h ⊢
      obtain ⟨⟨hlt, hlow⟩, hcont⟩ := continued_byte (n % 128) (low_bits_lt n)
      have hpos := length_varintBytes_pos (n / 128)
      simp only [List.cons_append, varintLoop, List.length_cons] at h ⊢
      rw [if_neg (by omega), toNat_byte hlt, hlow, if_neg hcont,
        ih (n / 128) (by omega) _ _ (by omega), Nat.or_assoc, or_shiftLeft_div]
      congr 2
      omega

theorem toSigned_of_nonneg {n : Nat} (h : n < 2 ^ 31) : toSigned n = n := by
  have hmask : n &&& 0xFFFFFFFF = n := by
    rw [show 0xFFFFFFFF = 2 ^ 32 - 1 from rfl, Nat.and_two_pow_sub_one_eq_mod]
    omega
  unfold toSigned
  dsimp only
  rw [hmask, Nat.one_shiftLeft, if_neg (by omega)]

theorem toSigned_of_ge {n : Nat} (h : 2 ^ 31 ≤ n) (hlt : n < 2 ^ 32) :
    toSigned n = (n : Int) - 2 ^ 32 := by
  have hmask : n &&& 0xFFFFFFFF = n := by
    rw [show 0xFFFFFFFF = 2 ^ 32 - 1 from rfl, Nat.and_two_pow_sub_one_eq_mod]
    omega
  unfold toSigned
  dsimp only
  rw [hmask, Nat.one_shiftLeft, Nat.one_shiftLeft, if_pos (by omega)]
  rfl

theorem encodeVarint_natCast (n : Nat) : encodeVarint n = varintBytes n := by
  unfold encodeVarint
  rw [if_neg (by omega), Int.toNat_natCast]

theorem length_encodeVarint_bounds {v : Int} (hlo : -2 ^ 31 ≤ v) (hhi : v < 2 ^ 31) :
    0 < (encodeVarint v).length ∧ (encodeVarint v).length ≤ 5 := by
  unfold encodeVarint
  refine ⟨length_varintBytes_pos _, length_varintBytes_le (k := 4) ?_⟩
  rw [Nat.one_shiftLeft]
  split <;> omega

theorem zero_signed : -2 ^ 31 ≤ (0 : Int) ∧ (0 : Int) < 2 ^ 31 := by
  decide

/-- **Decoding undoes encoding**, whatever follows. -/
theorem decodeVarint_encodeVarint {v : Int} (hlo : -2 ^ 31 ≤ v) (hhi : v < 2 ^ 31) (s : Bytes) :
    decodeVarint (encodeVarint v ++ s) = .ok ((encodeVarint v).length, v) := by
  have hlen := length_encodeVarint_bounds hlo hhi
  unfold decodeVarint
  unfold encodeVarint at hlen ⊢
  rw [varintLoop_varintBytes _ _ _ _ (by omega)]
  have hsigned : toSigned (if v < 0 then v + (1 <<< 32 : Nat) else v).toNat = v := by
    rw [Nat.one_shiftLeft]
    split
    · rw [toSigned_of_ge (by omega) (by omega)]
      omega
    · rw [toSigned_of_nonneg (by omega)]
      omega
  simp only [Nat.mul_zero, Nat.shiftLeft_zero, Nat.zero_or, Nat.zero_add]
  show Except.ok (_, _) = Except.ok (_, _)
  rw [hsigned, Nat.sub_add_cancel hlen.1]

theorem isVarint_encodeVarint {v : Int} (hlo : -2 ^ 31 ≤ v) (hhi : v < 2 ^ 31) :
    IsVarint (encodeVarint v) v := by
  have h := decodeVarint_encodeVarint hlo hhi []
  rwa [List.append_nil] at h

/-! ### The three outcomes -/

/-- The data ends before the VarInt does. -/
def CutVarint (data : Bytes) : Prop :=
  data.length < 5 ∧ ∀ b ∈ data, b.toNat &&& 0b10000000 ≠ 0

/-- The first five bytes are there, and none of them is the last of a VarInt. -/
def LongVarint (data : Bytes) : Prop :=
  5 ≤ data.length ∧ ∀ b ∈ data.take 5, b.toNat &&& 0b10000000 ≠ 0

section
variable {data : Bytes} {num i : Nat} {err : Err}

theorem varintLoop_eq_error {num i : Nat} (h : varintLoop num i data = .error err) :
    err = .incompleteRead ∨ err.isProtocol = true := by
  induction data generalizing num i with
  | nil =>
    unfold varintLoop at h
    split at h
    · cases h
      exact .inr rfl
    · cases h
      exact .inl rfl
  | cons b data ih =>
    unfold varintLoop at h
    split at h
    · cases h
      exact .inr rfl
    · dsimp only at h
      split at h
      · cases h
      · exact ih h

theorem varintLoop_incomplete {num i : Nat} :
    varintLoop num i data = .error .incompleteRead ↔
      i + data.length < 5 ∧ ∀ b ∈ data, b.toNat &&& 0b10000000 ≠ 0 := by
  induction data generalizing num i with
  | nil =>
    unfold varintLoop
    by_cases hi : 5 < i + 1
    · rw [if_pos hi]
      simp
      omega
    · rw [if_neg hi]
      simp
      omega
  | cons b data ih =>
    unfold varintLoop
    by_cases hi : 5 < i + 1
    · rw [if_pos hi]
      simp
      omega
    · rw [if_neg hi]
      dsimp only
      by_cases hb : b.toNat &&& 0b10000000 = 0
      · rw [if_pos hb]
        simp [hb]
      · rw [if_neg hb, ih, List.length_cons, List.forall_mem_cons]
        constructor
        · intro h
          exact ⟨by omega, hb, h.2⟩
        · intro h
          exact ⟨by omega, h.2.2⟩

theorem decodeVarint_incomplete : decodeVarint data = .error .incompleteRead ↔ CutVarint data := by
  have hloop : varintLoop 0 0 data = .error .incompleteRead ↔
      0 + data.length < 5 ∧ ∀ b ∈ data, b.toNat &&& 0b10000000 ≠ 0 := varintLoop_incomplete
  rw [Nat.zero_add] at hloop
  unfold decodeVarint CutVarint
  rw [bind_eq_error, ← hloop]
  constructor
  · rintro (h | ⟨a, -, h⟩)
    · exact h
    · cases h
  · exact Or.inl

theorem decodeVarint_eq_error (h : decodeVarint data = .error err) :
    err = .incompleteRead ∨ err.isProtocol = true := by
  unfold decodeVarint at h
  rcases bind_eq_error.1 h with h | ⟨a, -, h⟩
  · exact varintLoop_eq_error h
  · cases h

theorem varintLoop_protocol (hi : i ≤ 5) :
    (∃ err, varintLoop num i data = .error err ∧ err.isProtocol = true) ↔
      5 ≤ i + data.length ∧ ∀ b ∈ data.take (5 - i), b.toNat &&& 0b10000000 ≠ 0 := by
  induction data generalizing num i with
  | nil =>
    unfold varintLoop
    by_cases hfull : 5 < i + 1
    · rw [if_pos hfull]
      exact iff_of_true ⟨_, rfl, rfl⟩ ⟨by simp; omega, by simp⟩
    · rw [if_neg hfull]
      refine iff_of_false ?_ (by simp; omega)
      rintro ⟨err, ⟨⟩, hprotocol⟩
      cases hprotocol
  | cons b data ih =>
    unfold varintLoop
    by_cases hfull : 5 < i + 1
    · have htake : 5 - i = 0 := by omega
      rw [if_pos hfull, htake]
      exact iff_of_true ⟨_, rfl, rfl⟩ ⟨by omega, by simp⟩
    · have htake : 5 - i = 5 - (i + 1) + 1 := by omega
      rw [if_neg hfull, htake, List.take_succ_cons, List.forall_mem_cons, List.length_cons]
      dsimp only
      by_cases hb : b.toNat &&& 0b10000000 = 0
      · rw [if_pos hb]
        simp [hb]
      · rw [if_neg hb, ih (by omega)]
        constructor
        · intro h
          exact ⟨by omega, hb, h.2⟩
        · intro h
          exact ⟨by omega, h.2.2⟩

theorem decodeVarint_protocol :
    (∃ err, decodeVarint data = .error err ∧ err.isProtocol = true) ↔ LongVarint data := by
  have hloop : (∃ err, varintLoop 0 0 data = .error err ∧ err.isProtocol = true) ↔
      5 ≤ 0 + data.length ∧ ∀ b ∈ data.take 5, b.toNat &&& 0b10000000 ≠ 0 :=
    varintLoop_protocol (Nat.zero_le 5)
  rw [Nat.zero_add] at hloop
  unfold LongVarint
  rw [← hloop]
  apply exists_congr
  intro err
  unfold decodeVarint
  rw [bind_eq_error]
  constructor
  · rintro ⟨h | ⟨a, -, h⟩, hprotocol⟩
    · exact ⟨h, hprotocol⟩
    · cases h
  · rintro ⟨h, hprotocol⟩
    exact ⟨.inl h, hprotocol⟩

theorem varintLoop_append_error (h : varintLoop num i data = .error err)
    (hdefinite : err ≠ .incompleteRead) (s : Bytes) :
    varintLoop num i (data ++ s) = .error err := by
  induction data generalizing num i with
  | nil =>
    unfold varintLoop at h
    split at h
    · next hfull =>
      rw [List.nil_append]
      cases s with
      | nil =>
        unfold varintLoop
        rw [if_pos hfull, h]
      | cons b s =>
        unfold varintLoop
        rw [if_pos hfull, h]
    · cases h
      exact absurd rfl hdefinite
  | cons b data ih =>
    rw [List.cons_append]
    unfold varintLoop at h ⊢
    split at h
    · next hfull => rw [if_pos hfull, h]
    · next hfull =>
      rw [if_neg hfull]
      dsimp only at h ⊢
      split at h
      · cases h
      · next hb => rw [if_neg hb, ih h]

theorem decodeVarint_definite (h : decodeVarint data ≠ .error .incompleteRead) (s : Bytes) :
    decodeVarint (data ++ s) = decodeVarint data := by
  cases hdecode : decodeVarint data with
  | ok r => exact decodeVarint_append hdecode s
  | error err =>
    have hdefinite : err ≠ .incompleteRead := fun heq => h (heq ▸ hdecode)
    unfold decodeVarint at hdecode ⊢
    rcases bind_eq_error.1 hdecode with hloop | ⟨a, -, hpure⟩
    · exact bind_eq_error.2 (.inl (varintLoop_append_error hloop hdefinite s))
    · cases hpure

/-- What decodes to a VarInt of `m` bytes does so because of these. -/
theorem decodeVarint_congr {m : Nat} {v : Int} {data' : Bytes} (h : decodeVarint data = .ok (m, v))
    (hsame : data'.take m = data.take m) : decodeVarint data' = .ok (m, v) := by
  have htake : decodeVarint (data'.take m) = .ok (m, v) := by
    rw [hsame, decodeVarint_take h m, if_pos le_rfl]
  rw [← List.take_append_drop m data']
  exact decodeVarint_append htake (data'.drop m)

/-- **The VarInt coding**: numbers of 32 bits take one to five bytes, from which they are decoded
whatever follows, and no proper prefix of which is enough; and the three outcomes of decoding. -/
theorem varint_coding :
    (∀ v : Int, -2 ^ 31 ≤ v → v < 2 ^ 31 →
      (1 ≤ (encodeVarint v).length ∧ (encodeVarint v).length ≤ 5) ∧
      (∀ s, decodeVarint (encodeVarint v ++ s) = .ok ((encodeVarint v).length, v)) ∧
      ∀ p, p <+: encodeVarint v → p ≠ encodeVarint v →
        decodeVarint p = .error .incompleteRead) ∧
    ∀ data,
      ((∃ err, decodeVarint data = .error err ∧ err.isProtocol = true) ↔ LongVarint data) ∧
      (decodeVarint data = .error .incompleteRead ↔ CutVarint data) ∧
      (¬ LongVarint data → ¬ CutVarint data →
        ∃ (m : Nat) (v : Int), decodeVarint data = .ok (m, v) ∧ (1 ≤ m ∧ m ≤ 5) ∧
          (-2 ^ 31 ≤ v ∧ v < 2 ^ 31) ∧
          ∀ data', data'.take m = data.take m → decodeVarint data' = .ok (m, v)) ∧
      (decodeVarint data ≠ .error .incompleteRead →
        ∀ s, decodeVarint (data ++ s) = decodeVarint data) := by
  refine ⟨fun v hlo hhi => ?_, fun data => ?_⟩
  · have hdecode := decodeVarint_encodeVarint hlo hhi
    refine ⟨length_encodeVarint_bounds hlo hhi, hdecode, fun p hp hne => ?_⟩
    have hwhole := isVarint_encodeVarint hlo hhi
    have hshorter : p.length < (encodeVarint v).length :=
      lt_of_le_of_ne hp.length_le fun heq => hne (hp.eq_of_length heq)
    rw [List.prefix_iff_eq_take.1 hp, decodeVarint_take hwhole, if_neg (Nat.not_le.2 hshorter)]
  · refine ⟨decodeVarint_protocol, decodeVarint_incomplete, fun hlong hcut => ?_,
      decodeVarint_definite⟩
    cases hdecode : decodeVarint data with
    | error err =>
      exfalso
      rcases decodeVarint_eq_error hdecode with rfl | hprotocol
      · exact hcut (decodeVarint_incomplete.1 hdecode)
      · exact hlong (decodeVarint_protocol.1 ⟨err, hdecode, hprotocol⟩)
    | ok r =>
      obtain ⟨m, v⟩ := r
      obtain ⟨hpos, -, hle⟩ := decodeVarint_bounds hdecode
      refine ⟨m, v, rfl, ⟨hpos, hle⟩, decodeVarint_signed hdecode, fun data' hsame => ?_⟩
      exact decodeVarint_congr hdecode hsame

/-- A negative number, of which a prefix has arrived, and five bytes that go on. -/
theorem varint_coding_negative :
    decodeVarint [0xFF, 0xFF, 0xFF, 0xFF, 0x0F, 0x2A] = .ok (5, -1) ∧
      decodeVarint [0xFF, 0xFF] = .error .incompleteRead ∧
      LongVarint [0xFF, 0xFF, 0xFF, 0xFF, 0xFF] := by
  obtain ⟨hcoding, hdecode⟩ := varint_coding
  have hbytes : encodeVarint (-1) = [0xFF, 0xFF, 0xFF, 0xFF, 0x0F] := by decide +kernel
  obtain ⟨-, hsuffix, hprefix⟩ := hcoding (-1) (by decide) (by decide)
  rw [hbytes] at hsuffix hprefix
  refine ⟨hsuffix [0x2A], hprefix [0xFF, 0xFF] ⟨[0xFF, 0xFF, 0x0F], rfl⟩ (by decide), ?_⟩
  exact (hdecode [0xFF, 0xFF, 0xFF, 0xFF, 0xFF]).1.1 ⟨_, rfl, rfl⟩

end

end Silkjam.Protocol
