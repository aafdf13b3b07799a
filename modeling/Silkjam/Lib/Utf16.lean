import Mathlib.Data.List.Basic
import Mathlib.Tactic.Common

/-!
# UTF-16

A character of the Basic Multilingual Plane is one code unit, any other a pair of surrogates, and
the code units are written as two bytes each, the high byte first. Decoding refuses surrogates that
are not paired, and bytes that are not whole code units. Encoding and decoding are inverse
(`decodeBytes_encodeBytes`, `encodeBytes_of_decodeBytes`), and a text has as many code units as
characters exactly if it is within the plane (`length_encode_eq_iff`).
-/

namespace Utf16

/-- The code units of a character. -/
def encodeChar (c : Char) : List UInt16 :=
  if c.toNat < 0x10000 then [UInt16.ofNat c.toNat]
  else [UInt16.ofNat (0xD800 + (c.toNat - 0x10000) / 0x400),
    UInt16.ofNat (0xDC00 + (c.toNat - 0x10000) % 0x400)]

def encode (cs : List Char) : List UInt16 :=
  cs.flatMap encodeChar

/-- The characters of the code units; `none` if a surrogate is not paired. -/
def decode : List UInt16 → Option (List Char)
  | [] => some []
  | u :: us =>
    if u.toNat < 0xD800 ∨ 0xE000 ≤ u.toNat then (decode us).map (Char.ofNat u.toNat :: ·)
    else
      match us with
      | [] => none
      | v :: us =>
        if u.toNat < 0xDC00 ∧ 0xDC00 ≤ v.toNat ∧ v.toNat < 0xE000 then
          (decode us).map
            (Char.ofNat (0x10000 + (u.toNat - 0xD800) * 0x400 + (v.toNat - 0xDC00)) :: ·)
        else none

/-- The bytes of the code units. -/
def toBytes (us : List UInt16) : List UInt8 :=
  us.flatMap fun u => [UInt8.ofNat (u.toNat / 256), UInt8.ofNat u.toNat]

/-- The code units of the bytes; `none` if their number is odd. -/
def ofBytes : List UInt8 → Option (List UInt16)
  | [] => some []
  | [_] => none
  | a :: b :: bytes => (ofBytes bytes).map (UInt16.ofNat (256 * a.toNat + b.toNat) :: ·)

def encodeBytes (s : String) : List UInt8 :=
  toBytes (encode s.toList)

def decodeBytes (bytes : List UInt8) : Option String :=
  ((ofBytes bytes).bind decode).map String.ofList

/-! ### Characters -/

theorem toNat_lt (c : Char) : c.toNat < 0xD800 ∨ 0xDFFF < c.toNat ∧ c.toNat < 0x110000 :=
  c.valid

theorem toNat_unit {n : Nat} (h : n < 0x10000) : (UInt16.ofNat n).toNat = n :=
  UInt16.toNat_ofNat_of_lt' h

theorem decode_encodeChar_append (c : Char) (us : List UInt16) :
    decode (encodeChar c ++ us) = (decode us).map (c :: ·) := by
  have hc := toNat_lt c
  unfold encodeChar
  split
  · next hlt =>
    rw [List.singleton_append, decode.eq_def]
    dsimp only
    rw [toNat_unit hlt, if_pos (by omega), Char.ofNat_toNat]
  · next hge =>
    rw [List.cons_append, List.singleton_append, decode.eq_def]
    dsimp only
    rw [toNat_unit (by omega), if_neg (by omega), toNat_unit (by omega), if_pos (by omega)]
    have hn : 0x10000 + (0xD800 + (c.toNat - 0x10000) / 0x400 - 0xD800) * 0x400 +
        (0xDC00 + (c.toNat - 0x10000) % 0x400 - 0xDC00) = c.toNat := by
      omega
    rw [hn, Char.ofNat_toNat]

theorem decode_encode (cs : List Char) : decode (encode cs) = some cs := by
  induction cs with
  | nil => rfl
  | cons c cs ih =>
    unfold encode at ih ⊢
    rw [List.flatMap_cons, decode_encodeChar_append, ih, Option.map_some]

theorem toNat_ofNat {n : Nat} (h : n.isValidChar) : (Char.ofNat n).toNat = n := by
  unfold Char.ofNat
  rw [dif_pos h]
  rfl

theorem encodeChar_ofNat {n : Nat} (h : n.isValidChar) :
    encodeChar (Char.ofNat n) = if n < 0x10000 then [UInt16.ofNat n]
      else [UInt16.ofNat (0xD800 + (n - 0x10000) / 0x400),
        UInt16.ofNat (0xDC00 + (n - 0x10000) % 0x400)] := by
  unfold encodeChar
  rw [toNat_ofNat h]

theorem encode_of_decode {us : List UInt16} {cs : List Char} (h : decode us = some cs) :
    encode cs = us := by
  fun_induction decode us generalizing cs with
  | case1 =>
    cases h
    rfl
  | case2 u us hu ih =>
    obtain ⟨cs', hcs', rfl⟩ := Option.map_eq_some_iff.1 h
    have hlt := u.toNat_lt
    unfold encode at ih ⊢
    rw [List.flatMap_cons, ih hcs', encodeChar_ofNat (by unfold Nat.isValidChar; omega),
      if_pos (by omega), UInt16.ofNat_toNat]
    rfl
  | case3 => cases h
  | case4 u hu v us hpair ih =>
    obtain ⟨cs', hcs', rfl⟩ := Option.map_eq_some_iff.1 h
    have hhigh : 0xD800 + (0x10000 + (u.toNat - 0xD800) * 0x400 + (v.toNat - 0xDC00) - 0x10000) /
        0x400 = u.toNat := by
      omega
    have hlow : 0xDC00 + (0x10000 + (u.toNat - 0xD800) * 0x400 + (v.toNat - 0xDC00) - 0x10000) %
        0x400 = v.toNat := by
      omega
    unfold encode at ih ⊢
    rw [List.flatMap_cons, ih hcs', encodeChar_ofNat (by unfold Nat.isValidChar; omega),
      if_neg (by omega), hhigh, hlow, UInt16.ofNat_toNat, UInt16.ofNat_toNat]
    rfl
  | case5 => cases h

/-! ### Bytes -/

theorem ofBytes_toBytes (us : List UInt16) : ofBytes (toBytes us) = some us := by
  induction us with
  | nil => rfl
  | cons u us ih =>
    have hlt := u.toNat_lt
    have hhigh : (UInt8.ofNat (u.toNat / 256)).toNat = u.toNat / 256 :=
      UInt8.toNat_ofNat_of_lt' (Nat.div_lt_of_lt_mul hlt)
    have hlow : (UInt8.ofNat u.toNat).toNat = u.toNat % 256 := UInt8.toNat_ofNat'
    unfold toBytes at ih ⊢
    rw [List.flatMap_cons, List.cons_append, List.singleton_append, ofBytes, ih, Option.map_some,
      hhigh, hlow, Nat.div_add_mod, UInt16.ofNat_toNat]

theorem toBytes_of_ofBytes {bytes : List UInt8} {us : List UInt16} (h : ofBytes bytes = some us) :
    toBytes us = bytes := by
  fun_induction ofBytes bytes generalizing us with
  | case1 =>
    cases h
    rfl
  | case2 => cases h
  | case3 a b bytes ih =>
    obtain ⟨us', hus', rfl⟩ := Option.map_eq_some_iff.1 h
    have ha := a.toNat_lt
    have hb := b.toNat_lt
    have hunit : (UInt16.ofNat (256 * a.toNat + b.toNat)).toNat = 256 * a.toNat + b.toNat :=
      toNat_unit (by omega)
    have hhigh : UInt8.ofNat ((256 * a.toNat + b.toNat) / 256) = a := by
      rw [Nat.mul_add_div (by decide), Nat.div_eq_of_lt hb, Nat.add_zero, UInt8.ofNat_toNat]
    have hlow : UInt8.ofNat (256 * a.toNat + b.toNat) = b := by
      apply UInt8.toNat_inj.1
      rw [UInt8.toNat_ofNat']
      omega
    unfold toBytes at ih ⊢
    rw [List.flatMap_cons, ih hus', hunit, hhigh, hlow]
    rfl

theorem length_toBytes (us : List UInt16) : (toBytes us).length = 2 * us.length := by
  induction us with
  | nil => rfl
  | cons u us ih =>
    unfold toBytes at ih ⊢
    rw [List.flatMap_cons, List.length_append, ih]
    simp only [List.length_cons, List.length_nil]
    omega

/-! ### Texts -/

theorem decodeBytes_encodeBytes (s : String) : decodeBytes (encodeBytes s) = some s := by
  unfold decodeBytes encodeBytes
  rw [ofBytes_toBytes, Option.bind_some, decode_encode, Option.map_some, String.ofList_toList]

theorem encodeBytes_of_decodeBytes {bytes : List UInt8} {s : String}
    (h : decodeBytes bytes = some s) : encodeBytes s = bytes := by
  obtain ⟨cs, hcs, rfl⟩ := Option.map_eq_some_iff.1 h
  obtain ⟨us, hus, hcs⟩ := Option.bind_eq_some_iff.1 hcs
  unfold encodeBytes
  rw [String.toList_ofList, encode_of_decode hcs, toBytes_of_ofBytes hus]

theorem decodeBytes_replicate (k : Nat) :
    decodeBytes (List.replicate (2 * k) 0) = some (String.ofList (List.replicate k '\x00')) := by
  have hbytes : encodeBytes (String.ofList (List.replicate k '\x00')) =
      List.replicate (2 * k) 0 := by
    unfold encodeBytes
    rw [String.toList_ofList]
    induction k with
    | zero => rfl
    | succ k ih =>
      unfold encode toBytes at ih ⊢
      rw [List.replicate_succ, List.flatMap_cons, List.flatMap_append, ih, Nat.mul_succ,
        Nat.add_comm, List.replicate_add]
      rfl
  rw [← hbytes]
  exact decodeBytes_encodeBytes _

/-- Every character is in the Basic Multilingual Plane. -/
def IsBmp (cs : List Char) : Prop :=
  ∀ c ∈ cs, c.toNat < 0x10000

instance (cs : List Char) : Decidable (IsBmp cs) :=
  decidable_of_iff (cs.all fun c => decide (c.toNat < 0x10000)) <| by
    rw [List.all_eq_true]
    exact forall₂_congr fun _ _ => decide_eq_true_iff

theorem length_encodeChar (c : Char) :
    (encodeChar c).length = if c.toNat < 0x10000 then 1 else 2 := by
  unfold encodeChar
  split <;> rfl

theorem length_le_length_encode (cs : List Char) : cs.length ≤ (encode cs).length := by
  induction cs with
  | nil => exact Nat.le_refl 0
  | cons c cs ih =>
    unfold encode at ih ⊢
    rw [List.flatMap_cons, List.length_append, List.length_cons, length_encodeChar]
    split <;> omega

theorem length_encode_eq_iff (cs : List Char) : (encode cs).length = cs.length ↔ IsBmp cs := by
  induction cs with
  | nil => exact ⟨fun _ => nofun, fun _ => rfl⟩
  | cons c cs ih =>
    have hle := length_le_length_encode cs
    unfold IsBmp at ih ⊢
    unfold encode at ih hle ⊢
    rw [List.flatMap_cons, List.length_append, List.length_cons, length_encodeChar,
      List.forall_mem_cons, ← ih]
    split <;> omega

end Utf16
