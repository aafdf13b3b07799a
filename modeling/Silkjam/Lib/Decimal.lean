import Mathlib.Data.Char
import Mathlib.Tactic.Common

/-!
# Decimal literals

`intStr` writes an integer in base ten and `int?` reads a decimal literal, with or without a sign.
An integer that was written is read (`int?_intStr`).
-/

namespace Decimal

variable {n : Nat} {i : Int} {c : Char}

/-- `str(i)` -/
def intStr (i : Int) : List Char :=
  if i < 0 then '-' :: Nat.toDigits 10 i.natAbs else Nat.toDigits 10 i.natAbs

def nat? (digits : List Char) : Option Nat :=
  if digits ≠ [] ∧ digits.all Char.isDigit then some (Nat.ofDigitChars 10 digits 0) else none

def int? : List Char → Option Int
  | '-' :: digits => (nat? digits).map fun n : Nat => -(n : Int)
  | '+' :: digits => (nat? digits).map Int.ofNat
  | digits => (nat? digits).map Int.ofNat

theorem isDigit_toDigits (h : c ∈ Nat.toDigits 10 n) : c.isDigit :=
  Nat.isDigit_of_mem_toDigits (by decide) (by decide) h

theorem nat?_toDigits (n : Nat) : nat? (Nat.toDigits 10 n) = some n := by
  unfold nat?
  rw [if_pos ⟨Nat.toDigits_ne_nil, List.all_eq_true.2 fun c hc => isDigit_toDigits hc⟩,
    Nat.ofDigitChars_ten_toDigits]

theorem int?_toDigits (n : Nat) : int? (Nat.toDigits 10 n) = some (n : Int) := by
  have hnot (c : Char) (rest : List Char) (hc : c.isDigit = false) :
      Nat.toDigits 10 n ≠ c :: rest := by
    intro h
    have hdigit : c.isDigit := isDigit_toDigits (by rw [h]; exact List.mem_cons_self)
    rw [hc] at hdigit
    cases hdigit
  unfold int?
  split
  · next h => exact absurd h (hnot _ _ (by decide))
  · next h => exact absurd h (hnot _ _ (by decide))
  · rw [nat?_toDigits]
    rfl

theorem int?_intStr (i : Int) : int? (intStr i) = some i := by
  unfold intStr
  split
  · next hneg =>
    rw [int?, nat?_toDigits, Option.map_some]
    congr 1
    omega
  · next hpos =>
    rw [int?_toDigits]
    congr 1
    omega

theorem mem_intStr (h : c ∈ intStr i) : c = '-' ∨ c.isDigit := by
  unfold intStr at h
  split at h
  · rcases List.mem_cons.1 h with rfl | h
    · exact .inl rfl
    · exact .inr (isDigit_toDigits h)
  · exact .inr (isDigit_toDigits h)

end Decimal
