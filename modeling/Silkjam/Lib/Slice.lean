import Mathlib.Data.List.Basic
import Mathlib.Tactic.Common

/-!
# Slices with integer bounds

`slice l i j` is `l[i:j]` as Python reads it: a negative bound counts from the end, a bound outside
the sequence is moved to its end, and bounds that cross give nothing. `setSlice?` assigns to a slice
of a fixed size, which fails unless the sizes agree; `index? l i` is `l[i]`. The lemmas evaluate
slices of a sequence given as an append of its parts.
-/

namespace Slice

variable {α : Type*}

/-- The position that a bound denotes in a sequence of length `n`. -/
def position (n : Nat) (i : Int) : Nat :=
  if i < 0 then (i + n).toNat else min i.toNat n

def slice (l : List α) (i j : Int) : List α :=
  (l.take (position l.length j)).drop (position l.length i)

def sliceFrom (l : List α) (i : Int) : List α :=
  l.drop (position l.length i)

/-- `l[i]`, if it is there. -/
def index? (l : List α) (i : Int) : Option α :=
  if 0 ≤ i then l[i.toNat]? else if 0 ≤ i + l.length then l[(i + l.length).toNat]? else none

def setSlice? (l : List α) (i j : Int) (v : List α) : Option (List α) :=
  let lo := position l.length i
  let hi := max lo (position l.length j)
  if v.length = hi - lo then some (l.take lo ++ v ++ l.drop hi) else none

@[simp] theorem position_natCast (n k : Nat) : position n k = min k n := by
  unfold position
  rw [if_neg (by omega), Int.toNat_natCast]

@[simp] theorem position_natCast_add (n k m : Nat) : position n (k + m) = min (k + m) n := by
  exact_mod_cast position_natCast n (k + m)

theorem position_le (n : Nat) (i : Int) : position n i ≤ n := by
  unfold position
  split <;> omega

theorem slice_append (a b c : List α) :
    slice (a ++ b ++ c) a.length (a.length + b.length) = b := by
  unfold slice
  simp only [position_natCast, position_natCast_add]
  rw [Nat.min_eq_left (by simp), Nat.min_eq_left (by simp), ← List.length_append, List.take_left,
    List.drop_left]

theorem sliceFrom_append (a b : List α) : sliceFrom (a ++ b) a.length = b := by
  unfold sliceFrom
  rw [position_natCast, Nat.min_eq_left (by simp), List.drop_left]

theorem sliceFrom_zero (l : List α) : sliceFrom l 0 = l := by
  simpa using sliceFrom_append [] l

theorem sliceFrom_natCast (l : List α) (k : Nat) : sliceFrom l k = l.drop k := by
  unfold sliceFrom
  rw [position_natCast]
  rcases Nat.le_total k l.length with h | h
  · rw [Nat.min_eq_left h]
  · rw [Nat.min_eq_right h, List.drop_length, List.drop_eq_nil_of_le h]

theorem slice_natCast_add (l : List α) (i k : Nat) :
    slice l i (i + k) = (l.drop i).take k := by
  unfold slice
  rw [position_natCast, position_natCast_add, List.take_drop, ← List.take_take, List.take_length]
  rcases Nat.le_total i l.length with h | h
  · rw [Nat.min_eq_left h]
  · rw [List.drop_eq_nil_of_le (by simp; omega), List.drop_eq_nil_of_le (by simp; omega)]

@[simp] theorem index?_natCast (l : List α) (k : Nat) : index? l k = l[k]? :=
  if_pos (Int.natCast_nonneg k)

theorem slice_eq_nil {l : List α} {i j : Int}
    (h : position l.length j ≤ position l.length i) : slice l i j = [] := by
  unfold slice
  apply List.drop_eq_nil_of_le
  rw [List.length_take]
  omega

theorem length_slice (l : List α) (i j : Int) :
    (slice l i j).length = position l.length j - position l.length i := by
  unfold slice
  rw [List.length_drop, List.length_take, Nat.min_eq_left (position_le _ _)]

theorem length_sliceFrom (l : List α) (i : Int) :
    (sliceFrom l i).length = l.length - position l.length i := by
  unfold sliceFrom
  rw [List.length_drop]

theorem slice_zero_append_drop (l : List α) (j : Int) :
    slice l 0 j ++ l.drop (position l.length j) = l := by
  have hzero : position l.length 0 = 0 := (position_natCast l.length 0).trans (Nat.zero_min _)
  unfold slice
  rw [hzero, List.drop_zero, List.take_append_drop]

/-- The element at `k` replaced by another, written as the two slices around it. -/
theorem length_slice_replace {l : List α} {k : Nat} (hk : k < l.length) (a : α) :
    (slice l 0 k ++ [a] ++ sliceFrom l (k + 1)).length = l.length := by
  have hfrom : position l.length ((k : Int) + 1) = k + 1 := by
    rw [show ((k : Int) + 1) = ((k + 1 : Nat) : Int) from rfl, position_natCast]
    omega
  have hto : position l.length (k : Int) = k := by
    rw [position_natCast]
    omega
  have hzero : position l.length 0 = 0 := (position_natCast l.length 0).trans (Nat.zero_min _)
  rw [List.length_append, List.length_append, length_slice, length_sliceFrom, hfrom, hto, hzero,
    List.length_singleton]
  omega

theorem length_slice_le (l : List α) (i j : Int) : (slice l i j).length ≤ l.length := by
  unfold slice
  rw [List.length_drop, List.length_take]
  omega

theorem length_sliceFrom_le (l : List α) (i : Int) : (sliceFrom l i).length ≤ l.length := by
  unfold sliceFrom
  rw [List.length_drop]
  omega

theorem setSlice?_append (a b c v : List α) (h : v.length = b.length) :
    setSlice? (a ++ b ++ c) a.length (a.length + v.length) v = some (a ++ v ++ c) := by
  have hlo : position (a ++ b ++ c).length a.length = a.length := by
    rw [position_natCast, Nat.min_eq_left (by simp)]
  have hhi : position (a ++ b ++ c).length (a.length + v.length) = (a ++ b).length := by
    rw [position_natCast_add, Nat.min_eq_left (by simp [h]), List.length_append, h]
  unfold setSlice?
  dsimp only
  rw [hlo, hhi, Nat.max_eq_right (by simp), if_pos (by simp [h]), List.drop_left,
    List.append_assoc a b, List.take_left]

theorem setSlice?_append_left (b c v : List α) (h : v.length = b.length) :
    setSlice? (b ++ c) 0 v.length v = some (v ++ c) := by
  simpa using setSlice?_append [] b c v h

theorem length_setSlice? {l l' v : List α} {i j : Int} (h : setSlice? l i j v = some l') :
    l'.length = l.length := by
  unfold setSlice? at h
  dsimp only at h
  split at h
  · next hfits =>
    cases h
    have hlo := position_le l.length i
    have hhi := position_le l.length j
    rw [List.length_append, List.length_append, List.length_take, List.length_drop]
    omega
  · cases h

theorem setSlice?_eq_none {l v : List α} {i j : Int} (h : l.length < v.length) :
    setSlice? l i j v = none := by
  unfold setSlice?
  dsimp only
  rw [if_neg]
  have hlo := position_le l.length i
  have hhi := position_le l.length j
  omega

end Slice
