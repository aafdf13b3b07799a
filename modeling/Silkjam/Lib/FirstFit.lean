import Mathlib.Data.Finset.Basic
import Mathlib.Data.List.Basic
import Mathlib.Tactic.Common

/-!
# First fit

The first element of a list that is not taken. Taking it, again and again, takes each element of the
list that is free in turn: `fill l taken k` is what is taken after `k` times, and every free element
is taken at some point (`exists_firstFree_fill`).
-/

namespace FirstFit

variable {α : Type*} [DecidableEq α]

def firstFree (l : List α) (taken : Finset α) : Option α :=
  l.find? fun p => p ∉ taken

variable {l : List α} {taken : Finset α} {p : α}

theorem firstFree_mem (h : firstFree l taken = some p) : p ∈ l ∧ p ∉ taken :=
  ⟨List.mem_of_find?_eq_some h, by simpa using List.find?_some h⟩

theorem firstFree_eq_none_iff : firstFree l taken = none ↔ ∀ p ∈ l, p ∈ taken := by
  unfold firstFree
  simp

/-- Take the first free element, `k` times. -/
def fill (l : List α) (taken : Finset α) : Nat → Finset α
  | 0 => taken
  | k + 1 =>
    match firstFree l (fill l taken k) with
    | some p => insert p (fill l taken k)
    | none => fill l taken k

theorem fill_cons_of_mem {a : α} (h : a ∈ taken) (k : Nat) :
    fill (a :: l) taken k = fill l taken k ∧ a ∈ fill l taken k := by
  induction k with
  | zero => exact ⟨rfl, h⟩
  | succ k ih =>
    obtain ⟨heq, hmem⟩ := ih
    have hfirst : firstFree (a :: l) (fill l taken k) = firstFree l (fill l taken k) := by
      unfold firstFree
      rw [List.find?_cons_of_neg (by simpa using hmem)]
    refine ⟨?_, ?_⟩
    · simp only [fill, heq, hfirst]
    · simp only [fill]
      split
      · exact Finset.mem_insert_of_mem hmem
      · exact hmem

theorem fill_succ (l : List α) (taken : Finset α) (k : Nat) (h : firstFree l taken = some p) :
    fill l taken (k + 1) = fill l (insert p taken) k := by
  induction k with
  | zero => simp only [fill, h]
  | succ k ih => rw [fill, ih, fill]

/-- Every free element is the first one after some of the others were taken. -/
theorem exists_firstFree_fill (hmem : p ∈ l) (hfree : p ∉ taken) :
    ∃ k, firstFree l (fill l taken k) = some p := by
  induction l generalizing taken with
  | nil => cases hmem
  | cons a l ih =>
    by_cases ha : a ∈ taken
    · -- the head is never the first
      have hne : p ≠ a := fun h => hfree (h ▸ ha)
      obtain ⟨k, hk⟩ := ih ((List.mem_cons.1 hmem).resolve_left hne) hfree
      obtain ⟨heq, hin⟩ := fill_cons_of_mem (l := l) ha k
      refine ⟨k, ?_⟩
      rw [heq]
      unfold firstFree at hk ⊢
      rwa [List.find?_cons_of_neg (by simpa using hin)]
    · have hfirst : firstFree (a :: l) taken = some a := by
        unfold firstFree
        rw [List.find?_cons_of_pos (by simpa using ha)]
      by_cases hpa : p = a
      · exact ⟨0, hpa ▸ hfirst⟩
      · -- the head is the first, and then the rest is as before
        have htaken : p ∉ insert a taken := by simp [hpa, hfree]
        obtain ⟨k, hk⟩ := ih ((List.mem_cons.1 hmem).resolve_left hpa) htaken
        obtain ⟨heq, hin⟩ := fill_cons_of_mem (l := l) (Finset.mem_insert_self a taken) k
        refine ⟨k + 1, ?_⟩
        rw [fill_succ _ _ _ hfirst, heq]
        unfold firstFree at hk ⊢
        rwa [List.find?_cons_of_neg (by simpa using hin)]

end FirstFit
