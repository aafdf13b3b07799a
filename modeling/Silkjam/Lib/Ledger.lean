import Mathlib.Data.Set.Insert
import Mathlib.Data.Set.Basic
import Mathlib.Logic.Function.Basic

/-!
# Tokens and their holders

Tokens are numbers that are handed out one after the other. `Ledger held issued next` says that the
tokens that are out are those that someone holds, each held by one, and that all of them are below
`next`, the one that is handed out next.
-/

namespace Transition

variable {ι : Type*}

structure Ledger (held : ι → Option Nat) (issued : Set Nat) (next : Nat) : Prop where
  mem_iff : ∀ n, n ∈ issued ↔ ∃ i, held i = some n
  unique : ∀ i j n, held i = some n → held j = some n → i = j
  below : ∀ n ∈ issued, n < next

namespace Ledger

variable {held held' : ι → Option Nat} {issued issued' : Set Nat} {next n : Nat} {i : ι}

theorem empty (next : Nat) : Ledger (fun _ : ι => none) ∅ next where
  mem_iff _ := ⟨nofun, fun ⟨_, h⟩ => nomatch h⟩
  unique _ _ _ h := nomatch h
  below _ h := absurd h (Set.notMem_empty _)

theorem held_ne_next (h : Ledger held issued next) (i : ι) : held i ≠ some next := fun hi =>
  absurd (h.below next ((h.mem_iff next).2 ⟨i, hi⟩)) (Nat.lt_irrefl next)

variable [DecidableEq ι]

theorem issue (h : Ledger held issued next) (hi : held i = none) :
    Ledger (Function.update held i (some next)) (insert next issued) (next + 1) := by
  have hother {j : ι} (hj : j ≠ i) : Function.update held i (some next) j = held j :=
    Function.update_of_ne hj ..
  have hself : Function.update held i (some next) i = some next := Function.update_self ..
  refine ⟨fun n => ⟨?_, ?_⟩, ?_, ?_⟩
  · intro hn
    obtain rfl | hn := Set.mem_insert_iff.1 hn
    · exact ⟨i, hself⟩
    · obtain ⟨j, hj⟩ := (h.mem_iff n).1 hn
      have hne : j ≠ i := by
        rintro rfl
        rw [hi] at hj
        cases hj
      exact ⟨j, (hother hne).trans hj⟩
  · rintro ⟨j, hj⟩
    by_cases hne : j = i
    · rw [hne, hself] at hj
      cases hj
      exact Set.mem_insert ..
    · rw [hother hne] at hj
      exact Set.mem_insert_of_mem _ ((h.mem_iff n).2 ⟨j, hj⟩)
  · intro j k n hj hk
    by_cases hji : j = i <;> by_cases hki : k = i
    · rw [hji, hki]
    · rw [hji, hself] at hj
      rw [hother hki, ← hj] at hk
      exact absurd hk (h.held_ne_next k)
    · rw [hki, hself] at hk
      rw [hother hji, ← hk] at hj
      exact absurd hj (h.held_ne_next j)
    · rw [hother hji] at hj
      rw [hother hki] at hk
      exact h.unique j k n hj hk
  · intro n hn
    obtain rfl | hn := Set.mem_insert_iff.1 hn
    · exact Nat.lt_succ_self _
    · exact Nat.lt_succ_of_lt (h.below n hn)

theorem release (h : Ledger held issued next) (hi : held i = some n) :
    Ledger (Function.update held i none) (issued \ {n}) next := by
  have hother {j : ι} (hj : j ≠ i) : Function.update held i none j = held j :=
    Function.update_of_ne hj ..
  have hself : Function.update held i none i = none := Function.update_self ..
  have hne {j : ι} {m : Nat} (hj : Function.update held i none j = some m) : j ≠ i := by
    rintro rfl
    rw [hself] at hj
    cases hj
  refine ⟨fun m => ⟨?_, ?_⟩, ?_, fun m hm => h.below m hm.1⟩
  · rintro ⟨hm, hmn⟩
    obtain ⟨j, hj⟩ := (h.mem_iff m).1 hm
    refine ⟨j, (hother ?_).trans hj⟩
    rintro rfl
    exact hmn (Option.some.inj (hj.symm.trans hi))
  · rintro ⟨j, hj⟩
    have hji := hne hj
    rw [hother hji] at hj
    refine ⟨(h.mem_iff m).2 ⟨j, hj⟩, ?_⟩
    rintro rfl
    exact hji (h.unique j i m hj hi)
  · intro j k m hj hk
    have hji := hne hj
    have hki := hne hk
    rw [hother hji] at hj
    rw [hother hki] at hk
    exact h.unique j k m hj hk

theorem update_same (h : Ledger held issued next) {x : Option Nat} (hi : held i = x) :
    Ledger (Function.update held i x) issued next := by
  rw [← hi, Function.update_eq_self]
  exact h

end Ledger

end Transition
