import Mathlib.Data.List.Basic
import Mathlib.Tactic.Common

/-!
# Mailboxes that drop

A mailbox is a queue of bounded length: what does not fit is dropped and counted, and something is
dropped only when the queue is full (`drops_put`). `Accounts` relates it to what was put in and what
was taken out over a whole run: what was taken, followed by what is still in it, is in order what was
put in, but for as many elements as were dropped.
-/

structure Mailbox (α : Type*) where
  items : List α := []
  drops : Nat := 0

namespace Mailbox

variable {α : Type*}

/-- Put an element in, if it fits. -/
def put (capacity : Nat) (m : Mailbox α) (a : α) : Mailbox α :=
  if m.items.length < capacity then { m with items := m.items ++ [a] }
  else { m with drops := m.drops + 1 }

/-- Take the oldest element. -/
def take? (m : Mailbox α) : Option (α × Mailbox α) :=
  match m.items with
  | [] => none
  | a :: items => some (a, { m with items := items })

structure Accounts (capacity : Nat) (offered taken : List α) (m : Mailbox α) : Prop where
  sublist : (taken ++ m.items).Sublist offered
  length : offered.length = (taken ++ m.items).length + m.drops
  bounded : m.items.length ≤ capacity

variable {capacity : Nat} {offered taken : List α} {m m' : Mailbox α} {a : α}

theorem accounts_empty (capacity : Nat) : Accounts capacity [] [] ({} : Mailbox α) where
  sublist := .refl []
  length := rfl
  bounded := Nat.zero_le capacity

theorem Accounts.put (h : Accounts capacity offered taken m) (a : α) :
    Accounts capacity (offered ++ [a]) taken (m.put capacity a) := by
  have hlength := h.length
  have hbounded := h.bounded
  simp only [List.length_append] at hlength
  unfold Mailbox.put
  split
  · constructor
    · rw [← List.append_assoc]
      exact h.sublist.append (.refl [a])
    · simp only [List.length_append, List.length_singleton]
      omega
    · simp only [List.length_append, List.length_singleton]
      omega
  · constructor
    · exact h.sublist.trans (List.sublist_append_left offered [a])
    · simp only [List.length_append, List.length_singleton]
      omega
    · exact hbounded

theorem drops_put (capacity : Nat) (m : Mailbox α) (a : α) :
    (m.put capacity a).drops = m.drops ∨ capacity ≤ m.items.length := by
  unfold Mailbox.put
  split
  · exact .inl rfl
  · next hfull => exact .inr (Nat.le_of_not_lt hfull)

theorem take?_eq_some (h : m.take? = some (a, m')) :
    m.items = a :: m'.items ∧ m'.drops = m.drops := by
  unfold take? at h
  split at h
  · cases h
  · next hitems =>
    cases h
    exact ⟨hitems, rfl⟩

theorem Accounts.take? (h : Accounts capacity offered taken m) (htake : m.take? = some (a, m')) :
    Accounts capacity offered (taken ++ [a]) m' := by
  obtain ⟨hitems, hdrops⟩ := take?_eq_some htake
  have hsplit : taken ++ [a] ++ m'.items = taken ++ m.items := by
    rw [hitems, List.append_assoc, List.singleton_append]
  have hbounded := h.bounded
  rw [hitems, List.length_cons] at hbounded
  constructor
  · rw [hsplit]
    exact h.sublist
  · rw [hsplit, hdrops]
    exact h.length
  · omega

end Mailbox
