import Mathlib.Data.List.DropRight
import Mathlib.Tactic.Common

/-!
# Lines and fields

A text is a list of characters. `lines` splits it at each `newline`, of which the last line may lack
its own, and `unlines` ends every line with one; `strip` drops characters from both ends;
`partition?` splits a line at the first separator. What the three do to a text that was put together
from lines and fields is read off its parts.
-/

namespace Fields

variable {α : Type*}

/-! ### Stripping -/

section
variable {p : α → Bool} {l l' : List α} {a : α}

def strip (p : α → Bool) (l : List α) : List α :=
  (l.dropWhile p).rdropWhile p

def Stripped (p : α → Bool) (l : List α) : Prop :=
  strip p l = l

instance [DecidableEq α] : Decidable (Stripped p l) :=
  inferInstanceAs (Decidable (_ = _))

theorem dropWhile_head? (p : α → Bool) (l : List α) (h : (l.dropWhile p).head? = some a) :
    p a = false := by
  have hhead := List.head?_dropWhile_not p l
  rwa [h] at hhead

theorem rdropWhile_getLast? (p : α → Bool) (l : List α) (h : (l.rdropWhile p).getLast? = some a) :
    p a = false := by
  have hne : l.rdropWhile p ≠ [] := by
    intro hnil
    rw [hnil] at h
    cases h
  rw [List.getLast?_eq_some_getLast hne] at h
  cases h
  simpa using List.rdropWhile_last_not p l hne

theorem head?_strip (p : α → Bool) (l : List α) : (strip p l).head? = (l.dropWhile p).head? := by
  unfold strip
  cases hdrop : l.dropWhile p with
  | nil => rfl
  | cons a t =>
    have ha : p a = false := dropWhile_head? p l (by rw [hdrop]; rfl)
    obtain ⟨s, hs⟩ := List.rdropWhile_prefix p (a :: t)
    cases hkept : (a :: t).rdropWhile p with
    | nil =>
      have hall := List.rdropWhile_eq_nil_iff.1 hkept a List.mem_cons_self
      rw [ha] at hall
      cases hall
    | cons b r =>
      rw [hkept] at hs
      obtain ⟨rfl, -⟩ := List.cons.inj hs
      rfl

theorem stripped_iff : Stripped p l ↔
    (∀ a, l.head? = some a → p a = false) ∧ ∀ a, l.getLast? = some a → p a = false := by
  unfold Stripped
  constructor
  · intro h
    refine ⟨fun a ha => ?_, fun a ha => ?_⟩
    · rw [← h, head?_strip] at ha
      exact dropWhile_head? p l ha
    · rw [← h] at ha
      exact rdropWhile_getLast? p _ ha
  · rintro ⟨hhead, hlast⟩
    have hdrop : l.dropWhile p = l := by
      cases l with
      | nil => rfl
      | cons a t => exact List.dropWhile_cons_of_neg (by simp [hhead a rfl])
    unfold strip
    rw [hdrop, List.rdropWhile_eq_self_iff]
    intro hne
    simp [hlast _ (List.getLast?_eq_some_getLast hne)]

theorem stripped_strip (p : α → Bool) (l : List α) : Stripped p (strip p l) := by
  rw [stripped_iff]
  refine ⟨fun a ha => ?_, fun a ha => ?_⟩
  · rw [head?_strip] at ha
    exact dropWhile_head? p l ha
  · exact rdropWhile_getLast? p _ ha

theorem stripped_of_forall (h : ∀ a ∈ l, p a = false) : Stripped p l :=
  stripped_iff.2 ⟨fun a ha => h a (List.mem_of_head? ha), fun a ha => h a (List.mem_of_getLast? ha)⟩

theorem mem_of_mem_strip (h : a ∈ strip p l) : a ∈ l := by
  have hkept := List.rdropWhile_prefix p (l.dropWhile p)
  exact (List.dropWhile_suffix p).mem (hkept.mem h)

theorem head?_strip_append {l : List α} (ha : p a = false) :
    (strip p (l ++ a :: l')).head? = some ((strip p l).head?.getD a) := by
  rw [head?_strip, head?_strip, List.dropWhile_append]
  cases hdrop : l.dropWhile p with
  | nil => simp [ha]
  | cons b t => simp

end

/-! ### Lines -/

section
variable [DecidableEq α] {newline a : α} {l line : List α} {ls : List (List α)}

def lines (newline : α) : List α → List (List α)
  | [] => []
  | a :: l =>
    if a = newline then [] :: lines newline l
    else
      match lines newline l with
      | [] => [[a]]
      | line :: rest => (a :: line) :: rest

def unlines (newline : α) (ls : List (List α)) : List α :=
  ls.flatMap (· ++ [newline])

theorem lines_cons_newline (newline : α) (l : List α) :
    lines newline (newline :: l) = [] :: lines newline l := by
  rw [lines, if_pos rfl]

theorem lines_append (h : newline ∉ line) (l : List α) :
    lines newline (line ++ newline :: l) = line :: lines newline l := by
  induction line with
  | nil => exact lines_cons_newline newline l
  | cons a line ih =>
    rw [List.mem_cons, not_or] at h
    rw [List.cons_append, lines, if_neg (Ne.symm h.1), ih h.2]

/-- **Lines that were written are read.** -/
theorem lines_unlines (h : ∀ line ∈ ls, newline ∉ line) : lines newline (unlines newline ls) = ls := by
  induction ls with
  | nil => rfl
  | cons line ls ih =>
    rw [List.forall_mem_cons] at h
    have hunlines : unlines newline (line :: ls) = line ++ newline :: unlines newline ls := by
      simp [unlines]
    rw [hunlines, lines_append h.1, ih h.2]

theorem newline_notMem_lines (h : line ∈ lines newline l) : newline ∉ line := by
  induction l generalizing line with
  | nil => cases h
  | cons a l ih =>
    unfold lines at h
    split at h
    · rcases List.mem_cons.1 h with rfl | h
      · exact List.not_mem_nil
      · exact ih h
    · next hne =>
      cases hrest : lines newline l with
      | nil =>
        rw [hrest] at h
        obtain rfl := List.mem_singleton.1 h
        simpa using Ne.symm hne
      | cons first rest =>
        rw [hrest] at h ih
        rcases List.mem_cons.1 h with rfl | h
        · rw [List.mem_cons, not_or]
          exact ⟨Ne.symm hne, ih List.mem_cons_self⟩
        · exact ih (List.mem_cons_of_mem _ h)

theorem mem_of_mem_lines (h : line ∈ lines newline l) (ha : a ∈ line) : a ∈ l := by
  induction l generalizing line with
  | nil => cases h
  | cons b l ih =>
    unfold lines at h
    split at h
    · rcases List.mem_cons.1 h with rfl | h
      · cases ha
      · exact List.mem_cons_of_mem _ (ih h ha)
    · cases hrest : lines newline l with
      | nil =>
        rw [hrest] at h
        obtain rfl := List.mem_singleton.1 h
        obtain rfl := List.mem_singleton.1 ha
        exact List.mem_cons_self
      | cons first rest =>
        rw [hrest] at h ih
        rcases List.mem_cons.1 h with rfl | h
        · rcases List.mem_cons.1 ha with rfl | ha
          · exact List.mem_cons_self
          · exact List.mem_cons_of_mem _ (ih List.mem_cons_self ha)
        · exact List.mem_cons_of_mem _ (ih (List.mem_cons_of_mem _ h) ha)

omit [DecidableEq α] in
theorem mem_unlines : a ∈ unlines newline ls → a = newline ∨ ∃ line ∈ ls, a ∈ line := by
  intro h
  obtain ⟨line, hline, ha⟩ := List.mem_flatMap.1 h
  rcases List.mem_append.1 ha with ha | ha
  · exact .inr ⟨line, hline, ha⟩
  · exact .inl (List.mem_singleton.1 ha)

end

/-! ### Fields -/

section
variable [DecidableEq α] {sep : α} {l a b : List α}

/-- What comes before and after the first separator. -/
def partition? (sep : α) : List α → Option (List α × List α)
  | [] => none
  | c :: l => if c = sep then some ([], l) else (partition? sep l).map fun (a, b) => (c :: a, b)

theorem partition?_append (h : sep ∉ a) (b : List α) : partition? sep (a ++ sep :: b) = some (a, b) := by
  induction a with
  | nil => exact if_pos rfl
  | cons c a ih =>
    rw [List.mem_cons, not_or] at h
    rw [List.cons_append, partition?, if_neg (Ne.symm h.1), ih h.2]
    rfl

theorem partition?_eq_some (h : partition? sep l = some (a, b)) : l = a ++ sep :: b ∧ sep ∉ a := by
  induction l generalizing a with
  | nil => cases h
  | cons c l ih =>
    unfold partition? at h
    split at h
    · next heq =>
      cases h
      exact ⟨by rw [heq, List.nil_append], List.not_mem_nil⟩
    · next hne =>
      obtain ⟨⟨a', b'⟩, hrest, heq⟩ := Option.map_eq_some_iff.1 h
      cases heq
      obtain ⟨rfl, hnot⟩ := ih hrest
      exact ⟨rfl, by simpa [hnot] using Ne.symm hne⟩

theorem partition?_eq_none : partition? sep l = none ↔ sep ∉ l := by
  induction l with
  | nil => simp [partition?]
  | cons c l ih =>
    rw [partition?, List.mem_cons, not_or, ← ih]
    split
    · next heq => simp [heq]
    · next hne => simp [Ne.symm hne]

end

end Fields
