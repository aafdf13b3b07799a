import Mathlib.Data.List.Basic
import Mathlib.Tactic.Common

/-!
# Backtracking matchers

A regular expression of a backtracking matcher, such as Python's `re`, is more than a set of words:
the order in which the alternatives are tried decides which match is found. `ways r x` lists all
ways to get past `r` from the point `x`, in this order; `matchPrefix` takes the first of them, as
`match` does, and `fullmatch` the first that leaves nothing of the text.

A greedy repetition of a class of characters that is followed by something else than such a
character can only take all of them (`ways_plus_sat_flatMap`).
-/

inductive Regex (α : Type*) where
  /-- one character of a class -/
  | sat (p : α → Bool)
  | text (w : List α)
  | seq (r s : Regex α)
  /-- `(?:r)?` -/
  | opt (r : Regex α)
  /-- `(?:r)+` -/
  | plus (r : Regex α)
  /-- `(?:r)*?` -/
  | lazyStar (r : Regex α)
  /-- `(?!r)` -/
  | notAhead (r : Regex α)
  /-- `(r)`, the group with this number -/
  | group (n : Nat) (r : Regex α)

namespace Regex

/-- Where a matcher is: what is left of the text, and the groups that were matched, the last one
first. -/
structure Point (α : Type*) where
  rest : List α
  groups : List (Nat × List α) := []

variable {α : Type*}

/-- The text between two points. -/
def Point.textTo (x y : Point α) : List α :=
  x.rest.take (x.rest.length - y.rest.length)

def Point.capture (x : Point α) (n : Nat) (w : List α) : Point α :=
  { x with groups := (n, w) :: x.groups }

/-- `m.group(n)` -/
def Point.group? (x : Point α) (n : Nat) : Option (List α) :=
  (x.groups.find? fun g => g.1 = n).map Prod.snd

/-- Up to `n` rounds of `f`, each of which gets on, as many as possible. -/
def repeatGreedy (f : Point α → List (Point α)) : Nat → Point α → List (Point α)
  | 0, x => [x]
  | n + 1, x =>
    ((f x).filter fun y => y.rest.length < x.rest.length).flatMap (repeatGreedy f n) ++ [x]

/-- Up to `n` rounds of `f`, each of which gets on, as few as possible. -/
def repeatLazy (f : Point α → List (Point α)) : Nat → Point α → List (Point α)
  | 0, x => [x]
  | n + 1, x =>
    x :: ((f x).filter fun y => y.rest.length < x.rest.length).flatMap (repeatLazy f n)

variable [DecidableEq α]

/-- The points after the expression, in the order in which they are tried. -/
def ways : Regex α → Point α → List (Point α)
  | sat p, x =>
    match x.rest with
    | c :: rest => if p c then [{ x with rest := rest }] else []
    | [] => []
  | text w, x => if w <+: x.rest then [{ x with rest := x.rest.drop w.length }] else []
  | seq r s, x => (r.ways x).flatMap s.ways
  | opt r, x => r.ways x ++ [x]
  | plus r, x => (r.ways x).flatMap fun y => repeatGreedy r.ways y.rest.length y
  | lazyStar r, x => repeatLazy r.ways x.rest.length x
  | notAhead r, x => if (r.ways x).isEmpty then [x] else []
  | group n r, x => (r.ways x).map fun y => y.capture n (x.textTo y)

/-- `re.match` -/
def matchPrefix (r : Regex α) (s : List α) : Option (Point α) :=
  (r.ways { rest := s }).head?

/-- `re.fullmatch` -/
def fullmatch (r : Regex α) (s : List α) : Option (Point α) :=
  (r.ways { rest := s }).find? fun x => x.rest.isEmpty

variable {r s : Regex α} {x : Point α} {p : α → Bool}

theorem ways_seq : (seq r s).ways x = (r.ways x).flatMap s.ways :=
  rfl

theorem ways_opt : (opt r).ways x = r.ways x ++ [x] :=
  rfl

theorem ways_text {w : List α} :
    (text w).ways x = if w <+: x.rest then [{ x with rest := x.rest.drop w.length }] else [] :=
  rfl

theorem ways_group {n : Nat} :
    (group n r).ways x = (r.ways x).map fun y => y.capture n (x.textTo y) :=
  rfl

theorem ways_sat_cons {c : α} {rest : List α} {groups : List (Nat × List α)} :
    (sat p).ways ⟨c :: rest, groups⟩ = if p c then [⟨rest, groups⟩] else [] :=
  rfl

theorem ways_notAhead_text_singleton {a c : α} {rest : List α} {groups : List (Nat × List α)} :
    (notAhead (text [a])).ways ⟨c :: rest, groups⟩ = if a = c then [] else [⟨c :: rest, groups⟩] := by
  show (if ((text [a]).ways ⟨c :: rest, groups⟩).isEmpty then _ else []) = _
  rw [ways_text]
  by_cases h : a = c
  · simp [h]
  · simp [h]

/-- A greedy repetition, seen from what comes after it and needs another character. -/
theorem repeatGreedy_sat_flatMap {β : Type*} {F : Point α → List β}
    (hF : ∀ c rest groups, p c = true → F ⟨c :: rest, groups⟩ = []) (n : Nat)
    (hn : x.rest.length ≤ n) :
    (repeatGreedy (sat p).ways n x).flatMap F = F { x with rest := x.rest.dropWhile p } := by
  induction n generalizing x with
  | zero =>
    obtain ⟨rest, groups⟩ := x
    obtain rfl : rest = [] := List.length_eq_zero_iff.1 (Nat.le_zero.1 hn)
    simp [repeatGreedy]
  | succ n ih =>
    obtain ⟨rest, groups⟩ := x
    cases rest with
    | nil => simp [repeatGreedy, ways]
    | cons c rest =>
      unfold repeatGreedy
      rw [ways_sat_cons]
      by_cases hc : p c = true
      · have hrest : (repeatGreedy (sat p).ways n ⟨rest, groups⟩).flatMap F =
            F ⟨rest.dropWhile p, groups⟩ := ih (by simpa using hn)
        rw [if_pos hc, List.filter_cons_of_pos (by simp), List.filter_nil, List.flatMap_singleton,
          List.flatMap_append, hrest, List.flatMap_singleton, hF c rest groups hc, List.append_nil,
          List.dropWhile_cons_of_pos hc]
      · rw [if_neg hc, List.filter_nil, List.flatMap_nil, List.nil_append, List.flatMap_singleton,
          List.dropWhile_cons_of_neg hc]

/-- **A greedy repetition takes all** if what comes after it needs another character. -/
theorem ways_plus_sat_flatMap {β : Type*} {F : Point α → List β}
    (hF : ∀ c rest groups, p c = true → F ⟨c :: rest, groups⟩ = []) {c : α} {rest : List α}
    {groups : List (Nat × List α)} :
    ((plus (sat p)).ways ⟨c :: rest, groups⟩).flatMap F =
      if p c then F ⟨(c :: rest).dropWhile p, groups⟩ else [] := by
  show (((sat p).ways ⟨c :: rest, groups⟩).flatMap _).flatMap F = _
  rw [ways_sat_cons]
  by_cases hc : p c = true
  · rw [if_pos hc, if_pos hc, List.flatMap_singleton, repeatGreedy_sat_flatMap hF _ (Nat.le_refl _),
      List.dropWhile_cons_of_pos hc]
  · rw [if_neg hc, if_neg hc]
    rfl

end Regex
