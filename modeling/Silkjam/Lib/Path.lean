import Mathlib.Data.List.Induction
import Mathlib.Tactic.Common

/-!
# Pure POSIX paths

A path is its root and its components, as `pathlib` parses them: empty components and `.` are
dropped, and `..` is a component like any other. What a path means lexically is got by cancelling
each `..` with the component before it (`cancel`): that leaves some `..` in front, which climb out
of the directory that the path starts from, and names, which go down again. Cancelling commutes with
concatenation (`cancel_append`).
-/

namespace Posix

/-- A component of a path. -/
abbrev Name := {n : List Char // n ≠ [] ∧ n ≠ ['.'] ∧ '/' ∉ n}

/-- The component `..` -/
def up : Name := ⟨['.', '.'], by decide⟩

inductive Root where
  | relative | slash | doubleSlash
  deriving DecidableEq

def Root.str : Root → List Char
  | .relative => []
  | .slash => ['/']
  | .doubleSlash => ['/', '/']

structure PurePath where
  root : Root
  tail : List Name
  deriving DecidableEq

/-- `posixpath.splitroot`: two leading slashes are a root of their own, three are one. -/
def splitRoot : List Char → Root × List Char
  | '/' :: '/' :: '/' :: rel => (.slash, '/' :: '/' :: rel)
  | '/' :: '/' :: rel => (.doubleSlash, rel)
  | '/' :: rel => (.slash, rel)
  | rel => (.relative, rel)

/-- `posixpath.join` of two paths -/
def join (a b : List Char) : List Char :=
  if b.head? = some '/' then b
  else if a = [] ∨ a.getLast? = some '/' then a ++ b
  else a ++ '/' :: b

/-- The component that a text between two slashes is, unless it is dropped. -/
def component (text : List Char) : Option Name :=
  if h : text ≠ [] ∧ text ≠ ['.'] ∧ '/' ∉ text then some ⟨text, h⟩ else none

namespace PurePath

/-- `PurePosixPath(text)` -/
def parse (text : List Char) : PurePath :=
  let (root, rel) := splitRoot text
  { root := root, tail := (rel.splitOn '/').filterMap component }

/-- `path.parts` -/
def parts (p : PurePath) : List (List Char) :=
  (if p.root = .relative then [] else [p.root.str]) ++ p.tail.map Subtype.val

/-- `p / q` -/
def div (p q : PurePath) : PurePath :=
  if q.root = .relative then { p with tail := p.tail ++ q.tail } else q

instance : Div PurePath := ⟨div⟩

/-- `p.is_relative_to(q)` -/
def isRelativeTo (p q : PurePath) : Bool :=
  decide (p.root = q.root) && q.tail.isPrefixOf p.tail

theorem isRelativeTo_iff {p q : PurePath} :
    p.isRelativeTo q = true ↔ p.root = q.root ∧ ∃ rest, p.tail = q.tail ++ rest := by
  simp only [isRelativeTo, Bool.and_eq_true, decide_eq_true_eq, List.isPrefixOf_iff_prefix]
  exact and_congr_right fun _ => exists_congr fun rest => eq_comm

theorem div_of_relative (p : PurePath) {q : PurePath} (h : q.root = .relative) :
    p / q = { p with tail := p.tail ++ q.tail } :=
  if_pos h

theorem parse_name (n : Name) : parse n.1 = { root := .relative, tail := [n] } := by
  obtain ⟨text, hne, hdot, hslash⟩ := n
  have hroot : splitRoot text = (.relative, text) := by
    unfold splitRoot
    split <;> first | rfl | exact absurd List.mem_cons_self hslash
  have hsplit : text.splitOn '/' = [text] := by
    apply List.splitOnP_eq_singleton
    intro c hc
    simp only [beq_eq_false_iff_ne]
    rintro rfl
    exact hslash hc
  unfold parse
  dsimp only
  rw [hroot, hsplit]
  simp [component, hne, hdot, hslash]

end PurePath

/-! ### Cancelling -/

def cancelStep (acc : Nat × List Name) (n : Name) : Nat × List Name :=
  if n = up then
    if acc.2 = [] then (acc.1 + 1, []) else (acc.1, acc.2.dropLast)
  else (acc.1, acc.2 ++ [n])

/-- The number of `..` that are left, and the names after them. -/
def cancel (l : List Name) : Nat × List Name :=
  l.foldl cancelStep (0, [])

theorem cancel_concat (l : List Name) (n : Name) :
    cancel (l ++ [n]) = cancelStep (cancel l) n := by
  simp [cancel]

/-- **Cancelling commutes with concatenation**: the `..` left of the second part climb up the names
left of the first. -/
theorem cancel_append (a b : List Name) :
    cancel (a ++ b) =
      ((cancel a).1 + ((cancel b).1 - (cancel a).2.length),
        (cancel a).2.take ((cancel a).2.length - (cancel b).1) ++ (cancel b).2) := by
  induction b using List.reverseRecOn with
  | nil => simp [show cancel [] = (0, []) from rfl]
  | append_singleton b n ih =>
    rw [← List.append_assoc, cancel_concat, cancel_concat, ih]
    obtain ⟨k, d⟩ := cancel a
    obtain ⟨k', d'⟩ := cancel b
    unfold cancelStep
    dsimp only
    by_cases hn : n = up
    · rw [if_pos hn, if_pos hn]
      by_cases hd' : d' = []
      · subst hd'
        rw [if_pos rfl, List.append_nil]
        by_cases hle : d.length ≤ k'
        · rw [show d.length - k' = 0 by omega, show d.length - (k' + 1) = 0 by omega]
          simp only [List.take_zero, if_pos, List.append_nil]
          rw [show k + (k' - d.length) + 1 = k + (k' + 1 - d.length) by omega]
        · have hne : d.take (d.length - k') ≠ [] := by
            rw [← List.length_pos_iff, List.length_take]
            omega
          rw [if_neg hne, List.append_nil, List.dropLast_eq_take, List.length_take, List.take_take]
          rw [show k' - d.length = k' + 1 - d.length by omega,
            show min (min (d.length - k') d.length - 1) (d.length - k') = d.length - (k' + 1) by omega]
      · rw [if_neg hd', if_neg (List.append_ne_nil_of_right_ne_nil _ hd'),
          List.dropLast_append_of_ne_nil hd']
    · rw [if_neg hn, if_neg hn, List.append_assoc]

theorem cancel_of_notMem {l : List Name} (h : up ∉ l) : cancel l = (0, l) := by
  induction l using List.reverseRecOn with
  | nil => rfl
  | append_singleton l n ih =>
    simp only [List.mem_append, List.mem_singleton, not_or] at h
    rw [cancel_concat, ih h.1, cancelStep, if_neg (Ne.symm h.2)]

/-- What a path means lexically; `..` at the root stays there. -/
def PurePath.resolve (p : PurePath) : PurePath where
  root := p.root
  tail := if p.root = .relative then List.replicate (cancel p.tail).1 up ++ (cancel p.tail).2
    else (cancel p.tail).2

end Posix
