import Mathlib.Data.List.Chain
import Mathlib.Data.List.TakeDrop
import Mathlib.Tactic.Common
import Silkjam.Lib.Decimal
import Silkjam.Lib.Dict

/-!
# JSON

`loads` reads a JSON text as Python's `json.loads` does: an escaped surrogate that is followed by its
other half is joined with it, of two members with one key the last counts, and a number with a
fraction or an exponent is kept as it was written. How deeply values nest and how many digits an
integer has is not limited here. A string is the list of its code points, so a surrogate may stand
alone in it.

The fuel of `loads` is always enough (`loads_eq_of_le`).
-/

/-- The code points of a string. -/
abbrev CodePoints := List Nat

inductive Json where
  | null
  | bool (value : Bool)
  | int (value : Int)
  /-- a number with a fraction or an exponent, as it is written -/
  | float (literal : List Char)
  | str (value : CodePoints)
  | arr (values : List Json)
  | obj (members : List (CodePoints × Json))

namespace Json

/-! ### Strings -/

/-- The escapes with one letter. -/
def escapes : List (Nat × Char) :=
  [(0x22, '"'), (0x5C, '\\'), (0x2F, '/'), (0x08, 'b'), (0x0C, 'f'), (0x0A, 'n'), (0x0D, 'r'),
    (0x09, 't')]

def isHigh (n : Nat) : Prop := 0xD800 ≤ n ∧ n < 0xDC00

def isLow (n : Nat) : Prop := 0xDC00 ≤ n ∧ n < 0xE000

instance (n : Nat) : Decidable (isHigh n) := inferInstanceAs (Decidable (_ ∧ _))

instance (n : Nat) : Decidable (isLow n) := inferInstanceAs (Decidable (_ ∧ _))

def hexValue? (c : Char) : Option Nat :=
  if '0' ≤ c ∧ c ≤ '9' then some (c.toNat - 48)
  else if 'a' ≤ c ∧ c ≤ 'f' then some (c.toNat - 87)
  else if 'A' ≤ c ∧ c ≤ 'F' then some (c.toNat - 55)
  else none

/-- The four digits of an escape. -/
def hexUnit? (a b c d : Char) : Option Nat := do
  let a ← hexValue? a
  let b ← hexValue? b
  let c ← hexValue? c
  let d ← hexValue? d
  return ((a * 16 + b) * 16 + c) * 16 + d

/-- The code points up to the closing quote, each surrogate on its own, and what follows. -/
def scanUnits : List Char → Option (CodePoints × List Char)
  | [] => none
  | '"' :: rest => some ([], rest)
  | '\\' :: 'u' :: a :: b :: c :: d :: rest => do
    let n ← hexUnit? a b c d
    let (units, rest) ← scanUnits rest
    return (n :: units, rest)
  | '\\' :: letter :: rest => do
    let (n, _) ← escapes.find? (·.2 = letter)
    let (units, rest) ← scanUnits rest
    return (n :: units, rest)
  | c :: rest =>
    if c.toNat < 0x20 then none
    else (scanUnits rest).map fun (units, rest) => (c.toNat :: units, rest)

/-- Join the surrogates that belong together. A surrogate is never written but as an escape. -/
def joinSurrogates : CodePoints → CodePoints
  | u :: v :: units =>
    if isHigh u ∧ isLow v then
      (0x10000 + (u - 0xD800) * 0x400 + (v - 0xDC00)) :: joinSurrogates units
    else u :: joinSurrogates (v :: units)
  | units => units

/-- A string after its opening quote. -/
def scanStr (cs : List Char) : Option (CodePoints × List Char) :=
  (scanUnits cs).map fun (units, rest) => (joinSurrogates units, rest)

/-! ### Numbers and words -/

def intPart : List Char → List Char × List Char
  | '0' :: rest => (['0'], rest)
  | cs => cs.span Char.isDigit

def fracPart : List Char → List Char × List Char
  | '.' :: d :: rest =>
    if d.isDigit then ('.' :: d :: rest.takeWhile Char.isDigit, rest.dropWhile Char.isDigit)
    else ([], '.' :: d :: rest)
  | cs => ([], cs)

def expSign : List Char → List Char × List Char
  | '-' :: rest => (['-'], rest)
  | '+' :: rest => (['+'], rest)
  | cs => ([], cs)

def expPart : List Char → List Char × List Char
  | [] => ([], [])
  | e :: rest =>
    if e = 'e' ∨ e = 'E' then
      let (sign, digits) := expSign rest
      if digits.takeWhile Char.isDigit = [] then ([], e :: rest)
      else (e :: sign ++ digits.takeWhile Char.isDigit, digits.dropWhile Char.isDigit)
    else ([], e :: rest)

def numberSign : List Char → List Char × List Char
  | '-' :: rest => (['-'], rest)
  | cs => ([], cs)

def scanNumber (cs : List Char) : Option (Json × List Char) :=
  let (sign, rest) := numberSign cs
  let (digits, rest) := intPart rest
  if digits = [] then none
  else
    let (frac, rest) := fracPart rest
    let (exponent, rest) := expPart rest
    if frac = [] ∧ exponent = [] then
      (Decimal.int? (sign ++ digits)).map fun value => (.int value, rest)
    else some (.float (sign ++ digits ++ frac ++ exponent), rest)

def words : List (List Char × Json) :=
  [(['n', 'u', 'l', 'l'], .null), (['t', 'r', 'u', 'e'], .bool true),
    (['f', 'a', 'l', 's', 'e'], .bool false), (['N', 'a', 'N'], .float ['N', 'a', 'N']),
    (['I', 'n', 'f', 'i', 'n', 'i', 't', 'y'], .float ['I', 'n', 'f', 'i', 'n', 'i', 't', 'y']),
    (['-', 'I', 'n', 'f', 'i', 'n', 'i', 't', 'y'],
      .float ['-', 'I', 'n', 'f', 'i', 'n', 'i', 't', 'y'])]

/-- A word, or a number. -/
def scanScalar (cs : List Char) : Option (Json × List Char) :=
  match words.findSome? fun (word, value) => (word.isPrefixOf? cs).map (value, ·) with
  | some found => some found
  | none => scanNumber cs

/-! ### Values -/

def isWhitespace (c : Char) : Bool :=
  c = ' ' || c = '\t' || c = '\n' || c = '\r'

def skip (cs : List Char) : List Char :=
  cs.dropWhile isWhitespace

/-- The members of a dictionary into which these are put one after the other. -/
def asDict (members : List (CodePoints × Json)) : List (CodePoints × Json) :=
  (members.foldl (fun d e => d.set e.1 e.2) ({} : Dict CodePoints Json)).items

mutual

/-- The value that the text begins with, and what follows it. -/
def scanOnce : Nat → List Char → Option (Json × List Char)
  | 0, _ => none
  | _ + 1, [] => none
  | fuel + 1, c :: rest =>
    if c = '"' then (scanStr rest).map fun (s, rest) => (.str s, rest)
    else if c = '{' then
      match skip rest with
      | '}' :: rest => some (.obj [], rest)
      | rest => (scanMembers fuel rest).map fun (members, rest) => (.obj (asDict members), rest)
    else if c = '[' then
      match skip rest with
      | ']' :: rest => some (.arr [], rest)
      | rest => (scanElements fuel rest).map fun (values, rest) => (.arr values, rest)
    else scanScalar (c :: rest)

def scanElements : Nat → List Char → Option (List Json × List Char)
  | 0, _ => none
  | fuel + 1, cs => do
    let (value, rest) ← scanOnce fuel cs
    match skip rest with
    | ']' :: rest => some ([value], rest)
    | ',' :: rest =>
      let (values, rest) ← scanElements fuel (skip rest)
      return (value :: values, rest)
    | _ => none

def scanMembers : Nat → List Char → Option (List (CodePoints × Json) × List Char)
  | fuel + 1, '"' :: cs => do
    let (key, rest) ← scanStr cs
    match skip rest with
    | ':' :: rest =>
      let (value, rest) ← scanOnce fuel (skip rest)
      match skip rest with
      | '}' :: rest => some ([(key, value)], rest)
      | ',' :: rest =>
        let (members, rest) ← scanMembers fuel (skip rest)
        return ((key, value) :: members, rest)
      | _ => none
    | _ => none
  | _, _ => none

end

/-- `json.loads`; `none` where it raises a `JSONDecodeError`. -/
def loads (cs : List Char) : Option Json :=
  if cs.head? = some '\uFEFF' then none
  else
    match scanOnce (2 * cs.length + 1) (skip cs) with
    | some (value, rest) => if skip rest = [] then some value else none
    | none => none

/-! ### Fuel -/

theorem length_scanUnits {cs rest : List Char} {units : CodePoints}
    (h : scanUnits cs = some (units, rest)) : rest.length < cs.length := by
  fun_induction scanUnits cs generalizing units rest with
  | case1 => cases h
  | case2 cs =>
    cases h
    simp
  | case3 a b c d cs ih =>
    simp only [Option.bind_eq_bind, Option.bind_eq_some_iff] at h
    obtain ⟨n, -, ⟨units', rest'⟩, hunits, h⟩ := h
    cases h
    have := ih hunits
    simp only [List.length_cons]
    omega
  | case4 letter cs _ ih =>
    simp only [Option.bind_eq_bind, Option.bind_eq_some_iff] at h
    obtain ⟨n, -, ⟨units', rest'⟩, hunits, h⟩ := h
    cases h
    have := ih hunits
    simp only [List.length_cons]
    omega
  | case5 c cs => cases h
  | case6 c cs _ _ _ _ ih =>
    rw [Option.map_eq_some_iff] at h
    obtain ⟨⟨units', rest'⟩, hunits, h⟩ := h
    cases h
    have := ih hunits
    simp only [List.length_cons]
    omega

theorem length_scanStr {cs rest : List Char} {s : CodePoints} (h : scanStr cs = some (s, rest)) :
    rest.length < cs.length := by
  unfold scanStr at h
  rw [Option.map_eq_some_iff] at h
  obtain ⟨⟨units, rest'⟩, hunits, h⟩ := h
  cases h
  exact length_scanUnits hunits

theorem numberSign_append (cs : List Char) : (numberSign cs).1 ++ (numberSign cs).2 = cs := by
  unfold numberSign
  split
  · rfl
  · rfl

theorem intPart_append (cs : List Char) : (intPart cs).1 ++ (intPart cs).2 = cs := by
  unfold intPart
  split
  · rfl
  · rw [List.span_eq_takeWhile_dropWhile]
    exact List.takeWhile_append_dropWhile

theorem fracPart_append (cs : List Char) : (fracPart cs).1 ++ (fracPart cs).2 = cs := by
  unfold fracPart
  split
  · split
    · simp
    · rfl
  · rfl

theorem expSign_append (cs : List Char) : (expSign cs).1 ++ (expSign cs).2 = cs := by
  unfold expSign
  split
  · rfl
  · rfl
  · rfl

theorem expPart_append (cs : List Char) : (expPart cs).1 ++ (expPart cs).2 = cs := by
  unfold expPart
  split
  · rfl
  · next e rest =>
    split
    · have hsign := expSign_append rest
      dsimp only
      split
      · rfl
      · rw [List.cons_append, List.cons_append, List.append_assoc,
          List.takeWhile_append_dropWhile, hsign]
    · rfl

theorem length_scanNumber {cs rest : List Char} {v : Json} (h : scanNumber cs = some (v, rest)) :
    rest.length < cs.length := by
  have hsign := congrArg List.length (numberSign_append cs)
  have hint := congrArg List.length (intPart_append (numberSign cs).2)
  have hfrac := congrArg List.length (fracPart_append (intPart (numberSign cs).2).2)
  have hexp := congrArg List.length
    (expPart_append (fracPart (intPart (numberSign cs).2).2).2)
  simp only [List.length_append] at hsign hint hfrac hexp
  unfold scanNumber at h
  dsimp only at h
  split at h
  · cases h
  · next hne =>
    have hpos := List.length_pos_iff.2 hne
    have hrest : rest = (expPart (fracPart (intPart (numberSign cs).2).2).2).2 := by
      split at h
      · rw [Option.map_eq_some_iff] at h
        obtain ⟨value, -, h⟩ := h
        cases h
        rfl
      · cases h
        rfl
    rw [hrest]
    omega

theorem isPrefixOf?_append {word cs rest : List Char} (h : word.isPrefixOf? cs = some rest) :
    cs = word ++ rest := by
  induction word generalizing cs with
  | nil =>
    rw [List.isPrefixOf?] at h
    exact Option.some.inj h
  | cons c word ih =>
    cases cs with
    | nil => cases h
    | cons d cs =>
      rw [List.isPrefixOf?] at h
      split at h
      · next heq => rw [List.cons_append, ← ih h, eq_of_beq heq]
      · cases h

theorem length_scanScalar {cs rest : List Char} {v : Json} (h : scanScalar cs = some (v, rest)) :
    rest.length < cs.length := by
  unfold scanScalar at h
  split at h
  · next found hfound =>
    cases h
    obtain ⟨⟨word, value⟩, hword, hprefix⟩ := List.exists_of_findSome?_eq_some hfound
    rw [Option.map_eq_some_iff] at hprefix
    obtain ⟨rest', hprefix, heq⟩ := hprefix
    cases heq
    have hne : ∀ e ∈ words.map Prod.fst, 0 < e.length := by
      decide
    have hpos := hne word (List.mem_map_of_mem hword)
    have hlen := congrArg List.length (isPrefixOf?_append hprefix)
    rw [List.length_append] at hlen
    omega
  · exact length_scanNumber h

theorem length_skip_le (cs : List Char) : (skip cs).length ≤ cs.length :=
  (List.dropWhile_suffix isWhitespace).length_le

theorem length_scan (fuel : Nat) :
    (∀ cs v rest, scanOnce fuel cs = some (v, rest) → rest.length < cs.length) ∧
    (∀ cs vs rest, scanElements fuel cs = some (vs, rest) → rest.length < cs.length) ∧
    ∀ cs ms rest, scanMembers fuel cs = some (ms, rest) → rest.length < cs.length := by
  induction fuel with
  | zero =>
    refine ⟨?_, ?_, ?_⟩
    · intro cs v rest h
      rw [scanOnce] at h
      cases h
    · intro cs vs rest h
      rw [scanElements] at h
      cases h
    · intro cs ms rest h
      rw [scanMembers] at h
      · cases h
      · simp
  | succ fuel ih =>
    obtain ⟨ihOnce, ihElements, ihMembers⟩ := ih
    refine ⟨?_, ?_, ?_⟩
    · intro cs v rest h
      cases cs with
      | nil =>
        rw [scanOnce] at h
        cases h
      | cons c cs =>
        have hskip := length_skip_le cs
        rw [scanOnce] at h
        rw [List.length_cons]
        split at h
        · obtain ⟨⟨s, rest'⟩, hs, heq⟩ := Option.map_eq_some_iff.1 h
          cases heq
          have := length_scanStr hs
          omega
        · split at h
          · split at h
            · next rest' hclosed =>
              cases h
              rw [hclosed, List.length_cons] at hskip
              omega
            · obtain ⟨⟨ms, rest'⟩, hms, heq⟩ := Option.map_eq_some_iff.1 h
              cases heq
              have := ihMembers _ _ _ hms
              omega
          · split at h
            · split at h
              · next rest' hclosed =>
                cases h
                rw [hclosed, List.length_cons] at hskip
                omega
              · obtain ⟨⟨vs, rest'⟩, hvs, heq⟩ := Option.map_eq_some_iff.1 h
                cases heq
                have := ihElements _ _ _ hvs
                omega
            · have := length_scanScalar h
              rw [List.length_cons] at this
              omega
    · intro cs vs rest h
      rw [scanElements, Option.bind_eq_bind, Option.bind_eq_some_iff] at h
      obtain ⟨⟨value, rest'⟩, hvalue, h⟩ := h
      have hlt := ihOnce _ _ _ hvalue
      have hskip := length_skip_le rest'
      dsimp only at h
      split at h
      · next hclosed =>
        cases h
        rw [hclosed, List.length_cons] at hskip
        omega
      · next rest₁ hcomma =>
        rw [Option.bind_eq_bind, Option.bind_eq_some_iff] at h
        obtain ⟨⟨values, rest₂⟩, hvalues, h⟩ := h
        cases h
        have hlt' := ihElements _ _ _ hvalues
        have hskip' := length_skip_le rest₁
        rw [hcomma, List.length_cons] at hskip
        dsimp only at hlt' ⊢
        omega
      · cases h
    · intro cs ms rest h
      rw [scanMembers.eq_def] at h
      split at h
      · next fuel' cs' heq =>
        cases heq
        rw [Option.bind_eq_bind, Option.bind_eq_some_iff] at h
        obtain ⟨⟨key, rest₁⟩, hkey, h⟩ := h
        have hlt := length_scanStr hkey
        have hskip := length_skip_le rest₁
        dsimp only at h
        split at h
        · next rest₂ hcolon =>
          rw [Option.bind_eq_bind, Option.bind_eq_some_iff] at h
          obtain ⟨⟨value, rest₃⟩, hvalue, h⟩ := h
          have hlt₁ := ihOnce _ _ _ hvalue
          have hskip₁ := length_skip_le rest₂
          have hskip₂ := length_skip_le rest₃
          rw [hcolon, List.length_cons] at hskip
          rw [List.length_cons]
          dsimp only at h
          split at h
          · next hclosed =>
            cases h
            rw [hclosed, List.length_cons] at hskip₂
            omega
          · next rest₄ hcomma =>
            rw [Option.bind_eq_bind, Option.bind_eq_some_iff] at h
            obtain ⟨⟨members, rest₅⟩, hmembers, h⟩ := h
            cases h
            have hlt₂ := ihMembers _ _ _ hmembers
            have hskip₃ := length_skip_le rest₄
            rw [hcomma, List.length_cons] at hskip₂
            dsimp only at hlt₂ ⊢
            omega
          · cases h
        · cases h
      · cases h

/-- **More fuel changes nothing**, once there is some for every character. -/
theorem scan_stable (fuel : Nat) :
    (∀ cs, 2 * cs.length + 1 ≤ fuel → scanOnce (fuel + 1) cs = scanOnce fuel cs) ∧
    (∀ cs, 2 * cs.length + 2 ≤ fuel → scanElements (fuel + 1) cs = scanElements fuel cs) ∧
    ∀ cs, 2 * cs.length + 1 ≤ fuel → scanMembers (fuel + 1) cs = scanMembers fuel cs := by
  induction fuel with
  | zero =>
    refine ⟨?_, ?_, ?_⟩
    · intro cs h
      omega
    · intro cs h
      omega
    · intro cs h
      omega
  | succ fuel ih =>
    obtain ⟨ihOnce, ihElements, ihMembers⟩ := ih
    refine ⟨?_, ?_, ?_⟩
    · intro cs h
      cases cs with
      | nil => rw [scanOnce, scanOnce]
      | cons c cs =>
        have hskip := length_skip_le cs
        rw [List.length_cons] at h
        have hmembers := ihMembers (skip cs) (by omega)
        have helements := ihElements (skip cs) (by omega)
        rw [scanOnce, scanOnce]
        split
        · rfl
        · split
          · split
            · rfl
            · rw [hmembers]
          · split
            · split
              · rfl
              · rw [helements]
            · rfl
    · intro cs h
      rw [scanElements, scanElements, ihOnce cs (by omega)]
      cases hvalue : scanOnce fuel cs with
      | none => rfl
      | some found =>
        obtain ⟨value, rest⟩ := found
        have hlt := (length_scan fuel).1 _ _ _ hvalue
        have hskip := length_skip_le rest
        simp only [bind, Option.bind]
        split
        · rfl
        · next rest' hcomma =>
          have hskip' := length_skip_le rest'
          rw [hcomma, List.length_cons] at hskip
          rw [ihElements _ (by omega)]
        · rfl
    · intro cs h
      cases cs with
      | nil => rw [scanMembers, scanMembers] <;> simp
      | cons c cs =>
        by_cases hquote : c = '"'
        · subst hquote
          rw [List.length_cons] at h
          rw [scanMembers, scanMembers]
          cases hkey : scanStr cs with
          | none => rfl
          | some found =>
            obtain ⟨key, rest⟩ := found
            have hlt := length_scanStr hkey
            have hskip := length_skip_le rest
            simp only [bind, Option.bind]
            split
            · next rest₁ hcolon =>
              have hskip₁ := length_skip_le rest₁
              rw [hcolon, List.length_cons] at hskip
              rw [ihOnce (Json.skip rest₁) (by omega)]
              cases hvalue : scanOnce fuel (Json.skip rest₁) with
              | none => rfl
              | some found =>
                obtain ⟨value, rest₂⟩ := found
                have hlt₁ := (length_scan fuel).1 _ _ _ hvalue
                have hskip₂ := length_skip_le rest₂
                dsimp only
                split
                · rfl
                · next rest₃ hcomma =>
                  have hskip₃ := length_skip_le rest₃
                  rw [hcomma, List.length_cons] at hskip₂
                  rw [ihMembers _ (by omega)]
                · rfl
            · rfl
        · rw [scanMembers, scanMembers] <;> simp [hquote]

theorem scanOnce_of_le {cs : List Char} {fuel : Nat} (h : 2 * cs.length + 1 ≤ fuel) :
    scanOnce fuel cs = scanOnce (2 * cs.length + 1) cs := by
  induction fuel, h using Nat.le_induction with
  | base => rfl
  | succ fuel hle ih => rw [(scan_stable fuel).1 cs hle, ih]

/-- `loads` refuses a text only because of what stands in it. -/
theorem loads_eq_of_le {cs : List Char} {fuel : Nat} (h : 2 * cs.length + 1 ≤ fuel) :
    loads cs = if cs.head? = some '\uFEFF' then none
      else
        match scanOnce fuel (skip cs) with
        | some (value, rest) => if skip rest = [] then some value else none
        | none => none := by
  have hlen := length_skip_le cs
  have hfuel : scanOnce fuel (skip cs) = scanOnce (2 * (skip cs).length + 1) (skip cs) :=
    scanOnce_of_le (by omega)
  unfold loads
  rw [hfuel, scanOnce_of_le (by omega)]

end Json
