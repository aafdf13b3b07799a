import Silkjam.Lib.JsonStyle

/-!
# Limits on JSON

Python reads and writes integers with a limited number of digits only, and values that nest deeply
only as far as its stack goes; beyond that `json.loads` and `json.dumps` raise something else than
for a text that is no JSON. `dumpsFault` and `loadsFault` say which limit is met first. A text that
was written meets the limits that its value meets (`loadsFault_write`), none exactly if the value is
within them (`dumpsFault_eq_none`).
-/

namespace Json

structure Limits where
  digits : Nat
  nesting : Nat

inductive Fault where
  | digits
  | nesting
  deriving DecidableEq

/-- The integer is written with so many digits at most. -/
def Short (digits : Nat) (value : Int) : Prop :=
  (Nat.toDigits 10 value.natAbs).length ≤ digits

instance (digits : Nat) (value : Int) : Decidable (Short digits value) :=
  inferInstanceAs (Decidable (_ ≤ _))

def intFault (digits : Nat) (value : Int) : Option Fault :=
  if Short digits value then none else some .digits

/-! ### Writing -/

mutual

/-- The first limit that is met in a value; `depth` more levels may be entered. -/
def dumpsFault (digits depth : Nat) : Json → Option Fault
  | .int value => intFault digits value
  | .arr values =>
    if depth = 0 then some .nesting else elementsFault digits (depth - 1) values
  | .obj members =>
    if depth = 0 then some .nesting else membersFault digits (depth - 1) members
  | .null => none
  | .bool _ => none
  | .float _ => none
  | .str _ => none

def elementsFault (digits depth : Nat) : List Json → Option Fault
  | [] => none
  | value :: values =>
    (dumpsFault digits depth value).or (elementsFault digits depth values)

def membersFault (digits depth : Nat) : List (CodePoints × Json) → Option Fault
  | [] => none
  | (_, value) :: members =>
    (dumpsFault digits depth value).or (membersFault digits depth members)

end

mutual

/-- The integers are short, and no more than `depth` levels are nested. -/
def Within (digits depth : Nat) : Json → Prop
  | .int value => Short digits value
  | .arr values => 0 < depth ∧ ElementsWithin digits (depth - 1) values
  | .obj members => 0 < depth ∧ MembersWithin digits (depth - 1) members
  | .null => True
  | .bool _ => True
  | .float _ => True
  | .str _ => True

def ElementsWithin (digits depth : Nat) : List Json → Prop
  | [] => True
  | value :: values => value.Within digits depth ∧ ElementsWithin digits depth values

def MembersWithin (digits depth : Nat) : List (CodePoints × Json) → Prop
  | [] => True
  | (_, value) :: members => value.Within digits depth ∧ MembersWithin digits depth members

end

theorem intFault_eq_none {digits : Nat} {value : Int} :
    intFault digits value = none ↔ Short digits value := by
  unfold intFault
  split
  · next h => exact iff_of_true rfl h
  · next h => exact iff_of_false nofun h

mutual

/-- **What is within the limits meets none.** -/
theorem dumpsFault_eq_none : ∀ (digits depth : Nat) (v : Json),
    v.dumpsFault digits depth = none ↔ v.Within digits depth
  | digits, depth, .int value => by
    rw [dumpsFault, Within]
    exact intFault_eq_none
  | digits, depth, .arr values => by
    have ih := elementsFault_eq_none digits (depth - 1) values
    rw [dumpsFault, Within]
    split
    · next hdepth => exact iff_of_false nofun fun h => absurd hdepth (Nat.ne_of_gt h.1)
    · next hdepth => rw [ih, and_iff_right (Nat.pos_of_ne_zero hdepth)]
  | digits, depth, .obj members => by
    have ih := membersFault_eq_none digits (depth - 1) members
    rw [dumpsFault, Within]
    split
    · next hdepth => exact iff_of_false nofun fun h => absurd hdepth (Nat.ne_of_gt h.1)
    · next hdepth => rw [ih, and_iff_right (Nat.pos_of_ne_zero hdepth)]
  | _, _, .null | _, _, .bool _ | _, _, .float _ | _, _, .str _ => by
    rw [dumpsFault, Within]
    exact iff_of_true rfl trivial

theorem elementsFault_eq_none : ∀ (digits depth : Nat) (values : List Json),
    elementsFault digits depth values = none ↔ ElementsWithin digits depth values
  | digits, depth, [] => by
    rw [elementsFault, ElementsWithin]
    exact iff_of_true rfl trivial
  | digits, depth, value :: values => by
    rw [elementsFault, ElementsWithin, Option.or_eq_none_iff, dumpsFault_eq_none digits depth value,
      elementsFault_eq_none digits depth values]

theorem membersFault_eq_none : ∀ (digits depth : Nat) (members : List (CodePoints × Json)),
    membersFault digits depth members = none ↔ MembersWithin digits depth members
  | digits, depth, [] => by
    rw [membersFault, MembersWithin]
    exact iff_of_true rfl trivial
  | digits, depth, (_, value) :: members => by
    rw [membersFault, MembersWithin, Option.or_eq_none_iff, dumpsFault_eq_none digits depth value,
      membersFault_eq_none digits depth members]

end

/-! ### Reading -/

mutual

/-- The first limit that is met when the value is read that the text begins with; none if something
that is no JSON comes before. -/
def scanFault (digits : Nat) : Nat → Nat → List Char → Option Fault
  | 0, _, _ => none
  | _ + 1, _, [] => none
  | fuel + 1, depth, c :: rest =>
    if c = '"' then none
    else if c = '{' then
      if depth = 0 then some .nesting
      else
        match skip rest with
        | '}' :: _ => none
        | rest => scanMembersFault digits fuel (depth - 1) rest
    else if c = '[' then
      if depth = 0 then some .nesting
      else
        match skip rest with
        | ']' :: _ => none
        | rest => scanElementsFault digits fuel (depth - 1) rest
    else
      match scanScalar (c :: rest) with
      | some (.int value, _) => intFault digits value
      | _ => none

def scanElementsFault (digits : Nat) : Nat → Nat → List Char → Option Fault
  | 0, _, _ => none
  | fuel + 1, depth, cs =>
    (scanFault digits fuel depth cs).or <|
      match scanOnce fuel cs with
      | none => none
      | some (_, rest) =>
        match skip rest with
        | ',' :: rest => scanElementsFault digits fuel depth (skip rest)
        | _ => none

def scanMembersFault (digits : Nat) : Nat → Nat → List Char → Option Fault
  | fuel + 1, depth, '"' :: cs =>
    match scanStr cs with
    | none => none
    | some (_, rest) =>
      match skip rest with
      | ':' :: rest =>
        (scanFault digits fuel depth (skip rest)).or <|
          match scanOnce fuel (skip rest) with
          | none => none
          | some (_, rest) =>
            match skip rest with
            | ',' :: rest => scanMembersFault digits fuel depth (skip rest)
            | _ => none
      | _ => none
  | _, _, _ => none

end

/-- The limit that `json.loads` meets. -/
def loadsFault (limits : Limits) (cs : List Char) : Option Fault :=
  if cs.head? = some '\uFEFF' then none
  else scanFault limits.digits (2 * cs.length + 1) limits.nesting (skip cs)

/-! ### Reading what was written -/

section
variable {digits fuel depth : Nat}

theorem scanFault_intStr (value : Int) {rest : List Char} (h : Ends rest) :
    scanFault digits (fuel + 1) depth (Decimal.intStr value ++ rest) = intFault digits value := by
  have hscan := scanScalar_intStr value h
  obtain ⟨n, sign, hsign, hstr⟩ := intStr_eq value
  obtain ⟨d, ds, hds, hd⟩ := toDigits_cons n
  rw [hstr, hds] at hscan ⊢
  rcases hsign with rfl | rfl
  · rw [List.cons_append, List.cons_append] at hscan ⊢
    rw [scanFault, if_neg (by decide), if_neg (by decide), if_neg (by decide), hscan]
  · rw [List.nil_append, List.cons_append] at hscan ⊢
    rw [scanFault, if_neg (digit_ne hd rfl), if_neg (digit_ne hd rfl), if_neg (digit_ne hd rfl),
      hscan]

theorem scanFault_arr {blanks cs : List Char} (hblanks : ∀ c ∈ blanks, isWhitespace c = true)
    (h : Begins cs) :
    scanFault digits (fuel + 1) depth ('[' :: (blanks ++ cs)) =
      if depth = 0 then some .nesting else scanElementsFault digits fuel (depth - 1) cs := by
  rw [scanFault, if_neg (by decide), if_neg (by decide), if_pos rfl, h.skip_blanks hblanks]
  split
  · rfl
  · split
    · exact absurd rfl (h.ne (by decide) _)
    · rfl

theorem scanFault_obj {blanks cs : List Char} (hblanks : ∀ c ∈ blanks, isWhitespace c = true)
    (h : Begins cs) :
    scanFault digits (fuel + 1) depth ('{' :: (blanks ++ cs)) =
      if depth = 0 then some .nesting else scanMembersFault digits fuel (depth - 1) cs := by
  rw [scanFault, if_neg (by decide), if_pos rfl, h.skip_blanks hblanks]
  split
  · rfl
  · split
    · exact absurd rfl (h.ne (by decide) _)
    · rfl

theorem scanElementsFault_last {cs after rest : List Char} {value : Json}
    (h : scanOnce fuel cs = some (value, after)) (hafter : skip after = ']' :: rest) :
    scanElementsFault digits (fuel + 1) depth cs = scanFault digits fuel depth cs := by
  rw [scanElementsFault, h]
  simp only [hafter]
  exact Option.or_none

theorem scanElementsFault_comma {cs after rest : List Char} {value : Json}
    (h : scanOnce fuel cs = some (value, after)) (hafter : skip after = ',' :: rest) :
    scanElementsFault digits (fuel + 1) depth cs =
      (scanFault digits fuel depth cs).or (scanElementsFault digits fuel depth (skip rest)) := by
  rw [scanElementsFault, h]
  simp only [hafter]

theorem scanMembersFault_last {cs colon cs' after rest : List Char} {key : CodePoints}
    {value : Json} (hkey : scanStr cs = some (key, colon)) (hcolon : skip colon = ':' :: cs')
    (h : scanOnce fuel (skip cs') = some (value, after)) (hafter : skip after = '}' :: rest) :
    scanMembersFault digits (fuel + 1) depth ('"' :: cs) =
      scanFault digits fuel depth (skip cs') := by
  rw [scanMembersFault, hkey]
  simp only [hcolon, h, hafter]
  exact Option.or_none

theorem scanMembersFault_comma {cs colon cs' after rest : List Char} {key : CodePoints}
    {value : Json} (hkey : scanStr cs = some (key, colon)) (hcolon : skip colon = ':' :: cs')
    (h : scanOnce fuel (skip cs') = some (value, after)) (hafter : skip after = ',' :: rest) :
    scanMembersFault digits (fuel + 1) depth ('"' :: cs) =
      (scanFault digits fuel depth (skip cs')).or
        (scanMembersFault digits fuel depth (skip rest)) := by
  rw [scanMembersFault, hkey]
  simp only [hcolon, h, hafter]

end

mutual

/-- Reading what was written for a value meets the limits that the value meets. -/
theorem scanFault_write (style : Style) (digits : Nat) : ∀ (v : Json) (d fuel depth : Nat)
    (rest : List Char), v.Plain style → Ends rest → 2 * (write style d v).length ≤ fuel + 1 →
    scanFault digits (fuel + 1) depth (write style d v ++ rest) = v.dumpsFault digits depth
  | .null, d, fuel, depth, rest, _, _, _ => by
    rw [dumpsFault]
    rfl
  | .bool true, d, fuel, depth, rest, _, _, _ => by
    rw [dumpsFault]
    rfl
  | .bool false, d, fuel, depth, rest, _, _, _ => by
    rw [dumpsFault]
    rfl
  | .int value, d, fuel, depth, rest, _, hrest, _ => by
    rw [dumpsFault, write]
    exact scanFault_intStr value hrest
  | .float literal, d, fuel, depth, rest, h, _, _ => by
    rw [Plain] at h
    exact h.elim
  | .str value, d, fuel, depth, rest, h, _, _ => by
    rw [dumpsFault, write, quote, List.cons_append, scanFault, if_pos rfl]
  | .arr [], d, fuel, depth, rest, _, _, _ => by
    rw [dumpsFault, elementsFault]
    rfl
  | .arr (value :: values), d, fuel, depth, rest, h, _, hfuel => by
    rw [Plain] at h
    rw [write, List.length_cons, List.length_append] at hfuel
    have hscan := scanElementsFault_write style digits (value :: values) d fuel (depth - 1) rest
      (by simp) h (by omega)
    rw [PlainElements] at h
    rw [dumpsFault, write, List.cons_append, List.append_assoc,
      scanFault_arr (style.blank_before (d + 1)) ((begins_writeElements h.1 d values).append rest),
      hscan]
  | .obj [], d, fuel, depth, rest, _, _, _ => by
    rw [dumpsFault, membersFault]
    rfl
  | .obj (member :: members), d, fuel, depth, rest, h, _, hfuel => by
    rw [Plain] at h
    rw [write, List.length_cons, List.length_append] at hfuel
    have hscan := scanMembersFault_write style digits (member :: members) d fuel (depth - 1) rest
      (by simp) h.2 (by omega)
    rw [dumpsFault, write, List.cons_append, List.append_assoc,
      scanFault_obj (style.blank_before (d + 1))
        ((begins_writeMembers style d member members).append rest), hscan]

theorem scanElementsFault_write (style : Style) (digits : Nat) : ∀ (values : List Json)
    (d fuel depth : Nat) (rest : List Char), values ≠ [] → PlainElements style values →
    2 * (writeElements style d values).length ≤ fuel →
    scanElementsFault digits fuel depth (writeElements style d values ++ rest) =
      elementsFault digits depth values
  | [], d, fuel, depth, rest, hne, _, _ => absurd rfl hne
  | [value], d, fuel, depth, rest, _, h, hfuel => by
    rw [PlainElements] at h
    rw [writeElements] at hfuel ⊢
    simp only [List.length_append, List.length_singleton] at hfuel
    obtain ⟨fuel, rfl⟩ : ∃ k, fuel = k + 2 := ⟨fuel - 2, by omega⟩
    have hblank := style.blank_before d
    have hends : Ends (style.before d ++ ']' :: rest) := (ends_cons (by decide) rest).blanks hblank
    have hvalue := scanOnce_write style value (d + 1) fuel _ h.1 hends (by omega)
    have hfault := scanFault_write style digits value (d + 1) fuel depth _ h.1 hends (by omega)
    rw [List.append_assoc, List.append_assoc, elementsFault, elementsFault, Option.or_none]
    exact (scanElementsFault_last hvalue (skip_blanks hblank _)).trans hfault
  | value :: next :: values, d, fuel, depth, rest, _, h, hfuel => by
    rw [PlainElements] at h
    rw [writeElements] at hfuel ⊢
    simp only [List.length_append, List.length_cons] at hfuel
    obtain ⟨fuel, rfl⟩ : ∃ k, fuel = k + 2 := ⟨fuel - 2, by omega⟩
    have hnext := h.2
    rw [PlainElements] at hnext
    have hbegins := (begins_writeElements hnext.1 d values).append rest
    have hskip := hbegins.skip_blanks (style.blank_between (d + 1))
    have hends := ends_cons (c := ',') (by decide)
      (style.between (d + 1) ++ (writeElements style d (next :: values) ++ rest))
    have hvalue := scanOnce_write style value (d + 1) fuel _ h.1 hends (by omega)
    have hfault := scanFault_write style digits value (d + 1) fuel depth _ h.1 hends (by omega)
    have hfaults := scanElementsFault_write style digits (next :: values) d (fuel + 1) depth rest
      (by simp) h.2 (by omega)
    rw [List.append_assoc, List.cons_append, List.append_assoc, scanElementsFault_comma hvalue rfl,
      hskip, hfault, hfaults]
    conv_rhs => rw [elementsFault]

theorem scanMembersFault_write (style : Style) (digits : Nat) :
    ∀ (members : List (CodePoints × Json)) (d fuel depth : Nat) (rest : List Char),
    members ≠ [] → PlainMembers style members → 2 * (writeMembers style d members).length ≤ fuel →
    scanMembersFault digits fuel depth (writeMembers style d members ++ rest) =
      membersFault digits depth members
  | [], d, fuel, depth, rest, hne, _, _ => absurd rfl hne
  | [(key, value)], d, fuel, depth, rest, _, h, hfuel => by
    rw [PlainMembers] at h
    rw [writeMembers] at hfuel ⊢
    simp only [List.length_append, List.length_cons, List.length_nil] at hfuel
    obtain ⟨fuel, rfl⟩ : ∃ k, fuel = k + 2 := ⟨fuel - 2, by omega⟩
    have hblank := style.blank_before d
    have hends : Ends (style.before d ++ '}' :: rest) := (ends_cons (by decide) rest).blanks hblank
    have hvalue := scanOnce_write style value (d + 1) fuel _ h.2.1 hends (by omega)
    have hfault := scanFault_write style digits value (d + 1) fuel depth _ h.2.1 hends (by omega)
    have hskip := ((begins_write h.2.1 (d + 1)).append
      (style.before d ++ '}' :: rest)).skip_blanks style.blank_colon
    have hkey := style.scanStr_escape key h.1
      (':' :: (style.colon ++ (write style (d + 1) value ++ (style.before d ++ '}' :: rest))))
    unfold quote
    simp only [List.cons_append, List.append_assoc, List.nil_append]
    rw [scanMembersFault_last hkey rfl (by rwa [hskip]) (skip_blanks hblank _), hskip, hfault,
      membersFault, membersFault, Option.or_none]
  | (key, value) :: next :: members, d, fuel, depth, rest, _, h, hfuel => by
    rw [PlainMembers] at h
    rw [writeMembers] at hfuel ⊢
    simp only [List.length_append, List.length_cons] at hfuel
    obtain ⟨fuel, rfl⟩ : ∃ k, fuel = k + 2 := ⟨fuel - 2, by omega⟩
    have hfaults := scanMembersFault_write style digits (next :: members) d (fuel + 1) depth rest
      (by simp) h.2.2 (by omega)
    have hnext := ((begins_writeMembers style d next members).append rest).skip_blanks
      (style.blank_between (d + 1))
    have hends := ends_cons (c := ',') (by decide)
      (style.between (d + 1) ++ (writeMembers style d (next :: members) ++ rest))
    have hvalue := scanOnce_write style value (d + 1) fuel _ h.2.1 hends (by omega)
    have hfault := scanFault_write style digits value (d + 1) fuel depth _ h.2.1 hends (by omega)
    have hskip := ((begins_write h.2.1 (d + 1)).append
      (',' :: (style.between (d + 1) ++
        (writeMembers style d (next :: members) ++ rest)))).skip_blanks style.blank_colon
    have hkey := style.scanStr_escape key h.1
      (':' :: (style.colon ++ (write style (d + 1) value ++
        (',' :: (style.between (d + 1) ++ (writeMembers style d (next :: members) ++ rest))))))
    unfold quote
    simp only [List.cons_append, List.append_assoc, List.nil_append]
    rw [scanMembersFault_comma hkey rfl (by rwa [hskip]) rfl, hskip, hfault, hnext, hfaults]
    conv_rhs => rw [membersFault]

end

/-- **A text that was written meets the limits that its value meets.** -/
theorem loadsFault_write {style : Style} {v : Json} (limits : Limits) (h : v.Plain style) :
    loadsFault limits (write style 0 v) = v.dumpsFault limits.digits limits.nesting := by
  have hscan := scanFault_write style limits.digits v 0 (2 * (write style 0 v).length)
    limits.nesting [] h (by rintro c ⟨⟩) (by omega)
  have hbegins := begins_write h 0
  have hhead : (write style 0 v).head? ≠ some '\uFEFF' := by
    intro heq
    obtain ⟨rest, hrest⟩ := List.head?_eq_some_iff.1 heq
    exact hbegins.ne (by decide) rest hrest
  rw [List.append_nil] at hscan
  unfold loadsFault
  rw [if_neg hhead, hbegins.skip, hscan]

end Json
