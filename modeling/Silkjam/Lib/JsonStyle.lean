import Silkjam.Lib.Json

/-!
# Writing JSON

A `Style` says how strings are written and which blanks stand where. What is written in a style is
read again (`loads_write`), if the style can write the strings and the keys of an object differ
(`Style.Plain`). There are those of Python's `json.dumps`, which writes ASCII only, and what is
beyond the Basic Multilingual Plane as a pair of escaped surrogates, and of writers that leave all
but control characters as they are, in one line or indented. The first can write any string in which
no high surrogate stands before a low one, the others any text.
-/

namespace Json

/-- The code points of a text. -/
def ofChars (text : List Char) : CodePoints :=
  text.map Char.toNat

/-- A key. -/
def key (name : String) : CodePoints :=
  ofChars name.toList

/-! ### Writing strings -/

def hexDigit (d : Nat) : Char :=
  if d < 10 then Char.ofNat (48 + d) else Char.ofNat (87 + d)

/-- A code unit as an escape with four digits. -/
def escapeUnit (n : Nat) : List Char :=
  ['\\', 'u', hexDigit (n / 4096 % 16), hexDigit (n / 256 % 16), hexDigit (n / 16 % 16),
    hexDigit (n % 16)]

/-- The escape of a code unit, with one letter if there is one. -/
def escape (n : Nat) : List Char :=
  match escapes.find? (·.1 = n) with
  | some (_, letter) => ['\\', letter]
  | none => escapeUnit n

/-- What is written in ASCII for a code point. -/
def escapeAscii (n : Nat) : List Char :=
  if 0x20 ≤ n ∧ n ≤ 0x7E ∧ n ≠ 0x22 ∧ n ≠ 0x5C then [Char.ofNat n]
  else if n < 0x10000 then escape n
  else escapeUnit (0xD800 + (n - 0x10000) / 0x400) ++ escapeUnit (0xDC00 + (n - 0x10000) % 0x400)

/-- What is written for a code point where only what has to be is escaped. -/
def escapeRaw (n : Nat) : List Char :=
  if n < 0x20 ∨ n = 0x22 ∨ n = 0x5C then escape n else [Char.ofNat n]

/-- A string literal. -/
def quote (escape : Nat → List Char) (s : CodePoints) : List Char :=
  '"' :: (s.flatMap escape ++ ['"'])

/-! ### Reading what was written for a string -/

theorem hexValue?_hexDigit {d : Nat} (h : d < 16) : hexValue? (hexDigit d) = some d := by
  have hdigits : ∀ d < 16, hexValue? (hexDigit d) = some d := by
    decide
  exact hdigits d h

theorem hexUnit?_hexDigit {n : Nat} (h : n < 0x10000) :
    hexUnit? (hexDigit (n / 4096 % 16)) (hexDigit (n / 256 % 16)) (hexDigit (n / 16 % 16))
      (hexDigit (n % 16)) = some n := by
  have hdigit (m : Nat) : hexValue? (hexDigit (m % 16)) = some (m % 16) :=
    hexValue?_hexDigit (Nat.mod_lt m (by decide))
  have hn : (((n / 4096 % 16) * 16 + n / 256 % 16) * 16 + n / 16 % 16) * 16 + n % 16 = n := by
    omega
  unfold hexUnit?
  rw [hdigit, hdigit, hdigit, hdigit]
  exact congrArg some hn

theorem scanUnits_escapeUnit {n : Nat} (h : n < 0x10000) (rest : List Char) :
    scanUnits (escapeUnit n ++ rest) =
      (scanUnits rest).map fun (units, rest) => (n :: units, rest) := by
  unfold escapeUnit
  simp only [List.cons_append, List.nil_append]
  rw [scanUnits, hexUnit?_hexDigit h]
  cases scanUnits rest with
  | none => rfl
  | some found => rfl

/-- A code point in UTF-16. -/
def unitsOf (n : Nat) : CodePoints :=
  if n < 0x10000 then [n]
  else [0xD800 + (n - 0x10000) / 0x400, 0xDC00 + (n - 0x10000) % 0x400]

theorem scanUnits_plain {c : Char} (hquote : c ≠ '"') (hescape : c ≠ '\\') (rest : List Char) :
    scanUnits (c :: rest) = if c.toNat < 0x20 then none
      else (scanUnits rest).map fun (units, rest) => (c.toNat :: units, rest) := by
  rw [scanUnits]
  · exact fun h => hquote h
  · intro a b c d rest' h
    exact absurd h hescape
  · intro letter rest' h
    exact absurd h hescape

theorem scanUnits_letter {n : Nat} {letter : Char} (h : (n, letter) ∈ escapes)
    (rest : List Char) :
    scanUnits ('\\' :: letter :: rest) =
      (scanUnits rest).map fun (units, rest) => (n :: units, rest) := by
  have hfind : ∀ e ∈ escapes, e.2 ≠ 'u' ∧ escapes.find? (·.2 = e.2) = some e := by
    decide
  obtain ⟨hu, hfind⟩ := hfind _ h
  rw [scanUnits]
  · dsimp only at hfind
    rw [hfind]
    cases scanUnits rest with
    | none => rfl
    | some found => rfl
  · intro a b c d rest' h
    exact absurd h hu

theorem scanUnits_escape {n : Nat} (h : n < 0x10000) (rest : List Char) :
    scanUnits (escape n ++ rest) =
      (scanUnits rest).map fun (units, rest) => (n :: units, rest) := by
  unfold escape
  split
  · next m letter hfind =>
    obtain rfl : m = n := by simpa using List.find?_some hfind
    exact scanUnits_letter (List.mem_of_find?_eq_some hfind) rest
  · exact scanUnits_escapeUnit h rest

theorem toNat_ofNat {n : Nat} (h : n.isValidChar) : (Char.ofNat n).toNat = n := by
  unfold Char.ofNat
  rw [dif_pos h]
  rfl

theorem scanUnits_char {n : Nat} (h : n.isValidChar) (hprint : 0x20 ≤ n) (hquote : n ≠ 0x22)
    (hescape : n ≠ 0x5C) (rest : List Char) :
    scanUnits (Char.ofNat n :: rest) =
      (scanUnits rest).map fun (units, rest) => (n :: units, rest) := by
  have hchar := toNat_ofNat h
  have hne {m : Nat} (hm : n ≠ m) {c : Char} (hc : c.toNat = m) : Char.ofNat n ≠ c := by
    intro heq
    exact hm (by rw [← hchar, heq, hc])
  rw [scanUnits_plain (hne hquote rfl) (hne hescape rfl), hchar, if_neg (by omega)]

theorem scanUnits_escapeAscii {n : Nat} (h : n < 0x110000) (rest : List Char) :
    scanUnits (escapeAscii n ++ rest) =
      (scanUnits rest).map fun (units, rest) => (unitsOf n ++ units, rest) := by
  unfold escapeAscii unitsOf
  split
  · next hplain =>
    rw [List.singleton_append, scanUnits_char (by unfold Nat.isValidChar; omega) hplain.1
      hplain.2.2.1 hplain.2.2.2, if_pos (by omega)]
    rfl
  · split
    · next hlt =>
      rw [scanUnits_escape hlt]
      rfl
    · rw [List.append_assoc, scanUnits_escapeUnit (by omega), scanUnits_escapeUnit (by omega),
        Option.map_map]
      rfl

theorem scanUnits_ascii {s : CodePoints} (h : ∀ n ∈ s, n < 0x110000) (rest : List Char) :
    scanUnits (s.flatMap escapeAscii ++ '"' :: rest) = some (s.flatMap unitsOf, rest) := by
  induction s with
  | nil =>
    rw [List.flatMap_nil, List.nil_append, scanUnits]
    rfl
  | cons n s ih =>
    rw [List.forall_mem_cons] at h
    rw [List.flatMap_cons, List.append_assoc, scanUnits_escapeAscii h.1, ih h.2, List.flatMap_cons]
    rfl

theorem scanUnits_escapeRaw {n : Nat} (h : n.isValidChar) (rest : List Char) :
    scanUnits (escapeRaw n ++ rest) =
      (scanUnits rest).map fun (units, rest) => (n :: units, rest) := by
  unfold escapeRaw
  split
  · exact scanUnits_escape (by omega) rest
  · rw [List.singleton_append, scanUnits_char h (by omega) (by omega) (by omega)]

theorem scanUnits_raw {s : CodePoints} (h : ∀ n ∈ s, n.isValidChar) (rest : List Char) :
    scanUnits (s.flatMap escapeRaw ++ '"' :: rest) = some (s, rest) := by
  induction s with
  | nil => rw [List.flatMap_nil, List.nil_append, scanUnits]
  | cons n s ih =>
    rw [List.forall_mem_cons] at h
    rw [List.flatMap_cons, List.append_assoc, scanUnits_escapeRaw h.1, ih h.2]
    rfl

/-- No high surrogate stands before a low one, and every code point is one. -/
structure PlainStr (s : CodePoints) : Prop where
  lt : ∀ n ∈ s, n < 0x110000
  unpaired : s.IsChain fun u v => ¬ (isHigh u ∧ isLow v)

theorem PlainStr.tail {n : Nat} {s : CodePoints} (h : PlainStr (n :: s)) : PlainStr s :=
  ⟨fun m hm => h.lt m (by simp [hm]), h.unpaired.tail⟩

theorem joinSurrogates_cons {n : Nat} {units : CodePoints}
    (h : ∀ v ∈ units.head?, ¬ (isHigh n ∧ isLow v)) :
    joinSurrogates (n :: units) = n :: joinSurrogates units := by
  cases units with
  | nil =>
    rw [joinSurrogates, joinSurrogates]
    · simp
    · simp
  | cons v units =>
    rw [joinSurrogates, if_neg (h v rfl)]

theorem joinSurrogates_units {s : CodePoints} (h : PlainStr s) :
    joinSurrogates (s.flatMap unitsOf) = s := by
  induction s with
  | nil =>
    rw [List.flatMap_nil, joinSurrogates]
    simp
  | cons n s ih =>
    have hn : n < 0x110000 := h.lt n (by simp)
    rw [List.flatMap_cons]
    by_cases hlt : n < 0x10000
    · have hunits : unitsOf n = [n] := if_pos hlt
      rw [hunits, List.singleton_append, joinSurrogates_cons, ih h.tail]
      intro v hv hpair
      cases s with
      | nil => cases hv
      | cons m s =>
        unfold isHigh isLow at hpair
        rw [List.flatMap_cons] at hv
        by_cases hm : m < 0x10000
        · have hunits : unitsOf m = [m] := if_pos hm
          rw [hunits] at hv
          obtain rfl : m = v := by simpa using hv
          exact (List.isChain_cons_cons.1 h.unpaired).1 hpair
        · have hunits : unitsOf m = [0xD800 + (m - 0x10000) / 0x400,
              0xDC00 + (m - 0x10000) % 0x400] := if_neg hm
          have hm' : m < 0x110000 := h.lt m (by simp)
          rw [hunits] at hv
          obtain rfl : 0xD800 + (m - 0x10000) / 0x400 = v := by simpa using hv
          omega
    · have hunits : unitsOf n = [0xD800 + (n - 0x10000) / 0x400,
          0xDC00 + (n - 0x10000) % 0x400] := if_neg hlt
      have hpair : isHigh (0xD800 + (n - 0x10000) / 0x400) ∧
          isLow (0xDC00 + (n - 0x10000) % 0x400) := by
        unfold isHigh isLow
        omega
      have hjoined : 0x10000 + (0xD800 + (n - 0x10000) / 0x400 - 0xD800) * 0x400 +
          (0xDC00 + (n - 0x10000) % 0x400 - 0xDC00) = n := by
        omega
      rw [hunits, List.cons_append, List.singleton_append, joinSurrogates, if_pos hpair, hjoined,
        ih h.tail]

theorem scanStr_ascii {s : CodePoints} (h : PlainStr s) (rest : List Char) :
    scanStr (s.flatMap escapeAscii ++ '"' :: rest) = some (s, rest) := by
  unfold scanStr
  rw [scanUnits_ascii h.lt, Option.map_some]
  dsimp only
  rw [joinSurrogates_units h]

theorem joinSurrogates_text {s : CodePoints} (h : ∀ n ∈ s, n.isValidChar) :
    joinSurrogates s = s := by
  induction s with
  | nil =>
    rw [joinSurrogates]
    simp
  | cons n s ih =>
    rw [List.forall_mem_cons] at h
    rw [joinSurrogates_cons, ih h.2]
    rintro v - ⟨hhigh, -⟩
    have hvalid := h.1
    unfold isHigh at hhigh
    unfold Nat.isValidChar at hvalid
    omega

theorem scanStr_raw {s : CodePoints} (h : ∀ n ∈ s, n.isValidChar) (rest : List Char) :
    scanStr (s.flatMap escapeRaw ++ '"' :: rest) = some (s, rest) := by
  unfold scanStr
  rw [scanUnits_raw h, Option.map_some]
  dsimp only
  rw [joinSurrogates_text h]

theorem valid_text (text : List Char) : ∀ n ∈ ofChars text, n.isValidChar := by
  intro n hn
  obtain ⟨c, -, rfl⟩ := List.mem_map.1 hn
  exact c.valid

theorem plainStr_text (text : List Char) : PlainStr (ofChars text) where
  lt := by
    intro n hn
    obtain ⟨c, -, rfl⟩ := List.mem_map.1 hn
    have hc : c.toNat < 0xD800 ∨ 0xDFFF < c.toNat ∧ c.toNat < 0x110000 := c.valid
    omega
  unpaired := by
    induction text with
    | nil => exact List.isChain_nil
    | cons c text ih =>
      cases text with
      | nil => exact List.isChain_singleton _
      | cons d text =>
        refine List.isChain_cons_cons.2 ⟨?_, ih⟩
        have hc : c.toNat < 0xD800 ∨ 0xDFFF < c.toNat ∧ c.toNat < 0x110000 := c.valid
        unfold isHigh
        omega

/-! ### Numbers -/

/-- What can follow a value inside of another. -/
def Ends (rest : List Char) : Prop :=
  ∀ c ∈ rest.head?, c ∈ [',', ']', '}', ' ', '\t', '\n', '\r']

theorem Ends.not_digit {rest : List Char} (h : Ends rest) {c : Char} (hc : c ∈ rest.head?) :
    c.isDigit = false := by
  have hends : ∀ c ∈ [',', ']', '}', ' ', '\t', '\n', '\r'], c.isDigit = false := by
    simp only [List.forall_mem_cons]
    exact ⟨rfl, rfl, rfl, rfl, rfl, rfl, rfl, List.forall_mem_nil _⟩
  exact hends c (h c hc)

theorem span_digits {digits rest : List Char} (hdigits : ∀ c ∈ digits, c.isDigit = true)
    (h : Ends rest) : (digits ++ rest).span Char.isDigit = (digits, rest) := by
  have hrest : rest.takeWhile Char.isDigit = [] ∧ rest.dropWhile Char.isDigit = rest := by
    cases rest with
    | nil => exact ⟨rfl, rfl⟩
    | cons c rest =>
      have hc : ¬ c.isDigit = true := by
        rw [h.not_digit rfl]
        decide
      exact ⟨List.takeWhile_cons_of_neg hc, List.dropWhile_cons_of_neg hc⟩
  rw [List.span_eq_takeWhile_dropWhile, List.takeWhile_append_of_pos hdigits,
    List.dropWhile_append_of_pos hdigits, hrest.1, hrest.2, List.append_nil]

theorem fracPart_ends {rest : List Char} (h : Ends rest) : fracPart rest = ([], rest) := by
  unfold fracPart
  split
  · next d rest' => exact absurd (h '.' rfl) (by decide)
  · rfl

theorem expPart_ends {rest : List Char} (h : Ends rest) : expPart rest = ([], rest) := by
  unfold expPart
  split
  · rfl
  · next e rest' =>
    refine if_neg ?_
    rintro (rfl | rfl)
    · exact absurd (h 'e' rfl) (by decide)
    · exact absurd (h 'E' rfl) (by decide)

theorem head?_toDigits {n : Nat} (h : 0 < n) : (Nat.toDigits 10 n).head? ≠ some '0' := by
  induction n using Nat.strongRecOn with
  | ind n ih =>
    by_cases hlt : n < 10
    · have hdigits : ∀ m < 10, 0 < m → Nat.digitChar m ≠ '0' := by
        decide
      rw [Nat.toDigits_of_lt_base hlt, List.head?_cons]
      intro heq
      exact hdigits n hlt h (Option.some.inj heq)
    · obtain ⟨d, ds, hds⟩ :=
        List.exists_cons_of_ne_nil (Nat.toDigits_ne_nil (n := n / 10) (b := 10))
      have hhead := ih (n / 10) (by omega) (by omega)
      rw [hds] at hhead
      rw [Nat.toDigits_of_base_le (by decide) (by omega), hds]
      exact hhead

theorem intPart_toDigits (n : Nat) {rest : List Char} (h : Ends rest) :
    intPart (Nat.toDigits 10 n ++ rest) = (Nat.toDigits 10 n, rest) := by
  rcases Nat.eq_zero_or_pos n with rfl | hpos
  · rw [Nat.toDigits_zero]
    rfl
  · have hhead := head?_toDigits hpos
    unfold intPart
    split
    · next rest' hcs =>
      obtain ⟨d, ds, hds⟩ := List.exists_cons_of_ne_nil (Nat.toDigits_ne_nil (n := n) (b := 10))
      rw [hds] at hcs hhead
      rw [List.cons_append, List.cons.injEq] at hcs
      exact absurd (congrArg some hcs.1) hhead
    · exact span_digits (fun c hc => Decimal.isDigit_toDigits hc) h

/-- An integer is written in digits, behind a sign if it is negative. -/
theorem intStr_eq (value : Int) :
    ∃ (n : Nat) (sign : List Char), (sign = ['-'] ∨ sign = []) ∧
      Decimal.intStr value = sign ++ Nat.toDigits 10 n := by
  refine ⟨value.natAbs, if value < 0 then ['-'] else [], ?_, ?_⟩
  · split
    · exact .inl rfl
    · exact .inr rfl
  · unfold Decimal.intStr
    split
    · rfl
    · rfl

theorem digit_ne {c d : Char} (h : d.isDigit = true) (hc : c.isDigit = false) : d ≠ c := by
  rintro rfl
  rw [h] at hc
  cases hc

theorem toDigits_cons (n : Nat) :
    ∃ d ds, Nat.toDigits 10 n = d :: ds ∧ d.isDigit = true := by
  obtain ⟨d, ds, hds⟩ := List.exists_cons_of_ne_nil (Nat.toDigits_ne_nil (n := n) (b := 10))
  exact ⟨d, ds, hds, Decimal.isDigit_toDigits (n := n) (by simp [hds])⟩

theorem scanNumber_digits {n : Nat} {sign rest : List Char} (hsign : sign = ['-'] ∨ sign = [])
    (h : Ends rest) :
    scanNumber (sign ++ Nat.toDigits 10 n ++ rest) =
      (Decimal.int? (sign ++ Nat.toDigits 10 n)).map fun value => (.int value, rest) := by
  have hsplit : numberSign (sign ++ Nat.toDigits 10 n ++ rest) =
      (sign, Nat.toDigits 10 n ++ rest) := by
    rcases hsign with rfl | rfl
    · rfl
    · obtain ⟨d, ds, hds, hd⟩ := toDigits_cons n
      rw [hds, List.nil_append, List.cons_append]
      unfold numberSign
      split
      · next rest' hcs =>
        exact absurd (List.cons.inj hcs).1 (digit_ne hd rfl)
      · rfl
  unfold scanNumber
  rw [hsplit]
  dsimp only
  rw [intPart_toDigits n h]
  dsimp only
  rw [if_neg Nat.toDigits_ne_nil, fracPart_ends h]
  dsimp only
  rw [expPart_ends h]
  exact if_pos ⟨rfl, rfl⟩

theorem findSome?_words {d : Char} {sign : List Char} (hd : d.isDigit = true)
    (hsign : sign = ['-'] ∨ sign = []) (rest : List Char) :
    words.findSome? (fun (word, value) =>
      (word.isPrefixOf? (sign ++ d :: rest)).map (value, ·)) = none := by
  have hne {c : Char} (hc : c.isDigit = false) : c ≠ d := (digit_ne hd hc).symm
  rcases hsign with rfl | rfl
  · simp [words, List.isPrefixOf?, hne (c := 'I') rfl]
  · simp [words, List.isPrefixOf?, hne (c := 'n') rfl, hne (c := 't') rfl, hne (c := 'f') rfl,
      hne (c := 'N') rfl, hne (c := 'I') rfl, hne (c := '-') rfl]

theorem scanScalar_intStr (value : Int) {rest : List Char} (h : Ends rest) :
    scanScalar (Decimal.intStr value ++ rest) = some (.int value, rest) := by
  have hread := Decimal.int?_intStr value
  obtain ⟨n, sign, hsign, hstr⟩ := intStr_eq value
  rw [hstr] at hread ⊢
  obtain ⟨d, ds, hds, hd⟩ := toDigits_cons n
  have hword := findSome?_words hd hsign (ds ++ rest)
  have hnumber := scanNumber_digits (n := n) hsign h
  rw [hread] at hnumber
  unfold scanScalar
  rw [hds] at hnumber ⊢
  rw [List.append_assoc, List.cons_append] at hnumber ⊢
  rw [hword]
  exact hnumber

/-! ### Styles -/

/-- How JSON is written. -/
structure Style where
  /-- what is written between the quotes for a code point -/
  escape : Nat → List Char
  /-- the strings that can be written -/
  Writes : CodePoints → Prop
  /-- the blanks before the first element, at a depth, and before the closing bracket -/
  before : Nat → List Char
  /-- the blanks after a comma -/
  between : Nat → List Char
  /-- the blanks after a colon -/
  colon : List Char
  writes_text : ∀ text, Writes (ofChars text)
  scanStr_escape : ∀ s, Writes s → ∀ rest,
    scanStr (s.flatMap escape ++ '"' :: rest) = some (s, rest)
  blank_before : ∀ d, ∀ c ∈ before d, isWhitespace c = true
  blank_between : ∀ d, ∀ c ∈ between d, isWhitespace c = true
  blank_colon : ∀ c ∈ colon, isWhitespace c = true

/-- `json.dumps(...)` -/
def Style.python : Style where
  escape := escapeAscii
  Writes := PlainStr
  before _ := []
  between _ := [' ']
  colon := [' ']
  writes_text := plainStr_text
  scanStr_escape _ h := scanStr_ascii h
  blank_before _ := List.forall_mem_nil _
  blank_between := by simp [isWhitespace]
  blank_colon := by simp [isWhitespace]

/-- In one line, without blanks. -/
def Style.compact : Style where
  escape := escapeRaw
  Writes s := ∀ n ∈ s, n.isValidChar
  before _ := []
  between _ := []
  colon := []
  writes_text := valid_text
  scanStr_escape _ h := scanStr_raw h
  blank_before _ := List.forall_mem_nil _
  blank_between _ := List.forall_mem_nil _
  blank_colon := List.forall_mem_nil _

theorem blank_line (n : Nat) : ∀ c ∈ '\n' :: List.replicate n ' ', isWhitespace c = true := by
  intro c hc
  rcases List.mem_cons.1 hc with rfl | hc
  · rfl
  · rw [List.eq_of_mem_replicate hc]
    rfl

/-- With a line for each element, indented by a number of blanks for each level. -/
def Style.indented (indent : Nat) : Style where
  escape := escapeRaw
  Writes s := ∀ n ∈ s, n.isValidChar
  before d := '\n' :: List.replicate (indent * d) ' '
  between d := '\n' :: List.replicate (indent * d) ' '
  colon := [' ']
  writes_text := valid_text
  scanStr_escape _ h := scanStr_raw h
  blank_before _ := blank_line _
  blank_between _ := blank_line _
  blank_colon := by simp [isWhitespace]

/-! ### Writing values -/

mutual

def write (style : Style) (d : Nat) : Json → List Char
  | .null => ['n', 'u', 'l', 'l']
  | .bool true => ['t', 'r', 'u', 'e']
  | .bool false => ['f', 'a', 'l', 's', 'e']
  | .int value => Decimal.intStr value
  | .float literal => literal
  | .str value => quote style.escape value
  | .arr [] => ['[', ']']
  | .arr (value :: values) =>
    '[' :: (style.before (d + 1) ++ writeElements style d (value :: values))
  | .obj [] => ['{', '}']
  | .obj (member :: members) =>
    '{' :: (style.before (d + 1) ++ writeMembers style d (member :: members))

/-- The elements, up to the closing bracket. -/
def writeElements (style : Style) (d : Nat) : List Json → List Char
  | [] => [']']
  | [value] => write style (d + 1) value ++ (style.before d ++ [']'])
  | value :: next :: values =>
    write style (d + 1) value ++
      (',' :: (style.between (d + 1) ++ writeElements style d (next :: values)))

/-- The members, up to the closing brace. -/
def writeMembers (style : Style) (d : Nat) : List (CodePoints × Json) → List Char
  | [] => ['}']
  | [(key, value)] =>
    quote style.escape key ++
      (':' :: (style.colon ++ (write style (d + 1) value ++ (style.before d ++ ['}']))))
  | (key, value) :: next :: members =>
    quote style.escape key ++
      (':' :: (style.colon ++ (write style (d + 1) value ++
        (',' :: (style.between (d + 1) ++ writeMembers style d (next :: members))))))

end

/-- `json.dumps(value)` -/
def dumps : Json → List Char :=
  write .python 0

/-! ### Reading what was written -/

mutual

/-- The style can write the strings, the keys of an object differ, and there are no floats. -/
def Plain (style : Style) : Json → Prop
  | .null => True
  | .bool _ => True
  | .int _ => True
  | .float _ => False
  | .str value => style.Writes value
  | .arr values => PlainElements style values
  | .obj members => (members.map Prod.fst).Nodup ∧ PlainMembers style members

def PlainElements (style : Style) : List Json → Prop
  | [] => True
  | value :: values => value.Plain style ∧ PlainElements style values

def PlainMembers (style : Style) : List (CodePoints × Json) → Prop
  | [] => True
  | (key, value) :: members =>
    style.Writes key ∧ value.Plain style ∧ PlainMembers style members

end

theorem asDict_of_nodup {members : List (CodePoints × Json)}
    (h : (members.map Prod.fst).Nodup) : asDict members = members :=
  Dict.items_foldl_set (d := {}) h

theorem scanOnce_intStr (value : Int) (fuel : Nat) {rest : List Char} (h : Ends rest) :
    scanOnce (fuel + 1) (Decimal.intStr value ++ rest) = some (.int value, rest) := by
  have hscan := scanScalar_intStr value h
  obtain ⟨n, sign, hsign, hstr⟩ := intStr_eq value
  obtain ⟨d, ds, hds, hd⟩ := toDigits_cons n
  rw [hstr, hds] at hscan ⊢
  rcases hsign with rfl | rfl
  · rw [List.cons_append, List.cons_append, scanOnce, if_neg (by decide), if_neg (by decide),
      if_neg (by decide)]
    exact hscan
  · rw [List.nil_append, List.cons_append] at hscan ⊢
    rw [scanOnce, if_neg (digit_ne hd rfl), if_neg (digit_ne hd rfl), if_neg (digit_ne hd rfl)]
    exact hscan

/-- The characters with which no value begins. -/
def notFirst : List Char :=
  [' ', '\t', '\n', '\r', ']', '}', '\uFEFF']

/-- `cs` begins as a value can. -/
def Begins (cs : List Char) : Prop :=
  ∃ c rest, cs = c :: rest ∧ c ∉ notFirst

theorem Begins.append {cs : List Char} (h : Begins cs) (rest : List Char) :
    Begins (cs ++ rest) := by
  obtain ⟨c, cs, rfl, hc⟩ := h
  exact ⟨c, cs ++ rest, rfl, hc⟩

theorem Begins.skip {cs : List Char} (h : Begins cs) : skip cs = cs := by
  obtain ⟨c, cs, rfl, hc⟩ := h
  simp only [notFirst, List.mem_cons, List.not_mem_nil, or_false, not_or] at hc
  exact List.dropWhile_cons_of_neg (by simp [isWhitespace, hc])

theorem Begins.ne {cs : List Char} (h : Begins cs) {c : Char} (hc : c ∈ notFirst)
    (rest : List Char) : cs ≠ c :: rest := by
  rintro rfl
  obtain ⟨d, rest', heq, hd⟩ := h
  rw [(List.cons.inj heq).1] at hc
  exact hd hc

theorem skip_blanks {blanks : List Char} (h : ∀ c ∈ blanks, isWhitespace c = true)
    (cs : List Char) : skip (blanks ++ cs) = skip cs :=
  List.dropWhile_append_of_pos h

theorem Begins.skip_blanks {blanks cs : List Char} (h : Begins cs)
    (hblanks : ∀ c ∈ blanks, isWhitespace c = true) : Json.skip (blanks ++ cs) = cs := by
  rw [Json.skip_blanks hblanks, h.skip]

theorem Ends.blanks {blanks cs : List Char} (h : Ends cs)
    (hblanks : ∀ c ∈ blanks, isWhitespace c = true) : Ends (blanks ++ cs) := by
  cases blanks with
  | nil => exact h
  | cons b blanks =>
    rintro c ⟨⟩
    have hb := hblanks b (by simp)
    simp only [isWhitespace, Bool.or_eq_true, decide_eq_true_eq] at hb
    obtain ((hb | hb) | hb) | hb := hb
    all_goals
      simp [hb]

theorem ends_cons {c : Char} (hc : c ∈ [',', ']', '}', ' ', '\t', '\n', '\r'])
    (rest : List Char) : Ends (c :: rest) := by
  rintro d ⟨⟩
  exact hc

theorem begins_write {style : Style} {v : Json} (h : v.Plain style) (d : Nat) :
    Begins (write style d v) := by
  cases v with
  | null => exact ⟨_, _, by rw [write], by decide⟩
  | bool value =>
    cases value with
    | false => exact ⟨_, _, by rw [write], by decide⟩
    | true => exact ⟨_, _, by rw [write], by decide⟩
  | int value =>
    obtain ⟨n, sign, hsign, hstr⟩ := intStr_eq value
    obtain ⟨d, ds, hds, hd⟩ := toDigits_cons n
    rw [write, hstr, hds]
    rcases hsign with rfl | rfl
    · exact ⟨'-', d :: ds, rfl, by decide⟩
    · refine ⟨d, ds, rfl, fun hmem => ?_⟩
      have hchars : ∀ c ∈ notFirst, c.isDigit = false := by
        simp only [notFirst, List.forall_mem_cons]
        exact ⟨rfl, rfl, rfl, rfl, rfl, rfl, rfl, List.forall_mem_nil _⟩
      exact digit_ne hd (hchars d hmem) rfl
  | float literal => exact absurd h (by rw [Plain]; exact not_false)
  | str value => exact ⟨_, _, by rw [write, quote], by decide⟩
  | arr values =>
    cases values with
    | nil => exact ⟨_, _, by rw [write], by decide⟩
    | cons value values => exact ⟨_, _, by rw [write], by decide⟩
  | obj members =>
    cases members with
    | nil => exact ⟨_, _, by rw [write], by decide⟩
    | cons member members => exact ⟨_, _, by rw [write], by decide⟩

theorem begins_writeElements {style : Style} {value : Json} (h : value.Plain style) (d : Nat)
    (values : List Json) : Begins (writeElements style d (value :: values)) := by
  cases values with
  | nil => exact (begins_write h (d + 1)).append _
  | cons next values => exact (begins_write h (d + 1)).append _

theorem begins_writeMembers (style : Style) (d : Nat) (member : CodePoints × Json)
    (members : List (CodePoints × Json)) :
    Begins (writeMembers style d (member :: members)) := by
  obtain ⟨key, value⟩ := member
  cases members with
  | nil => exact ⟨'"', _, rfl, by decide⟩
  | cons next members => exact ⟨'"', _, rfl, by decide⟩

theorem scanOnce_arr {blanks cs rest : List Char} {values : List Json} {fuel : Nat}
    (hblanks : ∀ c ∈ blanks, isWhitespace c = true) (h : Begins cs)
    (hscan : scanElements fuel cs = some (values, rest)) :
    scanOnce (fuel + 1) ('[' :: (blanks ++ cs)) = some (.arr values, rest) := by
  rw [scanOnce, if_neg (by decide), if_neg (by decide), if_pos rfl, h.skip_blanks hblanks]
  split
  · exact absurd rfl (h.ne (by decide) _)
  · rw [hscan]
    rfl

theorem scanOnce_obj {blanks cs rest : List Char} {members : List (CodePoints × Json)}
    {fuel : Nat} (hblanks : ∀ c ∈ blanks, isWhitespace c = true) (h : Begins cs)
    (hscan : scanMembers fuel cs = some (members, rest))
    (hnodup : (members.map Prod.fst).Nodup) :
    scanOnce (fuel + 1) ('{' :: (blanks ++ cs)) = some (.obj members, rest) := by
  rw [scanOnce, if_neg (by decide), if_pos rfl, h.skip_blanks hblanks]
  split
  · exact absurd rfl (h.ne (by decide) _)
  · rw [hscan, Option.map_some]
    dsimp only
    rw [asDict_of_nodup hnodup]

theorem scanElements_last {cs after rest : List Char} {value : Json} {fuel : Nat}
    (h : scanOnce fuel cs = some (value, after)) (hafter : skip after = ']' :: rest) :
    scanElements (fuel + 1) cs = some ([value], rest) := by
  rw [scanElements, h]
  simp only [bind, Option.bind, hafter]

theorem scanElements_comma {cs after rest rest' : List Char} {value : Json} {values : List Json}
    {fuel : Nat} (h : scanOnce fuel cs = some (value, after)) (hafter : skip after = ',' :: rest)
    (h' : scanElements fuel (skip rest) = some (values, rest')) :
    scanElements (fuel + 1) cs = some (value :: values, rest') := by
  rw [scanElements, h]
  simp only [bind, Option.bind, hafter, h']
  rfl

theorem scanMembers_last {cs colon cs' after rest : List Char} {key : CodePoints} {value : Json}
    {fuel : Nat} (hkey : scanStr cs = some (key, colon)) (hcolon : skip colon = ':' :: cs')
    (h : scanOnce fuel (skip cs') = some (value, after)) (hafter : skip after = '}' :: rest) :
    scanMembers (fuel + 1) ('"' :: cs) = some ([(key, value)], rest) := by
  rw [scanMembers, hkey]
  simp only [bind, Option.bind, hcolon, h, hafter]

theorem scanMembers_comma {cs colon cs' after rest rest' : List Char} {key : CodePoints}
    {value : Json} {members : List (CodePoints × Json)} {fuel : Nat}
    (hkey : scanStr cs = some (key, colon)) (hcolon : skip colon = ':' :: cs')
    (h : scanOnce fuel (skip cs') = some (value, after)) (hafter : skip after = ',' :: rest)
    (h' : scanMembers fuel (skip rest) = some (members, rest')) :
    scanMembers (fuel + 1) ('"' :: cs) = some ((key, value) :: members, rest') := by
  rw [scanMembers, hkey]
  simp only [bind, Option.bind, hcolon, h, hafter, h']
  rfl

mutual

/-- What is written for a value is read, whatever follows it inside of another. -/
theorem scanOnce_write (style : Style) : ∀ (v : Json) (d fuel : Nat) (rest : List Char),
    v.Plain style → Ends rest → 2 * (write style d v).length ≤ fuel + 1 →
    scanOnce (fuel + 1) (write style d v ++ rest) = some (v, rest)
  | .null, d, fuel, rest, _, _, _ => rfl
  | .bool true, d, fuel, rest, _, _, _ => rfl
  | .bool false, d, fuel, rest, _, _, _ => rfl
  | .int value, d, fuel, rest, _, hrest, _ => scanOnce_intStr value fuel hrest
  | .float literal, d, fuel, rest, h, _, _ => by
    rw [Plain] at h
    exact h.elim
  | .str value, d, fuel, rest, h, _, _ => by
    rw [Plain] at h
    rw [write, quote, List.cons_append, scanOnce, if_pos rfl, List.append_assoc,
      List.singleton_append, style.scanStr_escape value h]
    rfl
  | .arr [], d, fuel, rest, _, _, _ => rfl
  | .arr (value :: values), d, fuel, rest, h, _, hfuel => by
    rw [Plain] at h
    rw [write, List.length_cons, List.length_append] at hfuel
    have hscan := scanElements_write style (value :: values) d fuel rest (by simp) h (by omega)
    rw [PlainElements] at h
    rw [write, List.cons_append, List.append_assoc]
    exact scanOnce_arr (style.blank_before (d + 1))
      ((begins_writeElements h.1 d values).append rest) hscan
  | .obj [], d, fuel, rest, _, _, _ => rfl
  | .obj (member :: members), d, fuel, rest, h, _, hfuel => by
    rw [Plain] at h
    rw [write, List.length_cons, List.length_append] at hfuel
    have hscan := scanMembers_write style (member :: members) d fuel rest (by simp) h.2 (by omega)
    rw [write, List.cons_append, List.append_assoc]
    exact scanOnce_obj (style.blank_before (d + 1))
      ((begins_writeMembers style d member members).append rest) hscan h.1

theorem scanElements_write (style : Style) : ∀ (values : List Json) (d fuel : Nat)
    (rest : List Char), values ≠ [] → PlainElements style values →
    2 * (writeElements style d values).length ≤ fuel →
    scanElements fuel (writeElements style d values ++ rest) = some (values, rest)
  | [], d, fuel, rest, hne, _, _ => absurd rfl hne
  | [value], d, fuel, rest, _, h, hfuel => by
    rw [PlainElements] at h
    rw [writeElements] at hfuel ⊢
    simp only [List.length_append, List.length_singleton] at hfuel
    obtain ⟨fuel, rfl⟩ : ∃ k, fuel = k + 2 := ⟨fuel - 2, by omega⟩
    have hblank := style.blank_before d
    have hvalue := scanOnce_write style value (d + 1) fuel _ h.1
      ((ends_cons (c := ']') (by decide) rest).blanks hblank) (by omega)
    rw [List.append_assoc, List.append_assoc]
    exact scanElements_last hvalue (skip_blanks hblank _)
  | value :: next :: values, d, fuel, rest, _, h, hfuel => by
    rw [PlainElements] at h
    rw [writeElements] at hfuel ⊢
    simp only [List.length_append, List.length_cons] at hfuel
    obtain ⟨fuel, rfl⟩ : ∃ k, fuel = k + 2 := ⟨fuel - 2, by omega⟩
    have hnext := h.2
    rw [PlainElements] at hnext
    have hbegins := (begins_writeElements hnext.1 d values).append rest
    have hskip := hbegins.skip_blanks (style.blank_between (d + 1))
    have hvalue := scanOnce_write style value (d + 1) fuel
      (',' :: (style.between (d + 1) ++ (writeElements style d (next :: values) ++ rest))) h.1
      (ends_cons (by decide) _) (by omega)
    have hvalues := scanElements_write style (next :: values) d (fuel + 1) rest (by simp) h.2
      (by omega)
    rw [List.append_assoc, List.cons_append, List.append_assoc]
    exact scanElements_comma hvalue rfl (by rwa [hskip])

theorem scanMembers_write (style : Style) : ∀ (members : List (CodePoints × Json)) (d fuel : Nat)
    (rest : List Char), members ≠ [] → PlainMembers style members →
    2 * (writeMembers style d members).length ≤ fuel →
    scanMembers fuel (writeMembers style d members ++ rest) = some (members, rest)
  | [], d, fuel, rest, hne, _, _ => absurd rfl hne
  | [(key, value)], d, fuel, rest, _, h, hfuel => by
    rw [PlainMembers] at h
    rw [writeMembers] at hfuel ⊢
    simp only [List.length_append, List.length_cons, List.length_nil] at hfuel
    obtain ⟨fuel, rfl⟩ : ∃ k, fuel = k + 2 := ⟨fuel - 2, by omega⟩
    have hblank := style.blank_before d
    have hvalue := scanOnce_write style value (d + 1) fuel _ h.2.1
      ((ends_cons (c := '}') (by decide) rest).blanks hblank) (by omega)
    have hskip := ((begins_write h.2.1 (d + 1)).append
      (style.before d ++ '}' :: rest)).skip_blanks style.blank_colon
    have hkey := style.scanStr_escape key h.1
      (':' :: (style.colon ++ (write style (d + 1) value ++ (style.before d ++ '}' :: rest))))
    unfold quote
    simp only [List.cons_append, List.append_assoc, List.nil_append]
    exact scanMembers_last hkey rfl (by rwa [hskip]) (skip_blanks hblank _)
  | (key, value) :: next :: members, d, fuel, rest, _, h, hfuel => by
    rw [PlainMembers] at h
    rw [writeMembers] at hfuel ⊢
    simp only [List.length_append, List.length_cons] at hfuel
    obtain ⟨fuel, rfl⟩ : ∃ k, fuel = k + 2 := ⟨fuel - 2, by omega⟩
    have hmembers := scanMembers_write style (next :: members) d (fuel + 1) rest (by simp) h.2.2
      (by omega)
    have hnext := ((begins_writeMembers style d next members).append rest).skip_blanks
      (style.blank_between (d + 1))
    have hvalue := scanOnce_write style value (d + 1) fuel
      (',' :: (style.between (d + 1) ++ (writeMembers style d (next :: members) ++ rest))) h.2.1
      (ends_cons (by decide) _) (by omega)
    have hskip := ((begins_write h.2.1 (d + 1)).append
      (',' :: (style.between (d + 1) ++
        (writeMembers style d (next :: members) ++ rest)))).skip_blanks style.blank_colon
    have hkey := style.scanStr_escape key h.1
      (':' :: (style.colon ++ (write style (d + 1) value ++
        (',' :: (style.between (d + 1) ++ (writeMembers style d (next :: members) ++ rest))))))
    unfold quote
    simp only [List.cons_append, List.append_assoc, List.nil_append]
    exact scanMembers_comma hkey rfl (by rwa [hskip]) rfl (by rwa [hnext])

end

/-- **What was written is read**, in any style. -/
theorem loads_write {style : Style} {v : Json} (h : v.Plain style) :
    loads (write style 0 v) = some v := by
  have hscan := scanOnce_write style v 0 (2 * (write style 0 v).length) [] h
    (by rintro c ⟨⟩) (by omega)
  have hbegins := begins_write h 0
  have hhead : (write style 0 v).head? ≠ some '\uFEFF' := by
    intro heq
    obtain ⟨rest, hrest⟩ := List.head?_eq_some_iff.1 heq
    exact hbegins.ne (by decide) rest hrest
  rw [List.append_nil] at hscan
  unfold loads
  rw [if_neg hhead, hbegins.skip, hscan]
  rfl

/-! ### The characters of what was written -/

/-- A set of characters that has the printable ones and all that the style writes. -/
structure Style.Within (style : Style) (P : Char → Prop) : Prop where
  printable : ∀ c, 0x20 ≤ c.toNat ∧ c.toNat ≤ 0x7E → P c
  escape : ∀ n, ∀ c ∈ style.escape n, P c
  before : ∀ d, ∀ c ∈ style.before d, P c
  between : ∀ d, ∀ c ∈ style.between d, P c
  colon : ∀ c ∈ style.colon, P c

section
variable {style : Style} {P : Char → Prop}

theorem Style.Within.cons (h : style.Within P) {c : Char} {cs : List Char}
    (hc : 0x20 ≤ c.toNat ∧ c.toNat ≤ 0x7E) (hcs : ∀ c ∈ cs, P c) : ∀ d ∈ c :: cs, P d :=
  List.forall_mem_cons.2 ⟨h.printable c hc, hcs⟩

theorem Style.Within.word (h : style.Within P) {cs : List Char}
    (hcs : (cs.all fun c => 0x20 ≤ c.toNat && c.toNat ≤ 0x7E) = true) : ∀ c ∈ cs, P c := by
  intro c hc
  have hprintable := List.all_eq_true.1 hcs c hc
  rw [Bool.and_eq_true, decide_eq_true_eq, decide_eq_true_eq] at hprintable
  exact h.printable c hprintable

theorem forall_mem_append {cs cs' : List Char} (h : ∀ c ∈ cs, P c) (h' : ∀ c ∈ cs', P c) :
    ∀ c ∈ cs ++ cs', P c :=
  List.forall_mem_append.2 ⟨h, h'⟩

theorem Style.Within.quote (h : style.Within P) (s : CodePoints) :
    ∀ c ∈ quote style.escape s, P c := by
  refine h.cons (by decide) (forall_mem_append ?_ (h.word rfl))
  intro c hc
  obtain ⟨n, -, hn⟩ := List.mem_flatMap.1 hc
  exact h.escape n c hn

theorem Style.Within.int (h : style.Within P) (value : Int) :
    ∀ c ∈ Decimal.intStr value, P c := by
  obtain ⟨n, sign, hsign, hstr⟩ := intStr_eq value
  rw [hstr]
  refine forall_mem_append ?_ ?_
  · rcases hsign with rfl | rfl
    · exact h.word rfl
    · exact List.forall_mem_nil _
  · intro c hc
    have hdigit := Decimal.isDigit_toDigits hc
    simp only [Char.isDigit, Bool.and_eq_true, decide_eq_true_eq] at hdigit
    have hlow : 48 ≤ c.toNat := hdigit.1
    have hhigh : c.toNat ≤ 57 := hdigit.2
    exact h.printable c (by omega)

mutual

theorem forall_mem_write (h : style.Within P) : ∀ (v : Json) (d : Nat), v.Plain style →
    ∀ c ∈ write style d v, P c
  | .null, d, _ => by
    rw [write]
    exact h.word rfl
  | .bool true, d, _ => by
    rw [write]
    exact h.word rfl
  | .bool false, d, _ => by
    rw [write]
    exact h.word rfl
  | .int value, d, _ => by
    rw [write]
    exact h.int value
  | .float literal, d, hplain => by
    rw [Plain] at hplain
    exact hplain.elim
  | .str value, d, _ => by
    rw [write]
    exact h.quote value
  | .arr [], d, _ => by
    rw [write]
    exact h.word rfl
  | .arr (value :: values), d, hplain => by
    rw [Plain] at hplain
    rw [write]
    exact h.cons (by decide) (forall_mem_append (h.before (d + 1))
      (forall_mem_writeElements h (value :: values) d hplain))
  | .obj [], d, _ => by
    rw [write]
    exact h.word rfl
  | .obj (member :: members), d, hplain => by
    rw [Plain] at hplain
    rw [write]
    exact h.cons (by decide) (forall_mem_append (h.before (d + 1))
      (forall_mem_writeMembers h (member :: members) d hplain.2))

theorem forall_mem_writeElements (h : style.Within P) : ∀ (values : List Json) (d : Nat),
    PlainElements style values → ∀ c ∈ writeElements style d values, P c
  | [], d, _ => by
    rw [writeElements]
    exact h.word rfl
  | [value], d, hplain => by
    rw [PlainElements] at hplain
    rw [writeElements]
    exact forall_mem_append (forall_mem_write h value (d + 1) hplain.1)
      (forall_mem_append (h.before d) (h.word rfl))
  | value :: next :: values, d, hplain => by
    rw [PlainElements] at hplain
    rw [writeElements]
    exact forall_mem_append (forall_mem_write h value (d + 1) hplain.1)
      (h.cons (by decide) (forall_mem_append (h.between (d + 1))
        (forall_mem_writeElements h (next :: values) d hplain.2)))

theorem forall_mem_writeMembers (h : style.Within P) :
    ∀ (members : List (CodePoints × Json)) (d : Nat), PlainMembers style members →
      ∀ c ∈ writeMembers style d members, P c
  | [], d, _ => by
    rw [writeMembers]
    exact h.word rfl
  | [(key, value)], d, hplain => by
    rw [PlainMembers] at hplain
    rw [writeMembers]
    exact forall_mem_append (h.quote key) (h.cons (by decide) (forall_mem_append h.colon
      (forall_mem_append (forall_mem_write h value (d + 1) hplain.2.1)
        (forall_mem_append (h.before d) (h.word rfl)))))
  | (key, value) :: next :: members, d, hplain => by
    rw [PlainMembers] at hplain
    rw [writeMembers]
    exact forall_mem_append (h.quote key) (h.cons (by decide) (forall_mem_append h.colon
      (forall_mem_append (forall_mem_write h value (d + 1) hplain.2.1)
        (h.cons (by decide) (forall_mem_append (h.between (d + 1))
          (forall_mem_writeMembers h (next :: members) d hplain.2.2))))))

end

end

theorem ne_return_of_escape {n : Nat} {c : Char} (hc : c ∈ escape n) : c ≠ '\r' := by
  have hletters : ∀ e ∈ escapes, e.2 ≠ '\r' := by
    decide
  have hdigits : ∀ d < 16, hexDigit d ≠ '\r' := by
    decide
  have hdigit (m : Nat) : hexDigit (m % 16) ≠ '\r' := hdigits _ (Nat.mod_lt m (by decide))
  revert c
  unfold escape
  split
  · next m letter hfind =>
    have hletter := hletters _ (List.mem_of_find?_eq_some hfind)
    simp [hletter]
  · unfold escapeUnit
    simp [hdigit]

theorem ne_return_of_escapeRaw {n : Nat} {c : Char} (hc : c ∈ escapeRaw n) : c ≠ '\r' := by
  unfold escapeRaw at hc
  split at hc
  · exact ne_return_of_escape hc
  · next hplain =>
    rw [List.mem_singleton.1 hc]
    intro heq
    by_cases hvalid : n.isValidChar
    · have hn := congrArg Char.toNat heq
      rw [toNat_ofNat hvalid] at hn
      have hreturn : '\r'.toNat = 13 := rfl
      omega
    · unfold Char.ofNat at heq
      rw [dif_neg hvalid] at heq
      exact absurd heq (by decide)

theorem Style.within_indented (indent : Nat) : (Style.indented indent).Within (· ≠ '\r') := by
  have hline (n : Nat) : ∀ c ∈ '\n' :: List.replicate n ' ', c ≠ '\r' := by
    intro c hc
    rcases List.mem_cons.1 hc with rfl | hc
    · decide
    · rw [List.eq_of_mem_replicate hc]
      decide
  constructor
  · rintro c ⟨hc, -⟩ rfl
    exact absurd hc (by decide)
  · exact fun n c hc => ne_return_of_escapeRaw hc
  · exact fun d => hline _
  · exact fun d => hline _
  · exact List.forall_mem_singleton.2 (by decide)

end Json
