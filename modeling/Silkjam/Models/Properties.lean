import Silkjam.Config
import Silkjam.Lib.Decimal
import Silkjam.Lib.Fields

/-!
# Properties files

`parse_properties` reads a file line by line: blank lines, comments and lines without a `=` are kept
in the layout as they are, all others have a key and a value. `dump_properties` writes the layout
with new values, and what is not in it at the end. A line that was written is read as what it was
written for (`readAs_propertyLine`), so the layout of the written file is the old one with new values
(`properties_rewritten`).
-/

namespace Silkjam.Models

open Fields Decimal

/-! ### Text -/

/-- `str.isspace` of a character -/
def isSpace (c : Char) : Bool :=
  c.toNat ∈ [0x20, 0x85, 0xA0, 0x1680, 0x2028, 0x2029, 0x202F, 0x205F, 0x3000] ||
    9 ≤ c.toNat && c.toNat ≤ 13 || 0x1C ≤ c.toNat && c.toNat ≤ 0x1F ||
    0x2000 ≤ c.toNat && c.toNat ≤ 0x200A

/-- What the text layer of a file that is opened for reading makes of the ends of lines. -/
def universalNewlines : Text → Text
  | '\r' :: '\n' :: text => '\n' :: universalNewlines text
  | '\r' :: text => '\n' :: universalNewlines text
  | c :: text => c :: universalNewlines text
  | [] => []

/-! ### Reading -/

structure ServerPropertiesLine where
  key : Option Text
  value : Text
  deriving DecidableEq

/-- A line without its newline, in the layout. -/
def parseLine (line : Text) : ServerPropertiesLine :=
  let stripped := strip isSpace line
  if stripped = [] then ⟨none, []⟩
  else if stripped.head? = some '#' then ⟨none, line⟩
  else
    match partition? '=' line with
    | none => ⟨none, line⟩
    | some (key, value) => ⟨some (strip isSpace key), strip isSpace value⟩

def setProperty (properties : Dict Text Text) (line : ServerPropertiesLine) : Dict Text Text :=
  match line.key with
  | none => properties
  | some key => properties.set key line.value

/-- The lines of a file, in the layout. -/
def layoutOf (file : Text) : List ServerPropertiesLine :=
  (lines '\n' (universalNewlines file)).map parseLine

def parseProperties (file : Text) : Dict Text Text × List ServerPropertiesLine :=
  ((layoutOf file).foldl setProperty {}, layoutOf file)

/-! ### Writing -/

/-- A value that is given to `dump_properties`; of other objects `str(value)` is written. -/
inductive PropertyValue where
  | none
  | bool (b : Bool)
  | int (n : Int)
  | str (s : Text)
  | other (str : Text)

def serialize : PropertyValue → Text
  | .none => []
  | .bool b => if b then "true".toList else "false".toList
  | .int n => intStr n
  | .str s | .other s => s

def serializedValues (values : Dict Text PropertyValue) : Dict Text Text :=
  values.map serialize

def propertyLine (key value : Text) : Text :=
  key ++ '=' :: value

/-- What is written for a line of the layout. -/
def writtenLine (values : Dict Text Text) (line : ServerPropertiesLine) : Text :=
  match line.key with
  | none => line.value
  | some key => propertyLine key ((values.get? key).getD line.value)

/-- The properties that are not in the layout. -/
def newProperties (values : Dict Text Text) (layout : List ServerPropertiesLine) :
    List (Text × Text) :=
  let seen := (layout.filterMap (·.key)).toFinset
  values.items.filter fun e => e.1 ∉ seen

def writtenLines (values : Dict Text Text) (layout : List ServerPropertiesLine) : List Text :=
  layout.map (writtenLine values) ++ (newProperties values layout).map fun e => propertyLine e.1 e.2

/-- The new contents of the file. -/
def dumpProperties (file : Text) (values : Dict Text PropertyValue) : Text :=
  unlines '\n' (writtenLines (serializedValues values) (parseProperties file).2)

/-! ### What a line is read as -/

section
variable {line key value : Text} {c : Char}

def Blank (line : Text) : Prop :=
  strip isSpace line = []

def Comment (line : Text) : Prop :=
  (strip isSpace line).head? = some '#'

/-- A text without newlines; `\r` ends a line too where the file is read. -/
def OneLine (text : Text) : Prop :=
  '\n' ∉ text ∧ '\r' ∉ text

theorem OneLine.mono {text text' : Text} (h : OneLine text) (hmem : ∀ c ∈ text', c ∈ text) :
    OneLine text' :=
  ⟨fun hc => h.1 (hmem _ hc), fun hc => h.2 (hmem _ hc)⟩

/-- A key that is read as it was written. -/
structure PropertyKey (key : Text) : Prop where
  stripped : Stripped isSpace key
  separator : '=' ∉ key
  comment : key.head? ≠ some '#'

instance : Decidable (OneLine key) :=
  inferInstanceAs (Decidable (_ ∧ _))

instance : Decidable (PropertyKey key) :=
  decidable_of_iff (Stripped isSpace key ∧ '=' ∉ key ∧ key.head? ≠ some '#')
    ⟨fun ⟨stripped, separator, comment⟩ => ⟨stripped, separator, comment⟩,
      fun ⟨stripped, separator, comment⟩ => ⟨stripped, separator, comment⟩⟩

theorem not_isSpace_separator : isSpace '=' = false := by
  decide

theorem head?_strip_property (key value : Text) :
    (strip isSpace (key ++ '=' :: value)).head? = some ((strip isSpace key).head?.getD '=') :=
  head?_strip_append not_isSpace_separator

/-- The four kinds of lines: a comment and an incomplete line are kept alike. -/
inductive ReadAs (line : Text) : ServerPropertiesLine → Prop
  | blank (h : Blank line) : ReadAs line ⟨none, []⟩
  | kept (hblank : ¬Blank line) (h : Comment line ∨ '=' ∉ line) : ReadAs line ⟨none, line⟩
  | property (key value : Text) (hblank : ¬Blank line) (hcomment : ¬Comment line)
    (hline : line = key ++ '=' :: value) (hkey : '=' ∉ key) :
    ReadAs line ⟨some (strip isSpace key), strip isSpace value⟩

/-- **The parser's cases.** -/
theorem readAs_parseLine (line : Text) : ReadAs line (parseLine line) := by
  unfold parseLine
  dsimp only
  split
  · next hblank => exact .blank hblank
  · next hblank =>
    split
    · next hcomment => exact .kept hblank (.inl hcomment)
    · next hcomment =>
      cases hpart : partition? '=' line with
      | none => exact .kept hblank (.inr (partition?_eq_none.1 hpart))
      | some fields =>
        obtain ⟨hline, hkey⟩ := partition?_eq_some hpart
        exact .property fields.1 fields.2 hblank hcomment hline hkey

theorem parseLine_of_readAs {read : ServerPropertiesLine} (h : ReadAs line read) :
    parseLine line = read := by
  unfold parseLine
  dsimp only
  cases h with
  | blank h =>
    unfold Blank at h
    rw [if_pos h]
  | kept hblank h =>
    unfold Blank at hblank
    rw [if_neg hblank]
    split
    · rfl
    · next hcomment => rw [partition?_eq_none.2 (h.resolve_left hcomment)]
  | property key value hblank hcomment hline hkey =>
    unfold Blank at hblank
    unfold Comment at hcomment
    rw [if_neg hblank, if_neg hcomment, hline, partition?_append hkey]

/-- A line without a key is kept as one that is read as it was. -/
theorem ReadAs.again (h : ReadAs line ⟨none, value⟩) : ReadAs value ⟨none, value⟩ := by
  cases h with
  | blank => exact .blank rfl
  | kept hblank h => exact .kept hblank h

theorem ReadAs.propertyKey (h : ReadAs line ⟨some key, value⟩) : PropertyKey key := by
  cases h with
  | property key' value' hblank hcomment hline hkey =>
    refine ⟨stripped_strip _ _, fun hmem => hkey (mem_of_mem_strip hmem), fun hhash => hcomment ?_⟩
    -- the line starts as its key does
    rw [Comment, hline, head?_strip_property, hhash]
    rfl

theorem ReadAs.stripped (h : ReadAs line ⟨some key, value⟩) : Stripped isSpace value := by
  cases h with
  | property => exact stripped_strip _ _

theorem ReadAs.mem {read : ServerPropertiesLine} (h : ReadAs line read) :
    (∀ c ∈ read.value, c ∈ line) ∧ ∀ key, read.key = some key → ∀ c ∈ key, c ∈ line := by
  cases h with
  | blank => exact ⟨fun c hc => absurd hc List.not_mem_nil, fun key hkey => by cases hkey⟩
  | kept => exact ⟨fun c hc => hc, fun key hkey => by cases hkey⟩
  | property key value hblank hcomment hline =>
    refine ⟨fun c hc => ?_, fun key hkey c hc => ?_⟩
    · rw [hline]
      exact List.mem_append_right _ (List.mem_cons_of_mem _ (mem_of_mem_strip hc))
    · cases hkey
      rw [hline]
      exact List.mem_append_left _ (mem_of_mem_strip hc)

theorem readAs_propertyLine (hkey : PropertyKey key) (hvalue : Stripped isSpace value) :
    ReadAs (propertyLine key value) ⟨some key, value⟩ := by
  have hhead : (strip isSpace (propertyLine key value)).head? = some (key.head?.getD '=') := by
    rw [propertyLine, head?_strip_property, hkey.stripped]
  have hblank : ¬Blank (propertyLine key value) := by
    intro hblank
    rw [hblank] at hhead
    cases hhead
  have hcomment : ¬Comment (propertyLine key value) := by
    intro hcomment
    rw [hcomment, Option.some.injEq] at hhead
    cases hfirst : key.head? with
    | none =>
      rw [hfirst] at hhead
      cases hhead
    | some c =>
      rw [hfirst, Option.getD_some] at hhead
      rw [← hhead] at hfirst
      exact hkey.comment hfirst
  have hread := ReadAs.property key value hblank hcomment rfl hkey.separator
  rwa [hkey.stripped, hvalue] at hread

end

/-! ### Looking up a key -/

section
variable {values : Dict Text Text} {layout : List ServerPropertiesLine} {key value : Text}

/-- The value in the last line with this key. -/
def lastValue (layout : List ServerPropertiesLine) (key : Text) : Option Text :=
  (layout.reverse.find? fun line => line.key = some key).map (·.value)

theorem lastValue_append (layout layout' : List ServerPropertiesLine) (key : Text) :
    lastValue (layout ++ layout') key = (lastValue layout' key).or (lastValue layout key) := by
  unfold lastValue
  rw [List.reverse_append, List.find?_append, Option.map_or]

theorem lastValue_eq_none : lastValue layout key = none ↔ ∀ line ∈ layout, line.key ≠ some key := by
  unfold lastValue
  simp

theorem get?_foldl_setProperty (layout : List ServerPropertiesLine) (key : Text) :
    (layout.foldl setProperty {}).get? key = lastValue layout key := by
  induction layout using List.reverseRecOn with
  | nil => rfl
  | append_singleton layout line ih =>
    rw [List.foldl_concat, lastValue_append, ← ih]
    unfold setProperty lastValue
    cases hkey : line.key with
    | none => simp [hkey]
    | some key' =>
      rw [Dict.get?_set]
      by_cases h : key = key'
      · simp [hkey, h]
      · simp [hkey, h, Ne.symm h]

/-- A line of the layout with its new value. -/
def update (values : Dict Text Text) (line : ServerPropertiesLine) : ServerPropertiesLine :=
  match line.key with
  | none => line
  | some key => { line with value := (values.get? key).getD line.value }

def newLines (values : Dict Text Text) (layout : List ServerPropertiesLine) :
    List ServerPropertiesLine :=
  (newProperties values layout).map fun e => ⟨some e.1, e.2⟩

@[simp] theorem key_update (values : Dict Text Text) (line : ServerPropertiesLine) :
    (update values line).key = line.key := by
  unfold update
  split
  · rfl
  · rfl

theorem value_update {line : ServerPropertiesLine} (h : line.key = some key) :
    (update values line).value = (values.get? key).getD line.value := by
  unfold update
  rw [h]

theorem lastValue_update (values : Dict Text Text) (layout : List ServerPropertiesLine)
    (key : Text) :
    lastValue (layout.map (update values)) key =
      (lastValue layout key).map fun value => (values.get? key).getD value := by
  unfold lastValue
  rw [← List.map_reverse, List.find?_map, Option.map_map, Option.map_map]
  simp only [Function.comp_def, key_update]
  cases hfind : layout.reverse.find? fun line => line.key = some key with
  | none => rfl
  | some line =>
    have hkey : line.key = some key := by simpa using List.find?_some hfind
    rw [Option.map_some, Option.map_some, value_update hkey]

theorem mem_newProperties {e : Text × Text} :
    e ∈ newProperties values layout ↔ e ∈ values.items ∧ ∀ line ∈ layout, line.key ≠ some e.1 := by
  unfold newProperties
  simp

theorem lastValue_newLines (h : ∀ line ∈ layout, line.key ≠ some key) :
    lastValue (newLines values layout) key = values.get? key := by
  cases hvalue : lastValue (newLines values layout) key with
  | none =>
    rw [lastValue_eq_none] at hvalue
    symm
    rw [Option.eq_none_iff_forall_ne_some]
    intro value hget
    exact hvalue _ (List.mem_map_of_mem (mem_newProperties.2 ⟨Dict.mem_items.2 hget, h⟩)) rfl
  | some value =>
    obtain ⟨line, hfind, rfl⟩ := Option.map_eq_some_iff.1 hvalue
    have hkey : line.key = some key := by simpa using List.find?_some hfind
    obtain ⟨e, he, rfl⟩ := List.mem_map.1 (List.mem_reverse.1 (List.mem_of_find?_eq_some hfind))
    cases hkey
    exact (Dict.mem_items.1 (mem_newProperties.1 he).1).symm

theorem lastValue_written (values : Dict Text Text) (layout : List ServerPropertiesLine)
    (key : Text) :
    lastValue (layout.map (update values) ++ newLines values layout) key =
      (values.get? key).or (lastValue layout key) := by
  rw [lastValue_append, lastValue_update]
  by_cases h : ∀ line ∈ layout, line.key ≠ some key
  · rw [lastValue_newLines h, lastValue_eq_none.2 h]
    rfl
  · have hnew : lastValue (newLines values layout) key = none := by
      rw [lastValue_eq_none]
      intro line hline
      obtain ⟨e, he, rfl⟩ := List.mem_map.1 hline
      intro hkey
      cases hkey
      exact h (mem_newProperties.1 he).2
    rw [hnew, Option.none_or]
    cases hlast : lastValue layout key with
    | none => exact absurd (lastValue_eq_none.1 hlast) h
    | some value =>
      cases values.get? key with
      | none => rfl
      | some new => rfl

end

/-! ### The file that was written -/

section
variable {values : Dict Text Text} {layout : List ServerPropertiesLine} {line key value : Text}

theorem universalNewlines_eq_self {text : Text} (h : '\r' ∉ text) : universalNewlines text = text := by
  fun_induction universalNewlines text with
  | case1 text ih => simp at h
  | case2 text _ ih => simp at h
  | case3 c text _ _ ih =>
    rw [List.mem_cons, not_or] at h
    rw [ih h.2]
  | case4 => rfl

theorem return_notMem_universalNewlines (text : Text) : '\r' ∉ universalNewlines text := by
  fun_induction universalNewlines text with
  | case1 text ih => simpa using ih
  | case2 text _ ih => simpa using ih
  | case3 c text _ hne ih =>
    rw [List.mem_cons, not_or]
    exact ⟨fun h => hne h.symm, ih⟩
  | case4 => exact List.not_mem_nil

/-- Keys and values that are read as they were written. -/
def Writable (values : Dict Text Text) : Prop :=
  ∀ e ∈ values.items, PropertyKey e.1 ∧ OneLine e.1 ∧ Stripped isSpace e.2 ∧ OneLine e.2

instance : Decidable (Writable values) :=
  inferInstanceAs (Decidable (∀ e ∈ values.items, _))

theorem oneLine_propertyLine (hkey : OneLine key) (hvalue : OneLine value) :
    OneLine (propertyLine key value) := by
  unfold OneLine propertyLine at *
  simp [hkey, hvalue]

theorem writable_newProperties {e : Text × Text} (h : Writable values)
    (he : e ∈ newProperties values layout) :
    PropertyKey e.1 ∧ OneLine e.1 ∧ Stripped isSpace e.2 ∧ OneLine e.2 :=
  h e (mem_newProperties.1 he).1

/-- A line that is written for one of the layout is read as that one with its new value. -/
theorem readAs_writtenLine {read : ServerPropertiesLine} (h : Writable values)
    (hread : ReadAs line read) : ReadAs (writtenLine values read) (update values read) := by
  obtain ⟨key, value⟩ := read
  cases key with
  | none => exact hread.again
  | some key =>
    apply readAs_propertyLine hread.propertyKey
    cases hnew : values.get? key with
    | none => exact hread.stripped
    | some new => exact (h _ (Dict.mem_items.2 hnew)).2.2.1

theorem oneLine_writtenLine {read : ServerPropertiesLine} (h : Writable values)
    (hread : ReadAs line read) (hline : OneLine line) : OneLine (writtenLine values read) := by
  obtain ⟨hvalue, hkey⟩ := hread.mem
  obtain ⟨key, value⟩ := read
  cases key with
  | none => exact hline.mono hvalue
  | some key =>
    apply oneLine_propertyLine (hline.mono (hkey key rfl))
    cases hnew : values.get? key with
    | none => exact hline.mono hvalue
    | some new => exact (h _ (Dict.mem_items.2 hnew)).2.2.2

theorem oneLine_lines {file : Text} (h : line ∈ lines '\n' (universalNewlines file)) :
    OneLine line :=
  ⟨newline_notMem_lines h,
    fun hc => return_notMem_universalNewlines file (mem_of_mem_lines h hc)⟩

theorem oneLine_writtenLines {file : Text} (h : Writable values)
    (hline : line ∈ writtenLines values (layoutOf file)) : OneLine line := by
  rcases List.mem_append.1 hline with hline | hline
  · obtain ⟨read, hread, rfl⟩ := List.mem_map.1 hline
    obtain ⟨line, hmem, rfl⟩ := List.mem_map.1 hread
    exact oneLine_writtenLine h (readAs_parseLine line) (oneLine_lines hmem)
  · obtain ⟨e, he, rfl⟩ := List.mem_map.1 hline
    obtain ⟨-, hkey, -, hvalue⟩ := writable_newProperties h he
    exact oneLine_propertyLine hkey hvalue

end

section
variable {file : Text} {values : Dict Text PropertyValue}

theorem universalNewlines_dumpProperties (h : Writable (serializedValues values)) :
    universalNewlines (dumpProperties file values) = dumpProperties file values := by
  apply universalNewlines_eq_self
  intro hmem
  rcases mem_unlines hmem with hmem | ⟨line, hmem, hc⟩
  · revert hmem
    decide
  · exact (oneLine_writtenLines h hmem).2 hc

theorem lines_dumpProperties (h : Writable (serializedValues values)) :
    lines '\n' (dumpProperties file values) =
      writtenLines (serializedValues values) (layoutOf file) :=
  lines_unlines fun _ hmem => (oneLine_writtenLines h hmem).1

/-- **The layout of the file that was written** is the old one with new values, and what was not in
it. -/
theorem layoutOf_dumpProperties (h : Writable (serializedValues values)) :
    layoutOf (dumpProperties file values) =
      (layoutOf file).map (update (serializedValues values)) ++
        newLines (serializedValues values) (layoutOf file) := by
  have hold : ((layoutOf file).map (writtenLine (serializedValues values))).map parseLine =
      (layoutOf file).map (update (serializedValues values)) := by
    rw [List.map_map]
    apply List.map_congr_left
    intro read hread
    obtain ⟨line, -, rfl⟩ := List.mem_map.1 hread
    exact parseLine_of_readAs (readAs_writtenLine h (readAs_parseLine line))
  have hnew : ((newProperties (serializedValues values) (layoutOf file)).map
      fun e => propertyLine e.1 e.2).map parseLine =
      newLines (serializedValues values) (layoutOf file) := by
    unfold newLines
    rw [List.map_map]
    apply List.map_congr_left
    intro e he
    obtain ⟨hkey, -, hvalue, -⟩ := writable_newProperties h he
    exact parseLine_of_readAs (readAs_propertyLine hkey hvalue)
  rw [layoutOf, universalNewlines_dumpProperties h, lines_dumpProperties h, writtenLines, List.map_append, hold, hnew]

theorem get?_parseProperties (file key : Text) :
    (parseProperties file).1.get? key = lastValue (layoutOf file) key :=
  get?_foldl_setProperty (layoutOf file) key

theorem get?_dumpProperties (h : Writable (serializedValues values)) (key : Text) :
    (parseProperties (dumpProperties file values)).1.get? key =
      ((serializedValues values).get? key).or ((parseProperties file).1.get? key) := by
  rw [get?_parseProperties, layoutOf_dumpProperties h, lastValue_written, get?_parseProperties]

end

theorem value_of_get? {file key value : Text}
    (h : (parseProperties file).1.get? key = some value) :
    Stripped isSpace value ∧ OneLine value := by
  rw [get?_parseProperties] at h
  obtain ⟨read, hfind, rfl⟩ := Option.map_eq_some_iff.1 h
  have hkey : read.key = some key := by simpa using List.find?_some hfind
  obtain ⟨line, hline, hread⟩ :=
    List.mem_map.1 (List.mem_reverse.1 (List.mem_of_find?_eq_some hfind))
  have hcases : ReadAs line read := by
    rw [← hread]
    exact readAs_parseLine line
  obtain ⟨key', value⟩ := read
  cases hkey
  exact ⟨hcases.stripped, (oneLine_lines hline).mono hcases.mem.1⟩

/-! ### Writing again -/

section
variable {values : Dict Text Text}

theorem writtenLine_update (values : Dict Text Text) (line : ServerPropertiesLine) :
    writtenLine values (update values line) = writtenLine values line := by
  unfold writtenLine update
  cases hkey : line.key with
  | none => rw [hkey]
  | some key =>
    dsimp only
    cases values.get? key with
    | none => rfl
    | some new => rfl

theorem writtenLine_newLine {layout : List ServerPropertiesLine} {e : Text × Text}
    (he : e ∈ newProperties values layout) :
    writtenLine values ⟨some e.1, e.2⟩ = propertyLine e.1 e.2 := by
  have hget : values.get? e.1 = some e.2 := Dict.mem_items.1 (mem_newProperties.1 he).1
  unfold writtenLine
  dsimp only
  rw [hget, Option.getD_some]

theorem newProperties_again (values : Dict Text Text) (layout : List ServerPropertiesLine) :
    newProperties values (layout.map (update values) ++ newLines values layout) = [] := by
  rw [List.eq_nil_iff_forall_not_mem]
  intro e he
  obtain ⟨hitem, hkeys⟩ := mem_newProperties.1 he
  -- it was in the layout or has been appended to it
  have hnot : ¬∀ line ∈ layout, line.key ≠ some e.1 := by
    intro h
    exact hkeys ⟨some e.1, e.2⟩
      (List.mem_append_right _ (List.mem_map_of_mem (mem_newProperties.2 ⟨hitem, h⟩))) rfl
  apply hnot
  intro line hline hkey
  exact hkeys (update values line) (List.mem_append_left _ (List.mem_map_of_mem hline))
    (by rw [key_update, hkey])

theorem writtenLines_again (values : Dict Text Text) (layout : List ServerPropertiesLine) :
    writtenLines values (layout.map (update values) ++ newLines values layout) =
      writtenLines values layout := by
  unfold writtenLines
  rw [newProperties_again, List.map_append, List.map_nil, List.append_nil]
  congr 1
  · rw [List.map_map]
    apply List.map_congr_left
    intro line _
    exact writtenLine_update values line
  · unfold newLines
    rw [List.map_map]
    apply List.map_congr_left
    intro e he
    exact writtenLine_newLine he

theorem dumpProperties_again {file : Text} {values : Dict Text PropertyValue}
    (h : Writable (serializedValues values)) :
    dumpProperties (dumpProperties file values) values = dumpProperties file values := by
  have hlayout : layoutOf (dumpProperties file values) = _ := layoutOf_dumpProperties h
  unfold dumpProperties at hlayout ⊢
  unfold parseProperties at hlayout ⊢
  dsimp only at hlayout ⊢
  rw [hlayout, writtenLines_again]

end

/-! ### What changes -/

/-- What becomes of a line: blank lines, comments and incomplete lines stay, and a property line has
its key with a new value or its own. -/
structure Rewrites (values : Dict Text Text) (rewrite : Text → Text) : Prop where
  blank : ∀ line, Blank line → rewrite line = []
  kept : ∀ line, ¬Blank line → Comment line ∨ '=' ∉ line → rewrite line = line
  property : ∀ key value, '=' ∉ key → ¬Comment (key ++ '=' :: value) →
    rewrite (key ++ '=' :: value) =
      propertyLine (strip isSpace key)
        ((values.get? (strip isSpace key)).getD (strip isSpace value))

theorem rewrites_writtenLine (values : Dict Text Text) :
    Rewrites values fun line => writtenLine values (parseLine line) where
  blank line h := by rw [parseLine_of_readAs (.blank h), writtenLine]
  kept line hblank h := by rw [parseLine_of_readAs (.kept hblank h), writtenLine]
  property key value hkey hcomment := by
    have hblank : ¬Blank (key ++ '=' :: value) := by
      intro hblank
      have hhead := head?_strip_property key value
      rw [hblank] at hhead
      cases hhead
    rw [parseLine_of_readAs (.property key value hblank hcomment rfl hkey), writtenLine]

theorem newProperties_layoutOf (values : Dict Text Text) (file : Text) :
    newProperties values (layoutOf file) =
      values.items.filter fun e => e.1 ∉ (parseProperties file).1.keys := by
  apply List.filter_congr
  intro e _
  rw [decide_eq_decide, ← Dict.get?_eq_none, get?_parseProperties, lastValue_eq_none]
  simp

/-- **Rewriting a file** changes the values that were given, line by line, and keeps every other
line where it is. -/
theorem properties_rewritten {file : Text} {values : Dict Text PropertyValue}
    (h : Writable (serializedValues values)) :
    (∀ key, (parseProperties (dumpProperties file values)).1.get? key =
      ((serializedValues values).get? key).or ((parseProperties file).1.get? key)) ∧
    (∃ rewrite, Rewrites (serializedValues values) rewrite ∧
      lines '\n' (dumpProperties file values) =
        (lines '\n' (universalNewlines file)).map rewrite ++
          ((serializedValues values).items.filter
            fun e => e.1 ∉ (parseProperties file).1.keys).map fun e => propertyLine e.1 e.2) ∧
    dumpProperties (dumpProperties file values) values = dumpProperties file values := by
  refine ⟨get?_dumpProperties h, ⟨_, rewrites_writtenLine _, ?_⟩, dumpProperties_again h⟩
  rw [lines_dumpProperties h, writtenLines, newProperties_layoutOf, layoutOf, List.map_map]
  rfl

/-- A comment, a property that is there twice, and one that is not there. -/
theorem properties_rewritten_twice :
    let file := "# a=1\n a = 1\r\n\na=2".toList
    let values : Dict Text PropertyValue :=
      { items := [(['a'], .int 3), (['b'], .bool true)], nodup := by decide }
    dumpProperties file values = "# a=1\na=3\n\na=3\nb=true\n".toList ∧
      dumpProperties (dumpProperties file values) values = dumpProperties file values := by
  intro file values
  have h : Writable (serializedValues values) := by decide
  exact ⟨by decide, (properties_rewritten h).2.2⟩

end Silkjam.Models
