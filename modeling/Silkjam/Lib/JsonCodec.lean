import Silkjam.Lib.JsonStyle

/-!
# Values as JSON

A `Codec` dumps values as JSON and validates JSON as values. What was dumped is validated again, but
for what is not dumped (`validate_dump`), and every style can write it (`plain_dump`), so that it
is what is loaded from the text (`loads_dump`). There are codecs for the scalars, for values that
satisfy a condition, for what may be `null`, and for lists and dictionaries; one for a record is made
of its members.
-/

namespace Json

/-- The text that has these code points, unless there are surrogates among them. -/
def text? : CodePoints → Option (List Char)
  | [] => some []
  | n :: s => if n.isValidChar then (text? s).map (Char.ofNat n :: ·) else none

theorem text?_ofChars (text : List Char) : text? (ofChars text) = some text := by
  induction text with
  | nil => rfl
  | cons c text ih =>
    have hvalid : c.toNat.isValidChar := c.valid
    unfold ofChars at ih ⊢
    rw [List.map_cons, text?, if_pos hvalid, ih, Option.map_some, Char.ofNat_toNat]

/-- Which values are taken for numbers and for booleans, besides those that are. -/
structure Coercions where
  int? : Json → Option Int
  bool? : Json → Option Bool
  int?_int : ∀ n, int? (.int n) = some n
  bool?_bool : ∀ b, bool? (.bool b) = some b

structure Codec (α : Type) where
  dump : α → Json
  validate : Json → Option α
  /-- what is left of a value -/
  canon : α → α := id
  canon_of_validate : ∀ v a, validate v = some a → canon a = a := by exact fun _ _ _ => rfl
  validate_dump : ∀ a, validate (dump a) = some (canon a)
  plain_dump : ∀ a style, (dump a).Plain style

namespace Codec

variable {α : Type}

/-- **What was dumped is loaded**, in any style. -/
theorem loads_dump (c : Codec α) (style : Style) (a : α) :
    loads (write style 0 (c.dump a)) = some (c.dump a) :=
  loads_write (c.plain_dump a style)

/-! ### Scalars -/

def int (D : Coercions) : Codec Int where
  dump := .int
  validate := D.int?
  validate_dump := D.int?_int
  plain_dump a style := by
    rw [Plain]
    trivial

def bool (D : Coercions) : Codec Bool where
  dump := .bool
  validate := D.bool?
  validate_dump := D.bool?_bool
  plain_dump a style := by
    rw [Plain]
    trivial

def text : Codec (List Char) where
  dump text := .str (ofChars text)
  validate
    | .str s => text? s
    | _ => none
  validate_dump := text?_ofChars
  plain_dump a style := by
    rw [Plain]
    exact style.writes_text a

/-- Values that satisfy a condition. -/
def subtype (c : Codec α) (p : α → Prop) [DecidablePred p] (hcanon : ∀ a, c.canon a = a) :
    Codec {a // p a} where
  dump a := c.dump a.1
  validate v := (c.validate v).bind fun a => if h : p a then some ⟨a, h⟩ else none
  validate_dump a := by
    rw [c.validate_dump, hcanon, Option.bind_some, dif_pos a.2]
    rfl
  plain_dump a := c.plain_dump a.1

/-- Values that stand for those of another codec. -/
def equiv {β : Type} (c : Codec α) (f : β → α) (g : α → β) (hcanon : ∀ a, c.canon a = a)
    (h : ∀ b, g (f b) = b) : Codec β where
  dump b := c.dump (f b)
  validate v := (c.validate v).map g
  validate_dump b := by
    rw [c.validate_dump, hcanon, Option.map_some, h]
    rfl
  plain_dump b := c.plain_dump (f b)

/-! ### Containers -/

/-- A value or `null`. -/
def optional (c : Codec α) (hnull : ∀ a, c.dump a ≠ .null) : Codec (Option α) where
  dump
    | none => .null
    | some a => c.dump a
  validate
    | .null => some none
    | v => (c.validate v).map some
  canon := Option.map c.canon
  canon_of_validate v a h := by
    split at h
    · cases h
      rfl
    · obtain ⟨b, hb, rfl⟩ := Option.map_eq_some_iff.1 h
      exact congrArg some (c.canon_of_validate v b hb)
  validate_dump a := by
    cases a with
    | none => rfl
    | some a =>
      have hvalidate := congrArg (Option.map some) (c.validate_dump a)
      have hne := hnull a
      dsimp only
      split
      · next hdump => exact absurd hdump hne
      · exact hvalidate
  plain_dump a style := by
    cases a with
    | none =>
      rw [Plain]
      trivial
    | some a => exact c.plain_dump a style

theorem plainElements_map (c : Codec α) (style : Style) (l : List α) :
    PlainElements style (l.map c.dump) := by
  induction l with
  | nil =>
    rw [List.map_nil, PlainElements]
    trivial
  | cons a l ih =>
    rw [List.map_cons, PlainElements]
    exact ⟨c.plain_dump a style, ih⟩

theorem mapM_map {β γ δ : Type} {f : β → γ} {g : γ → Option δ} {h : β → δ}
    (hfg : ∀ b, g (f b) = some (h b)) (l : List β) : (l.map f).mapM g = some (l.map h) := by
  induction l with
  | nil => rfl
  | cons b l ih =>
    rw [List.map_cons, List.mapM_cons, hfg, ih]
    rfl

theorem forall_mem_of_mapM {β γ : Type} {f : β → Option γ} {P : γ → Prop}
    (h : ∀ b c, f b = some c → P c) {l : List β} {l' : List γ} (hl : l.mapM f = some l') :
    ∀ c ∈ l', P c := by
  induction l generalizing l' with
  | nil =>
    cases hl
    exact List.forall_mem_nil _
  | cons b l ih =>
    rw [List.mapM_cons, Option.bind_eq_bind, Option.bind_eq_some_iff] at hl
    obtain ⟨c, hc, hl⟩ := hl
    rw [Option.bind_eq_bind, Option.bind_eq_some_iff] at hl
    obtain ⟨l'', hl'', hl⟩ := hl
    cases hl
    exact List.forall_mem_cons.2 ⟨h b c hc, ih hl''⟩

theorem map_eq_self {β : Type} {f : β → β} {l : List β} (h : ∀ b ∈ l, f b = b) :
    l.map f = l := by
  rw [List.map_congr_left h, List.map_id']

def list (c : Codec α) : Codec (List α) where
  dump l := .arr (l.map c.dump)
  validate
    | .arr values => values.mapM c.validate
    | _ => none
  canon := List.map c.canon
  canon_of_validate v a h := by
    cases v with
    | arr values => exact map_eq_self (forall_mem_of_mapM c.canon_of_validate h)
    | _ => cases h
  validate_dump l := mapM_map c.validate_dump l
  plain_dump l style := by
    rw [Plain]
    exact c.plainElements_map style l

theorem ofChars_injective : Function.Injective ofChars := by
  intro text text' h
  apply Option.some.inj
  rw [← text?_ofChars, h, text?_ofChars]

theorem plainMembers_map {β : Type} {f : β → CodePoints × Json} {style : Style}
    (hkey : ∀ b, style.Writes (f b).1) (hvalue : ∀ b, (f b).2.Plain style) (l : List β) :
    PlainMembers style (l.map f) := by
  induction l with
  | nil =>
    rw [List.map_nil, PlainMembers]
    trivial
  | cons b l ih =>
    rw [List.map_cons, PlainMembers]
    exact ⟨hkey b, hvalue b, ih⟩

def entry (c : Codec α) (e : List Char × α) : CodePoints × Json :=
  (ofChars e.1, c.dump e.2)

def entry? (c : Codec α) (e : CodePoints × Json) : Option (List Char × α) := do
  let name ← text? e.1
  let value ← c.validate e.2
  return (name, value)

theorem entry?_entry (c : Codec α) (e : List Char × α) :
    c.entry? (c.entry e) = some (e.1, c.canon e.2) := by
  unfold entry? entry
  rw [text?_ofChars, c.validate_dump]
  rfl

theorem canon_of_entry? (c : Codec α) {e : CodePoints × Json} {e' : List Char × α}
    (h : c.entry? e = some e') : c.canon e'.2 = e'.2 := by
  unfold entry? at h
  rw [Option.bind_eq_bind, Option.bind_eq_some_iff] at h
  obtain ⟨name, -, h⟩ := h
  rw [Option.bind_eq_bind, Option.bind_eq_some_iff] at h
  obtain ⟨value, hvalue, h⟩ := h
  cases h
  exact c.canon_of_validate _ _ hvalue

theorem forall_mem_foldl_set {κ ν : Type} [DecidableEq κ] {P : ν → Prop} {items : List (κ × ν)}
    (h : ∀ e ∈ items, P e.2) {d : Dict κ ν} (hd : ∀ e ∈ d.items, P e.2) :
    ∀ e ∈ (items.foldl (fun d e => d.set e.1 e.2) d).items, P e.2 := by
  induction items generalizing d with
  | nil => exact hd
  | cons e items ih =>
    rw [List.forall_mem_cons] at h
    apply ih h.2
    intro e' he'
    rcases Dict.mem_set.1 he' with rfl | ⟨-, he'⟩
    · exact h.1
    · exact hd e' he'

def dict (c : Codec α) : Codec (Dict (List Char) α) where
  dump d := .obj (d.items.map c.entry)
  validate
    | .obj members => (members.mapM c.entry?).map fun items =>
      items.foldl (fun d e => d.set e.1 e.2) {}
    | _ => none
  canon d := d.map c.canon
  canon_of_validate v d h := by
    cases v with
    | obj members =>
      obtain ⟨items, hitems, rfl⟩ := Option.map_eq_some_iff.1 h
      have hcanon := forall_mem_of_mapM (fun e e' he => c.canon_of_entry? he) hitems
      refine Dict.ext_items (map_eq_self fun e he => ?_)
      have hvalue := forall_mem_foldl_set (P := fun a => c.canon a = a) hcanon (d := {})
        (List.forall_mem_nil _) e he
      rw [hvalue]
    | _ => cases h
  validate_dump d := by
    have hitems := Dict.items_foldl_set (d := ({} : Dict (List Char) α)) (d.map c.canon).nodup
    dsimp only
    rw [mapM_map c.entry?_entry, Option.map_some]
    exact congrArg some (Dict.ext_items hitems)
  plain_dump d style := by
    rw [Plain]
    refine ⟨?_, plainMembers_map (fun e => style.writes_text e.1)
      (fun e => c.plain_dump e.2 style) d.items⟩
    have hkeys : (d.items.map c.entry).map Prod.fst = d.keys.map ofChars := by
      unfold Dict.keys
      rw [List.map_map, List.map_map]
      rfl
    rw [hkeys]
    exact d.nodup.map ofChars_injective

/-! ### What is left of a value -/

section
variable {c : Codec α}

@[simp] theorem canon_int (D : Coercions) (n : Int) : (int D).canon n = n :=
  rfl

@[simp] theorem canon_bool (D : Coercions) (b : Bool) : (bool D).canon b = b :=
  rfl

@[simp] theorem canon_text (s : List Char) : text.canon s = s :=
  rfl

theorem canon_optional {hnull : ∀ a, c.dump a ≠ .null} (h : ∀ a, c.canon a = a)
    (a : Option α) : (c.optional hnull).canon a = a := by
  cases a with
  | none => rfl
  | some a => exact congrArg some (h a)

theorem canon_list (h : ∀ a, c.canon a = a) (l : List α) : c.list.canon l = l :=
  map_eq_self fun a _ => h a

theorem canon_dict (h : ∀ a, c.canon a = a) (d : Dict (List Char) α) :
    c.dict.canon d = d := by
  refine Dict.ext_items (map_eq_self fun e _ => ?_)
  rw [h]

end

/-! ### Records -/

/-- A member of a record. -/
structure Member where
  name : String
  value : Json
  plain : ∀ style, value.Plain style

/-- The member with this name. -/
def named (c : Codec α) (name : String) (a : α) : Member :=
  ⟨name, c.dump a, c.plain_dump a⟩

@[simp] theorem name_named (c : Codec α) (name : String) (a : α) : (c.named name a).name = name :=
  rfl

def fields (members : List Member) : List (CodePoints × Json) :=
  members.map fun m => (key m.name, m.value)

theorem key_injective : Function.Injective key :=
  fun _ _ h => String.toList_injective (ofChars_injective h)

theorem plain_obj_fields {members : List Member} (h : (members.map Member.name).Nodup)
    (style : Style) : (obj (fields members)).Plain style := by
  rw [Plain]
  refine ⟨?_, plainMembers_map (fun m => style.writes_text m.name.toList)
    (fun m => m.plain style) members⟩
  have hkeys : (fields members).map Prod.fst = (members.map Member.name).map key := by
    unfold fields
    rw [List.map_map, List.map_map]
    rfl
  rw [hkeys]
  exact h.map key_injective

/-- The member that has to be there. -/
def required (c : Codec α) (name : String) (members : List (CodePoints × Json)) : Option α :=
  (members.lookup (key name)).bind c.validate

/-- The member, or its default. -/
def defaulted (c : Codec α) (name : String) (default : α) (members : List (CodePoints × Json)) :
    Option α :=
  match members.lookup (key name) with
  | some v => c.validate v
  | none => some default

section
variable {β : Type} {name name' : String} {members : List Member} {a : α} {b : β}

theorem lookup_cons_self (c : Codec α) :
    (fields (c.named name a :: members)).lookup (key name) = some (c.dump a) :=
  List.lookup_cons_self

theorem lookup_cons_of_ne (c : Codec β) (h : name ≠ name') :
    (fields (c.named name' b :: members)).lookup (key name) =
      (fields members).lookup (key name) := by
  have hkey : (key name == key name') = false := by
    rw [beq_eq_false_iff_ne]
    exact key_injective.ne h
  unfold fields named
  rw [List.map_cons, List.lookup_cons, hkey]

@[simp] theorem required_cons_self (c : Codec α) :
    c.required name (fields (c.named name a :: members)) = some (c.canon a) := by
  unfold required
  rw [lookup_cons_self]
  exact c.validate_dump a

@[simp] theorem required_cons_of_ne (c : Codec α) (d : Codec β) (h : name ≠ name') :
    c.required name (fields (d.named name' b :: members)) =
      c.required name (fields members) := by
  unfold required
  rw [lookup_cons_of_ne d h]

@[simp] theorem defaulted_cons_self (c : Codec α) (default : α) :
    c.defaulted name default (fields (c.named name a :: members)) = some (c.canon a) := by
  unfold defaulted
  rw [lookup_cons_self]
  exact c.validate_dump a

@[simp] theorem defaulted_cons_of_ne (c : Codec α) (d : Codec β) (default : α)
    (h : name ≠ name') :
    c.defaulted name default (fields (d.named name' b :: members)) =
      c.defaulted name default (fields members) := by
  unfold defaulted
  rw [lookup_cons_of_ne d h]

end

end Codec

end Json
