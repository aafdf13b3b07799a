import Mathlib.Data.List.Basic
import Mathlib.Data.List.Nodup
import Mathlib.Tactic.Common

/-!
# Dictionaries in insertion order

A dictionary is the list of its items, in the order in which their keys were first inserted: setting
a key that is present keeps its place, and setting a new one appends it. The keys are pairwise
distinct, so an item is in the list if and only if looking up its key gives its value (`mem_items`).
-/

/-- A dictionary from keys `κ` to values `ν`. -/
structure Dict (κ ν : Type*) where
  items : List (κ × ν) := []
  nodup : (items.map Prod.fst).Nodup := by exact List.nodup_nil

namespace Dict

variable {κ ν : Type*}

def keys (d : Dict κ ν) : List κ := d.items.map Prod.fst

def values (d : Dict κ ν) : List ν := d.items.map Prod.snd

/-- Keep the items that satisfy `p`. -/
def filter (d : Dict κ ν) (p : κ × ν → Bool) : Dict κ ν where
  items := d.items.filter p
  nodup := d.nodup.sublist (List.filter_sublist.map _)

theorem ext_items {d d' : Dict κ ν} (h : d.items = d'.items) : d = d' := by
  cases d
  cases d'
  cases h
  rfl

theorem mem_filter {d : Dict κ ν} {p : κ × ν → Bool} {e : κ × ν} :
    e ∈ (d.filter p).items ↔ e ∈ d.items ∧ p e = true :=
  List.mem_filter

/-- `{k: f(v) for k, v in d.items()}` -/
def map {ν' : Type*} (d : Dict κ ν) (f : ν → ν') : Dict κ ν' where
  items := d.items.map fun e => (e.1, f e.2)
  nodup := by
    have hkeys : (d.items.map fun e => (e.1, f e.2)).map Prod.fst = d.keys := by
      rw [List.map_map]
      rfl
    rw [hkeys]
    exact d.nodup

theorem mem_keys_iff_exists {d : Dict κ ν} {k : κ} : k ∈ d.keys ↔ ∃ v, (k, v) ∈ d.items := by
  simp [keys]

theorem mem_values_iff_exists {d : Dict κ ν} {v : ν} : v ∈ d.values ↔ ∃ k, (k, v) ∈ d.items := by
  simp [values]

theorem eq_of_mem {d : Dict κ ν} {k : κ} {v v' : ν} (h : (k, v) ∈ d.items)
    (h' : (k, v') ∈ d.items) : v = v' :=
  (Prod.ext_iff.1 (List.inj_on_of_nodup_map d.nodup h h' rfl)).2

variable [DecidableEq κ]

/-- `d.get(k)` -/
def get? (d : Dict κ ν) (k : κ) : Option ν :=
  (d.items.find? fun e => e.1 = k).map Prod.snd

theorem mem_items {d : Dict κ ν} {k : κ} {v : ν} : (k, v) ∈ d.items ↔ d.get? k = some v := by
  unfold get?
  rw [Option.map_eq_some_iff]
  constructor
  · intro h
    cases hf : d.items.find? fun e => e.1 = k with
    | none => simpa using List.find?_eq_none.1 hf _ h
    | some e =>
      obtain ⟨k', v'⟩ := e
      obtain rfl : k' = k := by simpa using List.find?_some hf
      exact ⟨_, rfl, d.eq_of_mem (List.mem_of_find?_eq_some hf) h⟩
  · rintro ⟨⟨k', v'⟩, hf, rfl⟩
    obtain rfl : k' = k := by simpa using List.find?_some hf
    exact List.mem_of_find?_eq_some hf

theorem mem_keys {d : Dict κ ν} {k : κ} : k ∈ d.keys ↔ (d.get? k).isSome := by
  simp only [mem_keys_iff_exists, mem_items, Option.isSome_iff_exists]

theorem get?_eq_none {d : Dict κ ν} {k : κ} : d.get? k = none ↔ k ∉ d.keys := by
  rw [mem_keys, Option.not_isSome_iff_eq_none]

/-- `d[k] = v` -/
def set (d : Dict κ ν) (k : κ) (v : ν) : Dict κ ν :=
  if h : k ∈ d.keys then
    { items := d.items.map fun e => if e.1 = k then (k, v) else e
      nodup := by
        have hkeys : (d.items.map fun e => if e.1 = k then (k, v) else e).map Prod.fst = d.keys := by
          rw [List.map_map, keys]
          apply List.map_congr_left
          intro e _
          simp only [Function.comp_apply]
          split
          · next he => exact he.symm
          · rfl
        rw [hkeys]
        exact d.nodup }
  else
    { items := d.items ++ [(k, v)]
      nodup := by
        rw [List.map_append]
        exact List.nodup_append_comm.2 (List.nodup_cons.2 ⟨h, d.nodup⟩) }

/-- `d.pop(k, None)` -/
def erase (d : Dict κ ν) (k : κ) : Dict κ ν :=
  d.filter fun e => e.1 ≠ k

theorem items_set_of_notMem {d : Dict κ ν} {k : κ} (v : ν) (h : k ∉ d.keys) :
    (d.set k v).items = d.items ++ [(k, v)] := by
  unfold set
  rw [dif_neg h]

theorem mem_set {d : Dict κ ν} {k : κ} {v : ν} {e : κ × ν} :
    e ∈ (d.set k v).items ↔ e = (k, v) ∨ e.1 ≠ k ∧ e ∈ d.items := by
  by_cases h : k ∈ d.keys
  · have hitems : (d.set k v).items = d.items.map fun e => if e.1 = k then (k, v) else e := by
      unfold set
      rw [dif_pos h]
    rw [hitems, List.mem_map]
    constructor
    · rintro ⟨e', he', rfl⟩
      split
      · exact .inl rfl
      · next hne => exact .inr ⟨hne, he'⟩
    · rintro (rfl | ⟨hne, he⟩)
      · obtain ⟨v', hv'⟩ := mem_keys_iff_exists.1 h
        exact ⟨_, hv', if_pos rfl⟩
      · exact ⟨e, he, if_neg hne⟩
  · rw [items_set_of_notMem v h, List.mem_append, List.mem_singleton]
    constructor
    · rintro (he | rfl)
      · refine .inr ⟨?_, he⟩
        rintro rfl
        exact h (List.mem_map_of_mem he)
      · exact .inl rfl
    · rintro (rfl | ⟨-, he⟩)
      · exact .inr rfl
      · exact .inl he

theorem mem_erase {d : Dict κ ν} {k : κ} {e : κ × ν} :
    e ∈ (d.erase k).items ↔ e.1 ≠ k ∧ e ∈ d.items := by
  unfold erase
  rw [mem_filter, decide_eq_true_eq, and_comm]

@[simp] theorem get?_set_self (d : Dict κ ν) (k : κ) (v : ν) : (d.set k v).get? k = some v :=
  mem_items.1 (mem_set.2 (.inl rfl))

theorem get?_set_of_ne (d : Dict κ ν) {k k' : κ} (v : ν) (h : k' ≠ k) :
    (d.set k v).get? k' = d.get? k' := by
  apply Option.ext
  intro v'
  rw [← mem_items, ← mem_items, mem_set]
  simp [h]

@[simp] theorem get?_erase_self (d : Dict κ ν) (k : κ) : (d.erase k).get? k = none := by
  apply Option.eq_none_iff_forall_ne_some.2
  intro v hv
  exact (mem_erase.1 (mem_items.2 hv)).1 rfl

theorem get?_erase_of_ne (d : Dict κ ν) {k k' : κ} (h : k' ≠ k) :
    (d.erase k).get? k' = d.get? k' := by
  apply Option.ext
  intro v'
  rw [← mem_items, ← mem_items, mem_erase]
  simp [h]

theorem get?_set (d : Dict κ ν) (k k' : κ) (v : ν) :
    (d.set k v).get? k' = if k' = k then some v else d.get? k' := by
  split
  · next h => rw [h, get?_set_self]
  · next h => exact d.get?_set_of_ne v h

theorem get?_erase (d : Dict κ ν) (k k' : κ) :
    (d.erase k).get? k' = if k' = k then none else d.get? k' := by
  split
  · next h => rw [h, get?_erase_self]
  · next h => exact d.get?_erase_of_ne h

theorem mem_keys_set {d : Dict κ ν} {k k' : κ} {v : ν} :
    k' ∈ (d.set k v).keys ↔ k' = k ∨ k' ∈ d.keys := by
  simp only [mem_keys_iff_exists, mem_set, Prod.mk.injEq]
  constructor
  · rintro ⟨v', ⟨rfl, -⟩ | ⟨-, h⟩⟩
    · exact .inl rfl
    · exact .inr ⟨v', h⟩
  · rintro (rfl | ⟨v', h⟩)
    · exact ⟨v, .inl ⟨rfl, rfl⟩⟩
    · by_cases he : k' = k
      · exact ⟨v, .inl ⟨he, rfl⟩⟩
      · exact ⟨v', .inr ⟨he, h⟩⟩

theorem mem_keys_erase {d : Dict κ ν} {k k' : κ} :
    k' ∈ (d.erase k).keys ↔ k' ≠ k ∧ k' ∈ d.keys := by
  simp only [mem_keys_iff_exists, mem_erase, exists_and_left]

theorem mem_foldl_erase {d : Dict κ ν} {l : List κ} {e : κ × ν} :
    e ∈ (l.foldl erase d).items ↔ e ∈ d.items ∧ e.1 ∉ l := by
  induction l generalizing d with
  | nil => simp
  | cons k l ih =>
    rw [List.foldl_cons, ih, mem_erase, List.mem_cons, not_or]
    tauto

theorem mem_set_of_notMem {d : Dict κ ν} {k : κ} {v : ν} {e : κ × ν} (h : k ∉ d.keys) :
    e ∈ (d.set k v).items ↔ e ∈ d.items ∨ e = (k, v) := by
  rw [items_set_of_notMem v h, List.mem_append, List.mem_singleton]

theorem get?_map {ν' : Type*} (d : Dict κ ν) (f : ν → ν') (k : κ) :
    (d.map f).get? k = (d.get? k).map f := by
  unfold get? map
  rw [List.find?_map, Option.map_map, Option.map_map]
  rfl

theorem items_foldl_set {items : List (κ × ν)} {d : Dict κ ν}
    (h : (d.keys ++ items.map Prod.fst).Nodup) :
    (items.foldl (fun d e => d.set e.1 e.2) d).items = d.items ++ items := by
  induction items generalizing d with
  | nil => exact (List.append_nil _).symm
  | cons e items ih =>
    have hnew : e.1 ∉ d.keys := by
      intro hmem
      exact (List.nodup_append.1 h).2.2 _ hmem e.1 (by simp) rfl
    have hitems := items_set_of_notMem e.2 hnew
    rw [List.foldl_cons, ih, hitems, List.append_assoc]
    · rfl
    · unfold keys at h ⊢
      rw [hitems]
      simpa using h

end Dict
