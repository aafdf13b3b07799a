import Mathlib.Data.List.TakeWhile
import Silkjam.Lib.Decimal
import Silkjam.Proxy.Routing

/-!
# The semantics of a configuration

`validate_semantics` goes through the proxy listing with the ports that the valid entries so far
have. An entry is valid if and only if its routes are right and it clashes with no valid entry
before it (`valid_iff`), and what was found the last time is not looked at, so nothing changes when
the configuration is validated again (`validation_sound`).
-/

namespace Silkjam

open Proxy Regex Decimal

/-! ### Validating -/

/-- The ports that are taken. -/
structure TakenPorts where
  proxyPorts : Finset Port := ∅
  voicePorts : Finset Port := ∅

def TakenPorts.add (taken : TakenPorts) (listing : ProxyListing) : TakenPorts where
  proxyPorts := insert listing.port taken.proxyPorts
  voicePorts :=
    match listing.voicePort with
    | some voicePort => insert voicePort taken.voicePorts
    | none => taken.voicePorts

def quoted (s : Text) : Text :=
  '"' :: (s ++ ['"'])

/-- `subdomain == "" or SUBDOMAIN_REGEX.fullmatch(subdomain)` -/
def wellFormedSubdomain (subdomain : Text) : Bool :=
  subdomain = [] || (SUBDOMAIN_REGEX.fullmatch subdomain).isSome

def portErrors (taken : TakenPorts) (listing : ProxyListing) : List Text :=
  if listing.port ∈ taken.proxyPorts then
    ["Proxy port ".toList ++ quoted (intStr listing.port) ++ " is already taken".toList]
  else []

def voicePortErrors (taken : TakenPorts) (listing : ProxyListing) : List Text :=
  match listing.voicePort with
  | some voicePort =>
    if voicePort ∈ taken.voicePorts then
      ["Voice port ".toList ++ quoted (intStr voicePort) ++ " is already taken".toList]
    else []
  | none => []

def routeErrors (servers : Dict Text ServerListing) (route : Text × Text) : List Text :=
  let (subdomain, serverName) := route
  (if !wellFormedSubdomain subdomain then
    ["Proxy subdomain ".toList ++ quoted subdomain ++ " is invalid".toList]
  else []) ++
  if servers.get? serverName = none then
    ["Proxy subdomain ".toList ++ quoted subdomain ++ " routes to non-existent server ".toList ++
      quoted serverName]
  else []

/-- The body of the loop over the listing, up to its end. -/
def ProxyListing.mark (listing : ProxyListing) (servers : Dict Text ServerListing)
    (taken : TakenPorts) : ProxyListing :=
  { listing with
    errors := listing.errors ++ (portErrors taken listing ++ voicePortErrors taken listing ++
      listing.subdomains.items.flatMap (routeErrors servers)) }

def ProxyListing.clearErrors (listing : ProxyListing) : ProxyListing :=
  { listing with errors := [] }

/-- The loop over the listing. -/
def markAll (servers : Dict Text ServerListing) :
    TakenPorts → List (Text × ProxyListing) → List (Text × ProxyListing)
  | _, [] => []
  | taken, (name, listing) :: entries =>
    let listing := listing.mark servers taken
    (name, listing) :: markAll servers (if listing.valid then taken.add listing else taken) entries

theorem markAll_cons (servers : Dict Text ServerListing) (taken : TakenPorts)
    (entry : Text × ProxyListing) (entries : List (Text × ProxyListing)) :
    markAll servers taken (entry :: entries) =
      (entry.1, entry.2.mark servers taken) ::
        markAll servers
          (if (entry.2.mark servers taken).valid then taken.add (entry.2.mark servers taken)
            else taken) entries :=
  rfl

theorem keys_markAll (servers : Dict Text ServerListing) (taken : TakenPorts)
    (entries : List (Text × ProxyListing)) :
    (markAll servers taken entries).map Prod.fst = entries.map Prod.fst := by
  induction entries generalizing taken with
  | nil => rfl
  | cons entry entries ih => rw [markAll_cons, List.map_cons, List.map_cons, ih]

namespace Config

/-- `listing.errors.clear()` for every listing. -/
def clearErrors (config : Config) : Config :=
  { config with proxyListing := config.proxyListing.map ProxyListing.clearErrors }

def validateSemantics (config : Config) : Config :=
  { config with
    proxyListing :=
      { items := markAll config.serverListing {} config.clearErrors.proxyListing.items
        nodup := by
          rw [keys_markAll]
          exact config.clearErrors.proxyListing.nodup } }

end Config

/-! ### Subdomains -/

section
variable {a : Text} {groups : List (Nat × Text)}

theorem isLabel_cons {c : Char} {rest : Text} :
    IsLabel (c :: rest) ↔ c ≠ '-' ∧ isLabelChar c = true ∧ rest.dropWhile isLabelChar = [] := by
  unfold IsLabel
  rw [List.dropWhile_eq_nil_iff, List.forall_mem_cons]
  simp
  tauto

theorem exists_ways_label : (∃ y ∈ labelRegex.ways ⟨a, groups⟩, y.rest = []) ↔ IsLabel a := by
  -- the points that leave nothing need no label character
  let F (y : Point Char) : List (Point Char) := if y.rest = [] then [y] else []
  have hF (l : List (Point Char)) : (∃ y ∈ l, y.rest = []) ↔ l.flatMap F ≠ [] := by
    simp [F]
  rw [hF]
  unfold labelRegex
  rw [ways_seq]
  cases a with
  | nil =>
    constructor
    · intro h
      exact absurd rfl h
    · rintro ⟨h, -⟩
      exact absurd rfl h
  | cons c rest =>
    rw [isLabel_cons, ways_notAhead_text_singleton]
    by_cases hc : c = '-'
    · rw [if_pos hc.symm]
      simp [hc]
    · rw [if_neg (Ne.symm hc), List.flatMap_singleton,
        ways_plus_sat_flatMap fun c rest groups _ => if_neg (List.cons_ne_nil c rest)]
      by_cases hlabel : isLabelChar c = true
      · rw [if_pos hlabel, List.dropWhile_cons_of_pos hlabel]
        simp [F, hc, hlabel]
      · simp [hlabel]

theorem isSubdomain_iff :
    IsSubdomain a ↔ IsLabel a ∨ ∃ t, afterLabel a = some t ∧ IsSubdomain t := by
  constructor
  · intro h
    cases h with
    | label h => exact .inl h
    | cons h h' => exact .inr ⟨_, afterLabel_eq_some.2 ⟨_, h, rfl⟩, h'⟩
  · rintro (h | ⟨t, hafter, h⟩)
    · exact .label h
    · obtain ⟨l, hl, rfl⟩ := afterLabel_eq_some.1 hafter
      exact .cons hl h

theorem exists_ways_labels (n : Nat) (hn : a.length ≤ n) :
    (∃ y ∈ repeatLazy (Regex.seq labelRegex dot).ways n ⟨a, groups⟩, IsLabel y.rest) ↔
      IsSubdomain a := by
  induction n generalizing a with
  | zero =>
    obtain rfl : a = [] := List.length_eq_zero_iff.1 (Nat.le_zero.1 hn)
    rw [isSubdomain_iff]
    simp [repeatLazy, afterLabel]
  | succ n ih =>
    rw [repeatLazy, ways_label_dot, isSubdomain_iff]
    cases hafter : afterLabel a with
    | none => simp
    | some t =>
      have hlength := length_afterLabel hafter
      rw [List.filter_cons_of_pos (by simpa using hlength), List.filter_nil,
        List.flatMap_singleton]
      simp [← ih (show t.length ≤ n by omega)]

/-- **The regular expression describes subdomains.** -/
theorem wellFormedSubdomain_iff :
    wellFormedSubdomain a = true ↔ a = [] ∨ IsSubdomain a := by
  have hways : (SUBDOMAIN_REGEX.fullmatch a).isSome = true ↔ IsSubdomain a := by
    unfold fullmatch SUBDOMAIN_REGEX
    rw [List.find?_isSome, ways_seq, ← exists_ways_labels a.length (Nat.le_refl _)]
    simp only [List.mem_flatMap, List.isEmpty_iff]
    constructor
    · rintro ⟨y, ⟨x, hx, hy⟩, hrest⟩
      exact ⟨x, hx, exists_ways_label.1 ⟨y, hy, hrest⟩⟩
    · rintro ⟨x, hx, hlabel⟩
      have hlast : ∃ y ∈ labelRegex.ways ⟨x.rest, x.groups⟩, y.rest = [] :=
        exists_ways_label.2 hlabel
      obtain ⟨y, hy, hrest⟩ := hlast
      exact ⟨y, ⟨x, hx, hy⟩, hrest⟩
  unfold wellFormedSubdomain
  rw [Bool.or_eq_true, decide_eq_true_eq, hways]

end

/-! ### One listing -/

section
variable {servers : Dict Text ServerListing} {taken : TakenPorts} {listing : ProxyListing}

/-- What is asked of the routes of a listing. -/
def RoutesExist (servers : Dict Text ServerListing) (listing : ProxyListing) : Prop :=
  ∀ route ∈ listing.subdomains.items,
    (route.1 = [] ∨ IsSubdomain route.1) ∧ route.2 ∈ servers.keys

/-- Two listings want the same port, or the same voice port. -/
def Clash (listing listing' : ProxyListing) : Prop :=
  listing.port = listing'.port ∨
    ∃ voicePort, listing.voicePort = some voicePort ∧ listing'.voicePort = some voicePort

theorem valid_iff_errors : listing.valid = true ↔ listing.errors = [] := by
  unfold ProxyListing.valid
  simp

theorem error_eq_nil {p : Prop} [Decidable p] {error : Text} :
    (if p then [error] else []) = [] ↔ ¬p := by
  split
  · next h => exact iff_of_false (List.cons_ne_nil _ _) (not_not.2 h)
  · next h => exact iff_of_true rfl h

theorem portErrors_eq_nil : portErrors taken listing = [] ↔ listing.port ∉ taken.proxyPorts :=
  error_eq_nil

theorem voicePortErrors_eq_nil :
    voicePortErrors taken listing = [] ↔
      ∀ voicePort, listing.voicePort = some voicePort → voicePort ∉ taken.voicePorts := by
  unfold voicePortErrors
  cases listing.voicePort with
  | none => exact iff_of_true rfl fun voicePort h => by cases h
  | some voicePort =>
    rw [error_eq_nil]
    constructor
    · intro h voicePort' hvoice
      cases hvoice
      exact h
    · intro h
      exact h voicePort rfl

theorem routeErrors_eq_nil {route : Text × Text} :
    routeErrors servers route = [] ↔
      (route.1 = [] ∨ IsSubdomain route.1) ∧ route.2 ∈ servers.keys := by
  unfold routeErrors
  rw [List.append_eq_nil_iff, error_eq_nil, error_eq_nil, Dict.get?_eq_none, not_not, Bool.not_eq_true',
    Bool.not_eq_false, wellFormedSubdomain_iff]

/-- A listing that is marked is valid if its ports are free and its routes are right. -/
theorem valid_mark (h : listing.errors = []) :
    (listing.mark servers taken).valid = true ↔
      RoutesExist servers listing ∧ listing.port ∉ taken.proxyPorts ∧
        ∀ voicePort, listing.voicePort = some voicePort → voicePort ∉ taken.voicePorts := by
  rw [valid_iff_errors]
  unfold ProxyListing.mark RoutesExist
  rw [h, List.nil_append, List.append_eq_nil_iff, List.append_eq_nil_iff, portErrors_eq_nil,
    voicePortErrors_eq_nil, List.flatMap_eq_nil_iff]
  simp only [routeErrors_eq_nil]
  tauto

end

/-! ### The whole listing -/

section
variable {servers : Dict Text ServerListing} {taken : TakenPorts}
  {marked entries before after : List (Text × ProxyListing)} {e entry : Text × ProxyListing}

/-- The ports that are taken are those of the valid listings. -/
structure TakenPorts.Of (taken : TakenPorts) (marked : List (Text × ProxyListing)) : Prop where
  proxyPorts : ∀ port, port ∈ taken.proxyPorts ↔ ∃ e ∈ marked, e.2.valid = true ∧ e.2.port = port
  voicePorts : ∀ voicePort, voicePort ∈ taken.voicePorts ↔
    ∃ e ∈ marked, e.2.valid = true ∧ e.2.voicePort = some voicePort

theorem TakenPorts.of_nil : TakenPorts.Of {} [] where
  proxyPorts port := by simp
  voicePorts voicePort := by simp

/-- The ports of a listing are free if it clashes with no valid listing so far. -/
theorem TakenPorts.Of.free_iff (h : taken.Of marked) (listing : ProxyListing) :
    (listing.port ∉ taken.proxyPorts ∧
        ∀ voicePort, listing.voicePort = some voicePort → voicePort ∉ taken.voicePorts) ↔
      ∀ e ∈ marked, e.2.valid = true → ¬Clash e.2 listing := by
  rw [h.proxyPorts]
  simp only [h.voicePorts]
  constructor
  · rintro ⟨hport, hvoice⟩ e he hvalid (hclash | ⟨voicePort, hclash, hlisting⟩)
    · exact hport ⟨e, he, hvalid, hclash⟩
    · exact hvoice voicePort hlisting ⟨e, he, hvalid, hclash⟩
  · intro hfree
    refine ⟨?_, fun voicePort hlisting => ?_⟩
    · rintro ⟨e, he, hvalid, hclash⟩
      exact hfree e he hvalid (.inl hclash)
    · rintro ⟨e, he, hvalid, hclash⟩
      exact hfree e he hvalid (.inr ⟨voicePort, hclash, hlisting⟩)

theorem mem_proxyPorts_add {listing : ProxyListing} {port : Port} :
    port ∈ (taken.add listing).proxyPorts ↔ port ∈ taken.proxyPorts ∨ listing.port = port := by
  unfold TakenPorts.add
  rw [Finset.mem_insert, or_comm, eq_comm]

theorem mem_voicePorts_add {listing : ProxyListing} {voicePort : Port} :
    voicePort ∈ (taken.add listing).voicePorts ↔
      voicePort ∈ taken.voicePorts ∨ listing.voicePort = some voicePort := by
  unfold TakenPorts.add
  cases listing.voicePort with
  | none => simp
  | some voicePort' =>
    rw [Option.some.injEq, or_comm, eq_comm]
    exact Finset.mem_insert

theorem exists_mem_concat {P : ProxyListing → Prop} :
    (∃ e ∈ marked ++ [entry], e.2.valid = true ∧ P e.2) ↔
      (∃ e ∈ marked, e.2.valid = true ∧ P e.2) ∨ entry.2.valid = true ∧ P entry.2 := by
  simp [or_and_right, exists_or]

theorem TakenPorts.Of.step (h : taken.Of marked) (entry : Text × ProxyListing) :
    (if entry.2.valid then taken.add entry.2 else taken).Of (marked ++ [entry]) := by
  constructor
  · intro port
    rw [exists_mem_concat (P := (·.port = port)), ← h.proxyPorts]
    split
    · next hvalid => simp [mem_proxyPorts_add, hvalid]
    · next hvalid => simp [hvalid]
  · intro voicePort
    rw [exists_mem_concat (P := (·.voicePort = some voicePort)), ← h.voicePorts]
    split
    · next hvalid => simp [mem_voicePorts_add, hvalid]
    · next hvalid => simp [hvalid]

/-- **Which listings are valid**, after those that were marked before. -/
theorem valid_iff_of_markAll (hclear : ∀ e ∈ entries, e.2.errors = []) (h : taken.Of marked)
    (hsplit : markAll servers taken entries = before ++ e :: after) :
    e.2.valid = true ↔ RoutesExist servers e.2 ∧
      ∀ e' ∈ marked ++ before, e'.2.valid = true → ¬Clash e'.2 e.2 := by
  induction entries generalizing taken marked before with
  | nil =>
    have hnil : before ++ e :: after = [] := hsplit.symm
    simp at hnil
  | cons entry entries ih =>
    rw [List.forall_mem_cons] at hclear
    rw [markAll_cons] at hsplit
    cases before with
    | nil =>
      obtain ⟨rfl, -⟩ := List.cons.inj hsplit
      rw [List.append_nil]
      exact (valid_mark hclear.1).trans (and_congr_right' (h.free_iff entry.2))
    | cons first before =>
      obtain ⟨rfl, hrest⟩ := List.cons.inj hsplit
      rw [List.append_cons]
      exact ih hclear.2 (h.step _) hrest

end

namespace Config

variable {config : Config}

theorem clearErrors_eq (config : Config) (e : Text × ProxyListing)
    (he : e ∈ config.clearErrors.proxyListing.items) : e.2.errors = [] := by
  obtain ⟨e', -, rfl⟩ := List.mem_map.1 he
  rfl

theorem valid_iff {before after : List (Text × ProxyListing)} {e : Text × ProxyListing}
    (h : config.validateSemantics.proxyListing.items = before ++ e :: after) :
    e.2.valid = true ↔ RoutesExist config.serverListing e.2 ∧
      ∀ e' ∈ before, e'.2.valid = true → ¬Clash e'.2 e.2 :=
  valid_iff_of_markAll config.clearErrors_eq TakenPorts.of_nil h

theorem map_clearErrors_markAll (servers : Dict Text ServerListing) (taken : TakenPorts)
    (entries : List (Text × ProxyListing)) :
    (markAll servers taken entries).map (fun e => (e.1, e.2.clearErrors)) =
      entries.map fun e => (e.1, e.2.clearErrors) := by
  induction entries generalizing taken with
  | nil => rfl
  | cons entry entries ih =>
    rw [markAll_cons, List.map_cons, List.map_cons, ih]
    rfl

theorem eq_of_items {config' : Config}
    (hproxies : config.proxyListing.items = config'.proxyListing.items)
    (hservers : config.serverListing = config'.serverListing) : config = config' := by
  cases config
  cases config'
  obtain rfl := Dict.ext_items hproxies
  obtain rfl := hservers
  rfl

theorem clearErrors_validateSemantics (config : Config) :
    config.validateSemantics.clearErrors = config.clearErrors := by
  have hitems : config.validateSemantics.clearErrors.proxyListing.items =
      config.clearErrors.proxyListing.items := by
    refine (map_clearErrors_markAll _ _ _).trans ?_
    show (List.map _ (List.map _ _)) = List.map _ _
    rw [List.map_map]
    rfl
  exact eq_of_items hitems rfl

/-- What was found before does not count. -/
theorem validateSemantics_again (config : Config) :
    config.validateSemantics.validateSemantics = config.validateSemantics := by
  have hitems : config.validateSemantics.validateSemantics.proxyListing.items =
      config.validateSemantics.proxyListing.items := by
    show markAll _ _ config.validateSemantics.clearErrors.proxyListing.items = _
    rw [clearErrors_validateSemantics]
    rfl
  exact eq_of_items hitems rfl

end Config

theorem pairwise_of_split {α : Type} {R : α → α → Prop} {l : List α}
    (h : ∀ before a after, l = before ++ a :: after → ∀ b ∈ before, R b a) : l.Pairwise R := by
  induction l using List.reverseRecOn with
  | nil => exact .nil
  | append_singleton l a ih =>
    rw [List.pairwise_append]
    refine ⟨ih fun before b after heq => ?_, List.pairwise_singleton _ _, fun b hb c hc => ?_⟩
    · exact h before b (after ++ [a]) (by rw [heq, List.append_assoc, List.cons_append])
    · rw [List.mem_singleton.1 hc]
      exact h l a [] rfl b hb

/-- **Validation is sound, complete and repeatable.** -/
theorem Config.validation_sound (config : Config) :
    let validated := config.validateSemantics
    let listings := validated.proxyListing.items
    validated.clearErrors = config.clearErrors ∧
    listings.Pairwise (fun e e' => e.2.valid = true → e'.2.valid = true → ¬Clash e.2 e'.2) ∧
    (∀ e ∈ listings, e.2.valid = true → RoutesExist config.serverListing e.2) ∧
    (∀ before e after, listings = before ++ e :: after → e.2.valid = false →
      ¬RoutesExist config.serverListing e.2 ∨
        ∃ e' ∈ before, e'.2.valid = true ∧ Clash e'.2 e.2) ∧
    ∀ n, Config.validateSemantics^[n] validated = validated := by
  intro validated listings
  refine ⟨clearErrors_validateSemantics config, ?_, ?_, ?_, fun n => ?_⟩
  · apply pairwise_of_split
    intro before e after hsplit e' he' hvalid' hvalid
    exact ((valid_iff hsplit).1 hvalid).2 e' he' hvalid'
  · intro e he hvalid
    obtain ⟨before, after, hsplit⟩ := List.append_of_mem he
    exact ((valid_iff hsplit).1 hvalid).1
  · intro before e after hsplit hinvalid
    by_contra hnot
    rw [not_or, not_not] at hnot
    obtain ⟨hroutes, hfree⟩ := hnot
    have hvalid := (valid_iff hsplit).2 ⟨hroutes, fun e' he' hvalid' hclash =>
      hfree ⟨e', he', hvalid', hclash⟩⟩
    rw [hinvalid] at hvalid
    cases hvalid
  · exact Function.iterate_fixed (validateSemantics_again config) n

end Silkjam
