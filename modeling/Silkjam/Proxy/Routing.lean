import Silkjam.Config
import Silkjam.Lib.Regex
import Silkjam.Protocol.Fallback
import Silkjam.Protocol.Forward

/-!
# Routing

`_identify_backend` looks for the server's domain in the address that a client asks for, and finds
the backend by the subdomain before it. Both kinds of handshake use one regular expression; the
legacy ping has to match it to its end (`fullmatch`), the modern handshake only at its beginning
(`match`).

What the expression finds is described by `Host`: an address begins with the domain, or with a
subdomain and the domain. The modern branch takes the shortest subdomain (`FirstHost`), the legacy
branch the one that leaves nothing, and they route alike if these do (`routed_alike_iff`).
-/

namespace Silkjam.Proxy

open Protocol Regex

/-! ### The regular expressions -/

/-- `[a-zA-Z0-9\-]` -/
def isLabelChar (c : Char) : Bool :=
  c.isAlphanum || c = '-'

/-- `(?!-)[a-zA-Z0-9\-]+` -/
def labelRegex : Regex Char :=
  .seq (.notAhead (.text ['-'])) (.plus (.sat isLabelChar))

/-- `\.` -/
def dot : Regex Char :=
  .text ['.']

def SUBDOMAIN_REGEX : Regex Char :=
  .seq (.lazyStar (.seq labelRegex dot)) labelRegex

def DOMAIN_REGEX (DOMAIN : Text) : Regex Char :=
  .seq (.opt (.seq (.group 1 SUBDOMAIN_REGEX) dot)) (.text DOMAIN)

/-! ### Identifying the backend -/

inductive Handshake where
  | legacyPing (request : LegacyPingRequest)
  | modern (request : HandshakeRequest)

section
variable {B : Type} (DOMAIN : Text) (listing : ProxyListing) (backends : Dict Text B)

/-- The backend of a subdomain. -/
def routed (subdomain : Text) : Option B :=
  (listing.subdomains.get? subdomain).bind backends.get?

/-- `m.group(1) or ""` -/
def subdomainOf (m : Point Char) : Text :=
  (m.group? 1).getD []

/-- The branch for a legacy ping. -/
def legacyBackend (serverAddress : Text) : Option B :=
  match (DOMAIN_REGEX DOMAIN).fullmatch serverAddress with
  | some m => routed listing backends (subdomainOf m)
  | none => none

/-- The branch for a modern handshake. -/
def modernBackend (serverAddress : Text) : Option B :=
  match (DOMAIN_REGEX DOMAIN).matchPrefix serverAddress with
  | some m => routed listing backends (subdomainOf m)
  | none => none

/-- `_identify_backend`, with what it leaves of the connection. -/
def identifyBackend (atEnd : Err) (c : Connection) : Option (B × Handshake) × Connection :=
  match readLegacyPing atEnd c with
  | (.ok handshake, c) =>
    ((legacyBackend DOMAIN listing backends handshake.hostname.toList).map
      fun backend => (backend, .legacyPing handshake), c)
  | (.error err, c) =>
    if err.isProtocol then
      match readHandshakePacket atEnd c with
      | (.ok handshake, c) =>
        ((modernBackend DOMAIN listing backends handshake.serverAddress.toList).map
          fun backend => (backend, .modern handshake), c)
      | (.error _, c) => (none, c)
    else (none, c)

end

/-! ### Hosts -/

/-- A label of a host name. -/
def IsLabel (l : Text) : Prop :=
  l ≠ [] ∧ (∀ c ∈ l, isLabelChar c = true) ∧ l.head? ≠ some '-'

/-- Labels with dots between them. -/
inductive IsSubdomain : Text → Prop where
  | label {l : Text} : IsLabel l → IsSubdomain l
  | cons {l w : Text} : IsLabel l → IsSubdomain w → IsSubdomain (l ++ '.' :: w)

/-- The address begins with the domain, below the subdomain `w` or without one, and goes on with
`rest`. -/
def Host (DOMAIN address w rest : Text) : Prop :=
  w = [] ∧ address = DOMAIN ++ rest ∨ IsSubdomain w ∧ address = w ++ '.' :: (DOMAIN ++ rest)

/-- The one with the shortest subdomain, of those with one if there are any. -/
def FirstHost (DOMAIN address w rest : Text) : Prop :=
  Host DOMAIN address w rest ∧
    ∀ w' rest', Host DOMAIN address w' rest' → w' = [] ∨ w ≠ [] ∧ w.length ≤ w'.length

/-! ### What the expressions match -/

theorem isLabelChar_dot : isLabelChar '.' = false := by
  decide

/-- What is left behind a label and a dot. -/
def afterLabel : Text → Option Text
  | [] => none
  | c :: rest =>
    if isLabelChar c ∧ c ≠ '-' then
      match (c :: rest).dropWhile isLabelChar with
      | '.' :: rest => some rest
      | _ => none
    else none

theorem afterLabel_cons (c : Char) (rest : Text) :
    afterLabel (c :: rest) =
      if isLabelChar c ∧ c ≠ '-' then
        match (c :: rest).dropWhile isLabelChar with
        | '.' :: rest => some rest
        | _ => none
      else none :=
  rfl

theorem afterLabel_eq_some {a t : Text} :
    afterLabel a = some t ↔ ∃ l, IsLabel l ∧ a = l ++ '.' :: t := by
  constructor
  · intro h
    cases a with
    | nil => cases h
    | cons c rest =>
      rw [afterLabel_cons] at h
      split at h
      · next hc =>
        split at h
        · next rest' hdrop =>
          cases h
          refine ⟨(c :: rest).takeWhile isLabelChar, ⟨?_, ?_, ?_⟩, ?_⟩
          · rw [List.takeWhile_cons_of_pos hc.1]
            exact List.cons_ne_nil _ _
          · intro b hb
            exact List.all_eq_true.1 List.all_takeWhile b hb
          · rw [List.takeWhile_cons_of_pos hc.1]
            simpa using hc.2
          · rw [← hdrop, List.takeWhile_append_dropWhile]
        · cases h
      · cases h
  · rintro ⟨l, ⟨hne, hchars, hhead⟩, rfl⟩
    obtain ⟨c, l, rfl⟩ := List.exists_cons_of_ne_nil hne
    have hc : isLabelChar c = true ∧ c ≠ '-' := ⟨hchars c (by simp), by simpa using hhead⟩
    have hdrop : (c :: l ++ '.' :: t).dropWhile isLabelChar = '.' :: t := by
      rw [List.dropWhile_append_of_pos hchars, List.dropWhile_cons_of_neg (by simp [isLabelChar_dot])]
    rw [List.cons_append] at hdrop ⊢
    rw [afterLabel_cons, if_pos hc, hdrop]
    rfl

/-- The subdomains that an address begins with, each with what is left behind its dot, the shortest
one first. -/
def subdomains : Nat → Text → List (Text × Text)
  | 0, _ => []
  | n + 1, a =>
    match afterLabel a with
    | none => []
    | some t =>
      let l := a.take (a.length - (t.length + 1))
      (l, t) :: (subdomains n t).map fun (w, t') => (l ++ '.' :: w, t')

theorem subdomains_append {l : Text} (hl : IsLabel l) (t : Text) (n : Nat) :
    subdomains (n + 1) (l ++ '.' :: t) =
      (l, t) :: (subdomains n t).map fun (w, t') => (l ++ '.' :: w, t') := by
  have hlabel : (l ++ '.' :: t).take ((l ++ '.' :: t).length - (t.length + 1)) = l := by
    rw [List.length_append, List.length_cons, Nat.add_sub_cancel, List.take_left]
  rw [subdomains, afterLabel_eq_some.2 ⟨l, hl, rfl⟩]
  dsimp only
  rw [hlabel]

theorem mem_subdomains {n : Nat} {a w t : Text} (hn : a.length ≤ n) :
    (w, t) ∈ subdomains n a ↔ IsSubdomain w ∧ a = w ++ '.' :: t := by
  induction n generalizing a w with
  | zero =>
    obtain rfl : a = [] := List.length_eq_zero_iff.1 (Nat.le_zero.1 hn)
    constructor
    · intro h
      cases h
    · rintro ⟨-, h⟩
      simp at h
  | succ n ih =>
    constructor
    · intro h
      cases hafter : afterLabel a with
      | none =>
        rw [subdomains, hafter] at h
        cases h
      | some t₁ =>
        obtain ⟨l, hl, rfl⟩ := afterLabel_eq_some.1 hafter
        rw [subdomains_append hl, List.mem_cons, List.mem_map] at h
        rw [List.length_append, List.length_cons] at hn
        rcases h with h | ⟨⟨w₁, t₂⟩, hmem, h⟩
        · obtain ⟨rfl, rfl⟩ := Prod.mk.inj h
          exact ⟨.label hl, rfl⟩
        · obtain ⟨rfl, rfl⟩ := Prod.mk.inj h
          obtain ⟨hw, rfl⟩ := (ih (by omega)).1 hmem
          exact ⟨.cons hl hw, by simp⟩
    · rintro ⟨hw, rfl⟩
      cases hw with
      | label hl =>
        rw [subdomains_append hl]
        exact List.mem_cons_self
      | @cons l w' hl hw' =>
        have hmem : (w', t) ∈ subdomains n (w' ++ '.' :: t) := by
          refine (ih ?_).2 ⟨hw', rfl⟩
          simp only [List.length_append, List.length_cons] at hn ⊢
          omega
        rw [List.append_assoc, List.cons_append, subdomains_append hl]
        exact List.mem_cons_of_mem _ (List.mem_map_of_mem hmem)

theorem IsSubdomain.ne_nil {w : Text} (h : IsSubdomain w) : w ≠ [] := by
  cases h with
  | label hl => exact hl.1
  | cons hl hw => simp

theorem subdomains_sorted (n : Nat) (a : Text) :
    (subdomains n a).Pairwise fun x y => x.1.length < y.1.length := by
  induction n generalizing a with
  | zero => exact .nil
  | succ n ih =>
    cases hafter : afterLabel a with
    | none =>
      rw [subdomains, hafter]
      exact .nil
    | some t =>
      obtain ⟨l, hl, rfl⟩ := afterLabel_eq_some.1 hafter
      rw [subdomains_append hl, List.pairwise_cons]
      constructor
      · intro x hx
        obtain ⟨⟨w, t'⟩, -, rfl⟩ := List.mem_map.1 hx
        simp
      · rw [List.pairwise_map]
        refine (ih t).imp fun h => ?_
        simpa using h

/-! ### The ways of the expression -/

section
variable {β : Type} {F : Point Char → List β} {groups : List (Nat × Text)}

/-- A label, seen from what comes after it and needs a dot. -/
theorem ways_label_flatMap (hF : ∀ y : Point Char, y.rest.head? ≠ some '.' → F y = []) (a : Text) :
    (labelRegex.ways ⟨a, groups⟩).flatMap F =
      match afterLabel a with
      | some t => F ⟨'.' :: t, groups⟩
      | none => [] := by
  unfold labelRegex
  rw [ways_seq]
  cases a with
  | nil => rfl
  | cons c rest =>
    rw [ways_notAhead_text_singleton, afterLabel_cons]
    by_cases hc : c = '-'
    · subst hc
      simp
    · rw [if_neg (Ne.symm hc), List.flatMap_singleton, ways_plus_sat_flatMap]
      · by_cases hlabel : isLabelChar c = true
        · rw [if_pos hlabel, if_pos ⟨hlabel, hc⟩]
          split
          · next t heq =>
            split at heq
            · next t' hdrop =>
              cases heq
              rw [hdrop]
            · cases heq
          · next heq =>
            split at heq
            · cases heq
            · next hne =>
              apply hF
              intro hhead
              obtain ⟨t, ht⟩ := List.head?_eq_some_iff.1 hhead
              exact hne t ht
        · rw [if_neg hlabel, if_neg fun h => hlabel h.1]
      · intro b rest groups hb
        apply hF
        rintro ⟨⟩
        rw [isLabelChar_dot] at hb
        cases hb

theorem ways_dot_of_head {y : Point Char} (h : y.rest.head? ≠ some '.') : dot.ways y = [] := by
  unfold dot
  rw [ways_text, if_neg]
  intro hprefix
  obtain ⟨t, ht⟩ := hprefix
  rw [← ht] at h
  exact h rfl

theorem ways_dot_cons (t : Text) : dot.ways ⟨'.' :: t, groups⟩ = [⟨t, groups⟩] := by
  unfold dot
  rw [ways_text]
  simp

theorem ways_label_dot (a : Text) :
    (Regex.seq labelRegex dot).ways ⟨a, groups⟩ =
      match afterLabel a with
      | some t => [⟨t, groups⟩]
      | none => [] := by
  rw [ways_seq, ways_label_flatMap fun y => ways_dot_of_head]
  cases afterLabel a with
  | none => rfl
  | some t => exact ways_dot_cons t

theorem length_afterLabel {a t : Text} (h : afterLabel a = some t) : t.length < a.length := by
  obtain ⟨l, -, rfl⟩ := afterLabel_eq_some.1 h
  rw [List.length_append, List.length_cons]
  omega

variable (groups) in
/-- The labels with their dots are passed one by one, each time with a last label behind them. -/
theorem repeatLazy_flatMap (hF : ∀ y : Point Char, y.rest.head? ≠ some '.' → F y = []) (n : Nat)
    (a : Text) :
    (repeatLazy (Regex.seq labelRegex dot).ways n ⟨a, groups⟩).flatMap
        (fun y => (labelRegex.ways y).flatMap F) =
      (subdomains (n + 1) a).flatMap fun x => F ⟨'.' :: x.2, groups⟩ := by
  induction n generalizing a with
  | zero =>
    rw [repeatLazy, List.flatMap_singleton, ways_label_flatMap hF, subdomains]
    cases afterLabel a with
    | none => rfl
    | some t => simp [subdomains]
  | succ n ih =>
    rw [repeatLazy, List.flatMap_cons, ways_label_flatMap hF, ways_label_dot, subdomains]
    cases hafter : afterLabel a with
    | none => rfl
    | some t =>
      rw [List.filter_cons_of_pos (by simpa using length_afterLabel hafter), List.filter_nil,
        List.flatMap_singleton, ih, List.flatMap_cons, List.flatMap_map]

/-- **The subdomain and its dot** are passed in the order of `subdomains`. -/
theorem ways_subdomain_dot (a : Text) :
    (Regex.seq (.group 1 SUBDOMAIN_REGEX) dot).ways ⟨a, []⟩ =
      (subdomains (a.length + 1) a).map fun x => ⟨x.2, [(1, x.1)]⟩ := by
  have hF (y : Point Char) (h : y.rest.head? ≠ some '.') :
      dot.ways (y.capture 1 (Point.textTo ⟨a, []⟩ y)) = [] :=
    ways_dot_of_head h
  have hways := repeatLazy_flatMap [] hF a.length a
  rw [ways_seq, ways_group, List.flatMap_map]
  unfold SUBDOMAIN_REGEX
  rw [ways_seq, List.flatMap_assoc]
  refine hways.trans ?_
  rw [← List.flatMap_singleton' (List.map _ _), List.flatMap_map]
  apply List.flatMap_congr
  rintro ⟨w, t⟩ hmem
  obtain ⟨-, rfl⟩ := (mem_subdomains (Nat.le_succ _)).1 hmem
  have htext : Point.textTo ⟨w ++ '.' :: t, []⟩ ⟨'.' :: t, []⟩ = w := by
    unfold Point.textTo
    rw [List.length_append, Nat.add_sub_cancel, List.take_left]
  show dot.ways ⟨'.' :: t, [(1, Point.textTo ⟨w ++ '.' :: t, []⟩ ⟨'.' :: t, []⟩)]⟩ = _
  rw [htext, ways_dot_cons]

end

/-! ### The hosts that an address begins with -/

section
variable {B : Type} {DOMAIN address w w' rest rest' : Text} {listing : ProxyListing}
  {backends : Dict Text B}

/-- What is left behind the domain. -/
def behindDomain (DOMAIN : Text) (x : Text × Text) : List (Text × Text) :=
  if DOMAIN <+: x.2 then [(x.1, x.2.drop DOMAIN.length)] else []

/-- The hosts that the expression finds, in its order. -/
def hosts (DOMAIN address : Text) : List (Text × Text) :=
  (subdomains (address.length + 1) address ++ [([], address)]).flatMap (behindDomain DOMAIN)

theorem hosts_eq : hosts DOMAIN address =
    ((DOMAIN_REGEX DOMAIN).ways ⟨address, []⟩).map fun m => (subdomainOf m, m.rest) := by
  have hbehind (w t : Text) (groups : List (Nat × Text)) (hw : subdomainOf ⟨t, groups⟩ = w) :
      ((Regex.text DOMAIN).ways ⟨t, groups⟩).map (fun m => (subdomainOf m, m.rest)) =
        behindDomain DOMAIN (w, t) := by
    subst hw
    unfold behindDomain
    rw [ways_text]
    dsimp only
    split <;> rfl
  unfold hosts DOMAIN_REGEX
  rw [ways_seq, ways_opt, ways_subdomain_dot, List.map_flatMap, List.flatMap_append,
    List.flatMap_append, List.flatMap_map, List.flatMap_singleton, List.flatMap_singleton,
    hbehind [] address [] rfl]
  congr 1
  apply List.flatMap_congr
  rintro ⟨w, t⟩ -
  exact (hbehind w t [(1, w)] rfl).symm

theorem mem_behindDomain {x : Text × Text} :
    (w, rest) ∈ behindDomain DOMAIN x ↔ x = (w, DOMAIN ++ rest) := by
  obtain ⟨w₁, t⟩ := x
  unfold behindDomain
  dsimp only
  split
  · next hprefix =>
    obtain ⟨s, rfl⟩ := hprefix
    rw [List.drop_left, List.mem_singleton]
    simp [eq_comm]
  · next hno =>
    constructor
    · intro h
      cases h
    · intro h
      obtain ⟨-, rfl⟩ := Prod.mk.inj h
      exact absurd (List.prefix_append _ _) hno

theorem mem_hosts : (w, rest) ∈ hosts DOMAIN address ↔ Host DOMAIN address w rest := by
  unfold hosts
  simp only [List.mem_flatMap, mem_behindDomain, exists_eq_right, List.mem_append,
    List.mem_singleton, mem_subdomains (Nat.le_succ _), Prod.mk.injEq]
  unfold Host
  rw [or_comm, eq_comm (a := DOMAIN ++ rest)]

theorem hosts_sorted : (hosts DOMAIN address).Pairwise fun x y =>
    y.1 = [] ∨ x.1 ≠ [] ∧ x.1.length ≤ y.1.length := by
  unfold hosts
  rw [List.pairwise_flatMap]
  constructor
  · rintro x -
    unfold behindDomain
    split
    · exact List.pairwise_singleton _ _
    · exact .nil
  · have hbehind {x y : Text × Text} (hx : x ∈ behindDomain DOMAIN y) : x.1 = y.1 := by
      rw [mem_behindDomain.1 hx]
    rw [List.pairwise_append]
    refine ⟨?_, List.pairwise_singleton _ _, ?_⟩
    · have hne (y : Text × Text) (hy : y ∈ subdomains (address.length + 1) address) : y.1 ≠ [] :=
        ((mem_subdomains (Nat.le_succ _)).1 hy).1.ne_nil
      refine (subdomains_sorted _ _).imp_of_mem ?_
      intro y z hy _ hlt x hx x' hx'
      rw [hbehind hx, hbehind hx']
      exact .inr ⟨hne y hy, Nat.le_of_lt hlt⟩
    · rintro y hy z hz x hx x' hx'
      rw [List.mem_singleton.1 hz] at hx'
      exact .inl (hbehind hx')

/-! ### What is matched -/

theorem modernBackend_eq :
    modernBackend DOMAIN listing backends address =
      (hosts DOMAIN address).head?.bind fun x => routed listing backends x.1 := by
  rw [hosts_eq, List.head?_map]
  unfold modernBackend matchPrefix
  cases ((DOMAIN_REGEX DOMAIN).ways ⟨address, []⟩).head? <;> rfl

/-- The legacy branch takes the first host that is the whole address. -/
theorem legacyBackend_eq :
    legacyBackend DOMAIN listing backends address =
      ((hosts DOMAIN address).find? fun x => x.2.isEmpty).bind
        fun x => routed listing backends x.1 := by
  rw [hosts_eq, List.find?_map]
  unfold legacyBackend fullmatch
  have hfind : ((fun x : Text × Text => x.2.isEmpty) ∘
      fun m : Point Char => (subdomainOf m, m.rest)) = fun m => m.rest.isEmpty := rfl
  rw [hfind]
  cases ((DOMAIN_REGEX DOMAIN).ways ⟨address, []⟩).find? fun m => m.rest.isEmpty <;> rfl

theorem firstHost_of_head (h : (hosts DOMAIN address).head? = some (w, rest)) :
    FirstHost DOMAIN address w rest := by
  obtain ⟨l, hl⟩ := List.head?_eq_some_iff.1 h
  have hsorted : (hosts DOMAIN address).Pairwise _ := hosts_sorted
  rw [hl, List.pairwise_cons] at hsorted
  refine ⟨mem_hosts.1 (hl ▸ List.mem_cons_self), ?_⟩
  intro w' rest' hhost
  have hmem := mem_hosts.2 hhost
  rw [hl] at hmem
  rcases List.mem_cons.1 hmem with heq | hmem
  · obtain ⟨rfl, -⟩ := Prod.mk.inj heq
    by_cases hw : w' = []
    · exact .inl hw
    · exact .inr ⟨hw, Nat.le_refl _⟩
  · exact hsorted.1 _ hmem

theorem Host.unique (h : Host DOMAIN address w rest) (h' : Host DOMAIN address w' rest')
    (hlength : w.length = w'.length) : w = w' ∧ rest = rest' := by
  rcases h with ⟨rfl, rfl⟩ | ⟨hw, rfl⟩
  · rcases h' with ⟨rfl, h'⟩ | ⟨hw', -⟩
    · exact ⟨rfl, List.append_cancel_left h'⟩
    · exact absurd (List.length_eq_zero_iff.1 hlength.symm) hw'.ne_nil
  · rcases h' with ⟨rfl, -⟩ | ⟨-, h'⟩
    · exact absurd (List.length_eq_zero_iff.1 hlength) hw.ne_nil
    · obtain ⟨rfl, htail⟩ := List.append_inj h' hlength
      exact ⟨rfl, List.append_cancel_left (List.cons.inj htail).2⟩

theorem FirstHost.unique (h : FirstHost DOMAIN address w rest)
    (h' : FirstHost DOMAIN address w' rest') : w = w' ∧ rest = rest' := by
  apply h.1.unique h'.1
  have h₁ := h.2 w' rest' h'.1
  have h₂ := h'.2 w rest h.1
  rcases h₁ with rfl | ⟨hne, hle⟩
  · rcases h₂ with rfl | ⟨hne', -⟩
    · rfl
    · exact absurd rfl hne'
  · rcases h₂ with rfl | ⟨-, hle'⟩
    · exact absurd rfl hne
    · exact Nat.le_antisymm hle hle'

theorem Host.unique_whole (h : Host DOMAIN address w []) (h' : Host DOMAIN address w' []) :
    w = w' := by
  rcases h with ⟨rfl, rfl⟩ | ⟨hw, rfl⟩
  · rcases h' with ⟨rfl, -⟩ | ⟨-, h'⟩
    · rfl
    · have hlength := congrArg List.length h'
      simp only [List.length_append, List.length_cons, List.length_nil] at hlength
      omega
  · rcases h' with ⟨rfl, h'⟩ | ⟨-, h'⟩
    · have hlength := congrArg List.length h'
      simp only [List.length_append, List.length_cons, List.length_nil] at hlength
      omega
    · exact List.append_cancel_right h'

theorem legacyBackend_eq_some {b : B} :
    legacyBackend DOMAIN listing backends address = some b ↔
      ∃ w, Host DOMAIN address w [] ∧ routed listing backends w = some b := by
  rw [legacyBackend_eq, Option.bind_eq_some_iff]
  constructor
  · rintro ⟨⟨w, rest⟩, hfind, hrouted⟩
    have hrest : rest.isEmpty = true := by simpa using List.find?_some hfind
    obtain rfl : rest = [] := List.isEmpty_iff.1 hrest
    exact ⟨w, mem_hosts.1 (List.mem_of_find?_eq_some hfind), hrouted⟩
  · rintro ⟨w, hhost, hrouted⟩
    have hsome : ((hosts DOMAIN address).find? fun x => x.2.isEmpty).isSome = true :=
      List.find?_isSome.2 ⟨(w, []), mem_hosts.2 hhost, rfl⟩
    obtain ⟨⟨w', rest⟩, hfind⟩ := Option.isSome_iff_exists.1 hsome
    have hrest : rest.isEmpty = true := by simpa using List.find?_some hfind
    obtain rfl : rest = [] := List.isEmpty_iff.1 hrest
    obtain rfl := hhost.unique_whole (mem_hosts.1 (List.mem_of_find?_eq_some hfind))
    exact ⟨_, hfind, hrouted⟩

end

/-- **Both branches route an address alike** exactly if the first host that it begins with is the
whole address, or is routed as the whole address is. -/
theorem routed_alike_iff {B : Type} (DOMAIN : Text) (listing : ProxyListing)
    (backends : Dict Text B) (address : Text) :
    modernBackend DOMAIN listing backends address =
        legacyBackend DOMAIN listing backends address ↔
      ∀ w rest, FirstHost DOMAIN address w rest → rest ≠ [] → ∀ b,
        routed listing backends w = some b ↔
          ∃ w', Host DOMAIN address w' [] ∧ routed listing backends w' = some b := by
  cases hhead : (hosts DOMAIN address).head? with
  | none =>
    have hnil : hosts DOMAIN address = [] := List.head?_eq_none_iff.1 hhead
    have hnone (w rest : Text) : ¬ Host DOMAIN address w rest := by
      intro hhost
      have hmem := mem_hosts.2 hhost
      rw [hnil] at hmem
      cases hmem
    rw [modernBackend_eq, legacyBackend_eq, hnil]
    constructor
    · intro _ w rest hfirst
      exact absurd hfirst.1 (hnone w rest)
    · intro _
      rfl
  | some host =>
    obtain ⟨w, rest⟩ := host
    have hfirst := firstHost_of_head hhead
    have hmodern : modernBackend DOMAIN listing backends address = routed listing backends w := by
      rw [modernBackend_eq, hhead]
      rfl
    rw [hmodern]
    constructor
    · intro halike w' rest' hfirst' _ b
      obtain ⟨rfl, rfl⟩ := hfirst.unique hfirst'
      rw [halike]
      exact legacyBackend_eq_some
    · intro halike
      apply Option.ext
      intro b
      rw [legacyBackend_eq_some]
      by_cases hrest : rest = []
      · subst hrest
        constructor
        · intro hrouted
          exact ⟨w, hfirst.1, hrouted⟩
        · rintro ⟨w', hhost, hrouted⟩
          rwa [hfirst.1.unique_whole hhost]
      · exact halike w rest hfirst hrest b

/-- The characters of a host name. -/
def IsHostname (address : Text) : Prop :=
  ∀ c ∈ address, isLabelChar c = true ∨ c = '.'

instance (address : Text) : Decidable (IsHostname address) :=
  List.decidableBAll (fun c => isLabelChar c = true ∨ c = '.') address

/-- The address `mcx` is no host of the domain `mc`, but begins with it. -/
theorem not_routed_alike : ¬ ∀ (DOMAIN : Text) (listing : ProxyListing) (backends : Dict Text Nat)
    (address : Text), IsHostname address →
      modernBackend DOMAIN listing backends address =
        legacyBackend DOMAIN listing backends address := by
  intro h
  have halike := h ['m', 'c']
    { port := ⟨25565, by decide⟩, enabled := true, subdomains := ⟨[([], ['s'])], by decide⟩ }
    ⟨[(['s'], 0)], by decide⟩ ['m', 'c', 'x'] (by decide)
  revert halike
  decide

end Silkjam.Proxy
