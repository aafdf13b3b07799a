import Silkjam.Api.StaticAuth
import Silkjam.Lib.Transition
import Silkjam.Models.ConfigFile

/-!
# Where the configuration is

The configuration is in a file, which the orchestrator loads when it starts and writes whenever a
backend detects another version of its server, and in the API, which gets it once, when it connects.
A dump is cut short by the end of the process, between two characters, and leaves a part of the
text. Unless somebody edits the file, what is loaded at
the next start is the configuration that was to be dumped, or nothing, or, if nothing had been
written, the default (`config_survives`). What differs between the API and the orchestrator are only
versions, so the API decides about static files as if it had the orchestrator's configuration
(`api_agrees`).
-/

namespace Silkjam.Orchestrator

open Json (Coercions)

open Transition

/-- `jsondiff.patch`; a document that is patched into an empty one is what it was. -/
structure Patching where
  patch : Json → Json → Json
  patch_empty : ∀ members, patch (.obj []) (.obj members) = .obj members

/-- The file, and the configurations of those that run. -/
structure Stored where
  /-- `config.json` -/
  file : Text
  /-- the orchestrator's configuration -/
  config : Option Models.Config := none
  /-- the configuration that was last dumped, maybe not completely -/
  dumped : Option Models.Config := none
  /-- somebody wrote the file after that -/
  edited : Bool := false
  /-- `_config` of the API -/
  api : Option Models.Config := none

namespace Stored

inductive Action where
  /-- `MCOrchestrator._start`, with how much of the file is written before the process dies -/
  | start (cut : Option Nat)
  /-- the orchestrator ends -/
  | stop
  /-- `update_stats` of a backend detects a version -/
  | updateStats (name : Text) (version : Version) (cut : Option Nat)
  /-- somebody writes the file -/
  | edit (file : Text)
  /-- the API starts and connects to the orchestrator -/
  | connect

def setVersion (c : Models.Config) (name : Text) (listing : Models.ServerListing)
    (version : Version) : Models.Config :=
  { c with serverListing := c.serverListing.set name { listing with version } }

section
variable (D : Coercions) (J : Patching)

/-- `config.dump(path)`; the orchestrator goes on with `c'` unless it dies. -/
def dump (s : Stored) (c c' : Models.Config) (cut : Option Nat) : Stored :=
  match cut with
  | none => { s with file := c.dump D, config := some c', dumped := some c', edited := false }
  | some n =>
    { s with file := (c.dump D).take n, config := none, dumped := some c', edited := false }

/-- What `websocket_config` sends. -/
def message (c : Models.Config) : Text :=
  Json.write .compact 0 ((Models.config D).dump c)

/-- What `update_config` of the API makes of a message. -/
def receive (message : Text) : Option Models.Config :=
  (Json.loads message).bind fun update => Models.Config.modelValidate D (J.patch (.obj []) update)

def step (s : Stored) : Action → Option Stored
  | .start cut =>
    match s.config with
    | some _ => none
    | none =>
      match Models.Config.load D s.file with
      | (some c, file) => some ({ s with file }.dump D c c cut)
      | (none, file) => some { s with file }
  | .stop => s.config.map fun _ => { s with config := none }
  | .updateStats name version cut => do
    let c ← s.config
    let listing ← c.serverListing.get? name
    if listing.version ≠ version then
      let c' := setVersion c name listing version
      return s.dump D c' c'.validateSemantics cut
    else return s
  | .edit file => some { s with file, edited := true }
  | .connect => do
    let c ← s.config
    return { s with api := receive D J (message D c) }

end

/-! ### Versions -/

/-- Which servers there are is all that matters of them. -/
theorem markAll_congr {servers servers' : Dict Text ServerListing}
    (h : ∀ name, servers.get? name = none ↔ servers'.get? name = none) (taken : TakenPorts)
    (entries : List (Text × ProxyListing)) :
    markAll servers taken entries = markAll servers' taken entries := by
  have hroutes : routeErrors servers = routeErrors servers' := by
    funext route
    unfold routeErrors
    simp only [h]
  have hmark (listing : ProxyListing) (taken : TakenPorts) :
      listing.mark servers taken = listing.mark servers' taken := by
    unfold ProxyListing.mark
    rw [hroutes]
  induction entries generalizing taken with
  | nil => rfl
  | cons entry entries ih => rw [markAll_cons, markAll_cons, hmark, ih]

section
variable {c : Models.Config} {name : Text} {listing : Models.ServerListing}

theorem get?_base_setVersion (hget : c.serverListing.get? name = some listing)
    (version : Version) (name' : Text) :
    (setVersion c name listing version).base.serverListing.get? name' = none ↔
      c.base.serverListing.get? name' = none := by
  unfold setVersion Models.Config.base
  rw [Dict.get?_map, Dict.get?_map, Option.map_eq_none_iff, Option.map_eq_none_iff, Dict.get?_set]
  split
  · next heq =>
    rw [heq, hget]
    exact iff_of_false (Option.some_ne_none _) (Option.some_ne_none _)
  · rfl

theorem loaded_setVersion (h : c.Loaded) (hget : c.serverListing.get? name = some listing)
    (version : Version) : (setVersion c name listing version).Loaded := by
  constructor
  · have hproxies : (setVersion c name listing version).base.validateSemantics.proxyListing =
        c.base.validateSemantics.proxyListing :=
      Dict.ext_items (markAll_congr (get?_base_setVersion hget version) {} _)
    have hvalidated := congrArg Models.Config.proxyListing h.validated
    unfold Models.Config.validateSemantics at hvalidated ⊢
    rw [hproxies]
    unfold setVersion
    exact congrArg (fun proxies => { c with
      proxyListing := proxies
      serverListing := c.serverListing.set name { listing with version } }) hvalidated
  · intro e he
    rcases Dict.mem_set.1 he with rfl | ⟨-, he⟩
    · exact h.servers (name, listing) (Dict.mem_items.2 hget)
    · exact h.servers e he

end

/-! ### The file -/

section
variable {D : Coercions} {J : Patching} {s s' : Stored} {a : Action} {c c' : Models.Config}

theorem load_of_none {file : Text} (h : (Models.Config.load D file).1 = none) :
    Models.Config.load D file = (none, file) := by
  unfold Models.Config.load at h ⊢
  split
  · next hempty =>
    rw [if_pos hempty] at h
    cases h
  · next hempty =>
    rw [if_neg hempty] at h
    exact Prod.ext h rfl

theorem step_cases (hstep : s.step D J a = some s') :
    (∃ cut c file, a = .start cut ∧ s.config = none ∧
      Models.Config.load D s.file = (some c, file) ∧ s' = { s with file }.dump D c c cut) ∨
    (∃ cut, a = .start cut ∧ s.config = none ∧ (Models.Config.load D s.file).1 = none ∧ s' = s) ∨
    (∃ c, a = .stop ∧ s.config = some c ∧ s' = { s with config := none }) ∨
    (∃ name version cut c listing, a = .updateStats name version cut ∧ s.config = some c ∧
      c.serverListing.get? name = some listing ∧
      s' = s.dump D (setVersion c name listing version)
        (setVersion c name listing version).validateSemantics cut) ∨
    (∃ name version cut, a = .updateStats name version cut ∧ s' = s) ∨
    (∃ file, a = .edit file ∧ s' = { s with file, edited := true }) ∨
    ∃ c, a = .connect ∧ s.config = some c ∧ s' = { s with api := receive D J (message D c) } := by
  cases a with
  | start cut =>
    simp only [step] at hstep
    split at hstep
    · cases hstep
    · next hconfig =>
      split at hstep
      · next c file hload =>
        exact .inl ⟨cut, c, file, rfl, hconfig, hload, (Option.some.inj hstep).symm⟩
      · next file hload =>
        have hnone : (Models.Config.load D s.file).1 = none := congrArg Prod.fst hload
        rw [load_of_none hnone] at hload
        cases hload
        exact .inr (.inl ⟨cut, rfl, hconfig, hnone, (Option.some.inj hstep).symm⟩)
  | stop =>
    obtain ⟨c, hconfig, rfl⟩ := Option.map_eq_some_iff.1 hstep
    exact .inr (.inr (.inl ⟨c, rfl, hconfig, rfl⟩))
  | updateStats name version cut =>
    simp only [step, Option.bind_eq_bind, Option.bind_eq_some_iff] at hstep
    obtain ⟨c, hconfig, listing, hget, hstep⟩ := hstep
    split at hstep
    · exact .inr (.inr (.inr (.inl ⟨name, version, cut, c, listing, rfl, hconfig, hget,
        (Option.some.inj hstep).symm⟩)))
    · exact .inr (.inr (.inr (.inr (.inl ⟨name, version, cut, rfl,
        (Option.some.inj hstep).symm⟩))))
  | edit file =>
    exact .inr (.inr (.inr (.inr (.inr (.inl ⟨file, rfl, (Option.some.inj hstep).symm⟩)))))
  | connect =>
    simp only [step, Option.bind_eq_bind, Option.bind_eq_some_iff] at hstep
    obtain ⟨c, hconfig, hstep⟩ := hstep
    exact .inr (.inr (.inr (.inr (.inr (.inr ⟨c, rfl, hconfig, (Option.some.inj hstep).symm⟩)))))

/-- What was dumped last is what the orchestrator has, and, if nobody wrote the file, a part of it is
in the file, or all if the orchestrator runs. -/
structure Kept (D : Coercions) (s : Stored) : Prop where
  loaded : ∀ c, s.dumped = some c → c.Loaded
  running : ∀ c, s.config = some c → s.dumped = some c
  part : ∀ c, s.dumped = some c → s.edited = false → s.file <+: c.dump D
  whole : ∀ c, s.config = some c → s.edited = false → s.file = c.dump D

theorem kept_init (D : Coercions) (file : Text) : Kept D { file } where
  loaded := nofun
  running := nofun
  part := nofun
  whole := nofun

theorem kept_dump (hc : c.Loaded) (s : Stored) (cut : Option Nat) : Kept D (s.dump D c c cut) := by
  cases cut with
  | none =>
    constructor
    · rintro c' ⟨⟩
      exact hc
    · exact fun c' h => h
    · rintro c' ⟨⟩ -
      exact List.prefix_refl _
    · rintro c' ⟨⟩ -
      rfl
  | some n =>
    constructor
    · rintro c' ⟨⟩
      exact hc
    · nofun
    · rintro c' ⟨⟩ -
      exact List.take_prefix n _
    · nofun

theorem Kept.step (h : Kept D s) (hstep : s.step D J a = some s') : Kept D s' := by
  obtain ⟨cut, c, file, rfl, -, hload, rfl⟩ | ⟨cut, rfl, -, -, rfl⟩ | ⟨c, rfl, -, rfl⟩ |
    ⟨name, version, cut, c, listing, rfl, hconfig, hget, rfl⟩ | ⟨name, version, cut, rfl, rfl⟩ |
    ⟨file, rfl, rfl⟩ | ⟨c, rfl, -, rfl⟩ := step_cases hstep
  · exact kept_dump (Models.Config.loaded_of_load hload) _ cut
  · exact h
  · exact ⟨h.loaded, nofun, h.part, nofun⟩
  · have hc := loaded_setVersion (h.loaded c (h.running c hconfig)) hget version
    rw [hc.validated]
    exact kept_dump hc s cut
  · exact h
  · exact ⟨h.loaded, h.running, nofun, nofun⟩
  · exact ⟨h.loaded, h.running, h.part, h.whole⟩

theorem Kept.start {cut : Option Nat} (h : Kept D s) (hdumped : s.dumped = some c)
    (hedited : s.edited = false) (hstep : s.step D J (.start cut) = some s') :
    s'.dumped = some c ∨ s' = s ∨ s.file = [] ∧ s'.dumped = some .default := by
  obtain ⟨cut', c', file, -, -, hload, rfl⟩ | ⟨_, -, -, -, rfl⟩ | ⟨_, heq, -⟩ |
    ⟨_, _, _, _, _, heq, -⟩ | ⟨_, _, _, heq, -⟩ | ⟨_, heq, -⟩ | ⟨_, heq, -⟩ := step_cases hstep
  · have hdump : (Stored.dump D { s with file } c' c' cut').dumped = some c' := by
      cases cut' with
      | none => rfl
      | some n => rfl
    rw [hdump]
    rcases Models.Config.load_of_prefix (h.loaded c hdumped) (h.part c hdumped hedited) hload with
      ⟨-, rfl⟩ | ⟨hempty, rfl⟩
    · exact .inl rfl
    · exact .inr (.inr ⟨hempty, rfl⟩)
  · exact .inr (.inl rfl)
  all_goals
    cases heq

end

/-- **The configuration survives.** If nobody edited the file since it was last dumped, the file of a
running orchestrator is loaded as the configuration it has, which it has again when it is started
anew. If the dump was cut short, the next start dumps the same configuration again, or fails and
leaves everything as it was, or, if nothing at all had been written, begins with the default. -/
theorem config_survives (D : Coercions) (J : Patching) (file : Text) {s : Stored}
    (h : Reach (step D J) (fun _ _ => True) { file } s) (hedited : s.edited = false) :
    (∀ c, s.config = some c → Models.Config.load D s.file = (some c, s.file) ∧
      ∀ s₁ s₂, s.step D J .stop = some s₁ → s₁.step D J (.start none) = some s₂ →
        s₂.config = some c) ∧
    ∀ c, s.dumped = some c → ∀ cut s', s.step D J (.start cut) = some s' →
      s'.dumped = some c ∨ s' = s ∨ s.file = [] ∧ s'.dumped = some .default := by
  have hkept : Kept D s :=
    h.invariant (P := Kept D) (kept_init D file) fun s a s' hs _ hstep => hs.step hstep
  refine ⟨fun c hconfig => ?_, fun c hdumped cut s' hstep => hkept.start hdumped hedited hstep⟩
  have hc := hkept.loaded c (hkept.running c hconfig)
  have hload : Models.Config.load D s.file = (some c, s.file) := by
    rw [hkept.whole c hconfig hedited]
    exact Models.Config.load_dump hc
  refine ⟨hload, fun s₁ s₂ hstop hstart => ?_⟩
  simp only [step, hconfig, Option.map_some, Option.some.injEq] at hstop
  subst hstop
  simp only [step, hload, Option.some.injEq] at hstart
  rw [← hstart]
  rfl

/-! ### The API -/

/-- The configuration but for the versions of its servers. -/
def unversioned (c : Models.Config) : Models.Config :=
  { c with serverListing := c.serverListing.map fun listing =>
      { listing with version := UNKNOWN_VERSION } }

/-- A step that neither edits the file nor tears it. -/
def Undisturbed : Action → Prop
  | .start cut => cut = none
  | .updateStats _ _ cut => cut = none
  | .edit _ => False
  | _ => True

section
variable {D : Coercions} {J : Patching} {s s' : Stored} {a : Action} {c : Models.Config}
  {name : Text} {listing : Models.ServerListing}

theorem unversioned_setVersion (hget : c.serverListing.get? name = some listing)
    (version : Version) : unversioned (setVersion c name listing version) = unversioned c := by
  have hmem : (name, listing) ∈ c.serverListing.items := Dict.mem_items.2 hget
  have hkey : name ∈ c.serverListing.keys := List.mem_map_of_mem hmem
  have hservers : ((c.serverListing.set name { listing with version }).map fun listing =>
      { listing with version := UNKNOWN_VERSION }) =
      c.serverListing.map fun listing => { listing with version := UNKNOWN_VERSION } := by
    apply Dict.ext_items
    unfold Dict.map Dict.set
    rw [dif_pos hkey]
    dsimp only
    rw [List.map_map]
    apply List.map_congr_left
    intro e he
    dsimp only [Function.comp_apply]
    split
    · next heq =>
      have hvalue : e.2 = listing := c.serverListing.eq_of_mem (k := name) (heq ▸ he) hmem
      rw [hvalue, heq]
    · rfl
  unfold unversioned
  rw [show (setVersion c name listing version).serverListing =
    c.serverListing.set name { listing with version } from rfl, hservers]
  rfl

theorem receive_message (hc : c.Loaded) : receive D J (message D c) = some c := by
  have hloads : Json.loads (message D c) = some ((Models.config D).dump c) :=
    (Models.config D).loads_dump .compact c
  unfold receive
  rw [hloads, Option.bind_some,
    show J.patch (.obj []) ((Models.config D).dump c) = (Models.config D).dump c from
      J.patch_empty _]
  exact Models.Config.modelValidate_dump hc

/-- The decision depends on which servers are enabled. -/
theorem authStaticPath_congr {config config' : Config}
    (h : ∀ name, (config.serverListing.get? name).map ServerListing.enabled =
      (config'.serverListing.get? name).map ServerListing.enabled) (xFilepath : Text) :
    Api.authStaticPath config xFilepath = Api.authStaticPath config' xFilepath := by
  unfold Api.authStaticPath
  dsimp only
  cases (Api.relpath xFilepath).parts with
  | nil => rfl
  | cons first parts =>
    dsimp only
    split
    · rfl
    · split
      · split
        · rfl
        · next serverName _ =>
          have hname := h serverName
          cases hget : config.serverListing.get? serverName with
          | none =>
            rw [hget] at hname
            rw [Option.map_eq_none_iff.1 hname.symm]
          | some listing =>
            rw [hget] at hname
            obtain ⟨listing', hget', henabled⟩ := Option.map_eq_some_iff.1 hname.symm
            rw [hget']
            dsimp only
            rw [henabled]
      · rfl

theorem authStaticPath_of_unversioned {c' : Models.Config}
    (h : unversioned c = unversioned c') (xFilepath : Text) :
    Api.authStaticPath c.base xFilepath = Api.authStaticPath c'.base xFilepath := by
  have henabled (c : Models.Config) (name : Text) :
      (c.base.serverListing.get? name).map ServerListing.enabled =
        ((unversioned c).serverListing.get? name).map Models.ServerListing.enabled := by
    unfold unversioned Models.Config.base
    rw [Dict.get?_map, Dict.get?_map, Option.map_map, Option.map_map]
    rfl
  apply authStaticPath_congr
  intro name
  rw [henabled, henabled, h]

/-- The API has what was dumped last but for the versions, and the file has all of that. -/
structure Mirrored (D : Coercions) (s : Stored) (a c : Models.Config) : Prop where
  api : s.api = some a
  dumped : s.dumped = some c
  unversioned_eq : unversioned a = unversioned c
  edited : s.edited = false
  file : s.file = c.dump D

theorem Mirrored.step {api : Models.Config} (h : Mirrored D s api c) (hkept : Kept D s)
    (hquiet : Undisturbed a) (hstep : s.step D J a = some s') :
    ∃ api' c', Mirrored D s' api' c' := by
  have hc := hkept.loaded c h.dumped
  obtain ⟨cut, c', file, rfl, -, hload, rfl⟩ | ⟨cut, rfl, -, -, rfl⟩ | ⟨c', rfl, -, rfl⟩ |
    ⟨name, version, cut, c', listing, rfl, hconfig, hget, rfl⟩ |
    ⟨name, version, cut, rfl, rfl⟩ | ⟨file, rfl, rfl⟩ | ⟨c', rfl, hconfig, rfl⟩ :=
    step_cases hstep
  · obtain rfl : cut = none := hquiet
    rw [h.file, Models.Config.load_dump hc] at hload
    cases hload
    exact ⟨api, c, h.api, rfl, h.unversioned_eq, rfl, rfl⟩
  · exact ⟨api, c, h⟩
  · exact ⟨api, c, h.api, h.dumped, h.unversioned_eq, h.edited, h.file⟩
  · obtain rfl : cut = none := hquiet
    obtain rfl : c' = c := Option.some.inj ((hkept.running c' hconfig).symm.trans h.dumped)
    have hvalidated := (loaded_setVersion hc hget version).validated
    rw [hvalidated]
    exact ⟨api, _, h.api, rfl, h.unversioned_eq.trans (unversioned_setVersion hget version).symm,
      rfl, rfl⟩
  · exact ⟨api, c, h⟩
  · exact hquiet.elim
  · obtain rfl : c' = c := Option.some.inj ((hkept.running c' hconfig).symm.trans h.dumped)
    exact ⟨c', c', receive_message hc, h.dumped, rfl, h.edited, h.file⟩

end

/-- Only what is a number or a boolean is taken for one. -/
def strict : Coercions where
  int?
    | .int n => some n
    | _ => none
  bool?
    | .bool b => some b
    | _ => none
  int?_int _ := rfl
  bool?_bool _ := rfl

def overwrite : Patching where
  patch _ document := document
  patch_empty _ := rfl

def oneServer : Models.Config where
  proxyListing := {}
  serverListing :=
    { items := [(['s'], { enabled := true })]
      nodup := List.nodup_singleton _ }

/-- Its version was detected. -/
def detected : Models.Config where
  proxyListing := {}
  serverListing :=
    { items := [(['s'], { version := ⟨['v'], 5⟩, enabled := true })]
      nodup := List.nodup_singleton _ }

/-- The orchestrator, after it started. -/
def started : Stored where
  file := oneServer.dump strict
  config := some oneServer
  dumped := some oneServer

theorem step_start : step strict overwrite { file := oneServer.dump strict } (.start none) =
    some started := by
  have hloaded : oneServer.Loaded := ⟨rfl, List.forall_mem_singleton.2 rfl⟩
  simp only [step, Models.Config.load_dump hloaded]
  rfl

theorem step_updateStats (s : Stored) (hconfig : s.config = some oneServer) :
    step strict overwrite s (.updateStats ['s'] ⟨['v'], 5⟩ none) =
      some { s with
        file := detected.dump strict
        config := some detected
        dumped := some detected
        edited := false } := by
  simp only [step, hconfig]
  rfl

/-- The process died while it dumped the version that was detected. -/
def torn : Stored where
  file := (detected.dump strict).take 10
  dumped := some detected

theorem step_torn : step strict overwrite started (.updateStats ['s'] ⟨['v'], 5⟩ (some 10)) =
    some torn := by
  simp only [step, started]
  rfl

/-- After a version was detected, the file is loaded with it; and when its dump was torn, the next
start does not begin with anything else. -/
theorem config_survives_detected :
    Models.Config.load strict (detected.dump strict) = (some detected, detected.dump strict) ∧
    ∃ s s', Reach (step strict overwrite) (fun _ _ => True) { file := oneServer.dump strict } s ∧
      s.file = (detected.dump strict).take 10 ∧
      s.step strict overwrite (.start none) = some s' ∧ s'.dumped = some detected := by
  have hstart : Reach (step strict overwrite) (fun _ _ => True)
      { file := oneServer.dump strict } started := .single trivial step_start
  constructor
  · exact ((config_survives strict overwrite (oneServer.dump strict)
      (.tail _ hstart trivial (step_updateStats started rfl)) rfl).1 detected rfl).1
  · have htorn : Reach (step strict overwrite) (fun _ _ => True)
        { file := oneServer.dump strict } torn := .tail _ hstart trivial step_torn
    obtain ⟨s', hs'⟩ : ∃ s', torn.step strict overwrite (.start none) = some s' := by
      unfold step torn
      dsimp only
      split
      · exact ⟨_, rfl⟩
      · exact ⟨_, rfl⟩
    refine ⟨torn, s', htorn, rfl, hs', ?_⟩
    obtain hdumped | rfl | ⟨hempty, -⟩ :=
      (config_survives strict overwrite (oneServer.dump strict) htorn rfl).2 detected rfl none s' hs'
    · exact hdumped
    · rfl
    · cases hempty

/-- **The API agrees with the orchestrator** about everything but versions from the moment it
connects, and so about static files, also when the orchestrator is stopped and started, unless
somebody has edited the file since it was last dumped, or does so later, or a dump is cut short. -/
theorem api_agrees (D : Coercions) (J : Patching) (file : Text) {s₀ s₁ s : Stored}
    (h : Reach (step D J) (fun _ _ => True) { file } s₀) (hedited : s₀.edited = false)
    (hconnect : s₀.step D J .connect = some s₁)
    (hrun : Reach (step D J) (fun _ a => Undisturbed a) s₁ s) :
    ∃ api, s.api = some api ∧ ∀ c, s.config = some c →
      unversioned api = unversioned c ∧
      ∀ xFilepath, Api.authStaticPath api.base xFilepath = Api.authStaticPath c.base xFilepath := by
  have hkept : Kept D s₀ :=
    h.invariant (P := Kept D) (kept_init D file) fun s a s' hs _ hstep => hs.step hstep
  obtain ⟨c, hconfig, hs₁⟩ : ∃ c, s₀.config = some c ∧
      s₁ = { s₀ with api := receive D J (message D c) } := by
    simp only [step, Option.bind_eq_bind, Option.bind_eq_some_iff] at hconnect
    obtain ⟨c, hconfig, heq⟩ := hconnect
    exact ⟨c, hconfig, (Option.some.inj heq).symm⟩
  have hdumped := hkept.running c hconfig
  have hreceive : receive D J (message D c) = some c :=
    receive_message (hkept.loaded c hdumped)
  have hmirrored : Mirrored D s₁ c c := by
    rw [hs₁]
    exact ⟨hreceive, hdumped, rfl, hedited, hkept.whole c hconfig hedited⟩
  have hinvariant : Kept D s ∧ ∃ api c, Mirrored D s api c := by
    refine hrun.invariant (P := fun s => Kept D s ∧ ∃ api c, Mirrored D s api c)
      ⟨hkept.step hconnect, c, c, hmirrored⟩ ?_
    rintro s a s' ⟨hs, api, c, hmirrored⟩ hquiet hstep
    exact ⟨hs.step hstep, hmirrored.step hs hquiet hstep⟩
  obtain ⟨hs, api, c, hmirrored⟩ := hinvariant
  refine ⟨api, hmirrored.api, fun c' hc' => ?_⟩
  obtain rfl : c = c' := Option.some.inj (hmirrored.dumped.symm.trans (hs.running c' hc'))
  exact ⟨hmirrored.unversioned_eq, authStaticPath_of_unversioned hmirrored.unversioned_eq⟩

/-- It does when a version was detected since. -/
theorem api_agrees_detected : ∃ api, unversioned api = unversioned detected ∧
    ∀ xFilepath,
      Api.authStaticPath api.base xFilepath = Api.authStaticPath detected.base xFilepath := by
  have hconnect : step strict overwrite started .connect = some { started with
      api := receive strict overwrite (message strict oneServer) } := rfl
  obtain ⟨api, -, hagree⟩ := api_agrees strict overwrite (oneServer.dump strict)
    (.single trivial step_start) rfl hconnect
    (.single (a := .updateStats ['s'] ⟨['v'], 5⟩ none) rfl (step_updateStats _ rfl))
  exact ⟨api, hagree detected rfl⟩

end Stored

end Silkjam.Orchestrator
