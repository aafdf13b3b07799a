import Silkjam.Lib.JsonCodec
import Silkjam.Lib.JsonPrefix
import Silkjam.Models.Properties
import Silkjam.Models.Semantics

/-!
# The configuration file

The models of the configuration with all their fields, and how they are dumped and validated. Which
numbers and strings pydantic takes for an integer or a boolean is a parameter; so a listing may be
written in many ways, but what is dumped is always the same, and is loaded as it was
(`load_dump`). The errors of the listings are private: they are not dumped, and loading finds them
again.
-/

namespace Silkjam.Models

open Json (Codec Coercions)

/-! ### Models -/

/-- `SleepProperties` -/
structure SleepProperties extends Silkjam.SleepProperties where
  motd : Option Text := none
  wakingKickMsg : Text := "§eServer is waking up, try again soon...".toList

inductive BackupStrategy where
  | exponential
  | fixed
  deriving DecidableEq

/-- `BackupProperties` -/
structure BackupProperties extends Silkjam.BackupProperties where
  maxBackups : Nat
  strategy : BackupStrategy := .exponential
  enabled : Bool

theorem sixty_pos : 0 < 60 :=
  Nat.succ_pos 59

/-- The backup properties of a listing without any. -/
def BackupProperties.default : BackupProperties where
  interval := some ⟨60, sixty_pos⟩
  maxBackups := 1
  enabled := false

/-- `ServerListing` -/
structure ServerListing where
  version : Version := UNKNOWN_VERSION
  sleepProperties : SleepProperties := {}
  backupProperties : BackupProperties := .default
  jvmFlags : List Text := ["-Xmx2G".toList]
  enabled : Bool
  errors : List Text := []

/-- `Config` -/
structure Config where
  proxyListing : Dict Text ProxyListing
  serverListing : Dict Text ServerListing

/-- What the orchestrator and the API use of a listing. -/
def ServerListing.base (l : ServerListing) : Silkjam.ServerListing where
  version := l.version
  sleepProperties := l.sleepProperties.toSleepProperties
  backupProperties := l.backupProperties.toBackupProperties
  enabled := l.enabled
  errors := l.errors

namespace Config

/-- What the orchestrator and the API use of the configuration. -/
def base (c : Config) : Silkjam.Config where
  proxyListing := c.proxyListing
  serverListing := c.serverListing.map ServerListing.base

def validateSemantics (c : Config) : Config :=
  { c with proxyListing := c.base.validateSemantics.proxyListing }

theorem isPort_minecraft : (0 : Int) < 25565 ∧ (25565 : Int) ≤ 65535 := by
  decide

/-- `Config.default()` -/
def default : Config :=
  validateSemantics {
    proxyListing :=
      { items := [("proxy1".toList, { port := ⟨25565, isPort_minecraft⟩, enabled := true })]
        nodup := List.nodup_singleton _ }
    serverListing := {} }

end Config

/-! ### Codecs -/

section
variable (D : Coercions)

/-- `NonNegativeInt` -/
def nonNegativeInt : Codec Nat :=
  ((Codec.int D).subtype (0 ≤ ·) fun _ => rfl).equiv (fun n => ⟨n, Int.natCast_nonneg n⟩)
    (fun a => a.1.toNat) (fun _ => rfl) Int.toNat_natCast

/-- `PositiveInt` -/
def positiveInt : Codec {n : Nat // 0 < n} :=
  (nonNegativeInt D).subtype (0 < ·) fun _ => rfl

def port : Codec Port :=
  (Codec.int D).subtype (fun p => 0 < p ∧ p ≤ 65535) fun _ => rfl

def optionalPositiveInt : Codec (Option {n : Nat // 0 < n}) :=
  (positiveInt D).optional nofun

def optionalText : Codec (Option Text) :=
  Codec.text.optional nofun

def optionalPort : Codec (Option Port) :=
  (port D).optional nofun

section
variable {D}

@[simp] theorem canon_nonNegativeInt (n : Nat) : (nonNegativeInt D).canon n = n :=
  rfl

@[simp] theorem canon_port (p : Port) : (port D).canon p = p :=
  rfl

@[simp] theorem canon_optionalPositiveInt (n : Option {n : Nat // 0 < n}) :
    (optionalPositiveInt D).canon n = n :=
  Codec.canon_optional (fun _ => rfl) n

@[simp] theorem canon_optionalText (s : Option Text) : optionalText.canon s = s :=
  Codec.canon_optional Codec.canon_text s

@[simp] theorem canon_optionalPort (p : Option Port) : (optionalPort D).canon p = p :=
  Codec.canon_optional canon_port p

@[simp] theorem canon_texts (l : List Text) : Codec.text.list.canon l = l :=
  Codec.canon_list Codec.canon_text l

@[simp] theorem canon_routes (d : Dict Text Text) : Codec.text.dict.canon d = d :=
  Codec.canon_dict Codec.canon_text d

end

/-- `SleepProperties.model_dump(by_alias=True)` -/
def SleepProperties.members (p : SleepProperties) : List Codec.Member :=
  [(optionalPositiveInt D).named "timeout" p.timeout, optionalText.named "motd" p.motd,
    Codec.text.named "waking-kick-msg" p.wakingKickMsg]

def sleepProperties : Codec SleepProperties where
  dump p := .obj (Codec.fields (p.members D))
  validate
    | .obj members => do
      let timeout ← (optionalPositiveInt D).defaulted "timeout" none members
      let motd ← optionalText.defaulted "motd" none members
      let wakingKickMsg ← Codec.text.defaulted "waking-kick-msg"
        "§eServer is waking up, try again soon...".toList members
      return { timeout, motd, wakingKickMsg }
    | _ => none
  validate_dump p := by
    simp [SleepProperties.members]
  plain_dump p := Codec.plain_obj_fields (by simp [SleepProperties.members])

def backupStrategy : Codec BackupStrategy where
  dump
    | .exponential => .str (Json.key "exponential")
    | .fixed => .str (Json.key "fixed")
  validate
    | .str s =>
      if s = Json.key "exponential" then some .exponential
      else if s = Json.key "fixed" then some .fixed
      else none
    | _ => none
  validate_dump strategy := by
    cases strategy with
    | exponential => rfl
    | fixed => rfl
  plain_dump strategy style := by
    cases strategy with
    | exponential => exact Codec.text.plain_dump "exponential".toList style
    | fixed => exact Codec.text.plain_dump "fixed".toList style

def BackupProperties.members (p : BackupProperties) : List Codec.Member :=
  [(optionalPositiveInt D).named "interval" p.interval,
    (nonNegativeInt D).named "max_backups" p.maxBackups,
    backupStrategy.named "strategy" p.strategy, (Codec.bool D).named "enabled" p.enabled]

def backupProperties : Codec BackupProperties where
  dump p := .obj (Codec.fields (p.members D))
  validate
    | .obj members => do
      let interval ← (optionalPositiveInt D).required "interval" members
      let maxBackups ← (nonNegativeInt D).required "max_backups" members
      let strategy ← backupStrategy.defaulted "strategy" .exponential members
      let enabled ← (Codec.bool D).required "enabled" members
      return { interval, maxBackups, strategy, enabled }
    | _ => none
  validate_dump p := by
    simp [BackupProperties.members, backupStrategy]
  plain_dump p := Codec.plain_obj_fields (by simp [BackupProperties.members])

def version : Codec Version where
  dump v := .obj (Codec.fields
    [Codec.text.named "name" v.name, (Codec.int D).named "protocol" v.protocol])
  validate
    | .obj members => do
      let name ← Codec.text.required "name" members
      let protocol ← (Codec.int D).required "protocol" members
      return { name, protocol }
    | _ => none
  validate_dump v := by
    simp
  plain_dump v := Codec.plain_obj_fields (by simp [Codec.named])

section
variable {D}

@[simp] theorem canon_sleepProperties (p : SleepProperties) : (sleepProperties D).canon p = p :=
  rfl

@[simp] theorem canon_backupProperties (p : BackupProperties) :
    (backupProperties D).canon p = p :=
  rfl

@[simp] theorem canon_version (v : Version) : (version D).canon v = v :=
  rfl

end

def ServerListing.members (l : ServerListing) : List Codec.Member :=
  [(Models.version D).named "version" l.version,
    (Models.sleepProperties D).named "sleep_properties" l.sleepProperties,
    (Models.backupProperties D).named "backup_properties" l.backupProperties,
    Codec.text.list.named "jvm_flags" l.jvmFlags, (Codec.bool D).named "enabled" l.enabled]

def ServerListing.clearErrors (l : ServerListing) : ServerListing :=
  { l with errors := [] }

def serverListing : Codec ServerListing where
  dump l := .obj (Codec.fields (l.members D))
  validate
    | .obj members => do
      let version ← (Models.version D).defaulted "version" UNKNOWN_VERSION members
      let sleepProperties ← (Models.sleepProperties D).defaulted "sleep_properties" {} members
      let backupProperties ←
        (Models.backupProperties D).defaulted "backup_properties" .default members
      let jvmFlags ← Codec.text.list.defaulted "jvm_flags" ["-Xmx2G".toList] members
      let enabled ← (Codec.bool D).required "enabled" members
      return { version, sleepProperties, backupProperties, jvmFlags, enabled }
    | _ => none
  canon := ServerListing.clearErrors
  canon_of_validate v l h := by
    cases v with
    | obj members =>
      simp only [Option.bind_eq_bind, Option.bind_eq_some_iff] at h
      obtain ⟨_, _, _, _, _, _, _, _, _, _, h⟩ := h
      cases h
      rfl
    | _ => cases h
  validate_dump l := by
    simp [ServerListing.members]
    rfl
  plain_dump l := Codec.plain_obj_fields (by simp [ServerListing.members])

def proxyMembers (l : ProxyListing) : List Codec.Member :=
  [(port D).named "port" l.port, (optionalPort D).named "voice_port" l.voicePort,
    (Codec.bool D).named "voice_ip_binding" l.voiceIpBinding,
    (Codec.bool D).named "enabled" l.enabled,
    Codec.text.dict.named "subdomains" l.subdomains]

def proxyListing : Codec ProxyListing where
  dump l := .obj (Codec.fields (proxyMembers D l))
  validate
    | .obj members => do
      let port ← (Models.port D).required "port" members
      let voicePort ← (optionalPort D).defaulted "voice_port" none members
      let voiceIpBinding ← (Codec.bool D).defaulted "voice_ip_binding" true members
      let enabled ← (Codec.bool D).required "enabled" members
      let subdomains ← Codec.text.dict.required "subdomains" members
      return { port, voicePort, voiceIpBinding, enabled, subdomains }
    | _ => none
  canon := ProxyListing.clearErrors
  canon_of_validate v l h := by
    cases v with
    | obj members =>
      simp only [Option.bind_eq_bind, Option.bind_eq_some_iff] at h
      obtain ⟨_, _, _, _, _, _, _, _, _, _, h⟩ := h
      cases h
      rfl
    | _ => cases h
  validate_dump l := by
    simp [proxyMembers]
    rfl
  plain_dump l := Codec.plain_obj_fields (by simp [proxyMembers])

def Config.members (c : Config) : List Codec.Member :=
  [(Models.proxyListing D).dict.named "proxy_listing" c.proxyListing,
    (Models.serverListing D).dict.named "server_listing" c.serverListing]

/-- The configuration but for the errors of its listings. -/
def Config.clearErrors (c : Config) : Config where
  proxyListing := c.proxyListing.map ProxyListing.clearErrors
  serverListing := c.serverListing.map ServerListing.clearErrors

/-- The fields of a configuration, without what pydantic does when it has them. -/
def config : Codec Config where
  dump c := .obj (Codec.fields (c.members D))
  validate
    | .obj members => do
      let proxyListing ← (Models.proxyListing D).dict.required "proxy_listing" members
      let serverListing ← (Models.serverListing D).dict.required "server_listing" members
      return { proxyListing, serverListing }
    | _ => none
  canon := Config.clearErrors
  canon_of_validate v c h := by
    cases v with
    | obj members =>
      simp only [Option.bind_eq_bind, Option.bind_eq_some_iff] at h
      obtain ⟨proxies, hproxies, servers, hservers, h⟩ := h
      cases h
      obtain ⟨v, -, hv⟩ := Option.bind_eq_some_iff.1 hproxies
      obtain ⟨v', -, hv'⟩ := Option.bind_eq_some_iff.1 hservers
      exact congrArg₂ Config.mk ((Models.proxyListing D).dict.canon_of_validate v proxies hv)
        ((Models.serverListing D).dict.canon_of_validate v' servers hv')
    | _ => cases h
  validate_dump c := by
    simp [Config.members]
    rfl
  plain_dump c := Codec.plain_obj_fields (by simp [Config.members])

/-! ### Loading and dumping -/

namespace Config

/-- `Config.model_validate(data, by_alias=True)`; `none` where it raises a `ValidationError`. -/
def modelValidate (data : Json) : Option Config :=
  ((config D).validate data).map validateSemantics

/-- What `config.dump(path)` writes. -/
def dump (c : Config) : Text :=
  Json.write (.indented 4) 0 ((config D).dump c)

/-- `Config.load(path)` of a file: the configuration, unless it raises, and the file after it. -/
def load (file : Text) : Option Config × Text :=
  if file = [] then (some default, default.dump D)
  else ((Json.loads (universalNewlines file)).bind (modelValidate D), file)

end Config

end

/-! ### What was dumped is loaded -/

namespace Config

variable {D : Coercions} {c : Config} {file file' : Text}

/-- Validated, and nothing is wrong with the servers. -/
structure Loaded (c : Config) : Prop where
  validated : c.validateSemantics = c
  servers : ∀ e ∈ c.serverListing.items, e.2.errors = []

theorem validateSemantics_again (c : Config) :
    c.validateSemantics.validateSemantics = c.validateSemantics := by
  have hagain := Silkjam.Config.validateSemantics_again c.base
  unfold validateSemantics
  exact congrArg (fun config => { c with proxyListing := config.proxyListing }) hagain

theorem clearErrors_of_servers (h : ∀ e ∈ c.serverListing.items, e.2.errors = []) :
    c.serverListing.map ServerListing.clearErrors = c.serverListing := by
  refine Dict.ext_items (Codec.map_eq_self fun e he => ?_)
  have hclear : e.2.clearErrors = e.2 := by
    unfold ServerListing.clearErrors
    rw [← h e he]
  rw [hclear]

theorem servers_of_clearErrors (h : c.clearErrors = c) :
    ∀ e ∈ c.serverListing.items, e.2.errors = [] := by
  intro e he
  rw [← h] at he
  obtain ⟨e', -, rfl⟩ := List.mem_map.1 he
  rfl

theorem Loaded.validateSemantics_clearErrors (h : c.Loaded) :
    c.clearErrors.validateSemantics = c := by
  have hservers := clearErrors_of_servers h.servers
  have hbase : c.clearErrors.base = c.base.clearErrors := by
    unfold clearErrors base Silkjam.Config.clearErrors
    rw [hservers]
  have hclear : c.base.clearErrors.clearErrors = c.base.clearErrors := by
    refine Silkjam.Config.eq_of_items ?_ rfl
    exact (List.map_map ..).trans rfl
  have hproxies : c.base.clearErrors.validateSemantics.proxyListing =
      c.base.validateSemantics.proxyListing := by
    apply Dict.ext_items
    show markAll _ _ c.base.clearErrors.clearErrors.proxyListing.items = _
    rw [hclear]
    rfl
  have hvalidated := congrArg proxyListing h.validated
  unfold validateSemantics at hvalidated ⊢
  rw [hbase, hproxies]
  unfold clearErrors
  rw [hservers]
  exact congrArg (fun proxies => { c with proxyListing := proxies }) hvalidated

theorem loaded_default : default.Loaded where
  validated := validateSemantics_again _
  servers := List.forall_mem_nil _

/-- What pydantic builds has no errors but those of its semantics. -/
theorem loaded_of_modelValidate {data : Json} (h : modelValidate D data = some c) : c.Loaded := by
  obtain ⟨c', hc', rfl⟩ := Option.map_eq_some_iff.1 h
  have hcanon : c'.clearErrors = c' := (config D).canon_of_validate data c' hc'
  have hservers := servers_of_clearErrors hcanon
  exact ⟨validateSemantics_again c', hservers⟩

theorem modelValidate_dump (h : c.Loaded) : modelValidate D ((config D).dump c) = some c := by
  unfold modelValidate
  rw [(config D).validate_dump, Option.map_some]
  exact congrArg some h.validateSemantics_clearErrors

theorem dump_ne_nil (c : Config) : c.dump D ≠ [] := by
  obtain ⟨first, rest, hdump, -⟩ := Json.begins_write ((config D).plain_dump c (.indented 4)) 0
  unfold dump
  rw [hdump]
  exact List.cons_ne_nil _ _

theorem universalNewlines_dump (c : Config) : universalNewlines (c.dump D) = c.dump D := by
  refine universalNewlines_eq_self fun hmem => ?_
  exact Json.forall_mem_write (Json.Style.within_indented 4) _ 0
    ((config D).plain_dump c (.indented 4)) _ hmem rfl

/-- **What was dumped is loaded**, with the errors that it had. -/
theorem load_dump (h : c.Loaded) : load D (c.dump D) = (some c, c.dump D) := by
  have hloads : Json.loads (c.dump D) = some ((config D).dump c) :=
    (config D).loads_dump (.indented 4) c
  unfold load
  rw [if_neg (dump_ne_nil c), universalNewlines_dump, hloads, Option.bind_some,
    modelValidate_dump h]

/-- A file that was torn when it was written is not loaded as another configuration, unless nothing
had been written. -/
theorem load_of_prefix {c' : Config} (h : c.Loaded) (hpart : file <+: c.dump D)
    (hload : load D file = (some c', file')) :
    (file = c.dump D ∧ c' = c) ∨ (file = [] ∧ c' = default) := by
  by_cases hempty : file = []
  · unfold load at hload
    rw [if_pos hempty] at hload
    cases hload
    exact .inr ⟨hempty, rfl⟩
  · have hreturn : '\r' ∉ file := by
      intro hmem
      exact Json.forall_mem_write (Json.Style.within_indented 4) _ 0
        ((config D).plain_dump c (.indented 4)) _ (hpart.mem hmem) rfl
    have hloads := hload
    unfold load at hloads
    rw [if_neg hempty, universalNewlines_eq_self hreturn] at hloads
    obtain ⟨data, hdata, -⟩ := Option.bind_eq_some_iff.1 (congrArg Prod.fst hloads)
    obtain ⟨hwhole, -⟩ := Json.eq_of_loads_prefix ((config D).plain_dump c (.indented 4))
      ⟨'{', rfl, .inr (.inl rfl)⟩ hpart hdata
    have hwhole : file = c.dump D := hwhole
    rw [hwhole, load_dump h] at hload
    exact .inl ⟨hwhole, (Option.some.inj (Prod.mk.inj hload).1).symm⟩

/-- Whatever file was loaded, it could have been one that was dumped. -/
theorem loaded_of_load (h : load D file = (some c, file')) : c.Loaded := by
  unfold load at h
  split at h
  · cases h
    exact loaded_default
  · obtain ⟨data, -, hdata⟩ := Option.bind_eq_some_iff.1 (congrArg Prod.fst h)
    exact loaded_of_modelValidate hdata

end Config

end Silkjam.Models
