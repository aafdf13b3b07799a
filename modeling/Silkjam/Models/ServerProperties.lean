import Silkjam.Models.Properties

/-!
# The properties of a server

The fields of `server.properties` that Silkjam manages. They are loaded from a file that has all of
them, and a file that is empty gets the default ones, which have no ports and no password. What is
dumped is loaded again unless it is the default (`dump_load`): of a port that is `None` nothing is
written, which is no integer.
-/

namespace Silkjam.Models

open Fields Decimal

/-- How the strings of a file are validated as fields. A field that may be `None` is validated as one
that may not. -/
structure Validation where
  int? : Text → Option Int
  bool? : Text → Option Bool
  int?_intStr : ∀ n, int? (intStr n) = some n
  int?_nil : int? [] = none
  bool?_true : bool? "true".toList = some true
  bool?_false : bool? "false".toList = some false

structure ServerProperties where
  motd : Text
  maxPlayers : Int
  serverPort : Option Int
  rconPort : Option Int
  rconPassword : Option Text
  enableRcon : Bool
  deriving DecidableEq

namespace ServerProperties

def default : ServerProperties where
  motd := "A Minecraft Server".toList
  maxPlayers := 20
  serverPort := none
  rconPort := none
  rconPassword := none
  enableRcon := true

def optionalInt : Option Int → PropertyValue
  | none => .none
  | some n => .int n

def optionalStr : Option Text → PropertyValue
  | none => .none
  | some s => .str s

/-- `model_dump(by_alias=True)` -/
def modelDump (m : ServerProperties) : Dict Text PropertyValue where
  items := [
    ("motd".toList, .str m.motd),
    ("max-players".toList, .int m.maxPlayers),
    ("server-port".toList, optionalInt m.serverPort),
    ("rcon.port".toList, optionalInt m.rconPort),
    ("rcon.password".toList, optionalStr m.rconPassword),
    ("enable-rcon".toList, .bool m.enableRcon)]
  nodup := by
    simp only [List.map_cons, List.map_nil]
    decide

/-- `model_validate(props, by_alias=True)`, or `none` where it raises `ValidationError`. -/
def modelValidate (D : Validation) (props : Dict Text Text) : Option ServerProperties := do
  let motd ← props.get? "motd".toList
  let maxPlayers ← props.get? "max-players".toList >>= D.int?
  let serverPort ← props.get? "server-port".toList >>= D.int?
  let rconPort ← props.get? "rcon.port".toList >>= D.int?
  let rconPassword ← props.get? "rcon.password".toList
  let enableRcon ← props.get? "enable-rcon".toList >>= D.bool?
  return {
    motd
    maxPlayers
    serverPort := some serverPort
    rconPort := some rconPort
    rconPassword := some rconPassword
    enableRcon }

/-- The new contents of the file. -/
def dump (m : ServerProperties) (file : Text) : Text :=
  dumpProperties file m.modelDump

/-- What is loaded, and the contents of the file afterwards. -/
def load (D : Validation) (file : Text) : Option (ServerProperties × Text) :=
  if file ≠ [] then (modelValidate D (parseProperties file).1).map (·, file)
  else some (default, default.dump file)

/-- What `MCBackend._start` changes. -/
def start (m : ServerProperties) (serverPort rconPort : Int) : ServerProperties :=
  { m with
    serverPort := some serverPort
    rconPort := some rconPort
    enableRcon := true
    rconPassword := if m.rconPassword.getD [] = [] then some "admin".toList else m.rconPassword }

/-- The values that there can be. -/
inductive Producible (D : Validation) : ServerProperties → Prop
  | default : Producible D default
  | load {file file' : Text} {m : ServerProperties} (h : load D file = some (m, file')) :
    Producible D m
  | start {m : ServerProperties} (h : Producible D m) (serverPort rconPort : Int) :
    Producible D (m.start serverPort rconPort)

/-! ### What is loaded -/

section
variable {D : Validation} {m : ServerProperties} {props : Dict Text Text} {file file' : Text}

theorem modelValidate_eq_some (h : modelValidate D props = some m) :
    props.get? "motd".toList = some m.motd ∧
      (∃ p q, m.serverPort = some p ∧ m.rconPort = some q) ∧
      ∃ s, m.rconPassword = some s ∧ props.get? "rcon.password".toList = some s := by
  unfold modelValidate at h
  simp only [Option.bind_eq_bind, Option.bind_eq_some_iff, Option.pure_def] at h
  obtain ⟨motd, hmotd, _, -, p, -, q, -, s, hs, _, -, h⟩ := h
  cases h
  exact ⟨hmotd, ⟨p, q, rfl, rfl⟩, s, rfl, hs⟩

theorem load_eq_some (h : load D file = some (m, file')) :
    m = default ∨ modelValidate D (parseProperties file).1 = some m := by
  unfold load at h
  split at h
  · obtain ⟨_, hm, heq⟩ := Option.map_eq_some_iff.1 h
    cases heq
    exact .inr hm
  · cases h
    exact .inl rfl

/-- The ports and the password are there. -/
def Complete (m : ServerProperties) : Prop :=
  ∃ p q s, m.serverPort = some p ∧ m.rconPort = some q ∧ m.rconPassword = some s

/-- The texts are read as they were written. -/
structure Clean (m : ServerProperties) : Prop where
  motd : Stripped isSpace m.motd ∧ OneLine m.motd
  rconPassword : ∀ s, m.rconPassword = some s → Stripped isSpace s ∧ OneLine s

theorem clean_default : Clean default where
  motd := by decide
  rconPassword s hs := by cases hs

theorem Clean.start (h : Clean m) (serverPort rconPort : Int) :
    Clean (m.start serverPort rconPort) where
  motd := h.motd
  rconPassword s hs := by
    unfold ServerProperties.start at hs
    dsimp only at hs
    split at hs
    · cases hs
      decide
    · exact h.rconPassword s hs

theorem Producible.clean (h : Producible D m) : Clean m := by
  induction h with
  | default => exact clean_default
  | load h =>
    rcases load_eq_some h with rfl | h
    · exact clean_default
    · obtain ⟨hmotd, -, s, hs, hget⟩ := modelValidate_eq_some h
      refine ⟨value_of_get? hmotd, fun s' hs' => ?_⟩
      rw [hs] at hs'
      cases hs'
      exact value_of_get? hget
  | start h serverPort rconPort ih => exact ih.start serverPort rconPort

theorem Producible.complete (h : Producible D m) :
    m = ServerProperties.default ∨ Complete m := by
  induction h with
  | default => exact .inl rfl
  | load h =>
    rcases load_eq_some h with rfl | h
    · exact .inl rfl
    · obtain ⟨-, ⟨p, q, hp, hq⟩, s, hs, -⟩ := modelValidate_eq_some h
      exact .inr ⟨p, q, s, hp, hq, hs⟩
  | @start m h serverPort rconPort ih =>
    right
    rcases ih with rfl | ⟨p, q, s, -, -, hs⟩
    · exact ⟨serverPort, rconPort, _, rfl, rfl, rfl⟩
    · unfold ServerProperties.start
      by_cases hempty : m.rconPassword.getD [] = []
      · exact ⟨serverPort, rconPort, _, rfl, rfl, if_pos hempty⟩
      · exact ⟨serverPort, rconPort, s, rfl, rfl, (if_neg hempty).trans hs⟩

end

/-! ### What is dumped -/

section
variable {D : Validation} {m : ServerProperties}

theorem not_isSpace_of_isDigit {c : Char} (h : c.isDigit) : isSpace c = false := by
  have hrange : 48 ≤ c.toNat ∧ c.toNat ≤ 57 := Char.isDigit_iff_toNat.1 h
  unfold isSpace
  simp
  omega

theorem stripped_intStr (n : Int) : Stripped isSpace (intStr n) ∧ OneLine (intStr n) := by
  have hnot {c : Char} (hsign : c ≠ '-') (hdigit : c.isDigit = false) : c ∉ intStr n := by
    intro hc
    rcases mem_intStr hc with h | h
    · exact hsign h
    · rw [hdigit] at h
      cases h
  refine ⟨stripped_of_forall fun c hc => ?_, hnot (by decide) (by decide),
    hnot (by decide) (by decide)⟩
  rcases mem_intStr hc with rfl | hdigit
  · decide
  · exact not_isSpace_of_isDigit hdigit

theorem serialize_optionalInt (n : Option Int) :
    Stripped isSpace (serialize (optionalInt n)) ∧ OneLine (serialize (optionalInt n)) := by
  cases n with
  | none => decide
  | some n => exact stripped_intStr n

theorem Clean.writable (h : Clean m) : Writable (serializedValues m.modelDump) := by
  have hpassword : Stripped isSpace (serialize (optionalStr m.rconPassword)) ∧
      OneLine (serialize (optionalStr m.rconPassword)) := by
    cases hs : m.rconPassword with
    | none => decide
    | some s => exact h.rconPassword s hs
  have hrcon : Stripped isSpace (serialize (.bool m.enableRcon)) ∧
      OneLine (serialize (.bool m.enableRcon)) := by
    cases m.enableRcon with
    | false => decide
    | true => decide
  unfold Writable serializedValues Dict.map modelDump
  simp only [List.map_cons, List.map_nil, List.forall_mem_cons]
  exact ⟨⟨by decide, by decide, h.motd⟩,
    ⟨by decide, by decide, stripped_intStr m.maxPlayers⟩,
    ⟨by decide, by decide, serialize_optionalInt m.serverPort⟩,
    ⟨by decide, by decide, serialize_optionalInt m.rconPort⟩,
    ⟨by decide, by decide, hpassword⟩,
    ⟨by decide, by decide, hrcon⟩, fun e he => absurd he List.not_mem_nil⟩

theorem int?_optionalInt (D : Validation) (n : Option Int) :
    D.int? (serialize (optionalInt n)) = n := by
  cases n with
  | none => exact D.int?_nil
  | some n => exact D.int?_intStr n

theorem bool?_serialize (D : Validation) (b : Bool) : D.bool? (serialize (.bool b)) = some b := by
  cases b with
  | false => exact D.bool?_false
  | true => exact D.bool?_true

theorem modelValidate_dumped (D : Validation) {props : Dict Text Text}
    (h : ∀ key value, (serializedValues m.modelDump).get? key = some value →
      props.get? key = some value) :
    modelValidate D props = do
      let serverPort ← m.serverPort
      let rconPort ← m.rconPort
      return { m with
        serverPort := some serverPort
        rconPort := some rconPort
        rconPassword := some (m.rconPassword.getD []) } := by
  have hmotd := h "motd".toList m.motd rfl
  have hmax := h "max-players".toList (intStr m.maxPlayers) rfl
  have hserver := h "server-port".toList (serialize (optionalInt m.serverPort)) rfl
  have hrcon := h "rcon.port".toList (serialize (optionalInt m.rconPort)) rfl
  have hpassword := h "rcon.password".toList (serialize (optionalStr m.rconPassword)) rfl
  have henable := h "enable-rcon".toList (serialize (.bool m.enableRcon)) rfl
  unfold modelValidate
  rw [hmotd, hmax, hserver, hrcon, hpassword, henable]
  simp only [Option.bind_eq_bind, Option.bind_some, D.int?_intStr, int?_optionalInt,
    bool?_serialize]
  cases m.serverPort with
  | none => rfl
  | some serverPort =>
    cases m.rconPort with
    | none => rfl
    | some rconPort =>
      cases m.rconPassword with
      | none => rfl
      | some s => rfl

theorem load_dump (D : Validation) (h : Clean m) (file : Text) :
    (load D (m.dump file)).map Prod.fst = do
      let serverPort ← m.serverPort
      let rconPort ← m.rconPort
      return { m with
        serverPort := some serverPort
        rconPort := some rconPort
        rconPassword := some (m.rconPassword.getD []) } := by
  have hget (key value : Text) (hkey : (serializedValues m.modelDump).get? key = some value) :
      (parseProperties (m.dump file)).1.get? key = some value := by
    unfold dump
    rw [get?_dumpProperties h.writable, hkey, Option.some_or]
  have hne : m.dump file ≠ [] := by
    intro hnil
    have hmotd := hget "motd".toList m.motd rfl
    rw [hnil] at hmotd
    cases hmotd
  unfold load
  rw [if_pos hne, Option.map_map, ← modelValidate_dumped D hget]
  exact Option.map_id_apply

end

/-- Integers are decimal literals, and booleans are written in lower case. -/
def literals : Validation where
  int? := int?
  bool? s := if s = "true".toList then some true else if s = "false".toList then some false else none
  int?_intStr := int?_intStr
  int?_nil := rfl
  bool?_true := rfl
  bool?_false := rfl

/-- **What is dumped is loaded again, unless it is the default.** -/
theorem dump_load {D : Validation} {m : ServerProperties} (h : Producible D m) (file : Text) :
    (load D (m.dump file)).map Prod.fst = some m ↔ m ≠ default := by
  rw [load_dump D h.clean]
  constructor
  · rintro hload rfl
    cases hload
  · intro hne
    obtain ⟨p, q, s, hp, hq, hs⟩ := h.complete.resolve_left hne
    obtain ⟨motd, maxPlayers, serverPort, rconPort, rconPassword, enableRcon⟩ := m
    dsimp only at hp hq hs
    rw [hp, hq, hs]
    rfl

theorem dump_load_started :
    Producible literals (default.start 25565 25575) ∧ default.start 25565 25575 ≠ default ∧
      (load literals ((default.start 25565 25575).dump [])).map Prod.fst =
        some (default.start 25565 25575) :=
  ⟨.start .default _ _, by decide, (dump_load (.start .default _ _) []).2 (by decide)⟩

/-- The first start of a server: the file that was created cannot be loaded. -/
theorem created_file_invalid :
    Producible literals default ∧ load literals [] = some (default, default.dump []) ∧
      load literals (default.dump []) = none :=
  ⟨.default, rfl, by decide⟩

end ServerProperties

end Silkjam.Models
