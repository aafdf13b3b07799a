import Silkjam.Config
import Silkjam.Lib.Path

/-!
# Authorisation of static files

`auth_static_path` decides which files the file server may send. It rejects a path whose first
component is `..` and then looks at the components as they are written: a path that begins with the
web directory of an enabled server is accepted, whatever follows. A `..` further on is not
cancelled, so what is accepted may lie anywhere (`escapes_web`). It lies in the web directory of an
enabled server just when the `..` after the web directory cancel among themselves, or climb out of
it and come back to one (`static_path_confined`).
-/

namespace Silkjam.Api

open Posix

/-- How `auth_static_path` does not return. -/
inductive AuthError where
  /-- `HTTPException(status_code=403)` -/
  | forbidden
  | indexError
  deriving DecidableEq

def SERVERS : Name := ⟨['s', 'e', 'r', 'v', 'e', 'r', 's'], by decide⟩

def DYNMAP : Name := ⟨['d', 'y', 'n', 'm', 'a', 'p'], by decide⟩

def WEB : Name := ⟨['w', 'e', 'b'], by decide⟩

def STATIC_ROOT : PurePath :=
  .parse ['/', 'a', 'p', 'p', '/', 'd', 'a', 't', 'a']

/-- `STATIC_ROOT / "servers" / server_name / "dynmap" / "web"` -/
def webDir (serverName : Text) : PurePath :=
  STATIC_ROOT / .parse SERVERS.1 / .parse serverName / .parse DYNMAP.1 / .parse WEB.1

def relpath (xFilepath : Text) : PurePath :=
  .parse ((join ['/'] xFilepath).drop 1)

/-- The path that the header asks for, as it is written. -/
def requested (xFilepath : Text) : PurePath :=
  STATIC_ROOT / relpath xFilepath

def authStaticPath (config : Config) (xFilepath : Text) : Except AuthError Unit :=
  match (relpath xFilepath).parts with
  | [] => .error .indexError
  | first :: _ =>
    if first = ['.', '.'] then .error .forbidden
    else
      let path := requested xFilepath
      if path.isRelativeTo (STATIC_ROOT / .parse SERVERS.1) then
        match path.parts[STATIC_ROOT.parts.length + 1]? with
        | none => .error .indexError
        | some serverName =>
          match config.serverListing.get? serverName with
          | none => .error .forbidden
          | some listing =>
            if listing.enabled && path.isRelativeTo (webDir serverName) then .ok ()
            else .error .forbidden
      else .error .forbidden

/-- There is an enabled server of this name. -/
def Enabled (config : Config) (serverName : Text) : Prop :=
  ∃ listing, config.serverListing.get? serverName = some listing ∧ listing.enabled = true

/-- Lexically, the path lies in the web directory of an enabled server. -/
def Confined (config : Config) (path : PurePath) : Prop :=
  ∃ serverName, Enabled config serverName ∧ path.resolve.isRelativeTo (webDir serverName) = true

/-- The components `rest`, below the web directory of `name`, climb out of it by the `..` that are
left when they are cancelled among themselves, and come back to the web directory of an enabled
server. -/
def ComesBack (config : Config) (name : Name) (rest : List Name) : Prop :=
  let base := (cancel (webDir name.1).tail).2
  ∃ serverName, Enabled config serverName ∧ (webDir serverName).root = .slash ∧
    (webDir serverName).tail <+: base.take (base.length - (cancel rest).1) ++ (cancel rest).2

/-- No `..` is left when the components below the web directory are cancelled among themselves, and
the server is not called `..`; or they come back. -/
def StaysInside (config : Config) (name : Name) (rest : List Name) : Prop :=
  (name ≠ up ∧ (cancel rest).1 = 0) ∨ ComesBack config name rest

/-! ### What is accepted -/

section
variable {config : Config} {xFilepath : Text}

theorem staticRoot_eq :
    STATIC_ROOT = ⟨.slash, [⟨['a', 'p', 'p'], by decide⟩, ⟨['d', 'a', 't', 'a'], by decide⟩]⟩ := by
  decide

theorem servers_eq : STATIC_ROOT / .parse SERVERS.1 =
    ⟨.slash, STATIC_ROOT.tail ++ [SERVERS]⟩ := by
  decide

theorem webDir_name (name : Name) :
    webDir name.1 = ⟨.slash, STATIC_ROOT.tail ++ [SERVERS, name, DYNMAP, WEB]⟩ := by
  unfold webDir
  rw [servers_eq, PurePath.parse_name, PurePath.parse_name, PurePath.parse_name,
    PurePath.div_of_relative _ rfl, PurePath.div_of_relative _ rfl, PurePath.div_of_relative _ rfl]
  simp

theorem first_ne_up {rest : List Name}
    (h : requested xFilepath = ⟨.slash, STATIC_ROOT.tail ++ SERVERS :: rest⟩) :
    ∃ first parts, (relpath xFilepath).parts = first :: parts ∧ first ≠ ['.', '.'] := by
  unfold requested at h
  generalize relpath xFilepath = path at h
  obtain ⟨root, tail⟩ := path
  cases root with
  | relative =>
    rw [PurePath.div_of_relative _ rfl] at h
    obtain rfl := List.append_cancel_left (PurePath.mk.inj h).2
    exact ⟨SERVERS.1, rest.map Subtype.val, rfl, by decide⟩
  | slash => exact ⟨Root.slash.str, tail.map Subtype.val, rfl, by decide⟩
  | doubleSlash => exact ⟨Root.doubleSlash.str, tail.map Subtype.val, rfl, by decide⟩

/-- **What is accepted**: a path that is written as one below the web directory of an enabled
server. -/
theorem authStaticPath_ok_iff :
    authStaticPath config xFilepath = .ok () ↔
      ∃ (name : Name) (rest : List Name),
        requested xFilepath = ⟨.slash, (webDir name.1).tail ++ rest⟩ ∧ Enabled config name.1 := by
  have hroot : STATIC_ROOT.parts.length + 1 = 4 := by decide
  constructor
  · intro hok
    unfold authStaticPath at hok
    split at hok
    · cases hok
    split at hok
    · cases hok
    dsimp only at hok
    split at hok
    · next hservers =>
      rw [servers_eq, PurePath.isRelativeTo_iff] at hservers
      obtain ⟨hslash, rest, htail⟩ := hservers
      split at hok
      · cases hok
      next serverName hname =>
      split at hok
      · cases hok
      next listing hget =>
      split at hok
      · next hin =>
        rw [Bool.and_eq_true] at hin
        have hparts : (requested xFilepath).parts[STATIC_ROOT.parts.length + 1]? =
            rest.head?.map Subtype.val := by
          rw [hroot, PurePath.parts, hslash, htail, staticRoot_eq]
          cases rest <;> rfl
        rw [hparts] at hname
        obtain ⟨name, -, rfl⟩ := Option.map_eq_some_iff.1 hname
        obtain ⟨-, rest', htail'⟩ := PurePath.isRelativeTo_iff.1 hin.2
        have hpath : requested xFilepath = ⟨.slash, (webDir name.1).tail ++ rest'⟩ := by
          rw [← htail', ← show (requested xFilepath).root = .slash from hslash]
        exact ⟨name, rest', hpath, listing, hget, hin.1⟩
      · cases hok
    · cases hok
  · rintro ⟨name, rest, hpath, listing, hget, henabled⟩
    have hin : (requested xFilepath).isRelativeTo (webDir name.1) = true := by
      rw [hpath, PurePath.isRelativeTo_iff]
      exact ⟨by rw [webDir_name], rest, rfl⟩
    rw [webDir_name, List.append_assoc] at hpath
    obtain ⟨first, parts, hfirst, hne⟩ := first_ne_up hpath
    have hservers : (requested xFilepath).isRelativeTo (STATIC_ROOT / .parse SERVERS.1) = true := by
      rw [hpath, servers_eq, PurePath.isRelativeTo_iff]
      exact ⟨rfl, _, (List.append_assoc ..).symm⟩
    have hname : (requested xFilepath).parts[STATIC_ROOT.parts.length + 1]? = some name.1 := by
      rw [hroot, hpath, staticRoot_eq]
      rfl
    unfold authStaticPath
    rw [hfirst]
    dsimp only
    rw [if_neg hne, if_pos hservers, hname]
    dsimp only
    rw [hget]
    dsimp only
    rw [henabled, hin]
    rfl

/-- Where the path below a web directory leads. -/
theorem resolve_below (name : Name) (rest : List Name) :
    (⟨.slash, (webDir name.1).tail ++ rest⟩ : PurePath).resolve =
      ⟨.slash, (cancel (webDir name.1).tail).2.take
        ((cancel (webDir name.1).tail).2.length - (cancel rest).1) ++ (cancel rest).2⟩ := by
  unfold PurePath.resolve
  dsimp only
  rw [if_neg (by decide), cancel_append]

theorem cancel_webDir {name : Name} (h : name ≠ up) :
    cancel (webDir name.1).tail = (0, (webDir name.1).tail) := by
  apply cancel_of_notMem
  rw [webDir_name, staticRoot_eq]
  simp [up, SERVERS, DYNMAP, WEB, Subtype.ext_iff]
  exact fun heq => h (Subtype.ext heq.symm)

theorem comesBack_iff (name : Name) (rest : List Name) :
    ComesBack config name rest ↔
      Confined config ⟨.slash, (webDir name.1).tail ++ rest⟩ := by
  unfold ComesBack Confined
  rw [resolve_below]
  refine exists_congr fun serverName => and_congr_right fun _ => ?_
  rw [PurePath.isRelativeTo_iff]
  refine and_congr eq_comm (exists_congr fun _ => eq_comm)

theorem comesBack_of_inside {name : Name} {rest : List Name} (henabled : Enabled config name.1)
    (hname : name ≠ up) (hrest : (cancel rest).1 = 0) : ComesBack config name rest := by
  refine ⟨name.1, henabled, by rw [webDir_name], ?_⟩
  rw [cancel_webDir hname, hrest, Nat.sub_zero, List.take_length]
  exact List.prefix_append _ _

/-- **Static-file authorisation is confined** for just the headers that are rejected, or that, below
the web directory they name, stay inside. -/
theorem static_path_confined (config : Config) (xFilepath : Text) :
    (authStaticPath config xFilepath = .ok () → Confined config (requested xFilepath)) ↔
      ∀ (name : Name) (rest : List Name),
        requested xFilepath = ⟨.slash, (webDir name.1).tail ++ rest⟩ → Enabled config name.1 →
          StaysInside config name rest := by
  constructor
  · intro h name rest hpath henabled
    refine .inr ((comesBack_iff name rest).2 ?_)
    rw [← hpath]
    exact h (authStaticPath_ok_iff.2 ⟨name, rest, hpath, henabled⟩)
  · intro h hok
    obtain ⟨name, rest, hpath, henabled⟩ := authStaticPath_ok_iff.1 hok
    rw [hpath, ← comesBack_iff]
    rcases h name rest hpath henabled with ⟨hname, hrest⟩ | hback
    · exact comesBack_of_inside henabled hname hrest
    · exact hback

end

/-- One server, `s`, which is enabled. -/
def oneServer : Config where
  serverListing := .set {} ['s'] { enabled := true }

/-- `servers/s/dynmap/web/../../../../secret` -/
def climbing : Text :=
  ['s', 'e', 'r', 'v', 'e', 'r', 's', '/', 's', '/', 'd', 'y', 'n', 'm', 'a', 'p', '/', 'w', 'e', 'b',
    '/', '.', '.', '/', '.', '.', '/', '.', '.', '/', '.', '.', '/', 's', 'e', 'c', 'r', 'e', 't']

/-- The header climbs out of the web directory of the only server and is accepted. -/
theorem escapes_web :
    authStaticPath oneServer climbing = .ok () ∧
      (requested climbing).resolve = .parse ("/app/data/secret".toList) ∧
      ¬ Confined oneServer (requested climbing) := by
  refine ⟨by decide +kernel, by decide +kernel, ?_⟩
  rintro ⟨serverName, ⟨listing, hget, -⟩, hin⟩
  obtain ⟨-, rest, htail⟩ := PurePath.isRelativeTo_iff.1 hin
  obtain ⟨hname, -⟩ := by simpa [oneServer] using Dict.mem_set.1 (Dict.mem_items.2 hget)
  subst hname
  have hlength := congrArg List.length htail
  rw [List.length_append, show (requested climbing).resolve.tail.length = 3 by decide +kernel,
    show (webDir ['s']).tail.length = 6 by decide +kernel] at hlength
  omega

end Silkjam.Api
