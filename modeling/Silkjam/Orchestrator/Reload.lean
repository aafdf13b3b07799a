import Mathlib.Algebra.Ring.Nat
import Silkjam.Orchestrator.Ports
import Silkjam.Supervisor.Membership

/-!
# Reconfiguration

`reload_config` makes a unit for each new entry of the listings, and for each entry that disappeared
it asks the supervisor to remove the unit and forgets it. The supervisor refuses to remove a unit
that has a lifecycle pending or in progress, and the value that says so is not looked at, so such a
unit stays supervised and in no table (`unit_left_behind`). In the runs in which the entries that
disappear have units without lifecycle, the supervised units are those of the tables, up to the
first reload that finds one with a lifecycle (`registry_consistent`).
-/

namespace Silkjam.Orchestrator

open Transition Supervisor

/-- What making an `MCBackend` raises. -/
inductive BuildError where
  /-- from the files of the server: its properties, or making its backup directory -/
  | files
  | assertionError
  | overflowError
  deriving DecidableEq

/-- The least integer that `float` rounds to a number that is too large. -/
def FLOAT_OVERFLOW : Nat :=
  2 ^ 1024 - 2 ^ 970

/-- `Timer(timeout)`, which takes the timeout as a `float`. -/
def newTimer (timeout : Option Nat) : Except BuildError Unit :=
  match timeout with
  | none => .ok ()
  | some timeout => if timeout < FLOAT_OVERFLOW then .ok () else .error .overflowError

/-- `MCBackupManager(...)`, a timer of at least `MIN_INTERVAL` seconds. -/
def newBackupManager (properties : BackupProperties) : Except BuildError Unit :=
  match properties.interval with
  | none => .error .assertionError
  | some interval => newTimer (some (max 60 (interval * 60)))

def unlisted {α : Type} (table : Dict Text α) (listed : List Text) : List (Text × α) :=
  table.items.filter fun e => e.1 ∉ listed

/-- The loops of `reload_config` that clean up a table: the units of the entries that are not listed
are removed, and then the entries. -/
def removeUnlisted {α : Type} (table : Dict Text α) (unit : α → UnitId) (listed : List Text)
    (s : Supervisor UnitId) : Dict Text α × Supervisor UnitId :=
  let removed := unlisted table listed
  ((removed.map Prod.fst).foldl Dict.erase table, s.removeAll (removed.map fun e => unit e.2))

namespace MCOrchestrator

/-- Return the sole public voice endpoint that routes to a backend. -/
def getVoiceHost (o : MCOrchestrator) (backendName : Text) : Option Port :=
  let voicePorts := ((o.config.proxyListing.values.filter fun listing =>
    listing.enabled && listing.valid && decide (backendName ∈ listing.subdomains.values)).filterMap
      fun listing => listing.voicePort).dedup
  match voicePorts with
  | [port] => some port
  | _ => none

def addProxy (o : MCOrchestrator) (entry : Text × ProxyListing) : MCOrchestrator :=
  let (proxyName, proxyListing) := entry
  if proxyName ∈ o.proxies.keys then o
  else if !proxyListing.valid then o
  else if !proxyListing.enabled then o
  else
    let proxy : MCProxy := { id := o.nextObject, listing := proxyListing }
    { o with
      proxies := o.proxies.set proxyName proxy
      supervisor := (o.supervisor.addUnit proxy.unit).1
      nextObject := o.nextObject + 1 }

/-- Start proxies in the listing that are not currently running. -/
def addProxies (o : MCOrchestrator) : MCOrchestrator :=
  o.config.proxyListing.items.foldl addProxy o

/-- Cleanup any proxies in the listing that no longer exist. -/
def removeProxies (o : MCOrchestrator) : MCOrchestrator :=
  let (proxies, supervisor) :=
    removeUnlisted o.proxies MCProxy.unit o.config.proxyListing.keys o.supervisor
  { o with proxies := proxies, supervisor := supervisor }

/-- `MCBackend(...)`, with its sleep timer and its backup manager; `files` says for which servers
reading and writing files succeeds. -/
def newBackend (o : MCOrchestrator) (files : Text → Bool) (name : Text) (listing : ServerListing) :
    Except BuildError MCBackend :=
  -- the properties are read before the timer is made, and the backup directory is made after it:
  -- of several errors the first is not told apart
  if !files name then .error .files
  else do
    newTimer (listing.sleepProperties.timeout.map Subtype.val)
    newBackupManager listing.backupProperties
    return { id := o.nextObject, listing := listing, voiceHost := o.getVoiceHost name }

/-- `self.backends[backend_name] = backend` and `self.add_unit(backend, ...)`. -/
def insertBackend (o : MCOrchestrator) (backendName : Text) (backend : MCBackend)
    (stopped : Bool) : MCOrchestrator :=
  { o with
    backends := o.backends.set backendName backend
    supervisor := (o.supervisor.addUnit backend.unit false stopped).1
    nextObject := o.nextObject + 1 }

/-- The loop over the server listing, with what it raises. -/
def addBackends (files : Text → Bool) :
    List (Text × ServerListing) → MCOrchestrator → MCOrchestrator × Option BuildError
  | [], o => (o, none)
  | (backendName, serverListing) :: entries, o =>
    if backendName ∈ o.backends.keys then addBackends files entries o
    else if !serverListing.valid then addBackends files entries o
    else if !serverListing.enabled then addBackends files entries o
    else
      match o.newBackend files backendName serverListing with
      | .error err => (o, some err)
      | .ok backend =>
        let stopped := serverListing.sleepProperties.timeout.isSome &&
          decide (serverListing.version ≠ UNKNOWN_VERSION)
        addBackends files entries (o.insertBackend backendName backend stopped)

/-- Cleanup any servers in the listing that no longer exist. -/
def removeBackends (o : MCOrchestrator) : MCOrchestrator :=
  let (backends, supervisor) :=
    removeUnlisted o.backends MCBackend.unit o.config.serverListing.keys o.supervisor
  { o with backends := backends, supervisor := supervisor }

def reloadConfig (o : MCOrchestrator) (files : Text → Bool) :
    MCOrchestrator × Option BuildError :=
  let o := o.addProxies.removeProxies
  match addBackends files o.config.serverListing.items o with
  | (o, some err) => (o, some err)
  | (o, none) => (o.removeBackends, none)

end MCOrchestrator

/-! ### The orchestrator as a system -/

/-- What happens around an orchestrator: the steps of its supervisor that add and remove no unit,
new configurations, and reloads, between two calls of `supervise_until`. -/
inductive Action where
  | supervisor (a : Supervisor.Action UnitId)
  | configure (config : Config)
  | reload (files : Text → Bool)

namespace MCOrchestrator

def step (o : MCOrchestrator) : Action → Option MCOrchestrator
  | .supervisor a =>
    if a.isPlain then (o.supervisor.step a).map fun s => { o with supervisor := s } else none
  | .configure config => some { o with config := config }
  | .reload files => if o.supervisor.loop.isIdle then some (o.reloadConfig files).1 else none

def init (serverPortRange : Int × Int) : MCOrchestrator where
  serverPortRange := serverPortRange

/-- The unit of a proxy or a backend in the tables. -/
def Tracks (o : MCOrchestrator) (u : UnitId) : Prop :=
  (∃ proxy ∈ o.proxies.values, proxy.unit = u) ∨ ∃ backend ∈ o.backends.values, backend.unit = u

/-- The supervised units are those of the tables, and no other unit has an unfinished task. -/
def Agrees (o : MCOrchestrator) : Prop :=
  (∀ u, u ∈ o.supervisor.units ↔ o.Tracks u) ∧ ∀ u, o.supervisor.HasLive u → o.Tracks u

/-- The timers of the backend can be made: its backups have an interval, and neither this nor the
sleep timeout is too large. -/
def Timed (listing : ServerListing) : Prop :=
  (∀ timeout ∈ listing.sleepProperties.timeout, timeout.1 < FLOAT_OVERFLOW) ∧
    ∃ interval ∈ listing.backupProperties.interval, max 60 (interval.1 * 60) < FLOAT_OVERFLOW

/-- Every backend that the reload has to make can be made. -/
def Builds (o : MCOrchestrator) (files : Text → Bool) : Prop :=
  ∀ e ∈ o.config.serverListing.items, e.1 ∉ o.backends.keys → e.2.valid = true →
    e.2.enabled = true → files e.1 = true ∧ Timed e.2

/-- The entries that disappeared have units with no lifecycle pending or in progress. -/
def RemovesIdle (o : MCOrchestrator) (files : Text → Bool) : Prop :=
  (∀ e ∈ o.proxies.items, e.1 ∉ o.config.proxyListing.keys → ¬ o.supervisor.Busy e.2.unit) ∧
    (o.Builds files → ∀ e ∈ o.backends.items, e.1 ∉ o.config.serverListing.keys →
      ¬ o.supervisor.Busy e.2.unit)

instance (listing : ServerListing) : Decidable (Timed listing) :=
  inferInstanceAs (Decidable ((∀ timeout ∈ _, _) ∧ ∃ interval ∈ _, _))

instance (o : MCOrchestrator) (files : Text → Bool) : Decidable (o.Builds files) :=
  inferInstanceAs (Decidable (∀ e ∈ o.config.serverListing.items, _ → _ → _ → _))

instance (o : MCOrchestrator) (files : Text → Bool) : Decidable (o.RemovesIdle files) :=
  inferInstanceAs (Decidable ((∀ e ∈ o.proxies.items, _ → ¬ _) ∧
    (_ → ∀ e ∈ o.backends.items, _ → ¬ _)))

/-- Runs whose reloads find no lifecycle of a unit whose entry disappeared. -/
def ReloadsIdle (o : MCOrchestrator) : Action → Prop
  | .reload files => o.RemovesIdle files
  | _ => True

instance (o : MCOrchestrator) (a : Action) : Decidable (o.ReloadsIdle a) :=
  match a with
  | .reload files => inferInstanceAs (Decidable (o.RemovesIdle files))
  | .supervisor _ => .isTrue trivial
  | .configure _ => .isTrue trivial

/-! ### What a reload keeps -/

structure Keeps (o o' : MCOrchestrator) : Prop where
  config : o'.config = o.config
  next : o.nextObject ≤ o'.nextObject
  requests : Requests o.supervisor o'.supervisor
  state : ∀ u, u.number < o.nextObject → o'.supervisor.state u = o.supervisor.state u

def UnitsDiffer {α : Type} (table : Dict Text α) (unit : α → UnitId) : Prop :=
  ∀ e ∈ table.items, ∀ e' ∈ table.items, unit e.2 = unit e'.2 → e = e'

/-- The supervised units are those of the tables, which are all different and older than the next
object, and no other unit has an unfinished task. -/
structure Consistent (o : MCOrchestrator) : Prop where
  wf : WF o.supervisor
  units : ∀ u, u ∈ o.supervisor.units ↔ o.Tracks u
  idle : ∀ u, ¬ o.Tracks u → ¬ o.supervisor.HasLive u
  older : ∀ u, o.Tracks u → u.number < o.nextObject
  proxies : UnitsDiffer o.proxies MCProxy.unit
  backends : UnitsDiffer o.backends MCBackend.unit

section
variable {o o' o'' : MCOrchestrator} {files : Text → Bool} {u : UnitId}

theorem Keeps.refl (o : MCOrchestrator) : Keeps o o :=
  ⟨rfl, Nat.le_refl _, ⟨rfl, rfl, rfl, rfl, rfl⟩, fun _ _ => rfl⟩

theorem Keeps.trans (h : Keeps o o') (h' : Keeps o' o'') : Keeps o o'' :=
  ⟨h'.config.trans h.config, h.next.trans h'.next, h.requests.trans h'.requests,
    fun u hu => (h'.state u (hu.trans_le h.next)).trans (h.state u hu)⟩

theorem Keeps.busy_iff (h : Keeps o o') (hu : u.number < o.nextObject) :
    o'.supervisor.Busy u ↔ o.supervisor.Busy u := by
  unfold Busy
  rw [h.state u hu, h.requests.hasLive_iff]

theorem exists_mem_values {α : Type} {table : Dict Text α} {unit : α → UnitId} :
    (∃ v ∈ table.values, unit v = u) ↔ ∃ e ∈ table.items, unit e.2 = u := by
  constructor
  · rintro ⟨v, hv, hu⟩
    obtain ⟨name, he⟩ := Dict.mem_values_iff_exists.1 hv
    exact ⟨(name, v), he, hu⟩
  · rintro ⟨⟨name, v⟩, he, hu⟩
    exact ⟨v, Dict.mem_values_iff_exists.2 ⟨name, he⟩, hu⟩

theorem tracks_iff : o.Tracks u ↔
    (∃ e ∈ o.proxies.items, e.2.unit = u) ∨ ∃ e ∈ o.backends.items, e.2.unit = u := by
  unfold Tracks
  rw [exists_mem_values, exists_mem_values]

theorem UnitsDiffer.set {α : Type} {table : Dict Text α} {unit : α → UnitId} {name : Text} {v : α}
    (h : UnitsDiffer table unit) (hname : name ∉ table.keys)
    (hnew : ∀ e ∈ table.items, unit e.2 ≠ unit v) : UnitsDiffer (table.set name v) unit := by
  intro e he e' he' heq
  rcases (Dict.mem_set_of_notMem hname).1 he with he | rfl <;>
    rcases (Dict.mem_set_of_notMem hname).1 he' with he' | rfl
  · exact h e he e' he' heq
  · exact absurd heq (hnew e he)
  · exact absurd heq.symm (hnew e' he')
  · rfl

theorem Consistent.add (h : Consistent o) (restart stopped : Bool)
    (htracks : ∀ w, o'.Tracks w ↔ o.Tracks w ∨ w = u) (hu : u.number = o.nextObject)
    (hsupervisor : o'.supervisor = (o.supervisor.addUnit u restart stopped).1)
    (hconfig : o'.config = o.config) (hnext : o'.nextObject = o.nextObject + 1)
    (hproxies : UnitsDiffer o'.proxies MCProxy.unit)
    (hbackends : UnitsDiffer o'.backends MCBackend.unit) : Consistent o' ∧ Keeps o o' := by
  have hnew : ¬ o.Tracks u := fun ht => (h.older u ht).ne hu
  have hunits := addUnit_units (fun hmem => hnew ((h.units u).1 hmem)) restart stopped
  have hrequests : Requests o.supervisor o'.supervisor :=
    hsupervisor ▸ addUnit_requests o.supervisor u restart stopped
  refine ⟨⟨?_, fun w => ?_, fun w hw => ?_, fun w hw => ?_, hproxies, hbackends⟩,
    hconfig, by omega, hrequests, fun w hw => ?_⟩
  · rw [hsupervisor]
    exact (addUnit_evolves h.wf u restart stopped).wf
  · rw [hsupervisor, hunits, List.mem_append, List.mem_singleton, h.units, htracks]
  · rw [hrequests.hasLive_iff]
    exact h.idle w fun ht => hw ((htracks w).2 (.inl ht))
  · rw [hnext]
    rcases (htracks w).1 hw with ht | rfl
    · exact Nat.lt_succ_of_lt (h.older w ht)
    · omega
  · have hne : u ≠ w := by
      rintro rfl
      omega
    have hview := addUnit_view_ne o.supervisor restart stopped hne
    rw [hsupervisor]
    exact congrArg View.st hview

theorem Consistent.addProxy (h : Consistent o) (entry : Text × ProxyListing) :
    Consistent (o.addProxy entry) ∧ Keeps o (o.addProxy entry) ∧
      (o.addProxy entry).backends = o.backends ∧
      (∀ e ∈ o.proxies.items, e ∈ (o.addProxy entry).proxies.items) ∧
      ∀ e ∈ (o.addProxy entry).proxies.items, e ∈ o.proxies.items ∨ e.1 = entry.1 := by
  obtain ⟨name, listing⟩ := entry
  unfold MCOrchestrator.addProxy
  dsimp only
  split
  · exact ⟨h, .refl o, rfl, fun _ he => he, fun _ he => .inl he⟩
  next hname =>
  split
  · exact ⟨h, .refl o, rfl, fun _ he => he, fun _ he => .inl he⟩
  split
  · exact ⟨h, .refl o, rfl, fun _ he => he, fun _ he => .inl he⟩
  have hmem {e : Text × MCProxy} := Dict.mem_set_of_notMem (e := e)
    (v := ({ id := o.nextObject, listing := listing } : MCProxy)) hname
  have hdiffer : UnitsDiffer (o.proxies.set name { id := o.nextObject, listing := listing })
      MCProxy.unit := by
    apply h.proxies.set hname
    intro e he heq
    have holder := h.older e.2.unit (tracks_iff.2 (.inl ⟨e, he, rfl⟩))
    rw [heq] at holder
    exact Nat.lt_irrefl _ holder
  have htracks (w : UnitId) : Tracks { o with
      proxies := o.proxies.set name { id := o.nextObject, listing := listing }
      supervisor := (o.supervisor.addUnit (.proxy o.nextObject)).1
      nextObject := o.nextObject + 1 } w ↔ o.Tracks w ∨ w = .proxy o.nextObject := by
    rw [tracks_iff, tracks_iff]
    dsimp only
    simp only [hmem, or_and_right, exists_or, exists_eq_left]
    rw [or_right_comm, eq_comm (a := w)]
    rfl
  obtain ⟨hcons, hkeeps⟩ := h.add true false htracks rfl rfl rfl rfl hdiffer h.backends
  exact ⟨hcons, hkeeps, rfl, fun e he => hmem.2 (.inl he),
    fun e he => (hmem.1 he).imp_right fun heq => by rw [heq]⟩

theorem Consistent.foldl_addProxy (h : Consistent o) (entries : List (Text × ProxyListing)) :
    Consistent (entries.foldl MCOrchestrator.addProxy o) ∧
      Keeps o (entries.foldl MCOrchestrator.addProxy o) ∧
      (entries.foldl MCOrchestrator.addProxy o).backends = o.backends ∧
      (∀ e ∈ o.proxies.items, e ∈ (entries.foldl MCOrchestrator.addProxy o).proxies.items) ∧
      ∀ e ∈ (entries.foldl MCOrchestrator.addProxy o).proxies.items,
        e ∈ o.proxies.items ∨ e.1 ∈ entries.map Prod.fst := by
  induction entries generalizing o with
  | nil => exact ⟨h, .refl o, rfl, fun _ he => he, fun _ he => .inl he⟩
  | cons entry entries ih =>
    obtain ⟨hcons, hkeeps, hbackends, hkept, hold⟩ := h.addProxy entry
    obtain ⟨hcons', hkeeps', hbackends', hkept', hold'⟩ := ih hcons
    refine ⟨hcons', hkeeps.trans hkeeps', hbackends'.trans hbackends,
      fun e he => hkept' e (hkept e he), fun e he => ?_⟩
    rw [List.map_cons, List.mem_cons]
    rcases hold' e he with he | he
    · exact (hold e he).imp_right .inl
    · exact .inr (.inr he)

theorem Consistent.addProxies (h : Consistent o) :
    Consistent o.addProxies ∧ Keeps o o.addProxies ∧ o.addProxies.backends = o.backends ∧
      (∀ e ∈ o.proxies.items, e ∈ o.addProxies.proxies.items) ∧
      ∀ e ∈ o.addProxies.proxies.items,
        e ∈ o.proxies.items ∨ e.1 ∈ o.config.proxyListing.keys :=
  h.foldl_addProxy _

/-! ### Cleaning up a table -/

theorem mem_unlisted {α : Type} {table : Dict Text α} {listed : List Text} {e : Text × α} :
    e ∈ unlisted table listed ↔ e ∈ table.items ∧ e.1 ∉ listed := by
  unfold unlisted
  rw [List.mem_filter, decide_eq_true_eq]

theorem mem_removeUnlisted {α : Type} {table : Dict Text α} {unit : α → UnitId}
    {listed : List Text} {s : Supervisor UnitId} {e : Text × α} :
    e ∈ (removeUnlisted table unit listed s).1.items ↔ e ∈ table.items ∧ e.1 ∈ listed := by
  unfold removeUnlisted
  dsimp only
  rw [Dict.mem_foldl_erase]
  apply and_congr_right
  intro he
  constructor
  · intro hno
    by_contra hlisted
    exact hno (List.mem_map_of_mem (mem_unlisted.2 ⟨he, hlisted⟩))
  · intro hlisted hmem
    obtain ⟨e', he', heq⟩ := List.mem_map.1 hmem
    exact (mem_unlisted.1 he').2 (heq ▸ hlisted)

theorem UnitsDiffer.removeUnlisted {α : Type} {table : Dict Text α} {unit : α → UnitId}
    (h : UnitsDiffer table unit) (listed : List Text) (s : Supervisor UnitId) :
    UnitsDiffer (removeUnlisted table unit listed s).1 unit ∧
      ∀ w, (∃ e ∈ (Orchestrator.removeUnlisted table unit listed s).1.items, unit e.2 = w) ↔
        (∃ e ∈ table.items, unit e.2 = w) ∧
          w ∉ (unlisted table listed).map fun e => unit e.2 := by
  refine ⟨fun e he e' he' => h e (mem_removeUnlisted.1 he).1 e' (mem_removeUnlisted.1 he').1,
    fun w => ?_⟩
  constructor
  · rintro ⟨e, he, rfl⟩
    obtain ⟨he, hlisted⟩ := mem_removeUnlisted.1 he
    refine ⟨⟨e, he, rfl⟩, ?_⟩
    intro hmem
    obtain ⟨e', he', heq⟩ := List.mem_map.1 hmem
    obtain ⟨he', hno⟩ := mem_unlisted.1 he'
    cases h e' he' e he heq
    exact hno hlisted
  · rintro ⟨⟨e, he, rfl⟩, hno⟩
    refine ⟨e, mem_removeUnlisted.2 ⟨he, ?_⟩, rfl⟩
    by_contra hlisted
    exact hno (List.mem_map_of_mem (mem_unlisted.2 ⟨he, hlisted⟩))

/-- Units with no lifecycle are removed from both the supervisor and the tables. -/
theorem Consistent.remove (h : Consistent o) {l : List UnitId}
    (hidle : ∀ w ∈ l, ¬ o.supervisor.Busy w) (htracks : ∀ w, o'.Tracks w ↔ o.Tracks w ∧ w ∉ l)
    (hsupervisor : o'.supervisor = o.supervisor.removeAll l) (hconfig : o'.config = o.config)
    (hnext : o'.nextObject = o.nextObject) (hproxies : UnitsDiffer o'.proxies MCProxy.unit)
    (hbackends : UnitsDiffer o'.backends MCBackend.unit) : Consistent o' ∧ Keeps o o' := by
  have hrequests : Requests o.supervisor o'.supervisor := by
    rw [hsupervisor, removeAll_eq]
    exact ⟨rfl, rfl, rfl, rfl, rfl⟩
  have hstate (w : UnitId) : o'.supervisor.state w = o.supervisor.state w := by
    rw [hsupervisor, removeAll_eq]
    rfl
  refine ⟨⟨?_, fun w => ?_, fun w hw => ?_, fun w hw => ?_, hproxies, hbackends⟩,
    hconfig, hnext.ge, hrequests, fun w _ => hstate w⟩
  · rw [hsupervisor]
    exact removeAll_wf l h.wf fun w hw hlive => hidle w hw (.inr hlive)
  · rw [hsupervisor, mem_removeAll l h.wf.units, htracks, h.units]
    refine and_congr_right fun _ => not_congr ⟨And.left, fun hw => ⟨hw, ?_⟩⟩
    exact h.wf.removable (hidle w hw)
  · rw [hrequests.hasLive_iff]
    rw [htracks, not_and_not_right] at hw
    by_cases ht : o.Tracks w
    · exact fun hlive => hidle w (hw ht) (.inr hlive)
    · exact h.idle w ht
  · rw [hnext]
    exact h.older w ((htracks w).1 hw).1

/-- `u` is supervised or has an unfinished task, and is in no table. -/
def Stray (o : MCOrchestrator) (u : UnitId) : Prop :=
  ¬ o.Tracks u ∧ (u ∈ o.supervisor.units ∨ o.supervisor.HasLive u)

theorem Stray.not_agrees (h : Stray o u) : ¬ o.Agrees := by
  rintro ⟨hunits, hlive⟩
  rcases h.2 with hu | hu
  · exact h.1 ((hunits u).1 hu)
  · exact h.1 (hlive u hu)

/-- A unit with a lifecycle is forgotten, and either refuses to be removed or leaves its task. -/
theorem Consistent.stray (h : Consistent o) {l : List UnitId} (hu : u ∈ l) (ht : o.Tracks u)
    (hbusy : o.supervisor.Busy u) (htracks : ∀ w, o'.Tracks w ↔ o.Tracks w ∧ w ∉ l)
    (hsupervisor : o'.supervisor = o.supervisor.removeAll l) : Stray o' u := by
  refine ⟨fun hw => ((htracks u).1 hw).2 hu, ?_⟩
  rw [hsupervisor, mem_removeAll l h.wf.units]
  by_cases hremovable : o.supervisor.Removable u
  · refine .inr ?_
    rw [removeAll_eq]
    by_contra hlive
    exact not_busy hremovable hlive hbusy
  · exact .inl ⟨(h.units u).2 ht, fun hw => hremovable hw.2⟩

theorem removeProxies_tracks (h : UnitsDiffer o.proxies MCProxy.unit) :
    UnitsDiffer o.removeProxies.proxies MCProxy.unit ∧
      ∀ w, o.removeProxies.Tracks w ↔ o.Tracks w ∧
        w ∉ (unlisted o.proxies o.config.proxyListing.keys).map fun e => e.2.unit := by
  obtain ⟨hdiffer, hunits⟩ := h.removeUnlisted o.config.proxyListing.keys o.supervisor
  refine ⟨hdiffer, ?_⟩
  intro w
  rw [tracks_iff, tracks_iff, or_and_right]
  refine or_congr (hunits w) ⟨fun hw => ⟨hw, fun hmem => ?_⟩, And.left⟩
  obtain ⟨e, -, rfl⟩ := hw
  obtain ⟨e', -, heq⟩ := List.mem_map.1 hmem
  cases heq

theorem removeBackends_tracks (h : UnitsDiffer o.backends MCBackend.unit) :
    UnitsDiffer o.removeBackends.backends MCBackend.unit ∧
      ∀ w, o.removeBackends.Tracks w ↔ o.Tracks w ∧
        w ∉ (unlisted o.backends o.config.serverListing.keys).map fun e => e.2.unit := by
  obtain ⟨hdiffer, hunits⟩ := h.removeUnlisted o.config.serverListing.keys o.supervisor
  refine ⟨hdiffer, ?_⟩
  intro w
  rw [tracks_iff, tracks_iff, or_and_right]
  refine or_congr ⟨fun hw => ⟨hw, fun hmem => ?_⟩, And.left⟩ (hunits w)
  obtain ⟨e, -, rfl⟩ := hw
  obtain ⟨e', -, heq⟩ := List.mem_map.1 hmem
  cases heq

/-! ### Making the backends -/

theorem newBackend_ok {name : Text} {listing : ServerListing} {backend : MCBackend}
    (h : o.newBackend files name listing = .ok backend) :
    (files name = true ∧ newTimer (listing.sleepProperties.timeout.map Subtype.val) = .ok () ∧
      newBackupManager listing.backupProperties = .ok ()) ∧ backend.id = o.nextObject := by
  unfold newBackend at h
  split at h
  · cases h
  · next hfiles =>
    cases hsleep : newTimer (listing.sleepProperties.timeout.map Subtype.val) with
    | error err => rw [hsleep] at h; cases h
    | ok _ =>
      cases hmanager : newBackupManager listing.backupProperties with
      | error err => rw [hsleep, hmanager] at h; cases h
      | ok _ =>
        rw [hsleep, hmanager] at h
        cases h
        exact ⟨⟨by simpa using hfiles, rfl, rfl⟩, rfl⟩

theorem newTimer_ok_iff {timeout : Option Nat} :
    newTimer timeout = .ok () ↔ ∀ n ∈ timeout, n < FLOAT_OVERFLOW := by
  cases timeout with
  | none => simp [newTimer]
  | some n =>
    unfold newTimer
    dsimp only
    split
    · next h => simp [h]
    · next h => simpa using h

theorem newBackend_ok_iff {name : Text} {listing : ServerListing} :
    (∃ backend, o.newBackend files name listing = .ok backend) ↔
      files name = true ∧ Timed listing := by
  have hsleep : newTimer (listing.sleepProperties.timeout.map Subtype.val) = .ok () ↔
      ∀ timeout ∈ listing.sleepProperties.timeout, timeout.1 < FLOAT_OVERFLOW := by
    rw [newTimer_ok_iff]
    cases listing.sleepProperties.timeout <;> simp
  have hmanager : newBackupManager listing.backupProperties = .ok () ↔
      ∃ interval ∈ listing.backupProperties.interval, max 60 (interval.1 * 60) < FLOAT_OVERFLOW := by
    unfold newBackupManager
    cases listing.backupProperties.interval with
    | none => simp
    | some interval => simp [newTimer_ok_iff]
  rw [Timed, ← hsleep, ← hmanager]
  constructor
  · rintro ⟨backend, h⟩
    exact (newBackend_ok h).1
  · rintro ⟨hfiles, hsleep, hmanager⟩
    refine ⟨{ id := o.nextObject, listing := listing, voiceHost := o.getVoiceHost name }, ?_⟩
    unfold newBackend
    rw [hfiles, hsleep, hmanager]
    rfl

/-- **The loop over the server listing**, as one step: an entry is skipped, its backend cannot be
made, or its backend is new. -/
theorem addBackends_cons (files : Text → Bool) (entry : Text × ServerListing)
    (entries : List (Text × ServerListing)) (o : MCOrchestrator) :
    (¬ (entry.1 ∉ o.backends.keys ∧ entry.2.valid = true ∧ entry.2.enabled = true) ∧
      addBackends files (entry :: entries) o = addBackends files entries o) ∨
    (entry.1 ∉ o.backends.keys ∧ entry.2.valid = true ∧ entry.2.enabled = true) ∧
      ((∃ err, o.newBackend files entry.1 entry.2 = .error err ∧
        addBackends files (entry :: entries) o = (o, some err)) ∨
      ∃ backend stopped, o.newBackend files entry.1 entry.2 = .ok backend ∧
        addBackends files (entry :: entries) o =
          addBackends files entries (o.insertBackend entry.1 backend stopped)) := by
  rw [addBackends]
  split
  · next hname => exact .inl ⟨fun h => h.1 hname, rfl⟩
  next hname =>
  split
  · next hvalid => exact .inl ⟨fun h => by simp [h.2.1] at hvalid, rfl⟩
  next hvalid =>
  split
  · next henabled => exact .inl ⟨fun h => by simp [h.2.2] at henabled, rfl⟩
  next henabled =>
  refine .inr ⟨⟨hname, by simpa using hvalid, by simpa using henabled⟩, ?_⟩
  cases hnew : o.newBackend files entry.1 entry.2 with
  | error err => exact .inl ⟨err, rfl, rfl⟩
  | ok backend => exact .inr ⟨backend, _, rfl, rfl⟩

theorem Consistent.insertBackend (h : Consistent o) {name : Text} {listing : ServerListing}
    {backend : MCBackend} (stopped : Bool) (hname : name ∉ o.backends.keys)
    (hnew : o.newBackend files name listing = .ok backend) :
    Consistent (o.insertBackend name backend stopped) ∧
      Keeps o (o.insertBackend name backend stopped) := by
  have hid := (newBackend_ok hnew).2
  have hmem {e : Text × MCBackend} := Dict.mem_set_of_notMem (e := e) (v := backend) hname
  have hdiffer : UnitsDiffer (o.backends.set name backend) MCBackend.unit := by
    apply h.backends.set hname
    intro e he heq
    have holder := h.older e.2.unit (tracks_iff.2 (.inr ⟨e, he, rfl⟩))
    rw [heq] at holder
    exact holder.ne hid
  have htracks (w : UnitId) : (o.insertBackend name backend stopped).Tracks w ↔
      o.Tracks w ∨ w = backend.unit := by
    rw [tracks_iff, tracks_iff]
    dsimp only [MCOrchestrator.insertBackend]
    simp only [hmem, or_and_right, exists_or, exists_eq_left]
    rw [or_assoc, eq_comm (a := w)]
  exact h.add false stopped htracks hid rfl rfl rfl h.proxies hdiffer

theorem Consistent.addBackends (h : Consistent o) (files : Text → Bool)
    (entries : List (Text × ServerListing)) :
    Consistent (addBackends files entries o).1 ∧ Keeps o (addBackends files entries o).1 ∧
      (∀ e ∈ o.backends.items, e ∈ (addBackends files entries o).1.backends.items) ∧
      ∀ e ∈ (addBackends files entries o).1.backends.items,
        e ∈ o.backends.items ∨ e.1 ∈ entries.map Prod.fst := by
  induction entries generalizing o with
  | nil => exact ⟨h, .refl o, fun _ he => he, fun _ he => .inl he⟩
  | cons entry entries ih =>
    rcases addBackends_cons files entry entries o with
      ⟨-, heq⟩ | ⟨⟨hname, -, -⟩, ⟨err, -, heq⟩ | ⟨backend, stopped, hnew, heq⟩⟩
    · obtain ⟨hcons, hkeeps, hkept, hold⟩ := ih h
      rw [heq]
      exact ⟨hcons, hkeeps, hkept, fun e he => (hold e he).imp_right (List.mem_cons_of_mem _)⟩
    · rw [heq]
      exact ⟨h, .refl o, fun _ he => he, fun _ he => .inl he⟩
    · have hmem {e : Text × MCBackend} := Dict.mem_set_of_notMem (e := e) (v := backend) hname
      obtain ⟨hcons, hkeeps⟩ := h.insertBackend stopped hname hnew
      obtain ⟨hcons', hkeeps', hkept, hold⟩ := ih hcons
      rw [heq]
      refine ⟨hcons', hkeeps.trans hkeeps', fun e he => hkept e (hmem.2 (.inl he)), ?_⟩
      intro e he
      rcases hold e he with he | he
      · apply (hmem.1 he).imp_right
        rintro rfl
        exact List.mem_cons_self
      · exact .inr (List.mem_cons_of_mem _ he)

/-- The loop goes through when every backend that it has to make can be made. -/
theorem addBackends_none_iff (files : Text → Bool) (entries : List (Text × ServerListing))
    (hnodup : (entries.map Prod.fst).Nodup) :
    (addBackends files entries o).2 = none ↔
      ∀ e ∈ entries, e.1 ∉ o.backends.keys → e.2.valid = true → e.2.enabled = true →
        files e.1 = true ∧ Timed e.2 := by
  induction entries generalizing o with
  | nil => exact ⟨fun _ e he => absurd he List.not_mem_nil, fun _ => rfl⟩
  | cons entry entries ih =>
    obtain ⟨hfirst, hnodup⟩ := List.nodup_cons.1 hnodup
    rw [List.forall_mem_cons]
    rcases addBackends_cons files entry entries o with
      ⟨hskip, heq⟩ | ⟨⟨hname, hvalid, henabled⟩, ⟨err, hnew, heq⟩ | ⟨backend, stopped, hnew, heq⟩⟩
    · rw [heq, ih hnodup]
      refine (and_iff_right ?_).symm
      exact fun hname hvalid henabled => absurd ⟨hname, hvalid, henabled⟩ hskip
    · rw [heq]
      apply iff_of_false (by simp)
      intro hall
      obtain ⟨backend, hok⟩ := newBackend_ok_iff.2 (hall.1 hname hvalid henabled)
      rw [hnew] at hok
      cases hok
    · rw [heq, ih hnodup]
      have hok := newBackend_ok_iff.1 ⟨backend, hnew⟩
      rw [and_iff_right fun _ _ _ => hok]
      apply forall₂_congr
      intro e he
      have hne : e.1 ≠ entry.1 := fun heq' => hfirst (heq' ▸ List.mem_map_of_mem he)
      have hkeys : e.1 ∉ (o.insertBackend entry.1 backend stopped).backends.keys ↔
          e.1 ∉ o.backends.keys := by
        dsimp only [MCOrchestrator.insertBackend]
        rw [Dict.mem_keys_set, or_iff_right hne]
      rw [hkeys]

theorem Stray.addBackends {n : Nat} (h : Stray o (.proxy n)) (files : Text → Bool)
    (entries : List (Text × ServerListing)) :
    Stray (addBackends files entries o).1 (.proxy n) := by
  induction entries generalizing o with
  | nil => exact h
  | cons entry entries ih =>
    rcases addBackends_cons files entry entries o with
      ⟨-, heq⟩ | ⟨-, ⟨err, -, heq⟩ | ⟨backend, stopped, -, heq⟩⟩
    · rw [heq]
      exact ih h
    · rw [heq]
      exact h
    · rw [heq]
      refine ih ⟨fun ht => h.1 ?_, h.2.imp (fun hu => ?_) fun hu => ?_⟩
      · refine tracks_iff.2 (.inl ?_)
        rcases tracks_iff.1 ht with ht | ⟨e, -, he⟩
        · exact ht
        · cases he
      · dsimp only [MCOrchestrator.insertBackend]
        by_cases hmem : backend.unit ∈ o.supervisor.units
        · unfold Supervisor.addUnit
          rw [if_pos hmem]
          exact hu
        · rw [addUnit_units hmem]
          exact List.mem_append_left _ hu
      · dsimp only [MCOrchestrator.insertBackend]
        rwa [(addUnit_requests ..).hasLive_iff]

/-! ### The whole reload -/

theorem Stray.removeBackends {n : Nat} (h : Stray o (.proxy n)) :
    Stray o.removeBackends (.proxy n) := by
  have hother : UnitId.proxy n ∉
      (unlisted o.backends o.config.serverListing.keys).map fun e => e.2.unit := by
    intro hmem
    obtain ⟨e, -, heq⟩ := List.mem_map.1 hmem
    cases heq
  have hsupervisor : o.removeBackends.supervisor = o.supervisor.removeAll
      ((unlisted o.backends o.config.serverListing.keys).map fun e => e.2.unit) := rfl
  refine ⟨fun ht => h.1 ?_, h.2.imp (?_) ?_⟩
  · refine tracks_iff.2 (.inl ?_)
    rcases tracks_iff.1 ht with ht | ⟨e, -, he⟩
    · exact ht
    · cases he
  · intro hu
    rw [hsupervisor]
    exact (mem_removeAll_of_notMem hother).2 hu
  · intro hu
    rw [hsupervisor, removeAll_eq]
    exact hu

theorem Consistent.agrees (h : Consistent o) : o.Agrees :=
  ⟨h.units, fun u hu => by_contra fun ht => h.idle u ht hu⟩

/-- The proxies that disappeared have no lifecycle. -/
def ProxiesIdle (o : MCOrchestrator) : Prop :=
  ∀ e ∈ o.proxies.items, e.1 ∉ o.config.proxyListing.keys → ¬ o.supervisor.Busy e.2.unit

/-- The servers that disappeared have no lifecycle. -/
def BackendsIdle (o : MCOrchestrator) : Prop :=
  ∀ e ∈ o.backends.items, e.1 ∉ o.config.serverListing.keys → ¬ o.supervisor.Busy e.2.unit

theorem removesIdle_iff : o.RemovesIdle files ↔
    o.ProxiesIdle ∧ (o.Builds files → o.BackendsIdle) :=
  Iff.rfl

theorem Consistent.reloadProxies (h : Consistent o) :
    (o.ProxiesIdle → Consistent o.addProxies.removeProxies ∧
      Keeps o o.addProxies.removeProxies ∧ o.addProxies.removeProxies.backends = o.backends) ∧
    (¬ o.ProxiesIdle → ∃ n, Stray o.addProxies.removeProxies (.proxy n)) := by
  obtain ⟨hcons, hkeeps, hbackends, hkept, hold⟩ := h.addProxies
  obtain ⟨hdiffer, htracks⟩ := removeProxies_tracks hcons.proxies
  have hbusy {e : Text × MCProxy} (he : e ∈ o.proxies.items) :=
    hkeeps.busy_iff (h.older e.2.unit (tracks_iff.2 (.inl ⟨e, he, rfl⟩)))
  rw [← hkeeps.config] at hold
  refine ⟨?_, ?_⟩
  · intro hidle
    refine (hcons.remove (fun w hw => ?_) htracks rfl rfl rfl hdiffer hcons.backends).imp_right
      fun hkeeps' => ⟨hkeeps.trans hkeeps', hbackends⟩
    obtain ⟨e, he, rfl⟩ := List.mem_map.1 hw
    obtain ⟨he, hlisted⟩ := mem_unlisted.1 he
    have he' := (hold e he).resolve_right hlisted
    rw [hbusy he']
    rw [hkeeps.config] at hlisted
    exact hidle e he' hlisted
  · intro hidle
    simp only [ProxiesIdle, not_forall, not_not, exists_prop] at hidle
    obtain ⟨e, he, hlisted, hb⟩ := hidle
    rw [← hkeeps.config] at hlisted
    have hmem := List.mem_map_of_mem (f := fun e => e.2.unit)
      (mem_unlisted.2 ⟨hkept e he, hlisted⟩)
    exact ⟨e.2.id, hcons.stray hmem (tracks_iff.2 (.inl ⟨e, hkept e he, rfl⟩)) ((hbusy he).2 hb)
      htracks rfl⟩

theorem Consistent.reloadBackends (h : Consistent o) (files : Text → Bool) :
    let o' := (MCOrchestrator.addBackends files o.config.serverListing.items o).1
    (o.BackendsIdle → Consistent o'.removeBackends) ∧
    (¬ o.BackendsIdle → ∃ u, Stray o'.removeBackends u) := by
  obtain ⟨hcons, hkeeps, hkept, hold⟩ := h.addBackends files o.config.serverListing.items
  obtain ⟨hdiffer, htracks⟩ := removeBackends_tracks hcons.backends
  have hbusy {e : Text × MCBackend} (he : e ∈ o.backends.items) :=
    hkeeps.busy_iff (h.older e.2.unit (tracks_iff.2 (.inr ⟨e, he, rfl⟩)))
  refine ⟨?_, ?_⟩
  · intro hidle
    refine (hcons.remove (fun w hw => ?_) htracks rfl rfl rfl hcons.proxies hdiffer).1
    obtain ⟨e, he, rfl⟩ := List.mem_map.1 hw
    obtain ⟨he, hlisted⟩ := mem_unlisted.1 he
    rw [hkeeps.config] at hlisted
    have he' := (hold e he).resolve_right hlisted
    rw [hbusy he']
    exact hidle e he' hlisted
  · intro hidle
    simp only [BackendsIdle, not_forall, not_not, exists_prop] at hidle
    obtain ⟨e, he, hlisted, hb⟩ := hidle
    rw [← hkeeps.config] at hlisted
    have hmem := List.mem_map_of_mem (f := fun e => e.2.unit)
      (mem_unlisted.2 ⟨hkept e he, hlisted⟩)
    exact ⟨e.2.unit, hcons.stray hmem (tracks_iff.2 (.inr ⟨e, hkept e he, rfl⟩)) ((hbusy he).2 hb)
      htracks rfl⟩

theorem reloadConfig_fst (o : MCOrchestrator) (files : Text → Bool) :
    (o.reloadConfig files).1 =
      let r := addBackends files o.addProxies.removeProxies.config.serverListing.items
        o.addProxies.removeProxies
      if r.2 = none then r.1.removeBackends else r.1 := by
  unfold reloadConfig
  dsimp only
  split
  · next o' err heq => rw [heq, if_neg (by simp)]
  · next o' heq => rw [heq, if_pos rfl]

/-- **One reload** of a consistent registry leaves it consistent or with a stray unit, according to
whether the units whose entries disappeared have a lifecycle. -/
theorem Consistent.reload (h : Consistent o) (files : Text → Bool) :
    (o.RemovesIdle files → Consistent (o.reloadConfig files).1) ∧
    (¬ o.RemovesIdle files → ∃ u, Stray (o.reloadConfig files).1 u) := by
  obtain ⟨hidle, hstray⟩ := h.reloadProxies
  rw [reloadConfig_fst, removesIdle_iff]
  dsimp only
  by_cases hproxies : o.ProxiesIdle
  · obtain ⟨hcons, hkeeps, hbackends⟩ := hidle hproxies
    have hbuilds := addBackends_none_iff files (o := o.addProxies.removeProxies)
      o.addProxies.removeProxies.config.serverListing.items
      o.addProxies.removeProxies.config.serverListing.nodup
    obtain ⟨hidle', hstray'⟩ := hcons.reloadBackends files
    have hsame : o.addProxies.removeProxies.BackendsIdle ↔ o.BackendsIdle := by
      unfold BackendsIdle
      rw [hbackends, hkeeps.config]
      refine forall₂_congr fun e he => imp_congr_right fun _ => not_congr ?_
      exact hkeeps.busy_iff (h.older e.2.unit (tracks_iff.2 (.inr ⟨e, he, rfl⟩)))
    rw [hsame] at hidle' hstray'
    rw [hkeeps.config, hbackends] at hbuilds
    rw [hkeeps.config] at hidle' hstray' ⊢
    split
    · next hnone =>
      have hb : o.Builds files := hbuilds.1 hnone
      exact ⟨fun hr => hidle' (hr.2 hb), fun hr => hstray' fun hi => hr ⟨hproxies, fun _ => hi⟩⟩
    · next hsome =>
      have hb : ¬ o.Builds files := fun hb => hsome (hbuilds.2 hb)
      exact ⟨fun _ => (hcons.addBackends files _).1, fun hr => absurd ⟨hproxies, fun h => absurd h hb⟩ hr⟩
  · refine ⟨fun hr => absurd hr.1 hproxies, ?_⟩
    intro _
    obtain ⟨n, hn⟩ := hstray hproxies
    have hmade := hn.addBackends files o.addProxies.removeProxies.config.serverListing.items
    split
    · exact ⟨_, hmade.removeBackends⟩
    · exact ⟨_, hmade⟩

/-! ### Runs -/

theorem Consistent.supervise (h : Consistent o) {a : Supervisor.Action UnitId}
    {s : Supervisor UnitId} (ha : a.isPlain = true) (hstep : o.supervisor.step a = some s) :
    Consistent { o with supervisor := s } := by
  have hw : WF s := (step_evolves h.wf (by rintro w rfl; cases ha) hstep).wf
  refine ⟨hw, ?_, ?_, h.older, h.proxies, h.backends⟩
  · intro w
    rw [step_mem_units h.wf ha hstep, h.units]
    exact Iff.rfl
  · intro w ht
    have ht' : ¬ o.Tracks w := ht
    exact step_not_hasLive h.wf hw ha hstep (fun hu => ht' ((h.units w).1 hu)) (h.idle w ht')

theorem consistent_init (range : Int × Int) : Consistent (init range) := by
  have hnone (w : UnitId) : ¬ (init range).Tracks w := by
    rintro (⟨_, h, -⟩ | ⟨_, h, -⟩) <;> cases h
  refine ⟨init_wf, fun w => iff_of_false List.not_mem_nil (hnone w), fun w _ => ?_,
    fun w hw => absurd hw (hnone w), fun e he => absurd he List.not_mem_nil,
    fun e he => absurd he List.not_mem_nil⟩
  rintro ⟨t, ht, -⟩
  exact absurd ht (Nat.not_lt_zero t)

theorem Consistent.step {a : Action} (h : Consistent o) (hok : o.ReloadsIdle a)
    (hstep : o.step a = some o') : Consistent o' := by
  cases a with
  | supervisor a =>
    unfold MCOrchestrator.step at hstep
    dsimp only at hstep
    split at hstep
    · next ha =>
      obtain ⟨s, hs, rfl⟩ := Option.map_eq_some_iff.1 hstep
      exact h.supervise ha hs
    · cases hstep
  | configure config =>
    cases hstep
    exact ⟨h.wf, h.units, h.idle, h.older, h.proxies, h.backends⟩
  | reload files =>
    unfold MCOrchestrator.step at hstep
    dsimp only at hstep
    split at hstep
    · cases hstep
      exact (h.reload files).1 hok
    · cases hstep

/-- **Registry consistency across reconfiguration.** Take any run in which every reload so far found
no lifecycle of a unit whose entry had disappeared. The next reload leaves the supervised units
equal to those of the tables, and no unfinished task of another unit, if and only if it finds none
either. -/
theorem registry_consistent {range : Int × Int}
    (h : Reach MCOrchestrator.step ReloadsIdle (init range) o) (files : Text → Bool) :
    (o.reloadConfig files).1.Agrees ↔ o.RemovesIdle files := by
  have hcons : Consistent o :=
    h.invariant (consistent_init range) fun _ _ _ ho hok hstep => ho.step hok hstep
  obtain ⟨hidle, hstray⟩ := hcons.reload files
  refine ⟨?_, fun hr => (hidle hr).agrees⟩
  intro hagrees
  by_contra hr
  obtain ⟨u, hu⟩ := hstray hr
  exact hu.not_agrees hagrees

end

def listed : Config where
  proxyListing := .set {} ['p'] { port := ⟨25565, by decide⟩, enabled := true }

def started : List Action :=
  [.configure listed, .reload fun _ => true, .supervisor (.supervise [.other 0] .firstEventOrUnit),
    .supervisor .monitorStep, .supervisor (.helperStep (.other 0)), .supervisor (.wake []),
    .supervisor (.resume 0 .suspend), .supervisor (.resume 0 (.ok .none))]

def changed (config : Config) : List Action :=
  [.configure config, .supervisor (.setEvent 0), .supervisor .monitorStep,
    .supervisor (.helperStep (.other 0)), .supervisor (.wake []), .supervisor .leave]

/-- A server is listed beside a running proxy. -/
theorem registry_consistent_listed :
    ∃ o : MCOrchestrator, (o.supervisor.state (.proxy 0)).status = .running ∧
      (o.reloadConfig fun _ => true).1.Agrees := by
  obtain ⟨o, ho, hrunning, hidle⟩ := Reach.exists_of_runIn MCOrchestrator.step ReloadsIdle
    (init (40000, 40001))
    (started ++ changed { listed with serverListing := .set {} ['s'] { enabled := true } })
    (p := fun o => (o.supervisor.state (.proxy 0)).status = .running ∧ o.RemovesIdle fun _ => true)
    (by decide +kernel)
  exact ⟨o, hrunning, (registry_consistent ho fun _ => true).2 hidle⟩

/-- The entry of a running proxy disappears. Its unit is not removed: it runs on, no table has it,
and its port is not reserved. -/
theorem unit_left_behind :
    ∃ o : MCOrchestrator, Reach MCOrchestrator.step (fun _ _ => True) (init (40000, 40001)) o ∧
      o.supervisor.loop.isIdle = true ∧
      UnitId.proxy 0 ∈ (o.reloadConfig fun _ => true).1.supervisor.units ∧
      ((o.reloadConfig fun _ => true).1.supervisor.state (.proxy 0)).status = .running ∧
      (o.reloadConfig fun _ => true).1.reservedProxyPorts .tcp = ∅ ∧
      ¬ (o.reloadConfig fun _ => true).1.Agrees := by
  obtain ⟨o, ho, hloop, hmem, hrunning, hports, hnone⟩ := Reach.exists_of_runIn MCOrchestrator.step
    (fun _ _ => True) (init (40000, 40001)) (started ++ changed {})
    (p := fun o => o.supervisor.loop.isIdle = true ∧
      UnitId.proxy 0 ∈ (o.reloadConfig fun _ => true).1.supervisor.units ∧
      ((o.reloadConfig fun _ => true).1.supervisor.state (.proxy 0)).status = .running ∧
      (o.reloadConfig fun _ => true).1.reservedProxyPorts .tcp = ∅ ∧
      (o.reloadConfig fun _ => true).1.proxies.values = [] ∧
      (o.reloadConfig fun _ => true).1.backends.values = []) (by decide +kernel)
  refine ⟨o, ho, hloop, hmem, hrunning, hports, ?_⟩
  intro hagrees
  rcases (hagrees.1 _).1 hmem with ⟨proxy, hproxy, -⟩ | ⟨backend, hbackend, -⟩
  · rw [hnone.1] at hproxy
    cases hproxy
  · rw [hnone.2] at hbackend
    cases hbackend

end MCOrchestrator

end Silkjam.Orchestrator
