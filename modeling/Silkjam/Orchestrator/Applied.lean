import Silkjam.Orchestrator.Reload

/-!
# What a reload applies

A reload makes an entry of `proxies` for every listing of a proxy that is valid and enabled. For the
servers it comes to that only if each backend that it has to make can be made: making one raises when
its backups have no interval, or when `float` does not take its sleep timeout or its interval. A
configuration may say both, and the reload ends there (`reload_applies_iff`).
-/

namespace Silkjam.Orchestrator.MCOrchestrator

/-- The reload raises nothing, and the listings that are valid and enabled have their entries. -/
def Applies (o : MCOrchestrator) (files : Text → Bool) : Prop :=
  (o.reloadConfig files).2 = none ∧
  (∀ e ∈ o.config.proxyListing.items, e.2.valid = true → e.2.enabled = true →
    e.1 ∈ (o.reloadConfig files).1.proxies.keys) ∧
  ∀ e ∈ o.config.serverListing.items, e.2.valid = true → e.2.enabled = true →
    e.1 ∈ (o.reloadConfig files).1.backends.keys

section
variable {o : MCOrchestrator} {files : Text → Bool} {name : Text}

/-! ### The proxies -/

theorem addProxy_applies (o : MCOrchestrator) (entry : Text × ProxyListing) :
    (o.addProxy entry).config = o.config ∧ (o.addProxy entry).backends = o.backends ∧
      (∀ name ∈ o.proxies.keys, name ∈ (o.addProxy entry).proxies.keys) ∧
      (entry.2.valid = true → entry.2.enabled = true →
        entry.1 ∈ (o.addProxy entry).proxies.keys) := by
  obtain ⟨name, listing⟩ := entry
  unfold addProxy
  dsimp only
  split
  · next hname => exact ⟨rfl, rfl, fun _ h => h, fun _ _ => hname⟩
  split
  · next hvalid => exact ⟨rfl, rfl, fun _ h => h, fun h => by simp [h] at hvalid⟩
  split
  · next henabled => exact ⟨rfl, rfl, fun _ h => h, fun _ h => by simp [h] at henabled⟩
  exact ⟨rfl, rfl, fun _ h => Dict.mem_keys_set.2 (.inr h), fun _ _ => Dict.mem_keys_set.2 (.inl rfl)⟩

theorem foldl_addProxy_applies (o : MCOrchestrator) (entries : List (Text × ProxyListing)) :
    (entries.foldl addProxy o).config = o.config ∧
      (entries.foldl addProxy o).backends = o.backends ∧
      (∀ name ∈ o.proxies.keys, name ∈ (entries.foldl addProxy o).proxies.keys) ∧
      ∀ e ∈ entries, e.2.valid = true → e.2.enabled = true →
        e.1 ∈ (entries.foldl addProxy o).proxies.keys := by
  induction entries generalizing o with
  | nil => exact ⟨rfl, rfl, fun _ h => h, fun e he => absurd he List.not_mem_nil⟩
  | cons entry entries ih =>
    obtain ⟨hconfig, hbackends, hkept, hadded⟩ := addProxy_applies o entry
    obtain ⟨hconfig', hbackends', hkept', hadded'⟩ := ih (o.addProxy entry)
    refine ⟨hconfig'.trans hconfig, hbackends'.trans hbackends,
      fun name h => hkept' name (hkept name h), List.forall_mem_cons.2 ⟨?_, hadded'⟩⟩
    intro hvalid henabled
    exact hkept' entry.1 (hadded hvalid henabled)

theorem mem_keys_removeUnlisted {α : Type} {table : Dict Text α} (unit : α → UnitId)
    {listed : List Text} (s : Supervisor UnitId) (hname : name ∈ table.keys)
    (hlisted : name ∈ listed) : name ∈ (removeUnlisted table unit listed s).1.keys := by
  obtain ⟨v, hv⟩ := Dict.mem_keys_iff_exists.1 hname
  exact Dict.mem_keys_iff_exists.2 ⟨v, mem_removeUnlisted.2 ⟨hv, hlisted⟩⟩

theorem mem_keys_removeProxies (hname : name ∈ o.proxies.keys)
    (hlisted : name ∈ o.config.proxyListing.keys) : name ∈ o.removeProxies.proxies.keys :=
  mem_keys_removeUnlisted MCProxy.unit o.supervisor hname hlisted

theorem mem_keys_removeBackends (hname : name ∈ o.backends.keys)
    (hlisted : name ∈ o.config.serverListing.keys) : name ∈ o.removeBackends.backends.keys :=
  mem_keys_removeUnlisted MCBackend.unit o.supervisor hname hlisted

/-- **The proxies are applied**, whatever becomes of the servers. -/
theorem proxies_applied (o : MCOrchestrator) :
    o.addProxies.removeProxies.config = o.config ∧
      o.addProxies.removeProxies.backends = o.backends ∧
      ∀ e ∈ o.config.proxyListing.items, e.2.valid = true → e.2.enabled = true →
        e.1 ∈ o.addProxies.removeProxies.proxies.keys := by
  obtain ⟨hconfig, hbackends, -, hadded⟩ := foldl_addProxy_applies o o.config.proxyListing.items
  refine ⟨hconfig, hbackends, fun e he hvalid henabled => ?_⟩
  have hlisted : e.1 ∈ o.addProxies.config.proxyListing.keys := by
    rw [show o.addProxies.config = o.config from hconfig]
    exact List.mem_map_of_mem he
  exact mem_keys_removeProxies (hadded e he hvalid henabled) hlisted

/-! ### The servers -/

theorem addBackends_applies (files : Text → Bool) (entries : List (Text × ServerListing))
    (o : MCOrchestrator) :
    (addBackends files entries o).1.config = o.config ∧
      (addBackends files entries o).1.proxies = o.proxies ∧
      (∀ name ∈ o.backends.keys, name ∈ (addBackends files entries o).1.backends.keys) ∧
      ((addBackends files entries o).2 = none →
        ∀ e ∈ entries, e.2.valid = true → e.2.enabled = true →
          e.1 ∈ (addBackends files entries o).1.backends.keys) := by
  induction entries generalizing o with
  | nil => exact ⟨rfl, rfl, fun _ h => h, fun _ e he => absurd he List.not_mem_nil⟩
  | cons entry entries ih =>
    rcases addBackends_cons files entry entries o with
      ⟨hskip, heq⟩ | ⟨-, ⟨err, -, heq⟩ | ⟨backend, stopped, -, heq⟩⟩
    · obtain ⟨hconfig, hproxies, hkept, hadded⟩ := ih o
      rw [heq]
      refine ⟨hconfig, hproxies, hkept, fun hnone =>
        List.forall_mem_cons.2 ⟨fun hvalid henabled => ?_, hadded hnone⟩⟩
      -- it was skipped since it has an entry
      apply hkept
      by_contra hname
      exact hskip ⟨hname, hvalid, henabled⟩
    · rw [heq]
      exact ⟨rfl, rfl, fun _ h => h, fun hnone => by cases hnone⟩
    · obtain ⟨hconfig, hproxies, hkept, hadded⟩ := ih (o.insertBackend entry.1 backend stopped)
      have hinsert {name : Text} : name ∈ (o.insertBackend entry.1 backend stopped).backends.keys ↔
          name = entry.1 ∨ name ∈ o.backends.keys := Dict.mem_keys_set
      rw [heq]
      exact ⟨hconfig, hproxies, fun name h => hkept name (hinsert.2 (.inr h)), fun hnone =>
        List.forall_mem_cons.2 ⟨fun _ _ => hkept _ (hinsert.2 (.inl rfl)), hadded hnone⟩⟩

theorem reloadConfig_snd (o : MCOrchestrator) (files : Text → Bool) :
    (o.reloadConfig files).2 =
      (addBackends files o.addProxies.removeProxies.config.serverListing.items
        o.addProxies.removeProxies).2 := by
  unfold reloadConfig
  dsimp only
  split
  · next o' err heq => rw [heq]
  · next o' heq => rw [heq]

/-- A reload that raises nothing has applied the whole configuration. -/
theorem applies_iff : o.Applies files ↔ (o.reloadConfig files).2 = none := by
  refine ⟨And.left, fun hnone => ⟨hnone, ?_⟩⟩
  obtain ⟨hconfig, hbackends, hproxies⟩ := o.proxies_applied
  have hfst := o.reloadConfig_fst files
  rw [reloadConfig_snd] at hnone
  obtain ⟨hconfig', hproxies', -, hadded⟩ := addBackends_applies files
    o.addProxies.removeProxies.config.serverListing.items o.addProxies.removeProxies
  dsimp only at hfst
  rw [if_pos hnone] at hfst
  rw [hfst]
  refine ⟨fun e he hvalid henabled => ?_, fun e he hvalid henabled => ?_⟩
  · show e.1 ∈ (addBackends _ _ _).1.proxies.keys
    rw [hproxies']
    exact hproxies e he hvalid henabled
  · have hkeys : e.1 ∈ (addBackends files o.addProxies.removeProxies.config.serverListing.items
        o.addProxies.removeProxies).1.config.serverListing.keys := by
      rw [hconfig', hconfig]
      exact List.mem_map_of_mem he
    have hlisted : e ∈ o.addProxies.removeProxies.config.serverListing.items := by
      rwa [hconfig]
    exact mem_keys_removeBackends (hadded hnone e hlisted hvalid henabled) hkeys

/-- **A configuration is applied** if and only if the timers of every server for which a backend has
to be made can be made. -/
theorem reload_applies_iff (hfiles : ∀ name ∈ o.config.serverListing.keys, files name = true) :
    o.Applies files ↔ ∀ e ∈ o.config.serverListing.items, e.1 ∉ o.backends.keys →
      e.2.valid = true → e.2.enabled = true → Timed e.2 := by
  obtain ⟨hconfig, hbackends, -⟩ := o.proxies_applied
  rw [applies_iff, reloadConfig_snd, hconfig,
    addBackends_none_iff files _ o.config.serverListing.nodup, hbackends]
  refine forall₂_congr fun e he => ?_
  have hfile := hfiles e.1 (List.mem_map_of_mem he)
  rw [hfile]
  simp

end

/-- Two servers with these intervals of their backups. -/
def twoServers (first second : Option {n : Nat // 0 < n}) : MCOrchestrator where
  serverPortRange := (40000, 40001)
  config := {
    serverListing := Dict.set
      (.set {} ['s'] { enabled := true, backupProperties := { interval := first } })
      ['t'] { enabled := true, backupProperties := { interval := second } } }

theorem reload_applies_intervals :
    (twoServers (some ⟨5, by decide⟩) (some ⟨60, by decide⟩)).Applies fun _ => true := by
  refine (reload_applies_iff fun _ _ => rfl).2 ?_
  decide +kernel

/-- Without an interval, neither server has an entry: the reload ends at the first one. -/
theorem interval_ends_reload :
    let o := twoServers none (some ⟨60, by decide⟩)
    (o.reloadConfig fun _ => true).2 = some .assertionError ∧
      (o.reloadConfig fun _ => true).1.backends.keys = [] ∧ ¬o.Applies fun _ => true := by
  intro o
  have hraised : (o.reloadConfig fun _ => true).2 = some .assertionError := by
    decide +kernel
  refine ⟨hraised, by decide +kernel, fun happlies => ?_⟩
  rw [happlies.1] at hraised
  cases hraised

end Silkjam.Orchestrator.MCOrchestrator
