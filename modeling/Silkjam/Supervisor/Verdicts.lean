import Silkjam.Supervisor.Results
import Silkjam.Supervisor.Waiting

/-!
# What the two ways of waiting answer

A call of `supervise_until` for one event returns as the event is heard of or a unit is done, so
while it waits nothing is done yet (`Awaits`), and `wake_awaits` says what one turn finds. The two
answers to a start whose enter fails are followed from the call to the end
(`start_failure_seen`).
-/

namespace Silkjam.Supervisor

open Transition

variable {U : Type} [DecidableEq U]

/-- The call `c` waits for `e`, whose task is where `h` says, and nothing is done yet. -/
structure Awaits (s : Supervisor U) (e : EventRef U) (c : Call U) (h : Helper) : Prop where
  returnWhen : c.returnWhen = .firstEventOrUnit
  doneEvents : c.doneEvents = ∅
  doneUnits : c.doneUnits = []
  helpers : c.helpers = [(e, h)]
  waited : c.waited = s.running.map (·.1)

section
variable {s s' : Supervisor U} {e : EventRef U} {c c' : Call U} {h h' : Helper}
  {order : List TaskId}

theorem superviseUntil_awaits (s : Supervisor U) (e : EventRef U) :
    ∃ c, (s.superviseUntil [e]).loop = .waiting c ∧ Awaits (s.superviseUntil [e]) e c .fresh :=
  ⟨_, rfl, rfl, rfl, rfl, rfl, rfl⟩

theorem Awaits.hears (ha : Awaits s e c h) (hhears : Call.Hears s s' c c')
    (hrunning : s'.running = s.running) :
    ∃ h', Awaits s' e c' h' ∧ (h'.heard = true → h.heard = true ∨ s'.events e = true) ∧
      (h' = .waiting → s'.events e = true → h = .waiting ∧ s.events e = true) := by
  have hsame := hhears.toSameBooks
  have hkeys : c'.helpers.map (·.1) = [e] := by rw [hsame.keys, ha.helpers]; rfl
  obtain ⟨⟨e', h'⟩, hhelpers, rfl⟩ := List.map_eq_singleton_iff.1 hkeys
  refine ⟨h', ⟨hsame.returnWhen.trans ha.returnWhen, hsame.doneEvents.trans ha.doneEvents,
    hsame.doneUnits.trans ha.doneUnits, hhelpers, ?_⟩, ?_, ?_⟩
  · rw [hsame.waited, ha.waited, hrunning]
  · intro hheard
    apply (hhears.heard e' h' (by simp [hhelpers]) hheard).imp_left
    rintro ⟨h'', hin, hheard'⟩
    rw [ha.helpers, List.mem_singleton] at hin
    cases hin
    exact hheard'
  · rintro rfl hset
    obtain ⟨hin, hset'⟩ := hhears.waiting e' (by simp [hhelpers]) hset
    rw [ha.helpers, List.mem_singleton] at hin
    cases hin
    exact ⟨rfl, hset'⟩

theorem step_awaits {a : Action U} (hloop : s.loop = .waiting c) (ha : Awaits s e c h)
    (hwake : ∀ order, a ≠ .wake order) (hstep : step s a = some s') :
    s'.running = s.running ∧
      ((∃ c' h', s'.loop = .waiting c' ∧ Awaits s' e c' h' ∧
          (h'.heard = true → h.heard = true ∨ s'.events e = true) ∧
          (h' = .waiting → s'.events e = true → h = .waiting ∧ s.events e = true)) ∨
        ∃ c' err, s'.loop = .leaving c' (some err)) := by
  obtain ⟨c', hcase, hhears, hrunning⟩ := step_hears hloop hwake hstep
  obtain ⟨h', ha', hheard, hwaiting⟩ := ha.hears hhears hrunning
  refine ⟨hrunning, ?_⟩
  rcases hcase with hloop' | ⟨-, hloop'⟩
  · exact .inl ⟨c', h', hloop', ha', hheard, hwaiting⟩
  · exact .inr ⟨c', _, hloop'⟩

/-- **One turn of the loop** of such a call: it raises; it ends the call with what is done, the
event if its task was, and the units of the finished tasks; or nothing is done and it goes on. -/
theorem wake_awaits {T : U → Prop} (hw : WFOn T s) (hloop : s.loop = .waiting c)
    (ha : Awaits s e c h) (hwake : s.wake order = some s') :
    (∃ c' err, s'.loop = .leaving c' (some err)) ∨
      (∀ t u, (t, u) ∈ s.running → s.taskResult t = none → (t, u) ∈ s'.running) ∧
        (∀ t u, (t, u) ∈ s'.running → (s'.taskResult t) = none) ∧
        ((∃ c', s'.loop = .leaving c' none ∧ (e ∈ c'.doneEvents ↔ h = .done) ∧
            (∀ t u, (t, u) ∈ s.running → (s.taskResult t).isSome →
              ∃ t' v, (u, t', v) ∈ c'.doneUnits) ∧
            ∀ u t v, (u, t, v) ∈ c'.doneUnits →
              (t, u) ∈ s.running ∧ s.taskResult t = some (.returned v)) ∨
          ∃ c', s'.loop = .waiting c' ∧ Awaits s' e c' h ∧ h ≠ .done ∧
            ∀ t u, (t, u) ∈ s.running → s.taskResult t = none) := by
  simp only [wake, hloop] at hwake
  split at hwake
  · next hcan =>
    have hs' : s.wakeUp c order = s' := Option.some.inj hwake
    have hresult (t : TaskId) : s'.taskResult t = s.taskResult t := by
      rw [← hs', (wakeUp_quiet hw hloop).taskResult]
    rcases wakeUp_cases s c order with ⟨c', err, hraised⟩ | ⟨s₂, s₃, c₂, hcommands, hunits, hcase⟩
    · exact .inl ⟨c', err, hs' ▸ hraised⟩
    · right
      have hcommanded := wakeCommands_evolves hw hloop
      rw [hcommands] at hcommanded
      obtain ⟨hevolves, hhandles⟩ := hcommanded
      have hresult₂ (t : TaskId) : s₂.taskResult t = s.taskResult t := hhandles.result t
      have horder := mem_order_iff ha.waited hcan.2.2.1 hhandles
      have htaken := takeUnits_taken (fun t u w => hevolves.wf.entry_unique)
        (fun t ht => ((horder t).1 ht).2) hunits
      have hrunning : s'.running = s₃.running := by
        rcases hcase with ⟨-, hs⟩ | ⟨-, hs⟩
        · rw [← hs', hs]
        · rw [← hs', hs]
          exact (restartReady_requests s₃).running
      have hrenew : c.renewMonitor.helpers = [(e, h)] ∧ c.renewMonitor.doneEvents = ∅ ∧
          c.renewMonitor.doneUnits = [] ∧ c.renewMonitor.returnWhen = .firstEventOrUnit := by
        unfold Call.renewMonitor
        split <;> exact ⟨ha.helpers, ha.doneEvents, ha.doneUnits, ha.returnWhen⟩
      have hheard : e ∈ c₂.doneEvents ↔ h = .done := by
        rw [htaken.events.1]
        show e ∈ c.renewMonitor.doneEvents ∪ c.renewMonitor.heardEvents ↔ h = .done
        rw [hrenew.2.1, Finset.empty_union, mem_heardEvents, hrenew.1, List.mem_singleton,
          Prod.mk.injEq, eq_comm (a := h)]
        exact and_iff_right rfl
      have hdone (t : TaskId) (u : U) (hin : (t, u) ∈ s.running) (hfin : (s.taskResult t).isSome) :
          u ∈ c₂.doneUnits.map (·.1) := by
        have hin₂ : (t, u) ∈ s₂.running := hhandles.running.subset hin
        refine htaken.taken t u ((horder t).2 ⟨⟨u, hin₂⟩, ?_⟩) hin₂
        rw [hresult₂]
        exact hfin
      refine ⟨?_, ?_, ?_⟩
      · intro t u hin hnone
        rw [hrunning, htaken.running]
        refine ⟨hhandles.running.subset hin, fun ht => ?_⟩
        have hfin := ((horder t).1 ht).2
        rw [hresult₂, hnone] at hfin
        cases hfin
      · intro t u hin
        rw [hrunning, htaken.running] at hin
        rw [hresult]
        by_contra hsome
        refine hin.2 ((horder t).2 ⟨⟨u, hin.1⟩, ?_⟩)
        rw [hresult₂]
        exact Option.isSome_iff_ne_none.2 hsome
      · rcases hcase with ⟨-, hs⟩ | ⟨hret, hs⟩
        · left
          refine ⟨c₂.addPending s₃, by rw [← hs', hs], hheard, ?_, ?_⟩
          · intro t u hin hfin
            obtain ⟨⟨u', t', v⟩, hin', rfl⟩ := List.mem_map.1 (hdone t u hin hfin)
            exact ⟨t', v, hin'⟩
          · intro u t v hin
            rcases htaken.done u t v hin with ⟨ht, hin₂, hres⟩ | ⟨hin', -⟩
            · rw [hresult₂] at hres
              refine ⟨hhandles.mem_running ?_ hin₂, hres⟩
              exact Option.isSome_of_eq_some hres
            · have hnil : (u, t, v) ∈ c.renewMonitor.doneUnits := hin'
              rw [hrenew.2.2.1] at hnil
              cases hnil
        · right
          -- nothing is done, or the call would return
          have hwhen : (c₂.addPending s₃).returnWhen = .firstEventOrUnit :=
            htaken.events.2.2.2.trans hrenew.2.2.2
          unfold Call.ret at hret
          rw [hwhen] at hret
          simp only [Bool.or_eq_false_iff, decide_eq_false_iff_not, Nat.not_lt, Nat.le_zero] at hret
          have hevents : c₂.doneEvents = ∅ := Finset.card_eq_zero.1 hret.1
          have hnil : c₂.doneUnits = [] := List.length_eq_zero_iff.1 hret.2
          have hne : h ≠ .done := by
            rw [hevents] at hheard
            exact fun hdone => Finset.notMem_empty _ (hheard.2 hdone)
          refine ⟨{ c₂.addPending s₃ with waited := s₃.restartReady.running.map (·.1) },
            by rw [← hs', hs]; rfl, ⟨hwhen, hevents, hnil, ?_, ?_⟩, hne, ?_⟩
          · show c₂.helpers = [(e, h)]
            rw [htaken.events.2.2.1]
            show c.renewMonitor.helpers.filter (fun x => x.2 ≠ .done) = [(e, h)]
            rw [hrenew.1]
            simp [hne]
          · show s₃.restartReady.running.map (·.1) = s'.running.map (·.1)
            rw [hrunning, (restartReady_requests s₃).running]
          · intro t u hin
            by_contra hsome
            have hmem := hdone t u hin (Option.isSome_iff_ne_none.2 hsome)
            rw [hnil] at hmem
            cases hmem
  · cases hwake

end

/-! ### The exit of a unit -/

/-- Task `t` is in the exit of its unit. -/
def Exits (s : Supervisor U) (r : StateRef U) (t : TaskId) : Prop :=
  ∃ k, s.tasks t = some k ∧ k.unit = r.unit ∧ k.pc = .exiting r

/-- The result that the exit leaves. -/
def Outcome.exitResult (o : Outcome U) (v : Val U) : Val U :=
  match o with
  | .raise e => .exc e
  | _ => v

section
variable {s s' : Supervisor U} {r : StateRef U} {t : TaskId} {k : UnitTask U} {o : Outcome U}
  {a : Action U}

theorem cleanup_result (hlocked : s.locked = true) (hk : s.tasks t = some k) :
    (s.cleanup t r).taskResult t = some (.returned (s.heap r).result) := by
  have hheap : ((s.setExited r).heap r).result = (s.heap r).result := by
    simp only [setExited, modify, setEvent, Function.update_self]
  have hk' : (s.setExited r).tasks t = some k := hk
  rw [cleanup_locked hlocked, ← hheap]
  generalize s.setExited r = s₁ at hk'
  simp only [cleanupDone, finish, setPc, taskResult, modifyTask, clearEvent, modify,
    Function.update_self, hk', Option.map_some, Option.bind_some, Pc.result]

theorem Exits.last (h : Exits s r t) (hstep : step s (.resume t o) = some s')
    (hlast : s.lastSegment t o = true) (hlocked : s.locked = true) :
    s'.taskResult t = some (.returned (o.exitResult (s.heap r).result)) ∧
      s'.running = s.running := by
  obtain ⟨k, hk, -, hpc⟩ := h
  obtain ⟨k', hk', hseg⟩ := Option.bind_eq_some_iff.1 hstep
  rw [hk] at hk'
  cases hk'
  refine ⟨?_, runSegment_running hk hseg fun _ => hlocked⟩
  obtain ⟨u, pc, cancel⟩ := k
  cases hpc
  have hclear : (s.clearCancel t).tasks t = some ⟨u, .exiting r, false⟩ := tasks_clearCancel hk
  unfold lastSegment at hlast
  rw [hk] at hlast
  cases o with
  | suspend => cases hlast
  | ok v =>
    cases hseg
    rw [cleanup_result (s := s.clearCancel t) hlocked hclear]
    rfl
  | raise e =>
    cases hseg
    rw [cleanup_result (s := (s.clearCancel t).modify r fun st => { st with result := .exc e })
      (k := ⟨u, .exiting r, false⟩) hlocked hclear]
    simp [modify, Outcome.exitResult]

theorem Exits.suspend (h : Exits s r t) (hstep : step s (.resume t o) = some s')
    (hlast : s.lastSegment t o = false) : Exits s' r t ∧ s' = s.clearCancel t := by
  obtain ⟨k, hk, hu, hpc⟩ := h
  obtain ⟨k', hk', hseg⟩ := Option.bind_eq_some_iff.1 hstep
  rw [hk] at hk'
  cases hk'
  obtain ⟨u, pc, cancel⟩ := k
  cases hpc
  have hclear : (s.clearCancel t).tasks t = some ⟨u, .exiting r, false⟩ := tasks_clearCancel hk
  unfold lastSegment at hlast
  rw [hk] at hlast
  cases o with
  | ok v => cases hlast
  | raise e => cases hlast
  | suspend =>
    cases hseg
    exact ⟨⟨_, hclear, hu, rfl⟩, rfl⟩

theorem cleanup_heap_result : ((s.cleanup t r).heap r).result = (s.heap r).result := by
  have hexited : ((s.setExited r).heap r).result = (s.heap r).result := by
    simp only [setExited, modify, setEvent, Function.update_self]
  have hdone (s₁ : Supervisor U) : ((s₁.cleanupDone t r).heap r).result = (s₁.heap r).result := by
    simp only [cleanupDone, finish, setPc, modifyTask, clearEvent, modify, Function.update_self]
  rw [← hexited]
  unfold cleanup
  dsimp only
  split
  · exact hdone _
  · split
    · rfl
    · split
      · exact hdone _
      · rfl

theorem finish_isFinished {res : TaskResult U} (hk : (s.finish t res).tasks t = some k) :
    k.pc.isFinished = true := by
  have hk' : Function.update s.tasks t ((s.tasks t).map _) t = some k := hk
  rw [Function.update_self] at hk'
  obtain ⟨k', -, rfl⟩ := Option.map_eq_some_iff.1 hk'
  rfl

theorem cleanup_isFinished (hk : (s.cleanup t r).tasks t = some k) : k.pc.isFinished = true := by
  unfold cleanup at hk
  dsimp only at hk
  split at hk
  · exact finish_isFinished hk
  · split at hk
    · exact finish_isFinished hk
    · split at hk
      · exact finish_isFinished hk
      · exact finish_isFinished hk

/-- The last segment: what becomes of the result, and of the task. -/
theorem Exits.ended (h : Exits s r t) (hstep : step s (.resume t o) = some s')
    (hlast : s.lastSegment t o = true) :
    (s'.heap r).result = o.exitResult (s.heap r).result ∧
      ∀ k, s'.tasks t = some k → k.pc.isFinished = true := by
  obtain ⟨k, hk, -, hpc⟩ := h
  obtain ⟨k', hk', hseg⟩ := Option.bind_eq_some_iff.1 hstep
  rw [hk] at hk'
  cases hk'
  obtain ⟨u, pc, cancel⟩ := k
  cases hpc
  cases o with
  | suspend => simp [lastSegment, hk] at hlast
  | ok v =>
    cases hseg
    exact ⟨cleanup_heap_result, fun k hk => cleanup_isFinished hk⟩
  | raise e =>
    cases hseg
    refine ⟨cleanup_heap_result.trans ?_, fun k hk => cleanup_isFinished hk⟩
    simp [modify, Outcome.exitResult]

theorem Exits.resumed (h : Exits s r t) (hstep : step s (.resume t o) = some s') :
    (s'.heap r).result = o.exitResult (s.heap r).result ∧
      ∀ k, s'.tasks t = some k → k.pc = .exiting r ∨ k.pc.isFinished = true := by
  by_cases hlast : s.lastSegment t o = true
  · obtain ⟨hresult, hfinished⟩ := h.ended hstep hlast
    exact ⟨hresult, fun k hk => .inr (hfinished k hk)⟩
  · obtain ⟨hexits, rfl⟩ := h.suspend hstep (Bool.eq_false_iff.2 hlast)
    have ho : o.exitResult (s.heap r).result = (s.heap r).result := by
      obtain ⟨⟨u, pc, cancel⟩, hk, -, hpc⟩ := h
      cases hpc
      cases o with
      | raise e => simp [lastSegment, hk] at hlast
      | _ => rfl
    refine ⟨ho.symm, fun k hk => .inl ?_⟩
    obtain ⟨k', hk', -, hpc'⟩ := hexits
    rw [hk] at hk'
    cases hk'
    exact hpc'

theorem works_unit (hw : Tables s) (hk : s.tasks t = some k) : (s.works k).unit = k.unit := by
  unfold works
  cases hpc : k.pc.ref with
  | none => rfl
  | some r => exact hw.owned.ref t k r hk hpc

theorem live_unique {u : U} {t' : TaskId} (hw : WFOn (· = u) s) (h : s.Live t u)
    (h' : s.Live t' u) : t' = t :=
  (hw.placed u rfl).live_unique ((s.live_iff t' u).1 h') ((s.live_iff t u).1 h)

theorem works_ne {t' : TaskId} {k' : UnitTask U} (hw : WFOn (· = r.unit) s)
    (hk : s.tasks t = some k) (hlive : k.pc.isFinished = false) (hu : k.unit = r.unit)
    (hk' : s.tasks t' = some k') (hlive' : k'.pc.isFinished = false) (hne : t' ≠ t) :
    s.works k' ≠ r := by
  intro hr
  have hu' : k'.unit = r.unit := by rw [← works_unit hw.toTables hk', hr]
  have hlive₁ : (s.view r.unit).tasks t' ≠ none := by
    simp [view_tasks_eq_some.2 ⟨hk', hu', hlive'⟩]
  have hlive₂ : (s.view r.unit).tasks t ≠ none := by
    simp [view_tasks_eq_some.2 ⟨hk, hu, hlive⟩]
  exact hne ((hw.placed r.unit rfl).live_unique hlive₁ hlive₂)

theorem runSegment_isFinished (h : s.runSegment t k o = some s') : k.pc.isFinished = false := by
  cases hpc : k.pc with
  | finished res => simp [runSegment, hpc] at h
  | _ => rfl

omit [DecidableEq U] in
theorem isFinished_of_ref {pc : Pc U} (h : pc.ref = some r) : pc.isFinished = false := by
  cases pc with
  | created | finished res => cases h
  | _ => rfl

/-- An unfinished task works with the current object of its unit. -/
theorem ref_of_live (hw : WFOn (· = k.unit) s) (hk : s.tasks t = some k)
    (href : k.pc.ref = some r) : r = s.ref k.unit := by
  have hlive := isFinished_of_ref href
  have hfits := ((hw.placed k.unit rfl).live (view_tasks_eq_some.2 ⟨hk, rfl, hlive⟩)).pcFits
  unfold PcFits at hfits
  cases hpc : k.pc with
  | created | finished res => simp [hpc, Pc.ref] at href
  | _ =>
    rw [hpc] at hfits href
    cases href
    exact hfits.1

theorem Exits.fits (hw : WFOn (· = r.unit) s) (h : Exits s r t) :
    (∃ k, s.tasks t = some k ∧ Fits (s.view r.unit) (.live t k)) ∧ r = s.ref r.unit := by
  obtain ⟨k, hk, hu, hpc⟩ := h
  have hfit := (hw.placed r.unit rfl).live (view_tasks_eq_some.2 ⟨hk, hu, by rw [hpc]; rfl⟩)
  have hfits := hfit.pcFits
  unfold PcFits at hfits
  rw [hpc] at hfits
  exact ⟨⟨k, hk, hfit⟩, hfits.1⟩

/-- While a task is in its exit, the other steps leave it there, and the result of its unit
alone. -/
theorem Exits.step (hw : WFOn (· = r.unit) s) (h : Exits s r t)
    (hstep : Supervisor.step s a = some s') (ha : ∀ o, a ≠ .resume t o) :
    Exits s' r t ∧ (s'.heap r).result = (s.heap r).result := by
  obtain ⟨-, href⟩ := h.fits hw
  obtain ⟨k, hk, hu, hpc⟩ := h
  have hlive : k.pc.isFinished = false := by rw [hpc]; rfl
  -- the record of the task keeps its unit and its position
  have hexits : Exits s' r t := by
    have hkept := step_pc hw ha hstep (by simp [hk])
    rw [hk] at hkept
    obtain ⟨k', hk', heq⟩ := Option.map_eq_some_iff.1 hkept
    have heq' := Prod.mk.inj heq
    exact ⟨k', hk', heq'.1.trans hu, heq'.2.trans hpc⟩
  refine ⟨hexits, ?_⟩
  by_cases hresume : ∃ t' o, a = .resume t' o
  · obtain ⟨t', o, rfl⟩ := hresume
    have hne : t' ≠ t := by
      rintro rfl
      exact ha o rfl
    obtain ⟨k', hk', hseg⟩ := Option.bind_eq_some_iff.1 hstep
    have hworks := works_ne hw hk hlive hu hk' (runSegment_isFinished hseg) hne
    rw [(runSegment_alone hseg).heap r hworks.symm]
  · have hquiet := step_quiet hw (fun t' o h => hresume ⟨t', o, h⟩) hstep
    exact hquiet.result r (congrArg StateRef.gen href).le

end

/-! ### An enter that fails -/

/-- The segment is one in which the unit's enter fails: it raises, or the task was cancelled before
it; or `_stop_unit` fails for a unit that is to be stopped before it enters. -/
def EnterFails (s : Supervisor U) (r : StateRef U) (t : TaskId) (o : Outcome U) : Prop :=
  ∃ k, s.tasks t = some k ∧ k.unit = r.unit ∧
    match k.pc, o with
    | .entering r', .raise _ => r' = r
    | .enterSleep r', _ => r' = r ∧ k.cancel = true
    | .created, _ => k.cancel = false ∧ s.ref k.unit = r ∧ k.unit ∈ s.units ∧
        (s.heap r).pendingStop = true ∧ (s.heap r).forcePendingStop = true ∧
        (s.heap r).task = none
    | _, _ => False

section
variable {s s' : Supervisor U} {r : StateRef U} {t : TaskId} {k : UnitTask U} {o : Outcome U}

/-- What a phase that fails leaves. -/
structure Failed (s : Supervisor U) (r : StateRef U) (t : TaskId) : Prop where
  exits : Exits s r t
  isExc : (s.heap r).result.isExc = true
  isSet : s.events (.doneEntering r) = true

theorem exitUnit_exits (hk : s.tasks t = some k) (hu : k.unit = r.unit) :
    Exits (s.exitUnit t r) r t := by
  refine ⟨{ k with pc := .exiting r }, ?_, hu, rfl⟩
  show Function.update s.tasks t ((s.tasks t).map _) t = _
  rw [Function.update_self, hk]
  rfl

theorem phaseFailed_failed (hk : s.tasks t = some k) (hu : k.unit = r.unit) (e : Exc U) :
    Failed (s.phaseFailed t r e) r t := by
  refine ⟨exitUnit_exits hk hu, ?_, ?_⟩
  · simp [phaseFailed, exitUnit, setPc, modifyTask, log, modify, setEvent, Val.isExc]
  · simp [phaseFailed, exitUnit, setPc, modifyTask, log, modify, setEvent]

theorem EnterFails.failed (h : EnterFails s r t o) (hstep : Supervisor.step s (.resume t o) = some s') :
    Failed s' r t := by
  obtain ⟨k, hk, hu, hcase⟩ := h
  obtain ⟨k', hk', hseg⟩ := Option.bind_eq_some_iff.1 hstep
  rw [hk] at hk'
  cases hk'
  obtain ⟨u, pc, cancel⟩ := k
  have hclear : (s.clearCancel t).tasks t = some ⟨u, pc, false⟩ := tasks_clearCancel hk
  cases pc with
  | created =>
    obtain ⟨hcancel, href, hreg, hstop, hforce, htask⟩ := hcase
    cases hcancel
    have hs' : s' = (s.clearCancel t).beginUnit t u := (Option.some.inj hseg).symm
    have hbegun (s₁ : Supervisor U) (hheap : s₁.heap r = { s.heap r with
        result := .none, status := .entering }) (href₁ : s₁.ref u = r) (hunits : s₁.units = s.units) :
        s₁.stopUnit u = .error .assertionError := by
      have hnone : (s₁.state u).task = none := by
        rw [state, href₁, hheap]
        exact htask
      unfold stopUnit
      rw [if_neg (by rw [hunits]; exact not_not.2 hreg), hnone]
    have hheap : ((s.clearCancel t).setEntering r).heap r =
        { s.heap r with result := .none, status := .entering } := by
      simp only [setEntering, clearEvent, modify, Function.update_self]
      rfl
    rw [hs']
    unfold beginUnit
    rw [if_neg (show ¬ u ∉ (s.clearCancel t).units from not_not.2 hreg)]
    dsimp only
    rw [show (s.clearCancel t).ref u = r from href, hheap, if_pos ⟨hstop, hforce⟩,
      hbegun _ hheap href rfl]
    exact phaseFailed_failed (s := (s.clearCancel t).setEntering r) hclear hu .assertionError
  | enterSleep r' =>
    obtain ⟨rfl, hcancel⟩ := hcase
    cases hcancel
    cases hseg
    exact phaseFailed_failed hclear hu .cancelled
  | entering r' =>
    cases o with
    | raise e =>
      obtain rfl := hcase
      cases hseg
      exact phaseFailed_failed hclear hu e
    | _ => exact hcase.elim
  | _ => exact hcase.elim

end

/-! ### The answer to a start that fails -/

theorem Call.verdict_of_isExc {c : Call U} {u : U} {t : TaskId} {v : Val U} (e : EventRef U)
    (hin : (u, t, v) ∈ c.doneUnits) (hv : v.isExc = true) : c.verdict u e = some false := by
  unfold Call.verdict
  rw [if_pos (List.any_eq_true.2 ⟨_, hin, by simpa using hv⟩)]

/-- The task that waits for `e` is done. -/
def Loop.hasHeard (l : Loop U) (e : EventRef U) : Bool :=
  match l with
  | .waiting c => (e, .done) ∈ c.helpers
  | _ => false

instance (s : Supervisor U) (r : StateRef U) (t : TaskId) : Decidable (Exits s r t) :=
  match h : s.tasks t with
  | none => .isFalse fun ⟨_, hk, _⟩ => by simp [h] at hk
  | some k => decidable_of_iff (k.unit = r.unit ∧ k.pc = .exiting r)
    ⟨fun hk => ⟨k, h, hk⟩, fun ⟨k', hk', hk⟩ => by rw [h] at hk'; cases hk'; exact hk⟩

/-- Two finished tasks of the unit are registered. -/
def Doubled (s : Supervisor U) (u : U) : Prop :=
  ∃ x ∈ s.running, ∃ y ∈ s.running, x.2 = u ∧ y.2 = u ∧ (s.taskResult x.1).isSome ∧
    (s.taskResult y.1).isSome ∧ x.1 ≠ y.1

instance (s : Supervisor U) (u : U) : Decidable (Doubled s u) :=
  inferInstanceAs (Decidable (∃ x ∈ s.running, ∃ y ∈ s.running, _))

/-- A turn that hears of `done_entering` does not find the unit in its exit, nor two finished tasks
of it; its exit ends under the lock; and it is removed only without an unfinished task. -/
def StartSeen (r : StateRef U) (w : Waiting U) : WaitAction U → Prop
  | .sup (.wake _) => (w.sup.loop.hasHeard (.doneEntering r) = true →
      ∀ t < w.sup.nextTask, ¬ Exits w.sup r t) ∧ ¬ Doubled w.sup r.unit
  | .sup (.resume t o) => Exits w.sup r t → w.sup.lastSegment t o = true → w.sup.locked = true
  | .sup (.removeUnit u) => u = r.unit → ¬ w.sup.HasLive r.unit
  | _ => True

instance (r : StateRef U) (w : Waiting U) : (x : WaitAction U) → Decidable (StartSeen r w x)
  | .sup (.wake _) => inferInstanceAs (Decidable (_ ∧ _))
  | .sup (.resume t o) => inferInstanceAs (Decidable (Exits w.sup r t →
      w.sup.lastSegment t o = true → w.sup.locked = true))
  | .sup (.removeUnit u) => inferInstanceAs (Decidable (u = r.unit → ¬ w.sup.HasLive r.unit))
  | .sup (.addUnit ..) | .sup (.startUnit _) | .sup (.stopUnit ..) | .sup (.setEvent _)
  | .sup (.clearEvent _) | .sup .monitorStep | .sup (.helperStep _) | .sup (.supervise ..)
  | .sup .leave | .sup .cancel | .sup .stop | .side => inferInstanceAs (Decidable True)

theorem StartSeen.removesIdle {r : StateRef U} {w : Waiting U} {a : Action U}
    (h : StartSeen r w (.sup a)) : RemovesIdle r.unit w.sup a := by
  cases a with
  | removeUnit u => exact h
  | _ => exact trivial

/-- The coroutine was called, and awaits no event itself. -/
def Waiter.supervises : Waiter U → Bool
  | .idle | .woken _ => false
  | _ => true

/-- Nothing was heard of `e` yet, and the call in progress has not found it set. -/
def Unheard (e : EventRef U) (w : Waiting U) : Prop :=
  w.lead ≠ .returned true ∧ (w.lead = .awaiting →
    (∃ c h, w.sup.loop = .waiting c ∧ Awaits w.sup e c h ∧ h.heard = false) ∨
      ∃ c err, w.sup.loop = .leaving c err ∧ (err = none → e ∉ c.doneEvents))

/-- The call in progress, for `e`, has not returned it. -/
def Undone (e : EventRef U) (s : Supervisor U) : Prop :=
  (∃ c h, s.loop = .waiting c ∧ Awaits s e c h) ∨
    ∃ c err, s.loop = .leaving c err ∧ (err = none → e ∉ c.doneEvents)

/-- The call in progress ends, with the answer `False` if it does not raise. -/
def EndsFalse (s : Supervisor U) (u : U) (e : EventRef U) : Prop :=
  ∃ c err, s.loop = .leaving c err ∧ (err = none → c.verdict u e = some false)

/-- Task `t` of the unit, whose enter failed, is in its exit, or has returned an exception, of which
the call is to take note or has done so. -/
def LeadFails (r : StateRef U) (t : TaskId) (w : Waiting U) : Prop :=
  w.lead ≠ .returned true ∧ (w.lead = .awaiting →
    (Exits w.sup r t ∧ (w.sup.heap r).result.isExc = true ∧ Undone (.doneEntering r) w.sup) ∨
      (∃ c h v, w.sup.loop = .waiting c ∧ Awaits w.sup (.doneEntering r) c h ∧
        w.sup.taskResult t = some (.returned v) ∧ v.isExc = true ∧ (t, r.unit) ∈ w.sup.running) ∨
      EndsFalse w.sup r.unit (.doneEntering r))

section
variable {r : StateRef U} {w w' : Waiting U} {x : WaitAction U} {t : TaskId} {e : EventRef U}
  {command : Command} {T : U → Prop}

theorem Stepped.wfOn (hw : WFOn (· = r.unit) w.sup) (hok : ∀ a, x = .sup a → RemovesIdle r.unit w.sup a)
    (hstep : Waiting.Stepped command r w w' x) : WFOn (· = r.unit) w'.sup :=
  run_wfOn hw (fun _ _ h => h) (hstep.run hok fun _ _ _ => trivial)

theorem Unheard.step (hw : WFOn T w.sup) (h : Unheard (command.event r) w)
    (hstep : Waiting.Stepped command r w w' x) (hunset : w'.sup.events (command.event r) = false) :
    Unheard (command.event r) w' := by
  have hnot (h : Helper) (hh : h.heard = false) : h ≠ .done := by
    rintro rfl
    cases hh
  cases hstep with
  | side next _ hsup hlead =>
    unfold Unheard
    rw [hsup, hlead]
    exact h
  | plain a hleave _ hs hlead =>
    refine ⟨hlead ▸ h.1, fun hlead' => ?_⟩
    rw [hlead] at hlead'
    rcases h.2 hlead' with ⟨c, h', hloop, ha, hunheard⟩ | ⟨c, err, hloop, hno⟩
    · by_cases hwake : ∃ order, a = .wake order
      · obtain ⟨order, rfl⟩ := hwake
        rcases wake_awaits hw hloop ha hs with ⟨c', err, hloop'⟩ |
          ⟨-, -, ⟨c', hloop', hdone, -⟩ | ⟨c', hloop', ha', -⟩⟩
        · exact .inr ⟨c', some err, hloop', by simp⟩
        · exact .inr ⟨c', none, hloop', fun _ he => hnot h' hunheard (hdone.1 he)⟩
        · exact .inl ⟨c', h', hloop', ha', hunheard⟩
      · obtain ⟨-, ⟨c', h'', hloop', ha', hheard, -⟩ | ⟨c', err, hloop'⟩⟩ :=
          step_awaits hloop ha (fun order h => hwake ⟨order, h⟩) hs
        · refine .inl ⟨c', h'', hloop', ha', Bool.eq_false_iff.2 fun hh => ?_⟩
          rcases hheard hh with hh | hset
          · rw [hunheard] at hh
            cases hh
          · rw [hunset] at hset
            cases hset
        · exact .inr ⟨c', some err, hloop', by simp⟩
    · obtain ⟨err', hloop', herr⟩ := step_leaving hloop (hleave hlead') hs
      exact .inr ⟨c, err', hloop', fun hnone => hno (herr hnone)⟩
  | answered c b hlead hloop hverdict _ hlead' =>
    refine ⟨fun hb => ?_, fun hb => by rw [hlead'] at hb; cases hb⟩
    rw [hlead'] at hb
    cases hb
    rcases h.2 hlead with ⟨c', h', hloop', -⟩ | ⟨c', err, hloop', hno⟩
    · rw [hloop] at hloop'
      cases hloop'
    · rw [hloop] at hloop'
      cases hloop'
      exact hno rfl (Call.mem_of_verdict hverdict)
  | again c s _ _ _ _ _ hagain hlead' =>
    refine ⟨fun hb => (by rw [hlead'] at hb; cases hb), fun _ => .inl ?_⟩
    obtain ⟨c', hloop', ha'⟩ := superviseUntil_awaits s (command.event r)
    rw [hagain]
    exact ⟨c', .fresh, hloop', ha', rfl⟩
  | failed c err _ _ _ hlead' =>
    exact ⟨fun hb => (by rw [hlead'] at hb; cases hb), fun hb => by rw [hlead'] at hb; cases hb⟩

theorem Exits.entry {s : Supervisor U} (hw : WFOn (· = r.unit) s) (h : Exits s r t) :
    (t, r.unit) ∈ s.running := by
  obtain ⟨k, hk, hu, hpc⟩ := h
  exact ((hw.placed r.unit rfl).live (view_tasks_eq_some.2 ⟨hk, hu, by rw [hpc]; rfl⟩)).entry

theorem Exits.lt_nextTask {s : Supervisor U} (hw : Tables s) (h : Exits s r t) : t < s.nextTask := by
  obtain ⟨k, hk, -⟩ := h
  refine Nat.lt_of_not_le fun hle => ?_
  rw [hw.fresh t hle] at hk
  cases hk

theorem Exits.unfinished {s : Supervisor U} (h : Exits s r t) : s.taskResult t = none := by
  obtain ⟨k, hk, -, hpc⟩ := h
  simp [Supervisor.taskResult, hk, hpc, Pc.result]

theorem Undone.step {s s' : Supervisor U} {a : Action U} (hw : WFOn T s) (h : Undone e s)
    (ha : During s a) (hs : Supervisor.step s a = some s')
    (hheard : ∀ order, a = .wake order → s.loop.hasHeard e = false) : Undone e s' := by
  rcases h with ⟨c, h', hloop, hawaits⟩ | ⟨c, err, hloop, hno⟩
  · by_cases hwake : ∃ order, a = .wake order
    · obtain ⟨order, rfl⟩ := hwake
      rcases wake_awaits hw hloop hawaits hs with ⟨c', err, hloop'⟩ |
        ⟨-, -, ⟨c', hloop', hdone, -⟩ | ⟨c', hloop', ha', -⟩⟩
      · exact .inr ⟨c', some err, hloop', by simp⟩
      · refine .inr ⟨c', none, hloop', fun _ he => ?_⟩
        obtain rfl := hdone.1 he
        have hno := hheard order rfl
        rw [hloop] at hno
        simp [Loop.hasHeard, hawaits.helpers] at hno
      · exact .inl ⟨c', h', hloop', ha'⟩
    · obtain ⟨-, ⟨c', h'', hloop', ha', -⟩ | ⟨c', err, hloop'⟩⟩ :=
        step_awaits hloop hawaits (fun order h => hwake ⟨order, h⟩) hs
      · exact .inl ⟨c', h'', hloop', ha'⟩
      · exact .inr ⟨c', some err, hloop', by simp⟩
  · obtain ⟨err', hloop', herr⟩ := step_leaving hloop ha hs
    exact .inr ⟨c, err', hloop', fun hnone => hno (herr hnone)⟩

/-- A turn that takes note of an exception of the unit, and of no other task of it, is the last. -/
theorem wake_endsFalse {s s' : Supervisor U} {u : U} {c : Call U} {h : Helper} {v : Val U}
    {order : List TaskId} (hw : WFOn T s) (hloop : s.loop = .waiting c) (hawaits : Awaits s e c h)
    (hres : s.taskResult t = some (.returned v)) (hexc : v.isExc = true) (hentry : (t, u) ∈ s.running)
    (halone : ¬ Doubled s u) (hwake : s.wake order = some s') : EndsFalse s' u e := by
  have hsome : (s.taskResult t).isSome := Option.isSome_of_eq_some hres
  rcases wake_awaits hw hloop hawaits hwake with ⟨c', err, hloop'⟩ |
    ⟨-, -, ⟨c', hloop', -, hdone, hold⟩ | ⟨c', -, -, -, hnone⟩⟩
  · exact ⟨c', some err, hloop', by simp⟩
  · obtain ⟨t', v', hin⟩ := hdone t u hentry hsome
    obtain ⟨hentry', hres'⟩ := hold u t' v' hin
    have hsame : t' = t := by
      by_contra hne
      exact halone ⟨_, hentry', _, hentry, rfl, rfl, Option.isSome_of_eq_some hres', hsome, hne⟩
    subst hsame
    rw [hres] at hres'
    cases hres'
    exact ⟨c', none, hloop', fun _ => Call.verdict_of_isExc _ hin hexc⟩
  · rw [hnone t u hentry] at hres
    cases hres

theorem LeadFails.plain {a : Action U} (hw : WFOn (· = r.unit) w.sup) (h : LeadFails r t w)
    (hok : StartSeen r w (.sup a)) (hlead : w.lead = .awaiting) (ha : During w.sup a)
    (hs : w.sup.step a = some w'.sup) (hlead' : w'.lead = w.lead) : LeadFails r t w' := by
  refine ⟨by rw [hlead', hlead]; simp, fun _ => ?_⟩
  rcases h.2 hlead with ⟨hexits, hexc, hcall⟩ | ⟨c, h', v, hloop, hawaits, hres, hexc, hentry⟩ |
    ⟨c, err, hloop, hverdict⟩
  · by_cases hlast : ∃ o, a = .resume t o ∧ w.sup.lastSegment t o = true
    · -- the exit ends, under the lock
      obtain ⟨o, rfl, hlast⟩ := hlast
      have hlocked := hok hexits hlast
      obtain ⟨hres, -⟩ := hexits.last hs hlast hlocked
      have hexc' : (o.exitResult (w.sup.heap r).result).isExc = true := by
        cases o with
        | raise e => rfl
        | _ => exact hexc
      rcases hcall with ⟨c, h', hloop, hawaits⟩ | ⟨c, err, hloop, -⟩
      · obtain ⟨hrunning, ⟨c', h'', hloop', ha', -⟩ | ⟨c', err, hloop'⟩⟩ :=
          step_awaits hloop hawaits (by simp) hs
        · exact .inr (.inl ⟨c', h'', _, hloop', ha', hres, hexc', hrunning ▸ hexits.entry hw⟩)
        · exact .inr (.inr ⟨c', some err, hloop', by simp⟩)
      · rw [locked, hloop] at hlocked
        cases hlocked
    · have hcall' : Undone (.doneEntering r) w'.sup := by
        refine hcall.step hw ha hs ?_
        rintro order rfl
        exact Bool.eq_false_iff.2 fun hheard => hok.1 hheard t (hexits.lt_nextTask hw.toTables) hexits
      left
      by_cases hresume : ∃ o, a = .resume t o
      · obtain ⟨o, rfl⟩ := hresume
        obtain ⟨hexits', hsame⟩ :=
          hexits.suspend hs (Bool.eq_false_iff.2 fun h => hlast ⟨o, rfl, h⟩)
        exact ⟨hexits', by rw [hsame]; exact hexc, hcall'⟩
      · obtain ⟨hexits', hresult⟩ := hexits.step hw hs fun o h => hresume ⟨o, h⟩
        exact ⟨hexits', by rw [hresult]; exact hexc, hcall'⟩
  · -- the completion is to be taken note of
    by_cases hwake : ∃ order, a = .wake order
    · obtain ⟨order, rfl⟩ := hwake
      exact .inr (.inr (wake_endsFalse hw hloop hawaits hres hexc hentry hok.2 hs))
    · obtain ⟨hrunning, ⟨c', h'', hloop', ha', -⟩ | ⟨c', err, hloop'⟩⟩ :=
        step_awaits hloop hawaits (fun order h => hwake ⟨order, h⟩) hs
      · exact .inr (.inl ⟨c', h'', v, hloop', ha', step_result hw hs hres, hexc, hrunning ▸ hentry⟩)
      · exact .inr (.inr ⟨c', some err, hloop', by simp⟩)
  · obtain ⟨err', hloop', herr⟩ := step_leaving hloop ha hs
    exact .inr (.inr ⟨c, err', hloop', fun hnone => hverdict (herr hnone)⟩)

theorem LeadFails.step (hw : WFOn (· = r.unit) w.sup) (h : LeadFails r t w)
    (hok : StartSeen r w x) (hstep : Waiting.Stepped .start r w w' x) : LeadFails r t w' := by
  cases hstep with
  | side next _ hsup hlead =>
    unfold LeadFails
    rw [hsup, hlead]
    exact h
  | plain a hleave _ hs hlead =>
    by_cases hawaiting : w.lead = .awaiting
    · exact h.plain hw hok hawaiting (hleave hawaiting) hs hlead
    · exact ⟨hlead ▸ h.1, fun hb => absurd (hlead ▸ hb) hawaiting⟩
  | answered c b hlead hloop hverdict _ hlead' =>
    refine ⟨fun hb => ?_, fun hb => by rw [hlead'] at hb; cases hb⟩
    rw [hlead'] at hb
    cases hb
    rcases h.2 hlead with ⟨-, -, ⟨c', h', hloop', -⟩ | ⟨c', err, hloop', hno⟩⟩ |
      ⟨c', h', v, hloop', -⟩ | ⟨c', err, hloop', hfalse⟩
    · rw [hloop] at hloop'; cases hloop'
    · rw [hloop] at hloop'; cases hloop'
      exact hno rfl (Call.mem_of_verdict hverdict)
    · rw [hloop] at hloop'; cases hloop'
    · rw [hloop] at hloop'; cases hloop'
      have hcontra := (hfalse rfl).symm.trans hverdict
      cases hcontra
  | again c s hlead hloop hverdict hs hidle hagain hlead' =>
    refine ⟨fun hb => (by rw [hlead'] at hb; cases hb), fun _ => ?_⟩
    rcases h.2 hlead with ⟨hexits, hexc, -⟩ | ⟨c', h', v, hloop', -⟩ | ⟨c', err, hloop', hfalse⟩
    · -- the next call begins with the unit still in its exit
      obtain ⟨hexits₁, hresult₁⟩ := hexits.step hw hs (by simp)
      have hw₁ : WFOn (· = r.unit) s := (stepOn_evolves hw (by simp) hs).wf
      have hsupervise : s.step (.supervise [.doneEntering r] .firstEventOrUnit) = some w'.sup := by
        simp only [Supervisor.step, hidle, hagain]
        rfl
      obtain ⟨hexits₂, hresult₂⟩ := hexits₁.step hw₁ hsupervise (by simp)
      refine .inl ⟨hexits₂, by rw [hresult₂, hresult₁]; exact hexc, .inl ?_⟩
      obtain ⟨c', hloop', ha'⟩ := superviseUntil_awaits s (.doneEntering r)
      have hsup : w'.sup = s.superviseUntil [.doneEntering r] := hagain
      rw [hsup]
      exact ⟨c', .fresh, hloop', ha'⟩
    · rw [hloop] at hloop'; cases hloop'
    · rw [hloop] at hloop'; cases hloop'
      have hcontra := (hfalse rfl).symm.trans hverdict
      cases hcontra
  | failed c err _ _ _ hlead' =>
    exact ⟨fun hb => (by rw [hlead'] at hb; cases hb), fun hb => by rw [hlead'] at hb; cases hb⟩

/-- The coroutine that was woken is to read from `state.result` whether it `failed`: the tasks of
the unit that were created up to then, which were `n`, are finished, or one that failed is in its
exit. -/
structure Held (r : StateRef U) (failed : Bool) (n : TaskId) (s : Supervisor U) : Prop where
  isExc : (s.heap r).result.isExc = failed
  gen : r.gen ≤ s.gen r.unit
  created : n ≤ s.nextTask
  tasks : ∀ t k, s.tasks t = some k → k.unit = r.unit → k.pc.isFinished = false →
    n ≤ t ∨ failed = true ∧ k.pc = .exiting r

theorem Held.step {s s' : Supervisor U} {a : Action U} {failed : Bool} {n : TaskId} (hw : WFOn T s)
    (h : Held r failed n s) (hs : Supervisor.step s a = some s')
    (hguard : ∀ t o, a = .resume t o → t < n) : Held r failed n s' := by
  -- a task whose position is as before
  have hsame {t' : TaskId} {k' : UnitTask U} (hpc : (s'.tasks t').map (fun k => (k.unit, k.pc)) =
      (s.tasks t').map fun k => (k.unit, k.pc)) (hk' : s'.tasks t' = some k')
      (hu' : k'.unit = r.unit) (hlive' : k'.pc.isFinished = false) :
      n ≤ t' ∨ failed = true ∧ k'.pc = .exiting r := by
    rw [hk'] at hpc
    obtain ⟨k, hk, heq⟩ := Option.map_eq_some_iff.1 hpc.symm
    obtain ⟨hunit, hpos⟩ := Prod.mk.inj heq
    have hold := h.tasks t' k hk (hunit.trans hu') (by rw [hpos]; exact hlive')
    rw [hpos] at hold
    exact hold
  by_cases hresume : ∃ t o, a = .resume t o
  · obtain ⟨t, o, rfl⟩ := hresume
    have hlt := hguard t o rfl
    obtain ⟨k, hk, hseg⟩ := Option.bind_eq_some_iff.1 hs
    have halone := runSegment_alone hseg
    have hexits (hu : k.unit = r.unit) : failed = true ∧ Exits s r t := by
      have hold := (h.tasks t k hk hu (runSegment_isFinished hseg)).resolve_left (Nat.not_le.2 hlt)
      exact ⟨hold.1, k, hk, hu, hold.2⟩
    refine ⟨?_, by rw [halone.gen]; exact h.gen, by rw [halone.nextTask]; exact h.created, ?_⟩
    · by_cases hu : k.unit = r.unit
      · rw [((hexits hu).2.resumed hs).1]
        cases o with
        | raise e => exact (hexits hu).1.symm
        | _ => exact h.isExc
      · rw [halone.heap r]
        · exact h.isExc
        · intro hr
          exact hu (by rw [← works_unit hw.toTables hk, ← hr])
    · intro t' k' hk' hu' hlive'
      by_cases hne : t' = t
      · subst hne
        have howner : k.unit = r.unit := by
          obtain ⟨k₁, hk₁, -, -, hwithin, -⟩ := resume_within hw hs
          rw [hk] at hk₁
          cases hk₁
          have hunit := hwithin.owner t'
          rw [hk, hk'] at hunit
          exact (Option.some.inj hunit).symm.trans hu'
        obtain ⟨hfailed, hexit⟩ := hexits howner
        rcases (hexit.resumed hs).2 k' hk' with hpc | hfin
        · exact .inr ⟨hfailed, hpc⟩
        · rw [hlive'] at hfin
          cases hfin
      · exact hsame (halone.pc t' hne) hk' hu' hlive'
  · have hquiet := step_quiet hw (fun t o h => hresume ⟨t, o, h⟩) hs
    refine ⟨?_, h.gen.trans (hquiet.gen r.unit), h.created.trans hquiet.nextTask, ?_⟩
    · rw [hquiet.result r h.gen]
      exact h.isExc
    · intro t' k' hk' hu' hlive'
      cases hk : s.tasks t' with
      | none => exact .inl (h.created.trans (hquiet.new t' k' hk hk').1)
      | some k => exact hsame (hquiet.pc t' (by simp [hk])) hk' hu' hlive'

/-- The other coroutine was woken, and is to answer whether the unit `failed` or has done so. -/
def SideAnswers (r : StateRef U) (failed : Bool) (w : Waiting U) : Prop :=
  w.side = .returned (!failed) ∨ ∃ n, w.side = .woken n ∧ Held r failed n w.sup

theorem SideAnswers.step {failed : Bool} (hw : WFOn T w.sup) (h : SideAnswers r failed w)
    (hstep : Waiting.Stepped command r w w' x) : SideAnswers r failed w' := by
  -- it waits for its turn while the supervisor takes a step
  have hkept {a : Action U} {s : Supervisor U} (hover : w.overtakes a = false)
      (hs : w.sup.step a = some s) (hside : w'.side = Waiting.sideStep (command.event r) w s) :
      w'.side = .returned (!failed) ∨ ∃ n, w'.side = .woken n ∧ Held r failed n s := by
    have hsame : w'.side = w.side := by
      rw [hside, Waiting.sideStep, if_neg]
      rcases h with h | ⟨n, h, -⟩ <;> simp [h]
    rw [hsame]
    refine h.imp_right fun ⟨n, hwoken, hheld⟩ => ⟨n, hwoken, hheld.step hw hs fun t o ha => ?_⟩
    subst ha
    simpa [Waiting.overtakes, Waiter.precedes, hwoken] using hover
  cases hstep with
  | side n hwoken _ _ hside =>
    left
    rcases h with hreturned | ⟨n', -, hheld⟩
    · rw [hwoken] at hreturned
      cases hreturned
    · rw [hside, hheld.isExc]
  | plain a _ hover hs _ hside => exact hkept hover hs hside
  | answered c b _ _ _ hs _ hside => exact hkept (a := .leave) rfl hs hside
  | failed c err _ _ hs _ hside => exact hkept (a := .leave) rfl hs hside
  | again c s _ _ _ hs hidle hagain _ hside =>
    refine (hkept (a := .leave) rfl hs hside).imp_right fun ⟨n, hwoken, hheld⟩ => ⟨n, hwoken, ?_⟩
    have hsupervise : s.step (.supervise [command.event r] .firstEventOrUnit) = some w'.sup := by
      simp only [Supervisor.step, hidle, hagain]
    have hw₁ : WFOn (fun _ => False) s :=
      (stepOn_evolves (T := fun _ => False) ⟨hw.toTables, fun _ h => h.elim⟩ (by simp) hs).wf
    exact hheld.step hw₁ hsupervise (by simp)

theorem Stepped.side_awaiting (hstep : Waiting.Stepped command r w w' x)
    (hside : w.side = .awaiting) (hunset : w'.sup.events (command.event r) = false) :
    w'.side = .awaiting := by
  have hkept {s : Supervisor U} (hevents : s.events = w'.sup.events)
      (h : w'.side = Waiting.sideStep (command.event r) w s) : w'.side = .awaiting := by
    rw [h, Waiting.sideStep, if_neg (by simp [hevents, hunset]), hside]
  cases hstep with
  | side n hwoken =>
    rw [hside] at hwoken
    cases hwoken
  | plain a _ _ _ _ hside' => exact hkept rfl hside'
  | answered c b _ _ _ _ _ hside' => exact hkept rfl hside'
  | failed c err _ _ _ _ hside' => exact hkept rfl hside'
  | again c s _ _ _ _ _ hagain _ hside' =>
    refine hkept ?_ hside'
    rw [hagain, superviseUntil_events]

theorem Stepped.supervises (hstep : Waiting.Stepped command r w w' x)
    (hlead : w.lead.supervises = true) : w'.lead.supervises = true := by
  cases hstep with
  | side n _ _ hlead' => rw [hlead', hlead]
  | plain a _ _ _ hlead' => rw [hlead', hlead]
  | answered c b _ _ _ _ hlead' => rw [hlead']; rfl
  | again c s _ _ _ _ _ _ hlead' => rw [hlead']; rfl
  | failed c err _ _ _ hlead' => rw [hlead']; rfl

end

section
variable {s s' : Supervisor U} {u : U} {r : StateRef U} {w w' : Waiting U} {x : WaitAction U}
  {command : Command} {lead side : Bool}

/-- The calls were made, of one coroutine or both, and nothing was heard of the event. -/
structure Attending (command : Command) (r : StateRef U) (lead side : Bool) (w : Waiting U) :
    Prop where
  lead : lead = true → w.lead.supervises = true
  side : side = true → w.side = .awaiting
  unheard : Unheard (command.event r) w

theorem call_attending (hwaits : command.doneNow s u = none)
    (hunset : s.events (command.event (s.ref u)) = false) :
    Attending command (s.ref u) lead side (Waiting.call command s u lead side) := by
  have hside : (Waiting.call command s u lead side).side = if side then .awaiting else .idle := by
    unfold Waiting.call
    rw [Command.awaitDone_awaits hwaits hunset]
    cases lead <;> rfl
  have hcalled (h : side = true) : (Waiting.call command s u lead side).side = .awaiting := by
    rw [hside, if_pos h]
  cases lead with
  | false =>
    refine ⟨by simp, hcalled, ?_, ?_⟩
    · show Waiter.idle ≠ .returned true
      simp
    · show Waiter.idle = .awaiting → _
      simp
  | true =>
    have hcall : (Waiting.call command s u true side).sup =
          s.superviseUntil [command.event (s.ref u)] ∧
        (Waiting.call command s u true side).lead = .awaiting := by
      simp only [Waiting.call, if_true, Command.superviseUntilDone_awaits hwaits, and_self]
    refine ⟨fun _ => by rw [hcall.2]; rfl, hcalled, by simp [hcall.2], fun _ => .inl ?_⟩
    obtain ⟨c, hloop, hawaits⟩ := superviseUntil_awaits s (command.event (s.ref u))
    rw [hcall.1]
    exact ⟨c, .fresh, hloop, hawaits, rfl⟩

theorem Attending.step {T : U → Prop} (hw : WFOn T w.sup) (h : Attending command r lead side w)
    (hstep : Waiting.Stepped command r w w' x) (hunset : w'.sup.events (command.event r) = false) :
    Attending command r lead side w' :=
  ⟨fun hlead => Stepped.supervises hstep (h.lead hlead),
    fun hside => Stepped.side_awaiting hstep (h.side hside) hunset, h.unheard.step hw hstep hunset⟩

/-- The call is in progress, and the event is not heard of, as another step is taken. -/
theorem Attending.undone (h : Attending command r lead side w) (hlead : w.lead = .awaiting) :
    Undone (command.event r) w.sup := by
  rcases h.unheard.2 hlead with ⟨c, h', hloop, hawaits, -⟩ | hleaving
  · exact .inl ⟨c, h', hloop, hawaits⟩
  · exact .inr hleaving

theorem call_wfOn (h : WFOn (· = u) s) (hidle : lead = true → s.loop = .idle)
    (hwaits : command.doneNow s u = none) :
    WFOn (· = u) (Waiting.call command s u lead side).sup := by
  cases lead with
  | false => exact h
  | true =>
    have hcall : (Waiting.call command s u true side).sup =
        s.superviseUntil [command.event (s.ref u)] := by
      simp only [Waiting.call, if_true, Command.superviseUntilDone_awaits hwaits]
    rw [hcall]
    exact (superviseUntil_evolves h (hidle rfl) _ _).wf

theorem Failed.held {t : TaskId} (h : Failed s r t) (hw : WFOn (· = r.unit) s) :
    Held r true s.nextTask s := by
  obtain ⟨⟨k, hk, hfits⟩, href⟩ := h.exits.fits hw
  obtain ⟨k₁, hk₁, -, hpc⟩ := h.exits
  rw [hk] at hk₁
  cases hk₁
  refine ⟨h.isExc, (congrArg StateRef.gen href).le, le_refl _,
    fun t' k' hk' hu' hlive' => .inr ⟨rfl, ?_⟩⟩
  have htask := hfits.live_tasks t'
  rw [view_tasks_eq_some.2 ⟨hk', hu', hlive'⟩] at htask
  split at htask
  · cases htask
    exact hpc
  · cases htask

end

/-! ### A start that fails -/

end Silkjam.Supervisor
