import Silkjam.Supervisor.Shutdown
import Silkjam.Supervisor.Verdicts

/-!
# The answer to a clean stop

A unit that is RUNNING is stopped by cancelling its `run`, and what that raises is stored like any
other exception. A stop is answered `True` where `run` came back with a value all the same
(`stop_succeeds`): the unit's task is followed to the end of its exit (`Underway`), and from there
on the unit rests (`Rested`) and `done_exiting` stays set until both coroutines have heard of it.
-/

namespace Silkjam.Supervisor

open Transition

variable {U : Type} [DecidableEq U]

/-! ### From the run to the end of the exit -/

/-- Task `t` of the unit has entered, and is on its way through its run and its exit. -/
def Underway (s : Supervisor U) (r : StateRef U) (t : TaskId) : Prop :=
  ∃ k, s.tasks t = some k ∧ k.unit = r.unit ∧ k.pc.entered = true ∧ k.pc.ref = some r

section
variable {s s' : Supervisor U} {r : StateRef U} {t : TaskId} {k : UnitTask U} {o : Outcome U}
  {a : Action U}

theorem Underway.live (h : Underway s r t) : s.Live t r.unit := by
  obtain ⟨k, hk, hu, -, href⟩ := h
  exact ⟨k, hk, hu, isFinished_of_ref href⟩

theorem Underway.unfinished (h : Underway s r t) : s.taskResult t = none := by
  obtain ⟨k, hk, -, -, href⟩ := h
  have hlive := isFinished_of_ref href
  cases hpc : k.pc <;> simp_all [taskResult, Pc.result, Pc.isFinished]

theorem live_works_ne {t' : TaskId} {k' : UnitTask U} (hw : WFOn (· = r.unit) s)
    (h : s.Live t r.unit) (hk' : s.tasks t' = some k') (hlive' : k'.pc.isFinished = false)
    (hne : t' ≠ t) : s.works k' ≠ r := by
  obtain ⟨k, hk, hu, hlive⟩ := h
  exact works_ne hw hk hlive hu hk' hlive' hne

theorem Exits.underway (h : Exits s r t) : Underway s r t := by
  obtain ⟨k, hk, hu, hpc⟩ := h
  exact ⟨k, hk, hu, by rw [hpc]; rfl, by rw [hpc]; rfl⟩

theorem Underway.resumed (h : Underway s r t) (hstep : Supervisor.step s (.resume t o) = some s')
    (hlast : s.lastSegment t o = false) : Underway s' r t := by
  obtain ⟨k, hk, hu, hentered, href⟩ := h
  obtain ⟨k', hk', hseg⟩ := Option.bind_eq_some_iff.1 hstep
  rw [hk] at hk'
  cases hk'
  have hclear : (s.clearCancel t).tasks t = some { k with cancel := false } := tasks_clearCancel hk
  have hcalled : Underway ((s.clearCancel t).callRun t r) r t := by
    refine ⟨{ k with pc := .running r, cancel := false }, ?_, hu, rfl, rfl⟩
    show Function.update (s.clearCancel t).tasks t (((s.clearCancel t).tasks t).map _) t = _
    rw [Function.update_self, hclear]
    rfl
  cases hpc : k.pc with
  | created | finished res => simp [hpc, Pc.ref] at href
  | enterSleep r' | entering r' => simp [hpc, Pc.entered] at hentered
  | runSleep r' =>
    obtain rfl : r' = r := by simpa [hpc, Pc.ref] using href
    simp only [runSegment, hpc] at hseg
    split at hseg
    · cases hseg
      exact (phaseFailed_failed hclear hu _).exits.underway
    · cases hseg
      exact hcalled
  | running r' =>
    obtain rfl : r' = r := by simpa [hpc, Pc.ref] using href
    cases o with
    | ok v =>
      simp only [runSegment, hpc] at hseg
      cases hseg
      exact (exitUnit_exits (s := (s.clearCancel t).modify r' fun st => { st with result := v })
        hclear hu).underway
    | raise e =>
      simp only [runSegment, hpc] at hseg
      cases hseg
      exact (phaseFailed_failed hclear hu _).exits.underway
    | suspend =>
      simp only [runSegment, hpc] at hseg
      cases hseg
      exact ⟨_, hclear, hu, hentered, href⟩
  | exiting r' =>
    obtain rfl : r' = r := by simpa [hpc, Pc.ref] using href
    have hexits : Exits s r' t := ⟨k, hk, hu, hpc⟩
    exact (hexits.suspend hstep hlast).1.underway

theorem Underway.exits (h : Underway s r t) (hlast : s.lastSegment t o = true) : Exits s r t := by
  obtain ⟨⟨u, pc, cancel⟩, hk, hu, -, href⟩ := h
  unfold lastSegment at hlast
  rw [hk] at hlast
  cases pc with
  | exiting r' =>
    cases href
    exact ⟨_, hk, hu, rfl⟩
  | _ => cases hlast

theorem pc_of_eq {s s' : Supervisor U} (hk : s.tasks t = some k)
    (h : (s'.tasks t).map (fun k => (k.unit, k.pc)) = (s.tasks t).map fun k => (k.unit, k.pc)) :
    ∃ k', s'.tasks t = some k' ∧ k'.unit = k.unit ∧ k'.pc = k.pc := by
  rw [hk] at h
  obtain ⟨k', hk', heq⟩ := Option.map_eq_some_iff.1 h
  exact ⟨k', hk', (Prod.mk.inj heq).1, (Prod.mk.inj heq).2⟩

/-- A segment that sets `done_exiting` is the last of its task. -/
theorem lastSegment_of_set (hstep : Supervisor.step s (.resume t o) = some s')
    (hunset : s.events (.doneExiting r) = false) (hset : s'.events (.doneExiting r) = true) :
    ∃ k, s.tasks t = some k ∧ k.pc = .exiting r ∧ s.lastSegment t o = true := by
  obtain ⟨k, hk, hseg⟩ := Option.bind_eq_some_iff.1 hstep
  obtain ⟨l, hl, hkind⟩ := runSegment_rung hseg
  rcases hl.set _ hset with hset' | hin
  · rw [hunset] at hset'
    cases hset'
  · rcases hkind _ hin with ⟨r', hr⟩ | ⟨r', hr, hpc, -⟩
    · cases hr
    · cases hr
      refine ⟨k, hk, hpc, ?_⟩
      obtain ⟨u, pc, cancel⟩ := k
      cases hpc
      cases o with
      | ok v | raise e => simp [lastSegment, hk]
      | suspend =>
        cases hseg
        have hset' : s.events (.doneExiting r) = true := hset
        rw [hunset] at hset'
        cases hset'

/-- The task stays on its way in every step but its last, and `done_exiting` is not set. -/
theorem Underway.step (hw : WFOn (· = r.unit) s) (h : Underway s r t)
    (hunset : s.events (.doneExiting r) = false) (hstep : Supervisor.step s a = some s')
    (hlast : ∀ o, a = .resume t o → s.lastSegment t o = false) :
    Underway s' r t ∧ s'.events (.doneExiting r) = false := by
  have hkeeps (h' : (s'.tasks t).map (fun k => (k.unit, k.pc)) =
      (s.tasks t).map fun k => (k.unit, k.pc)) : Underway s' r t := by
    obtain ⟨k, hk, hu, hentered, href⟩ := h
    obtain ⟨k', hk', hu', hpc⟩ := pc_of_eq hk h'
    exact ⟨k', hk', hu'.trans hu, hpc ▸ hentered, hpc ▸ href⟩
  by_cases hresume : ∃ t' o, a = .resume t' o
  · obtain ⟨t', o, rfl⟩ := hresume
    by_cases hne : t' = t
    · subst hne
      refine ⟨h.resumed hstep (hlast o rfl), ?_⟩
      by_contra hset
      obtain ⟨-, -, -, hlast'⟩ := lastSegment_of_set hstep hunset (by simpa using hset)
      rw [hlast o rfl] at hlast'
      cases hlast'
    · obtain ⟨k', hk', hseg⟩ := Option.bind_eq_some_iff.1 hstep
      have halone := runSegment_alone hseg
      have hworks := live_works_ne hw h.live hk' (runSegment_isFinished hseg) hne
      refine ⟨hkeeps (halone.pc t (Ne.symm hne)), ?_⟩
      rw [halone.events _ (by simp) (by simpa using Ne.symm hworks), hunset]
  · have hquiet := step_quiet hw (fun t' o h => hresume ⟨t', o, h⟩) hstep
    refine ⟨hkeeps (hquiet.pc t ?_), ?_⟩
    · obtain ⟨k, hk, -⟩ := h
      simp [hk]
    · rw [step_events_unit (fun t' o h => hresume ⟨t', o, h⟩) (by simp) hstep, hunset]

/-! ### `done_exiting` during a lifecycle -/

theorem beginUnit_doneExiting {u : U} (hreg : u ∈ s.units) :
    (s.beginUnit t u).events (.doneExiting (s.ref u)) = false := by
  have hentering : (s.setEntering (s.ref u)).events (.doneExiting (s.ref u)) = false := by
    simp only [setEntering, modify, clearEvent, Function.update_self]
  have hkept {s' : Supervisor U} {l : List (EventRef U)} (h : Rung (s.setEntering (s.ref u)) s' l)
      (hl : ∀ e ∈ l, e ≠ .doneExiting (s.ref u)) : s'.events (.doneExiting (s.ref u)) = false := by
    by_contra hset
    rcases h.set _ (by simpa using hset) with hset' | hin
    · rw [hentering] at hset'
      cases hset'
    · exact hl _ hin rfl
  unfold beginUnit
  rw [if_neg (not_not.2 hreg)]
  dsimp only
  split
  · split
    · exact hkept (phaseFailed_rung _) (by simp)
    · next hstop => exact hkept ((stopUnit_rung hstop).congr_right rfl rfl) (by simp)
  · exact hkept (.of_eq rfl rfl) (by simp)

theorem begun_doneExiting (hseg : s.runSegment t k o = some s') (href : k.pc.ref = none) :
    s'.events (.doneExiting (s.ref k.unit)) = false ∨
      ∀ k', s'.tasks t = some k' → k'.pc.isFinished = true := by
  have hfinished (res : TaskResult U) (s₁ : Supervisor U) :
      ∀ k', (s₁.finish t res).tasks t = some k' → k'.pc.isFinished = true :=
    fun k' hk' => finish_isFinished hk'
  cases hpc : k.pc with
  | created =>
    simp only [runSegment, hpc] at hseg
    split at hseg
    · cases hseg
      exact .inr (hfinished _ _)
    · cases hseg
      by_cases hreg : k.unit ∈ s.units
      · exact .inl (beginUnit_doneExiting (s := s.clearCancel t) hreg)
      · right
        rw [beginUnit, if_pos (show k.unit ∉ (s.clearCancel t).units from hreg)]
        exact hfinished _ _
  | finished res => simp [runSegment, hpc] at hseg
  | _ => simp [hpc, Pc.ref] at href

/-- The event of the object that an unfinished task of `u` works with is not set. -/
def UnsetWhileLive (u : U) (s : Supervisor U) : Prop :=
  ∀ t k r, s.tasks t = some k → k.unit = u → k.pc.ref = some r → s.events (.doneExiting r) = false

theorem UnsetWhileLive.step {u : U} (hw : WFOn (· = u) s) (h : UnsetWhileLive u s)
    (hstep : Supervisor.step s a = some s') : UnsetWhileLive u s' := by
  intro t k' r hk' hu' href'
  have hold {k : UnitTask U} (hk : s.tasks t = some k) (hu : k.unit = u) (href : k.pc.ref = some r) :
      s.events (.doneExiting r) = false := h t k r hk hu href
  by_cases hresume : ∃ t' o, a = .resume t' o
  · obtain ⟨t', o, rfl⟩ := hresume
    obtain ⟨k₁, hk₁, hseg⟩ := Option.bind_eq_some_iff.1 hstep
    have halone := runSegment_alone hseg
    by_cases hne : t' = t
    · subst hne
      have hu₁ : k₁.unit = u := by
        obtain ⟨k₂, hk₂, -, -, hwithin, -⟩ := resume_within hw hstep
        rw [hk₁] at hk₂
        cases hk₂
        have hunit := hwithin.owner t'
        rw [hk₁, hk'] at hunit
        exact (Option.some.inj hunit).symm.trans hu'
      have hw' : WFOn (· = u) s' := (stepOn_evolves hw (by simp) hstep).wf
      have hr : r = s.ref k₁.unit := by
        subst hu'
        rw [hu₁, ref_of_live hw' hk' href', ref, ref, halone.gen]
      have hlive : k'.pc.isFinished = false := isFinished_of_ref href'
      cases href₁ : k₁.pc.ref with
      | none =>
        rcases begun_doneExiting hseg href₁ with hunset | hfin
        · rw [hr]
          exact hunset
        · rw [hfin k' hk'] at hlive
          cases hlive
      | some r₁ =>
        subst hu₁
        obtain rfl : r₁ = r := (ref_of_live hw hk₁ href₁).trans hr.symm
        by_contra hset
        have hunset := hold hk₁ rfl href₁
        obtain ⟨k₂, hk₂, hpc, hlast⟩ := lastSegment_of_set hstep hunset (by simpa using hset)
        have hexits : Exits s r₁ t' := ⟨k₂, hk₂, (hw.owned.ref t' k₂ r₁ hk₂ (by rw [hpc]; rfl)).symm, hpc⟩
        rw [(hexits.ended hstep hlast).2 k' hk'] at hlive
        cases hlive
    · obtain ⟨k, hk, hu, hpc⟩ := pc_of_eq (s := s') hk' (halone.pc t (Ne.symm hne)).symm
      have href : k.pc.ref = some r := hpc ▸ href'
      obtain rfl : r.unit = u := (hw.owned.ref t k r hk href).trans (hu.trans hu')
      have hlive : s.Live t r.unit := ⟨k, hk, hu.trans hu', isFinished_of_ref href⟩
      have hworks := live_works_ne hw hlive hk₁ (runSegment_isFinished hseg) hne
      rw [halone.events _ (by simp) (by simpa using Ne.symm hworks)]
      exact hold hk (hu.trans hu') href
  · have hquiet := step_quiet hw (fun t' o h => hresume ⟨t', o, h⟩) hstep
    rw [step_events_unit (fun t' o h => hresume ⟨t', o, h⟩) (by simp) hstep]
    cases hk : s.tasks t with
    | none =>
      rw [(hquiet.new t k' hk hk').2] at href'
      cases href'
    | some k =>
      obtain ⟨k'', hk'', hu, hpc⟩ := pc_of_eq hk (hquiet.pc t (by simp [hk]))
      rw [hk'] at hk''
      cases hk''
      exact hold hk (hu.symm.trans hu') (hpc ▸ href')

theorem reachable_unsetWhileLive {u : U} (h : Reachable (RemovesIdle u) s) : UnsetWhileLive u s := by
  have hinit : UnsetWhileLive u (init U) := by
    intro t k r hk
    cases hk
  exact h.invariant_of (fun _ hs => reachable_wfOn hs) hinit
    fun _ _ _ hw hP _ hstep => hP.step hw hstep

/-! ### After the exit -/

/-- The unit has stopped, and its lifecycle left nothing behind. -/
structure Rested (r : StateRef U) (v : View U) : Prop where
  ref : v.ref = r
  registered : v.registered
  noTasks : NoTasks v
  pendingStart : v.st.pendingStart = false
  status : v.st.status = .stopped

omit [DecidableEq U] in
theorem Move.rested [DecidableEq U] {l : Label} {v v' : View U} (hstart : l ≠ .start)
    (hremove : l ≠ .remove) (hp : Placed v) (h : Rested r v) (hm : Move l v v') : Rested r v' := by
  have hoff : v.st.status.isOff = true := by rw [h.status]; rfl
  have hidle : Fits v .idle := hp.idle_of_isOff hoff h.pendingStart
  -- the unit has no task, so no segment moves it
  have hnone {t : TaskId} {k : UnitTask U} (hk : v.tasks t = some k) : Rested r v' := by
    rw [h.noTasks t] at hk
    cases hk
  have hstatus {P : Prop} {status : Status} (hst : v.st.status = status) (hne : status ≠ .stopped) :
      P := absurd (hst.symm.trans h.status) hne
  have hsame {starts stops : Nat} {task : Option TaskId} {entries : TaskId → Prop} {l : List (Obs U)} :
      Rested r { v with
        st := { v.st with task := task }, starts := starts, stops := stops, entries := entries,
        trace := l } :=
    ⟨h.ref, h.registered, h.noTasks, h.pendingStart, h.status⟩
  cases hm with
  | add restart status hnew => exact absurd h.registered hnew
  | remove => exact absurd rfl hremove
  | queueStart hl =>
    rcases hl with rfl | ⟨-, -, hst⟩
    · exact absurd rfl hstart
    · exact hstatus hst (by simp)
  | markReady => exact absurd rfl hstart
  | queueStop force _ _ hst =>
    rcases hst with ⟨-, hps⟩ | hst | hst
    · rw [h.pendingStart] at hps
      cases hps
    · exact hstatus hst (by simp)
    · exact hstatus hst (by simp)
  | markStopped => exact ⟨h.ref, h.registered, h.noTasks, h.pendingStart, rfl⟩
  | stopExiting _ hst => exact hstatus hst (by simp)
  | startTask t hn =>
    rw [hidle.1] at hn
    cases hn
  | startFailed | stopIgnored | stopFailed | close | loseStart | loseStop => exact hsame
  | stopCancel t k _ _ _ _ hk | beginForced t k hk | begin t k hk | enteredStopped t k hk
  | entered t k hk | toExit t k val hk | suspend t k hk | finish t k val drop hk => exact hnone hk

/-- What the unit keeps through every move but an explicit start and its removal, it keeps through
every step that is not one of them, or is a start that is refused. -/
theorem step_keeps {u : U} {P : View U → Prop} (hw : WFOn (· = u) s) (hreg : u ∈ s.units)
    (hP : P (s.view u)) (hremove : a ≠ .removeUnit u)
    (hstart : a = .startUnit u → (s.state u).pendingStop = true)
    (hstep : Supervisor.step s a = some s')
    (hmove : ∀ l v v', l ≠ .start → l ≠ .remove → Placed v → P v → Move l v v' → P v') :
    P (s'.view u) := by
  have hsame (hs : s' = s) : P (s'.view u) := hs ▸ hP
  by_cases ha : a = .startUnit u
  · subst ha
    cases hstep
    exact hsame (by rw [startUnitNowait_refused (hstart rfl)])
  · by_cases hadd : ∃ restart stopped, a = .addUnit u restart stopped
    · obtain ⟨restart, stopped, rfl⟩ := hadd
      cases hstep
      exact hsame (addUnit_refused restart stopped hreg)
    · have hmoves := (stepOn_evolves hw (fun w hrm hwu => absurd (hwu ▸ hrm) hremove) hstep).moves u rfl
      refine (hmoves.invariant (P := fun v => Placed v ∧ P v) ⟨hw.placed u rfl, hP⟩ ?_).2
      rintro l v v' hl ⟨hp, hP⟩ hm
      have hl' : l ≠ .start ∧ l ≠ .remove := by
        constructor <;> rintro rfl <;> cases a <;> simp_all [Action.labels]
      exact ⟨hm.placed hp fun hr => absurd hr hl'.2, hmove l v v' hl'.1 hl'.2 hp hP hm⟩

theorem step_rested {a : Action U} (hw : WFOn (· = r.unit) s) (h : Rested r (s.view r.unit))
    (hremove : a ≠ .removeUnit r.unit) (hstart : a ≠ .startUnit r.unit)
    (hstep : Supervisor.step s a = some s') : Rested r (s'.view r.unit) :=
  step_keeps hw h.registered h hremove (fun ha => absurd ha hstart) hstep
    fun _ _ _ hl hl' hp hr hm => hm.rested hl hl' hp hr

theorem Exits.noTasks (hw : WFOn (· = r.unit) s) (h : Exits s r t)
    (hstep : Supervisor.step s (.resume t o) = some s') (hlast : s.lastSegment t o = true) :
    NoTasks (s'.view r.unit) := by
  have hfinished := (h.ended hstep hlast).2
  obtain ⟨k', -, hseg⟩ := Option.bind_eq_some_iff.1 hstep
  obtain ⟨⟨k, hk, hfit⟩, -⟩ := h.fits hw
  intro t'
  by_contra hlive
  obtain ⟨k₁, hk₁⟩ := Option.ne_none_iff_exists'.1 hlive
  obtain ⟨hk₁, hu₁, hlive₁⟩ := view_tasks_eq_some.1 hk₁
  by_cases hne : t' = t
  · subst hne
    rw [hfinished k₁ hk₁] at hlive₁
    cases hlive₁
  · obtain ⟨k₂, hk₂, hu₂, hpc₂⟩ := pc_of_eq hk₁ ((runSegment_alone hseg).pc t' hne).symm
    have htask := hfit.live_tasks t'
    rw [view_tasks_eq_some.2 ⟨hk₂, hu₂.trans hu₁, hpc₂ ▸ hlive₁⟩, if_neg hne] at htask
    cases htask

theorem Exits.rested (hw : WFOn (· = r.unit) s) (h : Exits s r t)
    (hq : Quieted (s.view r.unit)) (hstep : Supervisor.step s (.resume t o) = some s')
    (hlast : s.lastSegment t o = true) : Rested r (s'.view r.unit) := by
  have hw' : WFOn (· = r.unit) s' := (stepOn_evolves hw (by simp) hstep).wf
  have hnone := h.noTasks hw hstep hlast
  have hq' : Quieted (s'.view r.unit) :=
    step_keeps hw hq.1 hq (by simp) (by simp) hstep fun _ _ _ hl hl' hp hq hm =>
      (hm.quieted hl hl' hp hq).1
  obtain ⟨-, href⟩ := h.fits hw
  obtain ⟨k, hk, hu, hpc⟩ := h
  obtain ⟨k', hk', -, -, -, hmove⟩ := resume_within hw hstep
  rw [hk] at hk'
  cases hk'
  obtain ⟨hfit, l, hl, hmove⟩ := hmove hu
  rw [← hu] at hq' hnone href ⊢
  obtain ⟨href', hps⟩ := hmove.exiting_pendingStart hfit (hpc.trans (congrArg _ href)) hl
  have hidle := (hw'.placed k.unit hu).idle hnone hps
  have hstopped := hq'.2.resolve_left (by simp [hidle.not_pendingStop hq'.1])
  exact ⟨href'.trans href.symm, hq'.1, hnone, hps, hstopped.2.2⟩

theorem Rested.isSet {a : Action U} (hw : WFOn (· = r.unit) s) (h : Rested r (s.view r.unit))
    (hset : s.events (.doneExiting r) = true) (hstep : Supervisor.step s a = some s') :
    s'.events (.doneExiting r) = true := by
  by_cases hresume : ∃ t o, a = .resume t o
  · obtain ⟨t, o, rfl⟩ := hresume
    obtain ⟨k, hk, hseg⟩ := Option.bind_eq_some_iff.1 hstep
    have hworks : s.works k ≠ r := by
      intro hr
      have hu : k.unit = r.unit := by rw [← works_unit hw.toTables hk, hr]
      have hnone := h.noTasks t
      rw [view_tasks_eq_some.2 ⟨hk, hu, runSegment_isFinished hseg⟩] at hnone
      cases hnone
    rw [(runSegment_alone hseg).events _ (by simp) (by simpa using Ne.symm hworks), hset]
  · rw [step_events_unit (fun t o h => hresume ⟨t, o, h⟩) (by simp) hstep, hset]

/-! ### What is reported of the unit -/

/-- No finished task of `u` that is to be reported returned an exception. -/
def CleanDone (s : Supervisor U) (u : U) : Prop :=
  ∀ t v, (t, u) ∈ s.running → s.taskResult t = some (.returned v) → v.isExc = false

/-- Entries are added in the turns of the loop. -/
theorem step_running_subset {T : U → Prop} {a : Action U} (hw : WFOn T s)
    (hwake : ∀ order, a ≠ .wake order) (hstep : Supervisor.step s a = some s') :
    s'.running ⊆ s.running := by
  have hrequest (hr : Requests s s') : s'.running ⊆ s.running := by rw [hr.running]; exact List.Subset.refl _
  have hsupervise (s₁ : Supervisor U) (events : List (EventRef U)) (rw : ReturnWhen)
      (hr : Requests s s₁) : (s₁.superviseUntil events rw).running ⊆ s.running := by
    show s₁.restartReady.running ⊆ s.running
    rw [(restartReady_requests s₁).running, hr.running]
    exact List.Subset.refl _
  cases a with
  | addUnit u restart stopped => cases hstep; exact hrequest (addUnit_requests s u restart stopped)
  | removeUnit u => cases hstep; exact hrequest (removeUnitNowait_requests s u)
  | startUnit u => cases hstep; exact hrequest (startUnitNowait_requests s u)
  | stopUnit u force => cases hstep; exact hrequest (stopUnitNowait_requests s u force)
  | setEvent n | clearEvent n => cases hstep; exact List.Subset.refl _
  | resume t o =>
    obtain ⟨k, -, -, -, hwithin, -⟩ := resume_within hw hstep
    exact hwithin.running.subset
  | monitorStep =>
    simp only [Supervisor.step, Supervisor.monitorStep] at hstep
    split at hstep
    · split at hstep <;> cases hstep <;> exact List.Subset.refl _
    · cases hstep
  | helperStep e =>
    simp only [Supervisor.step, Supervisor.helperStep] at hstep
    split at hstep
    · split at hstep
      · obtain ⟨h', -, rfl⟩ := Option.map_eq_some_iff.1 hstep
        exact List.Subset.refl _
      · cases hstep
    · cases hstep
  | supervise events rw =>
    simp only [Supervisor.step] at hstep
    split at hstep
    · cases hstep; exact hsupervise s events rw ⟨rfl, rfl, rfl, rfl, rfl⟩
    · cases hstep
  | wake order => exact absurd rfl (hwake order)
  | leave =>
    simp only [Supervisor.step, Supervisor.leave] at hstep
    split at hstep <;> cases hstep <;> exact List.Subset.refl _
  | cancel =>
    simp only [Supervisor.step, Supervisor.cancelCall] at hstep
    split at hstep <;> cases hstep <;> exact List.Subset.refl _
  | stop =>
    simp only [Supervisor.step] at hstep
    split at hstep
    · cases hstep
      unfold Supervisor.stop
      dsimp only
      split
      · exact hsupervise _ _ _ (stopAll_requests s)
      · rw [(stopAll_requests s).running]
        exact List.Subset.refl _
    · cases hstep

/-- The segment leaves no exception of `u` to report. -/
def EndsClean (s s' : Supervisor U) (u : U) : Action U → Prop
  | .resume t _ => ∀ v, s.Live t u → (t, u) ∈ s'.running → s'.taskResult t = some (.returned v) →
      v.isExc = false
  | _ => True

theorem CleanDone.step {T : U → Prop} {a : Action U} {u : U} (hw : WFOn T s) (h : CleanDone s u)
    (hwake : ∀ order, a ≠ .wake order) (hends : EndsClean s s' u a)
    (hstep : Supervisor.step s a = some s') : CleanDone s' u := by
  intro t v hin hres
  have hin' := step_running_subset hw hwake hstep hin
  by_cases hresume : ∃ t' o, a = .resume t' o
  · obtain ⟨t', o, rfl⟩ := hresume
    obtain ⟨k, hk, hseg⟩ := Option.bind_eq_some_iff.1 hstep
    by_cases hne : t = t'
    · subst hne
      have howns : (s.tasks t).map (·.unit) = some u := hw.entries t u hin'
      rw [hk] at howns
      exact hends v ⟨k, hk, Option.some.inj howns, runSegment_isFinished hseg⟩ hin hres
    · rw [(runSegment_alone hseg).taskResult hne] at hres
      exact h t v hin' hres
  · rw [(step_quiet hw (fun t' o h => hresume ⟨t', o, h⟩) hstep).taskResult] at hres
    exact h t v hin' hres

/-- The call in progress, for `e`, has no exception of `u` to report, and none to take note of. -/
def ReportsClean (s : Supervisor U) (u : U) (e : EventRef U) : Prop :=
  (∃ c h, s.loop = .waiting c ∧ Awaits s e c h ∧ CleanDone s u) ∨
    ∃ c err, s.loop = .leaving c err ∧
      (err = none → CleanDone s u ∧ ∀ t v, (u, t, v) ∈ c.doneUnits → v.isExc = false)

theorem ReportsClean.step {T : U → Prop} {a : Action U} {u : U} {e : EventRef U} (hw : WFOn T s)
    (h : ReportsClean s u e) (ha : During s a) (hends : EndsClean s s' u a)
    (hstep : Supervisor.step s a = some s') : ReportsClean s' u e := by
  rcases h with ⟨c, h', hloop, hawaits, hclean⟩ | ⟨c, err, hloop, hclean⟩
  · by_cases hwake : ∃ order, a = .wake order
    · obtain ⟨order, rfl⟩ := hwake
      rcases wake_awaits hw hloop hawaits hstep with ⟨c', err, hloop'⟩ | ⟨-, hunfinished, hcase⟩
      · exact .inr ⟨c', some err, hloop', by simp⟩
      · have hclean' : CleanDone s' u := by
          intro t v hin hres
          rw [hunfinished t u hin] at hres
          cases hres
        rcases hcase with ⟨c', hloop', -, -, hold⟩ | ⟨c', hloop', ha', -⟩
        · refine .inr ⟨c', none, hloop', fun _ => ⟨hclean', fun t v hin => ?_⟩⟩
          obtain ⟨hin', hres⟩ := hold u t v hin
          exact hclean t v hin' hres
        · exact .inl ⟨c', h', hloop', ha', hclean'⟩
    · have hclean' := hclean.step hw (fun order h => hwake ⟨order, h⟩) hends hstep
      obtain ⟨-, ⟨c', h'', hloop', ha', -⟩ | ⟨c', err, hloop'⟩⟩ :=
        step_awaits hloop hawaits (fun order h => hwake ⟨order, h⟩) hstep
      · exact .inl ⟨c', h'', hloop', ha', hclean'⟩
      · exact .inr ⟨c', some err, hloop', by simp⟩
  · have hwake (order : List TaskId) : a ≠ .wake order := by
      rintro rfl
      simp [Supervisor.step, Supervisor.wake, hloop] at hstep
    obtain ⟨err', hloop', herr⟩ := step_leaving hloop ha hstep
    refine .inr ⟨c, err', hloop', fun hnone => ?_⟩
    obtain ⟨hdone, hunits⟩ := hclean (herr hnone)
    exact ⟨hdone.step hw hwake hends hstep, hunits⟩

/-- The task that waits for `e` in the call in progress is not blocked. -/
def Hearing (s : Supervisor U) (e : EventRef U) : Prop :=
  (∃ c h, s.loop = .waiting c ∧ Awaits s e c h ∧ h ≠ .waiting) ∨ ∃ c err, s.loop = .leaving c err

theorem Hearing.step {T : U → Prop} {a : Action U} {e : EventRef U} (hw : WFOn T s)
    (h : Hearing s e) (ha : During s a) (hstep : Supervisor.step s a = some s')
    (hset : s'.events e = true) : Hearing s' e := by
  rcases h with ⟨c, h', hloop, hawaits, hne⟩ | ⟨c, err, hloop⟩
  · by_cases hwake : ∃ order, a = .wake order
    · obtain ⟨order, rfl⟩ := hwake
      rcases wake_awaits hw hloop hawaits hstep with ⟨c', err, hloop'⟩ |
        ⟨-, -, ⟨c', hloop', -⟩ | ⟨c', hloop', ha', -⟩⟩
      · exact .inr ⟨c', _, hloop'⟩
      · exact .inr ⟨c', _, hloop'⟩
      · exact .inl ⟨c', h', hloop', ha', hne⟩
    · obtain ⟨-, ⟨c', h'', hloop', ha', -, hwaiting⟩ | ⟨c', err, hloop'⟩⟩ :=
        step_awaits hloop hawaits (fun order h => hwake ⟨order, h⟩) hstep
      · exact .inl ⟨c', h'', hloop', ha', fun hh => hne (hwaiting hh hset).1⟩
      · exact .inr ⟨c', _, hloop'⟩
  · obtain ⟨err', hloop', -⟩ := step_leaving hloop ha hstep
    exact .inr ⟨c, err', hloop'⟩

theorem Undone.hearing {a : Action U} {e : EventRef U} (h : Undone e s) (ha : During s a)
    (hwake : ∀ order, a ≠ .wake order) (hunset : s.events e = false)
    (hstep : Supervisor.step s a = some s') (hset : s'.events e = true) : Hearing s' e := by
  rcases h with ⟨c, h', hloop, hawaits⟩ | ⟨c, err, hloop, -⟩
  · obtain ⟨-, ⟨c', h'', hloop', ha', -, hwaiting⟩ | ⟨c', err, hloop'⟩⟩ :=
      step_awaits hloop hawaits hwake hstep
    · refine .inl ⟨c', h'', hloop', ha', fun hh => ?_⟩
      rw [(hwaiting hh hset).2] at hunset
      cases hunset
    · exact .inr ⟨c', _, hloop'⟩
  · obtain ⟨err', hloop', -⟩ := step_leaving hloop ha hstep
    exact .inr ⟨c, err', hloop'⟩

/-! ### What the last segment leaves -/

/-- A task that returns does so with the result of its unit, and without the lock it takes its entry
along. -/
theorem cleanup_returned {v : Val U} (hk : s.tasks t = some k)
    (hres : (s.cleanup t r).taskResult t = some (.returned v)) :
    v = (s.heap r).result ∧ (s.locked = true ∨ ∃ t', (s.heap r).task = some t' ∧
      ∀ e ∈ (s.cleanup t r).running, e.1 ≠ t') := by
  have hheap : ((s.setExited r).heap r).result = (s.heap r).result ∧
      ((s.setExited r).heap r).task = (s.heap r).task := by
    simp only [setExited, modify, setEvent, Function.update_self, and_self]
  have hk' : (s.setExited r).tasks t = some k := hk
  have hraised (s₁ : Supervisor U) (e : Exc U) (hk₁ : s₁.tasks t = some k) :
      (s₁.finish t (.raised e)).taskResult t ≠ some (.returned v) := by
    simp [finish, setPc, taskResult, modifyTask, hk₁, Pc.result]
  have hdone (s₁ : Supervisor U) (hk₁ : s₁.tasks t = some k)
      (hres : (s₁.cleanupDone t r).taskResult t = some (.returned v)) : v = (s₁.heap r).result := by
    simpa [cleanupDone, finish, setPc, taskResult, modifyTask, clearEvent, modify, hk₁,
      Pc.result, eq_comm] using hres
  unfold cleanup at hres ⊢
  dsimp only at hres ⊢
  split at hres
  · next hlocked =>
    have hsame : (s.setExited r).locked = s.locked := locked_of_core (setEvent_core s _)
    exact ⟨(hdone _ hk' hres).trans hheap.1, .inl (hsame ▸ hlocked)⟩
  · next hunlocked =>
    rw [if_neg hunlocked]
    split at hres
    · exact absurd hres (hraised _ _ hk')
    · next t' htask =>
      split at hres
      · next hin =>
        rw [if_pos hin]
        refine ⟨(hdone _ hk' hres).trans hheap.1, .inr ⟨t', hheap.2.symm.trans htask, ?_⟩⟩
        intro e he
        exact of_decide_eq_true (List.mem_filter.1 he).2
      · exact absurd hres (hraised _ _ hk')

/-- An exception that the last segment leaves is not reported if it runs without the lock. -/
theorem Exits.endsClean (hw : WFOn (· = r.unit) s) (h : Exits s r t)
    (hstep : Supervisor.step s (.resume t o) = some s') (hlast : s.lastSegment t o = true)
    (hclean : (o.exitResult (s.heap r).result).isExc = true → s.locked = false) :
    EndsClean s s' r.unit (.resume t o) := by
  intro v hlive hin hres
  obtain ⟨⟨k₀, -, hfit⟩, href⟩ := h.fits hw
  obtain ⟨k, hk, hu, hpc⟩ := h
  obtain ⟨k', hk', hseg⟩ := Option.bind_eq_some_iff.1 hstep
  rw [hk] at hk'
  cases hk'
  have htask : (s.heap (s.ref r.unit)).task = none ∨ (s.heap (s.ref r.unit)).task = some t :=
    hfit.live_task
  rw [← href] at htask
  obtain ⟨hv, hentry⟩ : v = o.exitResult (s.heap r).result ∧ (s.locked = true ∨
      ∃ t', (s.heap r).task = some t' ∧ ∀ e ∈ s'.running, e.1 ≠ t') := by
    obtain ⟨u, pc, cancel⟩ := k
    cases hpc
    have hclear : (s.clearCancel t).tasks t = some ⟨u, .exiting r, false⟩ := tasks_clearCancel hk
    cases o with
    | suspend => simp [lastSegment, hk] at hlast
    | ok v' =>
      cases hseg
      exact cleanup_returned hclear hres
    | raise e =>
      cases hseg
      obtain ⟨hv, hentry⟩ := cleanup_returned (s := (s.clearCancel t).modify r fun st =>
        { st with result := .exc e }) hclear hres
      refine ⟨by simpa [modify, Outcome.exitResult] using hv, ?_⟩
      rcases hentry with hlocked | ⟨t', ht', hgone⟩
      · exact .inl hlocked
      · refine .inr ⟨t', ?_, hgone⟩
        simpa [modify, clearCancel, modifyTask] using ht'
  rw [hv]
  by_contra hexc
  have hunlocked := hclean (by simpa using hexc)
  obtain ⟨t', htask', hgone⟩ := hentry.resolve_left (by simp [hunlocked])
  have hsame : t' = t := by simpa [htask'] using htask
  exact hgone _ hin hsame.symm

theorem Exits.ended_isSet (hw : WFOn (· = r.unit) s) (h : Exits s r t)
    (hstep : Supervisor.step s (.resume t o) = some s') (hlast : s.lastSegment t o = true) :
    s'.events (.doneExiting r) = true ∧ (s'.taskResult t).isSome := by
  have hfinished := (h.ended hstep hlast).2
  obtain ⟨k, hk, hu, hpc⟩ := h
  obtain ⟨k', hk', -, hseg, hwithin, -⟩ := resume_within hw hstep
  rw [hk] at hk'
  cases hk'
  constructor
  · obtain ⟨u, pc, cancel⟩ := k
    cases hpc
    cases o with
    | suspend => simp [lastSegment, hk] at hlast
    | ok v => cases hseg; exact cleanup_rung.rung _ (by simp)
    | raise e => cases hseg; exact cleanup_rung.rung _ (by simp)
  · have howner := hwithin.owner t
    rw [hk] at howner
    obtain ⟨k', hk', -⟩ := Option.map_eq_some_iff.1 howner
    exact taskResult_isSome.2 ⟨k', hk', hfinished k' hk'⟩

end

/-! ### The two phases -/

/-- The unit's lifecycle leaves no exception in `state.result`, unless only the coroutine that
supervises waits, and the task ends without the lock. While that coroutine waits, no call of
`supervise_until` raises, and the unit is not removed, nor started after the lifecycle; it is never
removed with an unfinished task. -/
def StopClean (r : StateRef U) (w : Waiting U) : WaitAction U → Prop
  | .sup (.resume t o) => Exits w.sup r t → w.sup.lastSegment t o = true →
      (o.exitResult (w.sup.heap r).result).isExc = true → w.side = .idle ∧ w.sup.locked = false
  | .sup .leave => w.lead = .awaiting → w.sup.loop.raised = false
  | .sup (.startUnit u) => u = r.unit → w.lead = .awaiting → w.sup.Busy u
  | .sup (.removeUnit u) => u = r.unit → w.lead ≠ .awaiting ∧ ¬ w.sup.HasLive u
  | _ => True

instance (r : StateRef U) (w : Waiting U) : (x : WaitAction U) → Decidable (StopClean r w x)
  | .sup (.resume t o) => inferInstanceAs (Decidable (Exits w.sup r t →
      w.sup.lastSegment t o = true → (o.exitResult (w.sup.heap r).result).isExc = true →
        w.side = .idle ∧ w.sup.locked = false))
  | .sup .leave => inferInstanceAs (Decidable (w.lead = .awaiting → w.sup.loop.raised = false))
  | .sup (.startUnit u) =>
    inferInstanceAs (Decidable (u = r.unit → w.lead = .awaiting → w.sup.Busy u))
  | .sup (.removeUnit u) =>
    inferInstanceAs (Decidable (u = r.unit → w.lead ≠ .awaiting ∧ ¬ w.sup.HasLive u))
  | .sup (.addUnit ..) | .sup (.stopUnit ..) | .sup (.setEvent _) | .sup (.clearEvent _)
  | .sup .monitorStep | .sup (.helperStep _) | .sup (.supervise ..) | .sup (.wake _)
  | .sup .cancel | .sup .stop | .side => inferInstanceAs (Decidable True)

theorem StopClean.removesIdle {r : StateRef U} {w : Waiting U} {a : Action U}
    (h : StopClean r w (.sup a)) : RemovesIdle r.unit w.sup a := by
  cases a with
  | removeUnit u =>
    rintro rfl
    exact (h rfl).2
  | _ => exact trivial

/-- The unit's lifecycle goes on, and the coroutines wait. -/
structure InProgress (lead side : Bool) (r : StateRef U) (t : TaskId) (w : Waiting U) : Prop where
  underway : Underway w.sup r t
  unset : w.sup.events (.doneExiting r) = false
  attending : Attending .stop r lead side w
  lead : lead = true → w.lead = .awaiting ∧ Quieted (w.sup.view r.unit) ∧
    ReportsClean w.sup r.unit (.doneExiting r)

/-- It is over, and the coroutines answer `True`, or are about to. -/
structure HasStopped (lead side : Bool) (r : StateRef U) (t : TaskId) (w : Waiting U) : Prop where
  finished : (w.sup.taskResult t).isSome
  lead : lead = true → w.lead = .returned true ∨ w.lead = .awaiting ∧
    w.sup.events (.doneExiting r) = true ∧ Rested r (w.sup.view r.unit) ∧
    ReportsClean w.sup r.unit (.doneExiting r) ∧ Hearing w.sup (.doneExiting r)
  side : side = true → SideAnswers r false w

section
variable {lead side : Bool} {r : StateRef U} {t : TaskId} {w w' : Waiting U} {x : WaitAction U}
  {command : Command}

/-- What the supervisor keeps in each step of it is kept in a step of the system. -/
theorem Stepped.kept {P : Supervisor U → Prop} (hstep : Waiting.Stepped command r w w' x)
    (hP : P w.sup) (hfirst : ∀ a s, x = .sup a → w.sup.step a = some s → P s)
    (hagain : ∀ s, P s → s.loop = .idle → P (s.superviseUntil [command.event r])) : P w'.sup := by
  cases hstep with
  | side n _ hsame => rwa [hsame]
  | plain a _ _ hs => exact hfirst a _ rfl hs
  | answered c b _ _ _ hs => exact hfirst .leave _ rfl hs
  | failed c e _ _ hs => exact hfirst .leave _ rfl hs
  | again c s _ _ _ hs hidle hagain' =>
    rw [hagain']
    exact hagain s (hfirst .leave s rfl hs) hidle

theorem supervise_step {s : Supervisor U} {e : EventRef U} (hidle : s.loop = .idle) :
    s.step (.supervise [e] .firstEventOrUnit) = some (s.superviseUntil [e]) := by
  simp only [Supervisor.step, hidle]

theorem Call.verdict_false {c : Call U} {u : U} {e : EventRef U} (h : c.verdict u e = some false) :
    ∃ t v, (u, t, v) ∈ c.doneUnits ∧ v.isExc = true := by
  unfold Call.verdict at h
  split at h
  · next hany =>
    obtain ⟨⟨u', t, v⟩, hin, hd⟩ := List.any_eq_true.1 hany
    obtain ⟨rfl, hexc⟩ := of_decide_eq_true hd
    exact ⟨t, v, hin, hexc⟩
  · split at h <;> cases h

theorem ReportsClean.verdict {s : Supervisor U} {u : U} {e : EventRef U} {c : Call U}
    (h : ReportsClean s u e) (hloop : s.loop = .leaving c none) :
    CleanDone s u ∧ c.verdict u e ≠ some false := by
  rcases h with ⟨c', h', hloop', -⟩ | ⟨c', err, hloop', hclean⟩
  · rw [hloop] at hloop'
    cases hloop'
  · rw [hloop] at hloop'
    cases hloop'
    obtain ⟨hdone, hunits⟩ := hclean rfl
    refine ⟨hdone, fun hverdict => ?_⟩
    obtain ⟨t, v, hin, hexc⟩ := Call.verdict_false hverdict
    rw [hunits t v hin] at hexc
    cases hexc

theorem Undone.verdict {s : Supervisor U} {u : U} {e : EventRef U} {c : Call U}
    (h : Undone e s) (hloop : s.loop = .leaving c none) : c.verdict u e ≠ some true := by
  intro hverdict
  rcases h with ⟨c', h', hloop', -⟩ | ⟨c', err, hloop', hno⟩
  · rw [hloop] at hloop'
    cases hloop'
  · rw [hloop] at hloop'
    cases hloop'
    exact hno rfl (Call.mem_of_verdict hverdict)

theorem ReportsClean.again {T : U → Prop} {s s' : Supervisor U} {u : U} {e : EventRef U}
    {c : Call U} (hw : WFOn T s) (h : ReportsClean s u e) (hloop : s.loop = .leaving c none)
    (hstep : s.step .leave = some s') (hidle : s'.loop = .idle) :
    ReportsClean (s'.superviseUntil [e]) u e := by
  have hw₁ : WFOn (fun _ => False) s := ⟨hw.toTables, fun _ h => h.elim⟩
  have hw' : WFOn (fun _ => False) s' := (stepOn_evolves hw₁ (by simp) hstep).wf
  have hdone := (h.verdict hloop).1.step (a := .leave) hw₁ (by simp) trivial hstep
  obtain ⟨c', hloop', hawaits⟩ := superviseUntil_awaits s' e
  refine .inl ⟨c', .fresh, hloop', hawaits, ?_⟩
  exact hdone.step (a := .supervise [e] .firstEventOrUnit) hw' (by simp) trivial (supervise_step hidle)

theorem raised_of_leaving {s : Supervisor U} {c : Call U} {e : Exc U}
    (h : s.loop = .leaving c (some e)) : s.loop.raised = true := by
  rw [h]
  rfl

theorem InProgress.goesOn (hw : WFOn (· = r.unit) w.sup) (h : InProgress lead side r t w)
    (hok : StopClean r w x) (hstep : Waiting.Stepped .stop r w w' x)
    (hlast : ∀ o, x = .sup (.resume t o) → w.sup.lastSegment t o = false) :
    InProgress lead side r t w' := by
  have hok' (a : Action U) (ha : x = .sup a) : RemovesIdle r.unit w.sup a := (ha ▸ hok).removesIdle
  obtain ⟨-, hunderway, hunset⟩ := Stepped.kept hstep
    (P := fun s => WFOn (· = r.unit) s ∧ Underway s r t ∧ s.events (.doneExiting r) = false)
    ⟨hw, h.underway, h.unset⟩
    (fun a s ha hs => ⟨(stepOn_evolves hw ((hok' a ha).registered hw) hs).wf,
      h.underway.step hw h.unset hs fun o hr => hlast o (hr ▸ ha)⟩)
    (fun s ⟨hw, hunderway, hunset⟩ hidle => ⟨(superviseUntil_evolves hw hidle _ _).wf,
      hunderway.step hw hunset (supervise_step hidle) (by simp)⟩)
  refine ⟨hunderway, hunset, h.attending.step hw hstep hunset, fun hcalled => ?_⟩
  obtain ⟨hlead, hquieted, hreports⟩ := h.lead hcalled
  -- the supervisor's own part of a step
  have hquieted' {s s' : Supervisor U} {a : Action U} (hw : WFOn (· = r.unit) s)
      (hu : Underway s r t) (hq : Quieted (s.view r.unit)) (ha : a ≠ .removeUnit r.unit)
      (hs : s.step a = some s') : Quieted (s'.view r.unit) := by
    refine step_keeps hw hq.1 hq ha (fun _ => ?_) hs fun _ _ _ hl hl' hp hq hm =>
      (hm.quieted hl hl' hp hq).1
    exact hq.pendingStop (.inr (hw.hasLive hu.live))
  have hends {s s' : Supervisor U} {a : Action U} (hw : WFOn (· = r.unit) s) (hu : Underway s r t)
      (hu' : Underway s' r t) : EndsClean s s' r.unit a := by
    unfold EndsClean
    split
    · rintro v hlive hin hres
      rw [live_unique hw hu.live hlive, hu'.unfinished] at hres
      cases hres
    · trivial
  cases hstep with
  | side n _ hsame hlead' =>
    rw [hlead', hsame]
    exact ⟨hlead, hquieted, hreports⟩
  | plain a hleave _ hs hlead' =>
    have hremove : a ≠ .removeUnit r.unit := by
      rintro rfl
      exact (hok rfl).1 hlead
    exact ⟨hlead' ▸ hlead, hquieted' hw h.underway hquieted hremove hs,
      hreports.step hw (hleave hlead) (hends hw h.underway hunderway) hs⟩
  | answered c b _ hloop hverdict =>
    exfalso
    cases b with
    | false => exact (hreports.verdict hloop).2 hverdict
    | true => exact (h.attending.undone hlead).verdict hloop hverdict
  | failed c err _ hloop =>
    have hraised := hok hlead
    rw [raised_of_leaving hloop] at hraised
    cases hraised
  | again c s _ hloop hverdict hs hidle hagain hlead' =>
    have hw₁ : WFOn (· = r.unit) s := (stepOn_evolves hw (by simp) hs).wf
    have hunderway₁ := (h.underway.step hw h.unset hs (by simp)).1
    have hquieted₁ := hquieted' hw h.underway hquieted (by simp) hs
    rw [hagain]
    exact ⟨hlead', hquieted' hw₁ hunderway₁ hquieted₁ (by simp) (supervise_step hidle),
      hreports.again hw hloop hs hidle⟩

theorem InProgress.ends {o : Outcome U} (hw : WFOn (· = r.unit) w.sup)
    (h : InProgress lead side r t w) (hok : StopClean r w (.sup (.resume t o)))
    (hstep : Waiting.Stepped .stop r w w' (.sup (.resume t o)))
    (hlast : w.sup.lastSegment t o = true) : HasStopped lead side r t w' := by
  cases hstep with
  | plain _ _ _ hs hlead' hside' =>
    have hexits := h.underway.exits hlast
    have hclean := hok hexits hlast
    obtain ⟨hset, hfinished⟩ := hexits.ended_isSet hw hs hlast
    refine ⟨hfinished, fun hcalled => .inr ?_, fun hcalled => .inr ?_⟩
    · obtain ⟨hlead, hquieted, hreports⟩ := h.lead hcalled
      have hends := hexits.endsClean hw hs hlast fun hexc => (hclean hexc).2
      exact ⟨hlead' ▸ hlead, hset, hexits.rested hw hquieted hs hlast,
        hreports.step (a := .resume t o) hw rfl hends hs,
        (h.attending.undone hlead).hearing (a := .resume t o) rfl (by simp) h.unset hs hset⟩
    · have hawaiting := h.attending.side hcalled
      refine ⟨w'.sup.nextTask, ?_, ?_, ?_, le_refl _, ?_⟩
      · rw [hside', Waiting.sideStep, if_pos ⟨hawaiting, hset⟩]
      · rw [(hexits.ended hs hlast).1]
        by_contra hexc
        have hidle := (hclean (by simpa using hexc)).1
        rw [hawaiting] at hidle
        cases hidle
      · obtain ⟨k, -, hseg⟩ := Option.bind_eq_some_iff.1 hs
        rw [(runSegment_alone hseg).gen]
        exact (congrArg StateRef.gen (hexits.fits hw).2).le
      · intro t' k' hk' hu' hlive'
        have hnone := hexits.noTasks hw hs hlast t'
        rw [view_tasks_eq_some.2 ⟨hk', hu', hlive'⟩] at hnone
        cases hnone

theorem Rested.not_live {s : Supervisor U} (h : Rested r (s.view r.unit)) : ¬ s.Live t r.unit :=
  fun hlive => (s.live_iff t r.unit).1 hlive (h.noTasks t)

theorem Rested.not_busy {s : Supervisor U} (h : Rested r (s.view r.unit)) : ¬ s.Busy r.unit := by
  rintro (hps | ⟨t, -, hlive⟩)
  · have hps' : (s.state r.unit).pendingStart = false := h.pendingStart
    rw [hps] at hps'
    cases hps'
  · exact h.not_live hlive

theorem HasStopped.lead_step (hw : WFOn (· = r.unit) w.sup) (h : HasStopped lead side r t w)
    (hok : StopClean r w x) (hstep : Waiting.Stepped .stop r w w' x) (hlead : w.lead = .awaiting)
    (hcalled : lead = true) : w'.lead = .returned true ∨ w'.lead = .awaiting ∧
      w'.sup.events (.doneExiting r) = true ∧ Rested r (w'.sup.view r.unit) ∧
      ReportsClean w'.sup r.unit (.doneExiting r) ∧ Hearing w'.sup (.doneExiting r) := by
  rcases h.lead hcalled with hlead' | ⟨-, hset, hrested, hreports, hhearing⟩
  · rw [hlead] at hlead'
    cases hlead'
  · have hends {s s' : Supervisor U} {a : Action U} (hr : Rested r (s.view r.unit)) :
        EndsClean s s' r.unit a := by
      unfold EndsClean
      split
      · exact fun v hlive => absurd hlive hr.not_live
      · trivial
    cases hstep with
    | side n _ hsame hlead' =>
      rw [hlead', hsame]
      exact .inr ⟨hlead, hset, hrested, hreports, hhearing⟩
    | plain a hleave _ hs hlead' =>
      have hremove : a ≠ .removeUnit r.unit := by
        rintro rfl
        exact (hok rfl).1 hlead
      have hstart : a ≠ .startUnit r.unit := by
        rintro rfl
        exact hrested.not_busy (hok rfl hlead)
      have hset' := hrested.isSet hw hset hs
      exact .inr ⟨hlead' ▸ hlead, hset', step_rested hw hrested hremove hstart hs,
        hreports.step hw (hleave hlead) (hends hrested) hs,
        hhearing.step hw (hleave hlead) hs hset'⟩
    | answered c b _ hloop hverdict _ hlead' =>
      cases b with
      | false => exact absurd hverdict (hreports.verdict hloop).2
      | true => exact .inl hlead'
    | failed c err _ hloop =>
      have hraised := hok hlead
      rw [raised_of_leaving hloop] at hraised
      cases hraised
    | again c s _ hloop hverdict hs hidle hagain hlead' =>
      have hw₁ : WFOn (· = r.unit) s := (stepOn_evolves hw (by simp) hs).wf
      have hrested₁ := step_rested hw hrested (by simp) (by simp) hs
      have hset₁ := hrested.isSet hw hset hs
      have hsupervise := supervise_step (e := .doneExiting r) hidle
      have hrested₂ := step_rested hw₁ hrested₁ (by simp) (by simp) hsupervise
      have hset₂ := hrested₁.isSet hw₁ hset₁ hsupervise
      obtain ⟨c', hloop', hawaits⟩ := superviseUntil_awaits s (.doneExiting r)
      rw [hagain]
      exact .inr ⟨hlead', hset₂, hrested₂, hreports.again hw hloop hs hidle,
        .inl ⟨c', .fresh, hloop', hawaits, by simp⟩⟩

theorem HasStopped.step (hw : WFOn (· = r.unit) w.sup) (h : HasStopped lead side r t w)
    (hok : StopClean r w x) (hstep : Waiting.Stepped .stop r w w' x) :
    HasStopped lead side r t w' := by
  have hok' (a : Action U) (ha : x = .sup a) : RemovesIdle r.unit w.sup a := (ha ▸ hok).removesIdle
  refine ⟨?_, fun hcalled => ?_, fun hcalled => (h.side hcalled).step hw hstep⟩
  · have hkept {s s' : Supervisor U} {a : Action U} (hw : WFOn (· = r.unit) s)
        (hfin : (s.taskResult t).isSome) (hs : s.step a = some s') : (s'.taskResult t).isSome := by
      obtain ⟨res, hres⟩ := Option.isSome_iff_exists.1 hfin
      exact Option.isSome_of_eq_some (step_result hw hs hres)
    refine (Stepped.kept hstep (P := fun s => WFOn (· = r.unit) s ∧ (s.taskResult t).isSome)
      ⟨hw, h.finished⟩ ?_ ?_).2
    · intro a s ha hs
      exact ⟨(stepOn_evolves hw ((hok' a ha).registered hw) hs).wf, hkept hw h.finished hs⟩
    · rintro s ⟨hw, hfin⟩ hidle
      exact ⟨(superviseUntil_evolves hw hidle _ _).wf, hkept hw hfin (supervise_step hidle)⟩
  · by_cases hlead : w.lead = .awaiting
    · exact h.lead_step hw hok hstep hlead hcalled
    · left
      have hreturned := (h.lead hcalled).resolve_right fun h => hlead h.1
      cases hstep with
      | side n _ _ hlead' => rw [hlead', hreturned]
      | plain a _ _ _ hlead' => rw [hlead', hreturned]
      | answered c b hawaiting | failed c err hawaiting | again c s hawaiting =>
        exact absurd hawaiting hlead

end

/-! ### A stop that is clean -/

/-- The loop is about to take note of the event: the call in progress ends without the answer
`False`, or the task that waits for the event goes on, and the turn after it ends the call with the
answer `True`. -/
def NearlyTrue (s : Supervisor U) (u : U) (e : EventRef U) : Prop :=
  match s.loop with
  | .idle => False
  | .leaving c err => err = none → c.verdict u e ≠ some false
  | .waiting c => (e, .waiting) ∉ c.helpers ∧ ((e, .done) ∈ c.helpers → ∀ order s',
      s.wake order = some s' →
        ∃ c' err, s'.loop = .leaving c' err ∧ (err = none → c'.verdict u e = some true))

theorem Call.verdict_true {c : Call U} {u : U} {e : EventRef U}
    (hclean : ∀ t v, (u, t, v) ∈ c.doneUnits → v.isExc = false) (he : e ∈ c.doneEvents) :
    c.verdict u e = some true := by
  unfold Call.verdict
  rw [if_neg, if_pos he]
  intro hany
  obtain ⟨⟨u', t, v⟩, hin, hd⟩ := List.any_eq_true.1 hany
  obtain ⟨rfl, hexc⟩ := of_decide_eq_true hd
  rw [hclean t v hin] at hexc
  cases hexc

theorem nearlyTrue {T : U → Prop} {s : Supervisor U} {u : U} {e : EventRef U} (hw : WFOn T s)
    (hreports : ReportsClean s u e) (hhearing : Hearing s e) : NearlyTrue s u e := by
  unfold NearlyTrue
  rcases hreports with ⟨c, h, hloop, hawaits, hclean⟩ | ⟨c, err, hloop, hclean⟩
  · rw [hloop]
    obtain ⟨h', hawaits', hne⟩ : ∃ h', Awaits s e c h' ∧ h' ≠ .waiting := by
      rcases hhearing with ⟨c', h', hloop', hawaits', hne⟩ | ⟨c', err, hloop'⟩
      · rw [hloop] at hloop'
        cases hloop'
        exact ⟨h', hawaits', hne⟩
      · rw [hloop] at hloop'
        cases hloop'
    constructor
    · rw [hawaits'.helpers]
      simpa [eq_comm] using hne
    · intro hdone order s' hwake
      rw [hawaits.helpers] at hdone
      obtain rfl : h = .done := by simpa [eq_comm] using hdone
      rcases wake_awaits hw hloop hawaits hwake with ⟨c', err, hloop'⟩ |
        ⟨-, -, ⟨c', hloop', hheard, -, hold⟩ | ⟨c', -, -, hnot, -⟩⟩
      · exact ⟨c', some err, hloop', by simp⟩
      · refine ⟨c', none, hloop', fun _ => Call.verdict_true ?_ (hheard.2 rfl)⟩
        intro t v hin
        obtain ⟨hin', hres⟩ := hold u t v hin
        exact hclean t v hin' hres
      · exact absurd rfl hnot
  · rw [hloop]
    intro hnone
    subst hnone
    exact (ReportsClean.verdict (.inr ⟨c, none, hloop, hclean⟩) hloop).2

theorem underway_of_running {s : Supervisor U} {u : U} (hw : WFOn (· = u) s) (hreg : u ∈ s.units)
    (hrunning : (s.state u).status = .running) : ∃ t, Underway s (s.ref u) t := by
  have hst : (s.view u).st.status = .running := hrunning
  obtain ⟨t, k, hfit⟩ := (hw.placed u rfl).live_of_status hreg (by rw [hst]; rfl)
  have htask : (s.view u).tasks t = some k := by rw [hfit.live_tasks, if_pos rfl]
  obtain ⟨hk, hu, hlive⟩ := view_tasks_eq_some.1 htask
  have hfits := hfit.pcFits
  unfold PcFits at hfits
  cases hpc : k.pc with
  | runSleep r | running r =>
    rw [hpc] at hfits
    obtain ⟨rfl, -⟩ := hfits
    exact ⟨t, k, hk, hu, by rw [hpc]; rfl, by rw [hpc]; rfl⟩
  | created | enterSleep r | entering r | exiting r | finished res =>
    rw [hpc] at hfits
    simp [hst] at hfits

theorem doneStoppingNow_of_quieted {s : Supervisor U} {u : U} {t : TaskId} (hw : WFOn (· = u) s)
    (hq : Quieted (s.view u)) (h : Underway s (s.ref u) t) : s.doneStoppingNow u = none := by
  have hpending : (s.state u).pendingStop = true := hq.pendingStop (.inr (hw.hasLive h.live))
  obtain ⟨k, hk, hu, hentered, href⟩ := h
  have hfit := (hw.placed u rfl).live (view_tasks_eq_some.2 ⟨hk, hu, isFinished_of_ref href⟩)
  have hst : (s.state u).status ≠ .stopped := by
    intro hst
    have hfits := hfit.pcFits
    unfold PcFits at hfits
    have hst' : (s.view u).st.status = .stopped := hst
    cases hpc : k.pc <;> simp_all [Pc.ref]
  have hreg : u ∈ s.units := hq.1
  simp [doneStoppingNow, doneNow, hreg, hst, hpending]

theorem call_inProgress {s : Supervisor U} {u : U} {t : TaskId} {lead side : Bool}
    (hw : WFOn (· = u) s) (hq : Quieted (s.view u)) (hunderway : Underway s (s.ref u) t)
    (hunset : s.events (.doneExiting (s.ref u)) = false)
    (hidle : lead = true → s.loop = .idle ∧ CleanDone s u) :
    InProgress lead side (s.ref u) t (Waiting.call .stop s u lead side) := by
  have hwaits : Command.stop.doneNow s u = none := doneStoppingNow_of_quieted hw hq hunderway
  have hattending : Attending .stop (s.ref u) lead side (Waiting.call .stop s u lead side) :=
    call_attending hwaits hunset
  cases lead with
  | false => exact ⟨hunderway, hunset, hattending, by simp⟩
  | true =>
    obtain ⟨hloop, hdone⟩ := hidle rfl
    have hcall : (Waiting.call .stop s u true side).sup = s.superviseUntil [.doneExiting (s.ref u)] ∧
        (Waiting.call .stop s u true side).lead = .awaiting := by
      simp only [Waiting.call, if_true, Command.superviseUntilDone_awaits hwaits, and_self,
        Command.event]
    have hsupervise := supervise_step (e := .doneExiting (s.ref u)) hloop
    obtain ⟨hunderway', hunset'⟩ := hunderway.step hw hunset hsupervise (by simp)
    have hq' : Quieted ((s.superviseUntil [.doneExiting (s.ref u)]).view u) :=
      step_keeps hw hq.1 hq (by simp) (by simp) hsupervise fun _ _ _ hl hl' hp hq hm =>
        (hm.quieted hl hl' hp hq).1
    obtain ⟨c, hloop', hawaits⟩ := superviseUntil_awaits s (.doneExiting (s.ref u))
    refine ⟨hcall.1 ▸ hunderway', hcall.1 ▸ hunset', hattending, fun _ => ⟨hcall.2, ?_, ?_⟩⟩
    · rw [hcall.1]
      exact hq'
    · rw [hcall.1]
      exact .inl ⟨c, .fresh, hloop', hawaits, hdone.step (u := u)
        (a := .supervise [.doneExiting (s.ref u)] .firstEventOrUnit) hw (by simp) trivial hsupervise⟩

/-- The unit is not removed, nor started after its lifecycle. -/
def Stays (u : U) (s : Supervisor U) : Action U → Prop
  | .removeUnit v => v ≠ u
  | .startUnit v => v = u → s.Busy u
  | _ => True

instance (u : U) (s : Supervisor U) : (a : Action U) → Decidable (Stays u s a)
  | .removeUnit v => inferInstanceAs (Decidable (v ≠ u))
  | .startUnit v => inferInstanceAs (Decidable (v = u → s.Busy u))
  | .addUnit .. | .stopUnit .. | .setEvent _ | .clearEvent _ | .resume .. | .monitorStep
  | .helperStep _ | .supervise .. | .wake _ | .leave | .cancel | .stop =>
    inferInstanceAs (Decidable True)

/-- The unit is on its way to a stop, by its task `t`, or has stopped. -/
def StopsOrRests (r : StateRef U) (t : TaskId) (s : Supervisor U) : Prop :=
  WFOn (· = r.unit) s ∧
    (Underway s r t ∧ s.events (.doneExiting r) = false ∧ Quieted (s.view r.unit) ∨
      (s.taskResult t).isSome ∧ Rested r (s.view r.unit))

theorem StopsOrRests.step {s s' : Supervisor U} {a : Action U} {r : StateRef U} {t : TaskId}
    (h : StopsOrRests r t s) (hok : Stays r.unit s a) (hstep : s.step a = some s') :
    StopsOrRests r t s' := by
  obtain ⟨hw, hcase⟩ := h
  have hremove : a ≠ .removeUnit r.unit := by
    rintro rfl
    exact hok rfl
  refine ⟨(stepOn_evolves hw (fun u ha hu => absurd (hu ▸ ha) hremove) hstep).wf, ?_⟩
  rcases hcase with ⟨hunderway, hunset, hq⟩ | ⟨hfin, hrested⟩
  · by_cases hlast : ∃ o, a = .resume t o ∧ s.lastSegment t o = true
    · obtain ⟨o, rfl, hlast⟩ := hlast
      have hexits := hunderway.exits hlast
      exact .inr ⟨(hexits.ended_isSet hw hstep hlast).2, hexits.rested hw hq hstep hlast⟩
    · obtain ⟨hunderway', hunset'⟩ := hunderway.step hw hunset hstep fun o ha =>
        Bool.eq_false_iff.2 fun hl => hlast ⟨o, ha, hl⟩
      refine .inl ⟨hunderway', hunset', step_keeps hw hq.1 hq hremove ?_ hstep ?_⟩
      · exact fun _ => hq.pendingStop (.inr (hw.hasLive hunderway.live))
      · exact fun _ _ _ hl hl' hp hq hm => (hm.quieted hl hl' hp hq).1
  · obtain ⟨res, hres⟩ := Option.isSome_iff_exists.1 hfin
    have hstart : a ≠ .startUnit r.unit := by
      rintro rfl
      exact hrested.not_busy (hok rfl)
    exact .inr ⟨Option.isSome_of_eq_some (step_result hw hstep hres),
      step_rested hw hrested hremove hstart hstep⟩

/-- The calls that are made after the unit has stopped answer at once. -/
theorem call_hasStopped {s : Supervisor U} {r : StateRef U} {t : TaskId} {lead side : Bool}
    (hfin : (s.taskResult t).isSome) (hrested : Rested r (s.view r.unit)) :
    HasStopped lead side r t (Waiting.call .stop s r.unit lead side) ∧
      (Waiting.call .stop s r.unit lead side).sup = s := by
  have hreg : r.unit ∈ s.units := hrested.registered
  have hst : (s.state r.unit).status = .stopped := hrested.status
  have hnow : s.doneStoppingNow r.unit = some true := by
    simp [doneStoppingNow, doneNow, hreg, hst]
  have hlead : s.superviseUntilDoneStopping r.unit = (s, .returned true) := by
    simp [superviseUntilDoneStopping, Supervisor.superviseUntilDone, hnow]
  have hside : s.doneStopping r.unit = .returned true := by
    simp [doneStopping, awaitDone, hnow]
  cases lead with
  | false =>
    refine ⟨⟨hfin, by simp, ?_⟩, rfl⟩
    rintro rfl
    exact .inl hside
  | true =>
    simp only [Waiting.call, if_true, Command.superviseUntilDone, hlead, and_true]
    refine ⟨hfin, fun _ => .inl rfl, ?_⟩
    rintro rfl
    exact .inl hside

/-- **A clean stop is answered `True`**, in both ways of waiting and whenever the calls are made, if
no exception is stored. -/
theorem stop_succeeds {s s₁ : Supervisor U} {u : U} {force lead side : Bool} {w : Waiting U}
    (h : Reachable (RemovesIdle u) s) (hreg : u ∈ s.units) (hrunning : (s.state u).status = .running)
    (hto : Reach step (Stays u) (s.stopUnitNowait u force).1 s₁)
    (hidle : lead = true → s₁.loop = .idle ∧ CleanDone s₁ u)
    (hrun : Reach (Waiting.step .stop (s.ref u)) (StopClean (s.ref u))
      (Waiting.call .stop s₁ u lead side) w) :
    (s.stopUnitNowait u force).2 = true ∧ ∃ t, s.Live t u ∧
      (w.sup.Live t u ∧ (lead = true → w.lead = .awaiting) ∧ (side = true → w.side = .awaiting) ∨
        ¬ w.sup.Live t u ∧
          (lead = true → w.lead = .returned true ∨
            w.lead = .awaiting ∧ NearlyTrue w.sup u (.doneExiting (s.ref u))) ∧
          (side = true → w.side = .returned true ∨ ∃ n, w.side = .woken n)) := by
  have hw : WFOn (· = u) s := reachable_wfOn h
  have haccepted := stopUnitNowait_accepted force hreg
  refine ⟨haccepted, ?_⟩
  obtain ⟨t, hunderway⟩ := underway_of_running hw hreg hrunning
  have hunset : s.events (.doneExiting (s.ref u)) = false := by
    obtain ⟨k, hk, hu, -, href⟩ := hunderway
    exact reachable_unsetWhileLive h t k _ hk hu href
  -- the stop is requested, and time passes
  have hrequest : s.step (.stopUnit u force) = some (s.stopUnitNowait u force).1 := rfl
  have hstops : StopsOrRests (s.ref u) t (s.stopUnitNowait u force).1 := by
    obtain ⟨hunderway', hunset'⟩ :=
      Underway.step (r := s.ref u) hw hunderway hunset hrequest (by simp)
    exact ⟨(stepOn_evolves hw (by simp) hrequest).wf,
      .inl ⟨hunderway', hunset', stopUnitNowait_quieted (hw.placed u rfl) haccepted⟩⟩
  obtain ⟨hw₁, hcase⟩ := hto.invariant hstops fun _ _ _ hP hok hstep => hP.step hok hstep
  -- the calls are made
  have hcall : WFOn (· = u) (Waiting.call .stop s₁ u lead side).sup ∧
      (InProgress lead side (s.ref u) t (Waiting.call .stop s₁ u lead side) ∨
        HasStopped lead side (s.ref u) t (Waiting.call .stop s₁ u lead side)) := by
    rcases hcase with ⟨hunderway₁, hunset₁, hq⟩ | ⟨hfin, hrested⟩
    · have href : s.ref u = s₁.ref u := by
        obtain ⟨k, hk, hu, -, href⟩ := hunderway₁
        obtain rfl : k.unit = u := hu
        exact ref_of_live hw₁ hk href
      rw [href] at hunderway₁ hunset₁ ⊢
      exact ⟨call_wfOn hw₁ (fun hcalled => (hidle hcalled).1)
        (doneStoppingNow_of_quieted hw₁ hq hunderway₁),
        .inl (call_inProgress hw₁ hq hunderway₁ hunset₁ hidle)⟩
    · obtain ⟨hstopped, hsup⟩ :
          HasStopped lead side (s.ref u) t (Waiting.call .stop s₁ u lead side) ∧
            (Waiting.call .stop s₁ u lead side).sup = s₁ := call_hasStopped hfin hrested
      refine ⟨?_, .inr hstopped⟩
      rw [hsup]
      exact hw₁
  -- the run
  obtain ⟨hw', hphase⟩ := hrun.invariant
    (P := fun w => WFOn (· = u) w.sup ∧
      (InProgress lead side (s.ref u) t w ∨ HasStopped lead side (s.ref u) t w)) hcall (by
      rintro w x w' ⟨hw, hphase⟩ hok hstep
      have hstepped := Waiting.step_stepped hstep
      refine ⟨Stepped.wfOn hw (fun a ha => (ha ▸ hok).removesIdle) hstepped, ?_⟩
      rcases hphase with hprogress | hstopped
      · by_cases hlast : ∃ o, x = .sup (.resume t o) ∧ w.sup.lastSegment t o = true
        · obtain ⟨o, rfl, hlast⟩ := hlast
          exact .inr (hprogress.ends hw hok hstepped hlast)
        · exact .inl (hprogress.goesOn hw hok hstepped fun o hx =>
            Bool.eq_false_iff.2 fun hl => hlast ⟨o, hx, hl⟩)
      · exact .inr (hstopped.step hw hok hstepped))
  refine ⟨t, hunderway.live, ?_⟩
  rcases hphase with hprogress | hstopped
  · exact .inl ⟨hprogress.underway.live, fun hcalled => (hprogress.lead hcalled).1,
      hprogress.attending.side⟩
  · refine .inr ⟨?_, fun hcalled => ?_, fun hcalled => ?_⟩
    · rintro ⟨k, hk, -, hlive⟩
      obtain ⟨k', hk', hfin⟩ := taskResult_isSome.1 hstopped.finished
      rw [hk] at hk'
      cases hk'
      rw [hlive] at hfin
      cases hfin
    · exact (hstopped.lead hcalled).imp_right fun ⟨hlead, _, _, hreports, hhearing⟩ =>
        ⟨hlead, nearlyTrue hw' hreports hhearing⟩
    · exact (hstopped.side hcalled).imp_right fun ⟨n, hwoken, _⟩ => ⟨n, hwoken⟩

/-- The run comes back with a value as the STOP is still queued. -/
theorem stop_succeeds_value :
    ∃ (s : Supervisor Nat) (w : Waiting Nat), Reachable (RemovesIdle 0) s ∧
      (s.state 0).status = .running ∧ (s.stopUnitNowait 0 false).2 = true ∧
      w.lead = .returned true ∧ w.side = .returned true ∧
      ∃ t, s.Live t 0 ∧ (w.sup.Live t 0 ∧ w.lead = .awaiting ∨ ¬ w.sup.Live t 0) := by
  obtain ⟨s, hs, hreg, hrunning, hidle, hdone, hend⟩ :=
    Reach.exists_of_runIn step (RemovesIdle 0) (init Nat)
    [.addUnit 0 false false, .supervise [.other 0] .firstEvent, .monitorStep, .helperStep (.other 0),
      .wake [], .setEvent 0, .helperStep (.other 0), .monitorStep, .wake [], .leave,
      .resume 0 .suspend, .resume 0 (.ok .none)]
    (p := fun s => 0 ∈ s.units ∧ (s.state 0).status = .running ∧
      (s.stopUnitNowait 0 false).1.loop.isIdle = true ∧
      (∀ e ∈ (s.stopUnitNowait 0 false).1.running,
        (s.stopUnitNowait 0 false).1.taskResult e.1 = none) ∧
      (runIn (Waiting.step .stop (s.ref 0)) (StopClean (s.ref 0))
        (Waiting.call .stop (s.stopUnitNowait 0 false).1 0 true true)
        [.sup (.resume 0 (.ok .none)), .sup .monitorStep, .sup (.helperStep (.doneExiting (s.ref 0))),
          .sup (.wake []), .sup (.resume 0 (.ok .none)), .side,
          .sup (.helperStep (.doneExiting (s.ref 0))), .sup .monitorStep, .sup (.wake [0]),
          .sup .leave]).any
        (fun w => decide (w.lead = .returned true ∧ w.side = .returned true)) = true)
    (by decide +kernel)
  obtain ⟨w, hrun, hreturned⟩ := (Option.any_eq_true ..).1 hend
  obtain ⟨hlead, hside⟩ := of_decide_eq_true hreturned
  have hclean : CleanDone (s.stopUnitNowait 0 false).1 0 := by
    intro t v hin hres
    rw [hdone _ hin] at hres
    cases hres
  have hreach := Reach.of_runIn _ hrun
  obtain ⟨haccepted, t, hlive, hcase⟩ := stop_succeeds hs hreg hrunning .refl
    (fun _ => ⟨Loop.isIdle_iff.1 hidle, hclean⟩) hreach
  exact ⟨s, w, hs, hrunning, haccepted, hlead, hside, t, hlive,
    hcase.imp (fun h => ⟨h.1, h.2.1 rfl⟩) (·.1)⟩

/-- `run` raises the `CancelledError` that is thrown into it, and the exit raises nothing. -/
def UnitTask.cooperates (k : UnitTask U) (o : Outcome U) : Bool :=
  match k.pc, o with
  | .running _, .raise .cancelled => true
  | .running _, _ => !k.cancel
  | .exiting _, .raise _ => false
  | _, _ => true

def Cooperates (w : Waiting U) : WaitAction U → Prop
  | .sup (.resume t o) => (w.sup.tasks t).all (·.cooperates o) = true
  | _ => True

instance (w : Waiting U) : (x : WaitAction U) → Decidable (Cooperates w x)
  | .sup (.resume ..) => inferInstanceAs (Decidable (_ = true))
  | .sup (.addUnit ..) | .sup (.removeUnit _) | .sup (.startUnit _) | .sup (.stopUnit ..)
  | .sup (.setEvent _) | .sup (.clearEvent _) | .sup .monitorStep | .sup (.helperStep _)
  | .sup (.supervise ..) | .sup (.wake _) | .sup .leave | .sup .cancel | .sup .stop | .side =>
    inferInstanceAs (Decidable True)

/-- The STOP is handled and the run cancelled, as it is for every unit that does not come back by
itself: both answers are `False`. -/
theorem stop_fails :
    ∃ s : Supervisor Nat, Reachable (RemovesIdle 0) s ∧ 0 ∈ s.units ∧
      (s.state 0).status = .running ∧ s.loop.isIdle = true ∧ ∃ w,
        Reach (Waiting.step .stop (s.ref 0)) Cooperates
          (Waiting.call .stop (s.stopUnitNowait 0 false).1 0 true true) w ∧
        w.lead = .returned false ∧ w.side = .returned false ∧
        (w.sup.state 0).status = .stopped := by
  obtain ⟨s, hs, hreg, hrunning, hidle, hend⟩ :=
    Reach.exists_of_runIn step (RemovesIdle 0) (init Nat)
    [.addUnit 0 false false, .supervise [.other 0] .firstEvent, .monitorStep, .helperStep (.other 0),
      .wake [], .setEvent 0, .helperStep (.other 0), .monitorStep, .wake [], .leave,
      .resume 0 .suspend, .resume 0 (.ok .none)]
    (p := fun s => 0 ∈ s.units ∧ (s.state 0).status = .running ∧ s.loop.isIdle = true ∧
      (runIn (Waiting.step .stop (s.ref 0)) Cooperates
        (Waiting.call .stop (s.stopUnitNowait 0 false).1 0 true true)
        [.sup .monitorStep, .sup (.helperStep (.doneExiting (s.ref 0))), .sup (.wake []),
          .sup (.resume 0 (.raise .cancelled)), .sup (.resume 0 (.ok .none)), .side,
          .sup (.helperStep (.doneExiting (s.ref 0))), .sup .monitorStep, .sup (.wake [0]),
          .sup .leave]).any
        (fun w => decide (w.lead = .returned false ∧ w.side = .returned false ∧
          (w.sup.state 0).status = .stopped)) = true)
    (by decide +kernel)
  obtain ⟨w, hrun, hreturned⟩ := (Option.any_eq_true ..).1 hend
  obtain ⟨hlead, hside, hstopped⟩ := of_decide_eq_true hreturned
  exact ⟨s, hs, hreg, hrunning, hidle, w, .of_runIn _ hrun, hlead, hside, hstopped⟩

end Silkjam.Supervisor
