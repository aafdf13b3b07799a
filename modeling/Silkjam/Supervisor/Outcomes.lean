import Silkjam.Supervisor.Verdicts

/-!
# What becomes of an exception

`_run_unit` keeps one result for three phases: entering, running and exiting the unit. `Observed` is
the supervisor with a history of how the phases of every lifecycle have ended, which nothing in the
program reads. `state.result` is compared with it: while a lifecycle is in its exit, it is the
exception of the latest phase that failed, or what `run` returned (`Recorded`).

No handler lets an exception through (see `RunUnit`), a `KeyboardInterrupt` or `SystemExit`
included. The lifecycle ends as documented when none of these is raised and the cleanup finds its
task.
-/

namespace Silkjam.Supervisor

open Transition

variable {U : Type}

/-- `KeyboardInterrupt` and `SystemExit`, which are propagated -/
def Exc.isFatal : Exc U → Bool
  | .keyboardInterrupt | .systemExit => true
  | _ => false

/-- How the phases of a lifecycle have ended, as far as they have. -/
structure Phases (U : Type) where
  enter : Option (Except (Exc U) Unit) := none
  run : Option (Except (Exc U) (Val U)) := none
  exit : Option (Except (Exc U) Unit) := none

def raisedIn {α : Type} : Option (Except (Exc U) α) → List (Exc U)
  | some (.error e) => [e]
  | _ => []

/-- What the phases raised, in order. -/
def Phases.raised (p : Phases U) : List (Exc U) :=
  raisedIn p.enter ++ raisedIn p.run ++ raisedIn p.exit

def Phases.returned (p : Phases U) : Val U :=
  match p.run with
  | some (.ok v) => v
  | _ => .none

/-- The exception of the latest failing phase, or what `run` returned. -/
def Phases.result (p : Phases U) : Val U :=
  match p.raised.getLast? with
  | some e => .exc e
  | none => p.returned

section
variable {p : Phases U} {e : Exc U}

theorem Phases.result_enter (e : Exc U) :
    ({ enter := some (.error e) } : Phases U).result = .exc e := rfl

theorem Phases.result_run (e : Exc U) :
    ({ enter := some (.ok ()), run := some (.error e) } : Phases U).result = .exc e := rfl

theorem Phases.result_returned (v : Val U) :
    ({ enter := some (.ok ()), run := some (.ok v) } : Phases U).result = v := rfl

theorem Phases.result_exit (p : Phases U) (e : Exc U) :
    ({ p with exit := some (.error e) } : Phases U).result = .exc e := by
  simp [result, raised, raisedIn]

theorem Phases.result_exited (h : p.exit = none) :
    ({ p with exit := some (.ok ()) } : Phases U).result = p.result := by
  have hraised : ({ p with exit := some (.ok ()) } : Phases U).raised = p.raised := by
    simp [raised, raisedIn, h]
  unfold result
  rw [hraised]
  rfl

end

variable [DecidableEq U]

/-! ### The history -/

/-- The first segment: a forced stop that is pending makes the task cancel itself, which raises if
`state.task` was lost. -/
def Phases.begin (p : Phases U) (s : Supervisor U) (u : U) : Phases U :=
  if u ∉ s.units then p
  else
    let r := s.ref u
    let s := s.setEntering r
    if (s.heap r).pendingStop ∧ (s.heap r).forcePendingStop then
      match s.stopUnit u with
      | .error e => { p with enter := some (.error e) }
      | .ok _ => p
    else p

/-- The unit's enter returned; so does a stop that is pending. -/
def Phases.entered (p : Phases U) (s : Supervisor U) (r : StateRef U) : Phases U :=
  let p := { p with enter := some (.ok ()) }
  let s := s.setRunning r
  if (s.heap r).pendingStop then
    match s.stopUnit r.unit with
    | .error e => { p with run := some (.error e) }
    | .ok _ => p
  else p

/-- What a segment of task `t` adds to the history of its lifecycle. -/
def Phases.after (p : Phases U) (s : Supervisor U) (t : TaskId) (k : UnitTask U) (o : Outcome U) :
    Phases U :=
  match k.pc, o with
  | .created, _ => if k.cancel then p else p.begin (s.clearCancel t) k.unit
  | .enterSleep _, _ => if k.cancel then { p with enter := some (.error .cancelled) } else p
  | .entering r, .ok _ => p.entered (s.clearCancel t) r
  | .entering _, .raise e => { p with enter := some (.error e) }
  | .runSleep _, _ => if k.cancel then { p with run := some (.error .cancelled) } else p
  | .running _, .ok v => { p with run := some (.ok v) }
  | .running _, .raise e => { p with run := some (.error e) }
  | .exiting _, .ok _ => { p with exit := some (.ok ()) }
  | .exiting _, .raise e => { p with exit := some (.error e) }
  | .entering _, .suspend | .running _, .suspend | .exiting _, .suspend => p
  | .finished _, _ => p

/-- The supervisor, and for each task how its phases have ended. -/
structure Observed (U : Type) [DecidableEq U] where
  sup : Supervisor U := {}
  phases : TaskId → Phases U := fun _ => {}

def Observed.record (w : Observed U) : Action U → TaskId → Phases U
  | .resume t o =>
    match w.sup.tasks t with
    | some k => Function.update w.phases t ((w.phases t).after w.sup t k o)
    | none => w.phases
  | _ => w.phases

def Observed.step (w : Observed U) (a : Action U) : Option (Observed U) :=
  (w.sup.step a).map fun s => { sup := s, phases := w.record a }

/-! ### Where a task is -/

def pcOf (s : Supervisor U) (t : TaskId) : Option (Pc U) :=
  (s.tasks t).map (·.pc)

section
variable {s s' : Supervisor U} {t : TaskId} {r : StateRef U} {k : UnitTask U} {u : U} {e : Exc U}
  {o : Outcome U}

theorem pcOf_setPc (hk : s.tasks t = some k) (pc : Pc U) : (s.setPc t pc).pcOf t = some pc := by
  simp [pcOf, setPc, modifyTask, hk]

theorem stopUnit_task (h : s.stopUnit u = .ok s') (hk : s.tasks t = some k) :
    ∃ k', s'.tasks t = some k' := by
  have hpc := (stopUnit_quiet h).pc t (by simp [hk])
  rw [hk] at hpc
  obtain ⟨k', hk', -⟩ := Option.map_eq_some_iff.1 hpc
  exact ⟨k', hk'⟩

/-- What the history says of task `t` where it is. -/
def Recorded (s : Supervisor U) (t : TaskId) (p : Phases U) : Prop :=
  match s.pcOf t with
  | none | some .created | some (.enterSleep _) | some (.entering _) => p = {}
  | some (.runSleep _) | some (.running _) => p = { enter := some (.ok ()) }
  | some (.exiting r) => p.exit = none ∧ p.result = (s.heap r).result
  | some (.finished _) => True

theorem recorded_phaseFailed {p : Phases U} (hk : s.tasks t = some k) (hexit : p.exit = none)
    (hresult : p.result = .exc e) : Recorded (s.phaseFailed t r e) t p := by
  have hpc : (s.phaseFailed t r e).pcOf t = some (.exiting r) := pcOf_setPc hk _
  have hheap : ((s.phaseFailed t r e).heap r).result = .exc e := by
    simp [phaseFailed, exitUnit, setPc, modifyTask, log, modify, setEvent]
  unfold Recorded
  rw [hpc]
  exact ⟨hexit, hresult.trans hheap.symm⟩

theorem recorded_returned {p : Phases U} {v : Val U} (hk : s.tasks t = some k)
    (hexit : p.exit = none) (hresult : p.result = v) :
    Recorded ((s.modify r fun st => { st with result := v }).exitUnit t r) t p := by
  have hpc : ((s.modify r fun st => { st with result := v }).exitUnit t r).pcOf t =
      some (.exiting r) := pcOf_setPc hk _
  have hheap : (((s.modify r fun st => { st with result := v }).exitUnit t r).heap r).result =
      v := by
    simp [exitUnit, setPc, modifyTask, log, modify, setEvent]
  unfold Recorded
  rw [hpc]
  exact ⟨hexit, hresult.trans hheap.symm⟩

theorem recorded_enterUnit (hk : s.tasks t = some k) : Recorded (s.enterUnit t r) t {} := by
  have hpc : (s.enterUnit t r).pcOf t = some (.entering r) := pcOf_setPc hk _
  unfold Recorded
  rw [hpc]

theorem recorded_callRun (hk : s.tasks t = some k) :
    Recorded (s.callRun t r) t { enter := some (.ok ()) } := by
  have hpc : (s.callRun t r).pcOf t = some (.running r) := pcOf_setPc hk _
  unfold Recorded
  rw [hpc]

theorem recorded_cleanup {p : Phases U} (hk : s.tasks t = some k) :
    Recorded (s.cleanup t r) t p := by
  have hfinish (s₁ : Supervisor U) (res : TaskResult U) (hk₁ : s₁.tasks t = some k) :
      Recorded (s₁.finish t res) t p := by
    unfold Recorded finish
    rw [pcOf_setPc hk₁]
    trivial
  unfold cleanup
  dsimp only
  split
  · exact hfinish _ _ hk
  · split
    · exact hfinish _ _ hk
    · split
      · exact hfinish _ _ hk
      · exact hfinish _ _ hk

theorem recorded_clearCancel {p : Phases U} (h : Recorded s t p) :
    Recorded (s.clearCancel t) t p := by
  have hpc : (s.clearCancel t).pcOf t = s.pcOf t := by
    simp only [pcOf, clearCancel, modifyTask, Function.update_self, Option.map_map]
    rfl
  unfold Recorded at h ⊢
  rw [hpc]
  exact h

theorem recorded_begin (hreg : u ∈ s.units) (hk : s.tasks t = some k) :
    Recorded (s.beginUnit t u) t (({} : Phases U).begin s u) := by
  unfold beginUnit Phases.begin
  rw [if_neg (not_not.2 hreg), if_neg (not_not.2 hreg)]
  dsimp only
  by_cases hforce : ((s.setEntering (s.ref u)).heap (s.ref u)).pendingStop ∧
      ((s.setEntering (s.ref u)).heap (s.ref u)).forcePendingStop
  · rw [if_pos hforce, if_pos hforce]
    cases hstop : (s.setEntering (s.ref u)).stopUnit u with
    | error e => exact recorded_phaseFailed hk rfl (Phases.result_enter e)
    | ok s₁ =>
      have hk₁ : (s.setEntering (s.ref u)).tasks t = some k := hk
      obtain ⟨k', hk'⟩ := stopUnit_task hstop hk₁
      unfold Recorded
      rw [pcOf_setPc hk']
  · rw [if_neg hforce, if_neg hforce]
    exact recorded_enterUnit hk

theorem recorded_entered (hk : s.tasks t = some k) :
    Recorded (s.unitEntered t r) t (({} : Phases U).entered s r) := by
  unfold unitEntered Phases.entered
  dsimp only
  by_cases hstopped : ((s.setRunning r).heap r).pendingStop
  · rw [if_pos hstopped, if_pos hstopped]
    cases hstop : (s.setRunning r).stopUnit r.unit with
    | error e => exact recorded_phaseFailed hk rfl (Phases.result_run e)
    | ok s₁ =>
      have hk₁ : (s.setRunning r).tasks t = some k := hk
      obtain ⟨k', hk'⟩ := stopUnit_task hstop hk₁
      unfold Recorded
      rw [pcOf_setPc hk']
  · rw [if_neg hstopped, if_neg hstopped]
    exact recorded_callRun hk

/-- A segment of the task: one case for each place it may be at. -/
theorem Recorded.resumed {p : Phases U} (hw : WFOn (· = k.unit) s) (hk : s.tasks t = some k)
    (hseg : s.runSegment t k o = some s') (h : Recorded s t p) :
    Recorded s' t (p.after s t k o) := by
  have hfit := (hw.placed k.unit rfl).live
    (view_tasks_eq_some.2 ⟨hk, rfl, runSegment_isFinished hseg⟩)
  have hclear : (s.clearCancel t).tasks t = some { k with cancel := false } := tasks_clearCancel hk
  have hpcOf : s.pcOf t = some k.pc := by simp [pcOf, hk]
  have hkept : Recorded (s.clearCancel t) t p := recorded_clearCancel h
  unfold Recorded at h
  rw [hpcOf] at h
  unfold runSegment at hseg
  dsimp only at hseg
  split at hseg
  · next hpc =>
    have hcancel : k.cancel = false := by
      have hfits := hfit.pcFits
      unfold PcFits at hfits
      rw [hpc] at hfits
      exact hfits.2.2
    unfold Phases.after
    rw [hpc] at h ⊢
    rw [hcancel] at hseg ⊢
    cases hseg
    cases h
    exact recorded_begin hfit.live_registered hclear
  · next hpc =>
    unfold Phases.after
    rw [hpc] at h ⊢
    cases h
    dsimp only
    split at hseg
    · next hcancel =>
      cases hseg
      rw [if_pos hcancel]
      exact recorded_phaseFailed hclear rfl (Phases.result_enter _)
    · next hcancel =>
      cases hseg
      rw [if_neg hcancel]
      exact recorded_enterUnit hclear
  · next hpc =>
    unfold Phases.after
    rw [hpc] at h ⊢
    cases h
    cases hseg
    exact recorded_entered hclear
  · next hpc =>
    unfold Phases.after
    rw [hpc] at h ⊢
    cases h
    cases hseg
    exact recorded_phaseFailed hclear rfl (Phases.result_enter _)
  · next hpc =>
    unfold Phases.after
    rw [hpc] at h ⊢
    cases h
    dsimp only
    split at hseg
    · next hcancel =>
      cases hseg
      rw [if_pos hcancel]
      exact recorded_phaseFailed hclear rfl (Phases.result_run _)
    · next hcancel =>
      cases hseg
      rw [if_neg hcancel]
      exact recorded_callRun hclear
  · next hpc =>
    unfold Phases.after
    rw [hpc] at h ⊢
    cases h
    cases hseg
    exact recorded_returned hclear rfl (Phases.result_returned _)
  · next hpc =>
    unfold Phases.after
    rw [hpc] at h ⊢
    cases h
    cases hseg
    exact recorded_phaseFailed hclear rfl (Phases.result_run _)
  · cases hseg
    exact recorded_cleanup hclear
  · cases hseg
    exact recorded_cleanup hclear
  · next hpc => unfold Phases.after; rw [hpc]; cases hseg; exact hkept
  · next hpc => unfold Phases.after; rw [hpc]; cases hseg; exact hkept
  · next hpc => unfold Phases.after; rw [hpc]; cases hseg; exact hkept
  · cases hseg

theorem Recorded.other {p : Phases U} (hpc : s'.pcOf t = s.pcOf t)
    (hheap : ∀ r, s.pcOf t = some (.exiting r) → (s'.heap r).result = (s.heap r).result)
    (h : Recorded s t p) : Recorded s' t p := by
  unfold Recorded at h ⊢
  rw [hpc]
  cases hat : s.pcOf t with
  | none => rwa [hat] at h
  | some pc =>
    rw [hat] at h
    cases pc with
    | exiting r => exact ⟨h.1, h.2.trans (hheap r hat).symm⟩
    | _ => exact h

theorem pcOf_eq {pc : Pc U} (h : s.pcOf t = some pc) : ∃ k, s.tasks t = some k ∧ k.pc = pc :=
  Option.map_eq_some_iff.1 h

theorem Recorded.alone {p : Phases U} {t' : TaskId} {k' : UnitTask U} (hw : WFOn (· = u) s)
    (hu : ∀ k, s.tasks t = some k → k.unit = u) (hk' : s.tasks t' = some k')
    (hseg : s.runSegment t' k' o = some s') (hne : t' ≠ t) (h : Recorded s t p) :
    Recorded s' t p := by
  have halone := runSegment_alone hseg
  refine h.other ?_ ?_
  · have hpc := congrArg (Option.map Prod.snd) (halone.pc t hne.symm)
    rwa [Option.map_map, Option.map_map] at hpc
  · intro r hat
    obtain ⟨k, hk, hpc⟩ := pcOf_eq hat
    obtain rfl : k.unit = u := hu k hk
    have hr : r.unit = k.unit := hw.owned.ref t k r hk (by rw [hpc]; rfl)
    rw [← hr] at hw
    have hworks := works_ne hw hk (by rw [hpc]; rfl) hr.symm hk' (runSegment_isFinished hseg) hne
    rw [halone.heap r hworks.symm]

theorem Recorded.quiet {p : Phases U} (hw : WFOn (· = u) s)
    (hu : ∀ k, s.tasks t = some k → k.unit = u) (hquiet : Quiet s s') (h : Recorded s t p) :
    Recorded s' t p := by
  cases hk : s.tasks t with
  | some k =>
    obtain rfl : k.unit = u := hu k hk
    refine h.other ?_ ?_
    · have hpc := congrArg (Option.map Prod.snd) (hquiet.pc t (by simp [hk]))
      rwa [Option.map_map, Option.map_map] at hpc
    · intro r hat
      obtain ⟨k₁, hk₁, hpc⟩ := pcOf_eq hat
      rw [hk] at hk₁
      cases hk₁
      obtain rfl : r = s.ref k.unit := ref_of_live hw hk (by rw [hpc]; rfl)
      exact hquiet.result _ le_rfl
  | none =>
    have hnone : s.pcOf t = none := by simp [pcOf, hk]
    unfold Recorded at h ⊢
    rw [hnone] at h
    cases hk' : s'.tasks t with
    | none => rwa [show s'.pcOf t = none by simp [pcOf, hk']]
    | some k' =>
      rw [show s'.pcOf t = some .created by simp [pcOf, hk', (hquiet.new t k' hk hk').2]]
      exact h

end

/-! ### Runs -/

section
variable {w w' : Observed U} {a : Action U} {u : U}

/-- The history agrees with the state for every task of the unit, and for those to come. -/
def Observed.Agrees (u : U) (w : Observed U) : Prop :=
  WFOn (· = u) w.sup ∧
    ∀ t, (∀ k, w.sup.tasks t = some k → k.unit = u) → Recorded w.sup t (w.phases t)

theorem Observed.Agrees.step (h : w.Agrees u) (hok : RemovesIdle u w.sup a)
    (hstep : w.step a = some w') : w'.Agrees u := by
  obtain ⟨hw, hrec⟩ := h
  obtain ⟨s', hsup, rfl⟩ := Option.map_eq_some_iff.1 hstep
  refine ⟨(stepOn_evolves hw (hok.registered hw) hsup).wf, fun t hu' => ?_⟩
  show Recorded s' t (w.record a t)
  by_cases hresume : ∃ t' o, a = .resume t' o
  · obtain ⟨t', o, rfl⟩ := hresume
    obtain ⟨k', hk', -, hseg, hwithin, -⟩ := resume_within hw hsup
    have hu (k : UnitTask U) (hk : w.sup.tasks t = some k) : k.unit = u := by
      have howner := hwithin.owner t
      rw [hk] at howner
      obtain ⟨k₁, hk₁, heq⟩ := Option.map_eq_some_iff.1 howner
      exact heq.symm.trans (hu' k₁ hk₁)
    have hrecord : w.record (.resume t' o) =
        Function.update w.phases t' ((w.phases t').after w.sup t' k' o) := by
      simp only [record, hk']
    rw [hrecord]
    by_cases hne : t' = t
    · subst hne
      rw [Function.update_self]
      obtain rfl : k'.unit = u := hu k' hk'
      exact (hrec t' hu).resumed hw hk' hseg
    · rw [Function.update_of_ne (Ne.symm hne)]
      exact (hrec t hu).alone hw hu hk' hseg hne
  · have hquiet := step_quiet hw (fun t o h => hresume ⟨t, o, h⟩) hsup
    have hu (k : UnitTask U) (hk : w.sup.tasks t = some k) : k.unit = u := by
      have hpc := hquiet.pc t (by simp [hk])
      rw [hk] at hpc
      obtain ⟨k₁, hk₁, heq⟩ := Option.map_eq_some_iff.1 hpc
      exact (Prod.mk.inj heq).1.symm.trans (hu' k₁ hk₁)
    have hrecord : w.record a = w.phases := by
      unfold record
      split
      · next t' o => exact absurd ⟨t', o, rfl⟩ hresume
      · rfl
    rw [hrecord]
    exact (hrec t hu).quiet hw hu hquiet

/-- Runs in which the unit is not removed with an unfinished task. -/
abbrev Observed.Reachable (u : U) (w : Observed U) : Prop :=
  Reach Observed.step (fun w a => RemovesIdle u w.sup a) ({} : Observed U) w

theorem Observed.Reachable.agrees (h : w.Reachable u) : w.Agrees u := by
  refine h.invariant ⟨init_wf, fun t _ => rfl⟩ ?_
  intro w a w' hagrees hok hstep
  exact hagrees.step hok hstep

end

/-! ### The cleanup -/

/-- The flags, the status and the events are as the cleanup leaves them. -/
structure CleanedUp (s s' : Supervisor U) (r : StateRef U) : Prop where
  status : (s'.heap r).status =
    if (s.heap r).pendingStop || !(s.heap r).restart then .stopped else .ready
  pendingStart : (s'.heap r).pendingStart = false
  pendingStop : (s'.heap r).pendingStop = false
  forcePendingStop : (s'.heap r).forcePendingStop = false
  task : (s'.heap r).task = none
  doneEntering : s'.events (.doneEntering r) = false
  doneExiting : s'.events (.doneExiting r) = true

section
variable {s s' : Supervisor U} {t : TaskId} {r : StateRef U} {k : UnitTask U} {o : Outcome U}
  {u : U} {res : TaskResult U}

theorem cleanup_kept (hin : t ∈ s.running.map (·.1))
    (htask : s.locked = true ∨ (s.heap r).task = some t) :
    ∃ l, s.cleanup t r = ({ s.setExited r with running := l }).cleanupDone t r ∧
      (s.locked = true → l = s.running) ∧ (s.locked = false → ∀ e ∈ l, e.1 ≠ t) := by
  by_cases hlocked : s.locked = true
  · exact ⟨_, cleanup_locked hlocked, fun _ => rfl, by simp [hlocked]⟩
  · have hunlocked : (s.setExited r).locked = false :=
      (locked_of_core (setEvent_core s _)).trans (Bool.eq_false_iff.2 hlocked)
    have htask' : ((s.setExited r).heap r).task = some t := by
      simpa [setExited, modify, setEvent] using htask.resolve_left hlocked
    have hin' : t ∈ (s.setExited r).running.map (·.1) := hin
    unfold cleanup
    dsimp only
    rw [if_neg (by simp [hunlocked]), htask']
    dsimp only
    rw [if_pos hin']
    refine ⟨_, rfl, fun h => absurd h hlocked, fun _ e he => ?_⟩
    exact of_decide_eq_true (List.mem_filter.1 he).2

theorem cleanup_lost (hlocked : s.locked = false) (htask : (s.heap r).task = none) :
    s.cleanup t r = (s.setExited r).finish t (.raised .assertionError) := by
  have hunlocked : (s.setExited r).locked = false :=
    (locked_of_core (setEvent_core s _)).trans hlocked
  have htask' : ((s.setExited r).heap r).task = none := by
    simpa [setExited, modify, setEvent] using htask
  unfold cleanup
  dsimp only
  rw [if_neg (by simp [hunlocked]), htask']

theorem finish_taskResult (hk : s.tasks t = some k) (res : TaskResult U) :
    (s.finish t res).taskResult t = some res := by
  simp [finish, setPc, taskResult, modifyTask, hk, Pc.result]

theorem cleanupDone_cleanedUp {l : List (TaskId × U)} (hstart : (s.heap r).pendingStart = false) :
    CleanedUp s (({ s.setExited r with running := l }).cleanupDone t r) r := by
  constructor <;>
    simp [cleanupDone, finish, setPc, modifyTask, clearEvent, setExited, modify, setEvent, hstart]

theorem Exits.cleansUp (h : Exits s r t) (hstep : Supervisor.step s (.resume t o) = some s')
    (hlast : s.lastSegment t o = true) :
    ∃ (s₀ : Supervisor U) (k₀ : UnitTask U), s' = s₀.cleanup t r ∧ s₀.tasks t = some k₀ ∧
      s₀.locked = s.locked ∧ s₀.running = s.running ∧
      s₀.heap r = { s.heap r with result := o.exitResult (s.heap r).result } := by
  obtain ⟨⟨u, pc, cancel⟩, hk, -, hpc⟩ := h
  obtain ⟨k', hk', hseg⟩ := Option.bind_eq_some_iff.1 hstep
  rw [hk] at hk'
  cases hk'
  cases hpc
  have hclear : (s.clearCancel t).tasks t = some ⟨u, .exiting r, false⟩ := tasks_clearCancel hk
  cases o with
  | suspend => simp [lastSegment, hk] at hlast
  | ok v =>
    cases hseg
    exact ⟨_, _, rfl, hclear, rfl, rfl, rfl⟩
  | raise e =>
    cases hseg
    refine ⟨_, _, rfl, hclear, rfl, rfl, ?_⟩
    simp [modify, clearCancel, modifyTask, Outcome.exitResult]

theorem CleanedUp.congr {s₀ : Supervisor U} {v : Val U}
    (hheap : s₀.heap r = { s.heap r with result := v }) (h : CleanedUp s₀ s' r) :
    CleanedUp s s' r := by
  refine ⟨?_, h.pendingStart, h.pendingStop, h.forcePendingStop, h.task, h.doneEntering,
    h.doneExiting⟩
  rw [h.status, hheap]

/-- **The end of a lifecycle**: the task returns the result, unless its `state.task` was lost and
the lock is not held; its entry stays, to be reported, if the lock is held. -/
theorem Exits.outcome (hw : WFOn (· = r.unit) s) (h : Exits s r t)
    (hstep : Supervisor.step s (.resume t o) = some s') (hlast : s.lastSegment t o = true) :
    (s.locked = true ∨ (s.heap r).task ≠ none →
      s'.taskResult t = some (.returned (o.exitResult (s.heap r).result)) ∧ CleanedUp s s' r ∧
        ((t, r.unit) ∈ s'.running ↔ s.locked = true)) ∧
    (¬ (s.locked = true ∨ (s.heap r).task ≠ none) →
      s'.taskResult t = some (.raised .assertionError)) := by
  obtain ⟨⟨k, hk, hfit⟩, href⟩ := h.fits hw
  obtain ⟨s₀, k₀, rfl, hk₀, hlocked, hrunning, hheap⟩ := h.cleansUp hstep hlast
  have htask : (s₀.heap r).task = (s.heap r).task := by rw [hheap]
  constructor
  · intro hkept
    have hin : t ∈ s₀.running.map (·.1) := by
      rw [hrunning]
      exact List.mem_map_of_mem hfit.entry
    have hentry : s₀.locked = true ∨ (s₀.heap r).task = some t := by
      rw [hlocked, htask]
      refine hkept.imp_right fun hne => ?_
      have htask' := hfit.live_task
      rw [show (s.view r.unit).st = s.heap r by rw [href]; rfl] at htask'
      exact htask'.resolve_left hne
    have hstart : (s₀.heap r).pendingStart = false := by
      obtain ⟨k', hk', -, hpc⟩ := h
      rw [hk] at hk'
      cases hk'
      have hfits := hfit.pcFits
      unfold PcFits at hfits
      rw [hpc] at hfits
      rw [hheap]
      show (s.heap r).pendingStart = false
      rw [href]
      exact hfits.2.2
    obtain ⟨l, hl, hkeeps, hdrops⟩ := cleanup_kept hin hentry
    rw [hl]
    refine ⟨?_, (cleanupDone_cleanedUp hstart).congr hheap, ?_⟩
    swap
    · show (t, r.unit) ∈ l ↔ s.locked = true
      rw [← hlocked]
      constructor
      · intro hmem
        by_contra hunlocked
        exact hdrops (Bool.eq_false_iff.2 hunlocked) _ hmem rfl
      · intro h
        rw [hkeeps h, hrunning]
        exact hfit.entry
    have hresult : o.exitResult (s.heap r).result =
        (({ s₀.setExited r with running := l } : Supervisor U).heap r).result := by
      simp [setExited, modify, setEvent, hheap]
    rw [hresult]
    exact finish_taskResult hk₀ _
  · intro hlost
    rw [not_or, not_not, Bool.not_eq_true] at hlost
    rw [cleanup_lost (hlocked.trans hlost.1) (htask.trans hlost.2)]
    exact finish_taskResult hk₀ _

theorem Exits.ends (hw : WFOn (· = r.unit) s) (h : Exits s r t)
    (hstep : Supervisor.step s (.resume t o) = some s') (hlast : s.lastSegment t o = true) :
    s'.taskResult t ≠ none := by
  obtain ⟨hkept, hlost⟩ := h.outcome hw hstep hlast
  by_cases hcond : s.locked = true ∨ (s.heap r).task ≠ none
  · simp [(hkept hcond).1]
  · simp [hlost hcond]

end

/-! ### What is documented -/

/-- The lifecycle ended as documented: what is fatal was propagated, anything else stored and
returned, the exit attempted, and the state left as after a normal end. -/
structure Documented (s s' : Supervisor U) (r : StateRef U) (p : Phases U) (res : TaskResult U) :
    Prop where
  propagated : (∃ e ∈ p.raised, e.isFatal = true) →
    ∃ e ∈ p.raised, e.isFatal = true ∧ res = .raised e
  stored : (∀ e ∈ p.raised, e.isFatal = false) →
    res = .returned p.result ∧ (s'.heap r).result = p.result
  exited : p.exit ≠ none
  cleanedUp : CleanedUp s s' r

section
variable {w w' : Observed U} {a : Action U} {u : U} {t : TaskId} {k : UnitTask U}
  {res : TaskResult U}

theorem Observed.Reachable.exits (h : w.Reachable u) (hstep : w.step a = some w')
    (hk : w.sup.tasks t = some k) (hu : k.unit = u) (hlive : w.sup.taskResult t = none)
    (hres : w'.sup.taskResult t = some res) :
    ∃ o, a = .resume t o ∧ Exits w.sup (w.sup.ref u) t ∧ w.sup.lastSegment t o = true := by
  obtain ⟨hw, -⟩ := h.agrees
  obtain ⟨s', hsup, rfl⟩ := Option.map_eq_some_iff.1 hstep
  by_cases hresume : ∃ o, a = .resume t o
  · obtain ⟨o, rfl⟩ := hresume
    obtain ⟨k', hk', hfin, hseg, -, hfit⟩ := resume_within hw hsup
    rw [hk] at hk'
    cases hk'
    have hlast : w.sup.lastSegment t o = true := by
      by_contra hlast
      have hnone := runSegment_unfinished hk hseg (hfit hu).1 (Bool.eq_false_iff.2 hlast)
      exact absurd (hnone.symm.trans hres) (by simp)
    obtain ⟨r, hpc⟩ : ∃ r, k.pc = .exiting r := by
      unfold lastSegment at hlast
      rw [hk] at hlast
      split at hlast
      · next heq => cases heq; exact ⟨_, rfl⟩
      · next heq => cases heq; exact ⟨_, rfl⟩
      · cases hlast
    have href : r = w.sup.ref k.unit := ref_of_live (hu ▸ hw) hk (by rw [hpc]; rfl)
    refine ⟨o, rfl, ⟨k, hk, hu, ?_⟩, hlast⟩
    rw [hpc, href, hu]
  · exfalso
    have hsame : s'.taskResult t = w.sup.taskResult t := by
      by_cases hother : ∃ t' o, a = .resume t' o
      · obtain ⟨t', o, rfl⟩ := hother
        obtain ⟨k', hk', hseg⟩ := Option.bind_eq_some_iff.1 hsup
        refine (runSegment_alone hseg).taskResult ?_
        rintro rfl
        exact hresume ⟨o, rfl⟩
      · exact (step_quiet hw (fun t' o h => hother ⟨t', o, h⟩) hsup).taskResult t
    exact absurd (hlive.symm.trans (hsame.symm.trans hres)) (by simp)

theorem Observed.Reachable.recorded {o : Outcome U} (h : w.Reachable u)
    (hstep : w.step (.resume t o) = some w') (hexits : Exits w.sup (w.sup.ref u) t)
    (hlast : w.sup.lastSegment t o = true) :
    (w'.phases t).exit ≠ none ∧
      (w'.phases t).result = o.exitResult (w.sup.state u).result := by
  obtain ⟨k, hk, hu, hpc⟩ := hexits
  obtain ⟨s', hsup, rfl⟩ := Option.map_eq_some_iff.1 hstep
  have hunit (k' : UnitTask U) (hk' : w.sup.tasks t = some k') : k'.unit = u := by
    rw [hk] at hk'
    cases hk'
    exact hu
  have hrec := h.agrees.2 t hunit
  unfold Recorded at hrec
  rw [show w.sup.pcOf t = some (.exiting (w.sup.ref u)) by simp [pcOf, hk, hpc]] at hrec
  have hphases : w.record (.resume t o) t = (w.phases t).after w.sup t k o := by
    simp only [record, hk, Function.update_self]
  show (w.record (.resume t o) t).exit ≠ none ∧ (w.record (.resume t o) t).result = _
  rw [hphases]
  unfold Phases.after
  rw [hpc]
  cases o with
  | suspend =>
    obtain ⟨v, pc, cancel⟩ := k
    cases hpc
    simp [lastSegment, hk] at hlast
  | ok v => exact ⟨by simp, (Phases.result_exited hrec.1).trans hrec.2⟩
  | raise e => exact ⟨by simp, Phases.result_exit _ e⟩

/-- **Exceptions are stored as documented, and none is propagated**: a lifecycle ends as documented
exactly if no phase of it raised `KeyboardInterrupt` or `SystemExit`, and the cleanup holds the lock
or finds its task. -/
theorem outcome_documented (h : w.Reachable u) (hstep : w.step a = some w')
    (hk : w.sup.tasks t = some k) (hu : k.unit = u) (hlive : w.sup.taskResult t = none)
    (hres : w'.sup.taskResult t = some res) :
    Documented w.sup w'.sup (w.sup.ref u) (w'.phases t) res ↔
      (∀ e ∈ (w'.phases t).raised, e.isFatal = false) ∧
        (w.sup.locked = true ∨ (w.sup.state u).task ≠ none) := by
  obtain ⟨o, rfl, hexits, hlast⟩ := h.exits hstep hk hu hlive hres
  obtain ⟨hexit, hresult⟩ := h.recorded hstep hexits hlast
  obtain ⟨s', hsup, rfl⟩ := Option.map_eq_some_iff.1 hstep
  have hstored := (hexits.ended hsup hlast).1
  obtain ⟨hkept, hlost⟩ := hexits.outcome h.agrees.1 hsup hlast
  rw [hres] at hkept hlost
  constructor
  · intro hdoc
    have hfatal (e : Exc U) (he : e ∈ (w.record (.resume t o) t).raised) : e.isFatal = false := by
      by_contra hfatal
      obtain ⟨e', -, hfatal', rfl⟩ := hdoc.propagated ⟨e, he, by simpa using hfatal⟩
      -- the task returned, or raised the `AssertionError` of the cleanup
      by_cases hcond : w.sup.locked = true ∨ (w.sup.state u).task ≠ none
      · cases (hkept hcond).1
      · cases hlost hcond
        cases hfatal'
    refine ⟨hfatal, ?_⟩
    by_contra hcond
    have hraised := hlost hcond
    rw [(hdoc.stored hfatal).1] at hraised
    cases hraised
  · rintro ⟨hraised, hcond⟩
    obtain ⟨hreturned, hclean, -⟩ := hkept hcond
    refine ⟨?_, fun _ => ⟨?_, hstored.trans hresult.symm⟩, hexit, hclean⟩
    · rintro ⟨e, he, hfatal⟩
      rw [hraised e he] at hfatal
      cases hfatal
    · rw [hresult]
      exact Option.some.inj hreturned

end

/-- Both the run and the exit fail. -/
theorem outcome_documented_both :
    ∃ w w' : Observed Nat, w.Reachable 0 ∧ w.step (.resume 0 (.raise (.other 2))) = some w' ∧
      (w'.phases 0).raised = [.other 1, .other 2] ∧
      Documented w.sup w'.sup (w.sup.ref 0) (w'.phases 0) (.returned (.exc (.other 2))) := by
  obtain ⟨w, hw, htask, hlive, hlocked, hend⟩ :=
    Reach.exists_of_runIn Observed.step (fun w a => RemovesIdle 0 w.sup a) ({} : Observed Nat)
    [.supervise [] .firstEventOrUnit, .addUnit 0 false false, .monitorStep, .wake [],
      .resume 0 .suspend, .resume 0 (.ok .none), .resume 0 (.raise (.other 1))]
    (p := fun w => w.sup.tasks 0 = some ⟨0, .exiting ⟨0, 1⟩, false⟩ ∧
      w.sup.taskResult 0 = none ∧ w.sup.locked = true ∧
      (w.step (.resume 0 (.raise (.other 2)))).any (fun w' => decide
        ((w'.phases 0).raised = [.other 1, .other 2] ∧
          w'.sup.taskResult 0 = some (.returned (.exc (.other 2))))) = true)
    (by decide +kernel)
  obtain ⟨w', hstep, hw'⟩ := (Option.any_eq_true ..).1 hend
  obtain ⟨hraised, hres⟩ := of_decide_eq_true hw'
  refine ⟨w, w', hw, hstep, hraised, ?_⟩
  apply (outcome_documented hw hstep htask rfl hlive hres).2
  rw [hraised]
  exact ⟨by decide, .inl hlocked⟩

/-- `run` raises `KeyboardInterrupt`, and the task returns it. -/
theorem interrupt_returned :
    ∃ w w' : Observed Nat, w.Reachable 0 ∧ w.step (.resume 0 (.ok .none)) = some w' ∧
      w.sup.taskResult 0 = none ∧ (w'.phases 0).raised = [.keyboardInterrupt] ∧
      w'.sup.taskResult 0 = some (.returned (.exc .keyboardInterrupt)) ∧
      ¬ Documented w.sup w'.sup (w.sup.ref 0) (w'.phases 0)
        (.returned (.exc .keyboardInterrupt)) := by
  obtain ⟨w, hw, hlive, hend⟩ :=
    Reach.exists_of_runIn Observed.step (fun w a => RemovesIdle 0 w.sup a) ({} : Observed Nat)
    [.supervise [] .firstEventOrUnit, .addUnit 0 false false, .monitorStep, .wake [],
      .resume 0 .suspend, .resume 0 (.ok .none), .resume 0 (.raise .keyboardInterrupt)]
    (p := fun w => w.sup.taskResult 0 = none ∧
      (w.step (.resume 0 (.ok .none))).any (fun w' => decide
        ((w'.phases 0).raised = [.keyboardInterrupt] ∧
          w'.sup.taskResult 0 = some (.returned (.exc .keyboardInterrupt)))) = true)
    (by decide +kernel)
  obtain ⟨w', hstep, hw'⟩ := (Option.any_eq_true ..).1 hend
  obtain ⟨hraised, hres⟩ := of_decide_eq_true hw'
  refine ⟨w, w', hw, hstep, hlive, hraised, hres, fun hdoc => ?_⟩
  obtain ⟨e, -, -, hpropagated⟩ := hdoc.propagated ⟨_, by rw [hraised]; exact .head _, rfl⟩
  cases hpropagated

/-! ### What is reported -/

/-- What the calls have in their `done_units` are results of their tasks. -/
def Truthful (s : Supervisor U) : Prop :=
  ∀ d ∈ s.returns.flatMap (·.doneUnits) ++ s.loop.doneUnits,
    s.taskResult d.2.1 = some (.returned d.2.2)

section
variable {s s' : Supervisor U} {T : U → Prop}

theorem Truthful.of_subset (h : Truthful s)
    (hsub : ∀ d ∈ s'.loop.doneUnits, d ∈ s.loop.doneUnits ∨
      s'.taskResult d.2.1 = some (.returned d.2.2))
    (hreturns : ∀ d ∈ s'.returns.flatMap (·.doneUnits),
      d ∈ s.returns.flatMap (·.doneUnits) ++ s.loop.doneUnits)
    (hresult : ∀ t res, s.taskResult t = some res → s'.taskResult t = some res) :
    Truthful s' := by
  intro d hd
  rcases List.mem_append.1 hd with hd | hd
  · exact hresult _ _ (h d (hreturns d hd))
  · rcases hsub d hd with hold | hnew
    · exact hresult _ _ (h d (List.mem_append_right _ hold))
    · exact hnew

theorem takeUnits_truthful (order : List TaskId) {s : Supervisor U} {c : Call U}
    {d : U × TaskId × Val U} (hd : d ∈ (takeUnits order s c).2.1.doneUnits) :
    d ∈ c.doneUnits ∨ s.taskResult d.2.1 = some (.returned d.2.2) := by
  induction order generalizing s c with
  | nil => exact .inl hd
  | cons t ts ih =>
    unfold takeUnits at hd
    split at hd
    · next t' u v _ hres =>
      rcases ih hd with hin | hnew
      · rcases List.mem_append.1 hin with hold | htaken
        · exact .inl (List.mem_filter.1 hold).1
        · rw [List.mem_singleton.1 htaken]
          exact .inr hres
      · rw [taskResult_closeTask] at hnew
        exact .inr hnew
    · exact .inl hd
    · exact ih hd

theorem takeUnits_kept (order : List TaskId) (s : Supervisor U) (c : Call U) :
    (takeUnits order s c).1.returns = s.returns ∧
      ∀ t, (takeUnits order s c).1.taskResult t = s.taskResult t := by
  induction order generalizing s c with
  | nil => exact ⟨rfl, fun _ => rfl⟩
  | cons t ts ih =>
    unfold takeUnits
    split
    · next u v _ _ =>
      obtain ⟨hreturns, hresult⟩ := ih (s.closeTask t u) (c.takeUnit t u v)
      exact ⟨hreturns.trans (closeTask_running s t u).2.2,
        fun t' => (hresult t').trans (taskResult_closeTask s t t' u)⟩
    · exact ⟨rfl, fun _ => rfl⟩
    · exact ih s c

theorem wakeUp_truthful {c : Call U} (order : List TaskId) (hw : WFOn T s)
    (hloop : s.loop = .waiting c) :
    (s.wakeUp c order).returns = s.returns ∧
      ∀ d ∈ (s.wakeUp c order).loop.doneUnits, d ∈ c.doneUnits ∨
        (s.wakeUp c order).taskResult d.2.1 = some (.returned d.2.2) := by
  have hhandles := (wakeCommands_evolves hw hloop).2
  have hquiet : Quiet s (s.wakeUp c order) := wakeUp_quiet hw hloop
  have hcall : c.renewMonitor.takeEvents.doneUnits = c.doneUnits := by
    unfold Call.renewMonitor
    split <;> rfl
  have htaken (s₁ : Supervisor U) (hresult : ∀ t, s₁.taskResult t = s.taskResult t)
      (d : U × TaskId × Val U)
      (hd : d ∈ (takeUnits order s₁ c.renewMonitor.takeEvents).2.1.doneUnits) :
      d ∈ c.doneUnits ∨ (s.wakeUp c order).taskResult d.2.1 = some (.returned d.2.2) := by
    rw [hquiet.taskResult, ← hresult, ← hcall]
    exact takeUnits_truthful order hd
  have hkept (s₁ : Supervisor U) := takeUnits_kept order s₁ c.renewMonitor.takeEvents
  revert htaken
  unfold wakeUp
  generalize s.wakeCommands c = r at hhandles
  obtain ⟨s₁, err⟩ := r
  have hreturns₁ : s₁.returns = s.returns := hhandles.returns
  intro htaken
  cases err with
  | some e => exact ⟨hreturns₁, fun d hd => .inl hd⟩
  | none =>
    replace htaken := htaken s₁ hhandles.result
    replace hkept := hkept s₁
    dsimp only at htaken hkept ⊢
    generalize takeUnits order s₁ c.renewMonitor.takeEvents = r at htaken hkept ⊢
    obtain ⟨s₂, c₂, err⟩ := r
    have hreturns₂ : s₂.returns = s.returns := hkept.1.trans hreturns₁
    cases err with
    | some e => exact ⟨hreturns₂, htaken⟩
    | none =>
      dsimp only at htaken ⊢
      split
      · next hret => rw [if_pos hret] at htaken; exact ⟨hreturns₂, htaken⟩
      · next hret =>
        rw [if_neg hret] at htaken
        exact ⟨(restartReady_requests s₂).returns.trans hreturns₂, htaken⟩

theorem Truthful.step {a : Action U} (hw : WFOn T s) (h : Truthful s)
    (hstep : Supervisor.step s a = some s') : Truthful s' := by
  have hresult (t : TaskId) (res : TaskResult U) (hres : s.taskResult t = some res) :
      s'.taskResult t = some res := step_result hw hstep hres
  have hsame (hloop : s'.loop.doneUnits = s.loop.doneUnits) (hreturns : s'.returns = s.returns) :
      Truthful s' := by
    refine h.of_subset (fun d hd => .inl (hloop ▸ hd)) (fun d hd => ?_) hresult
    rw [hreturns] at hd
    exact List.mem_append_left _ hd
  have hrequest (hr : Requests s s') : Truthful s' := hsame (by rw [hr.loop]) hr.returns
  have hcore (hloop : s'.loop.core = s.loop.core) (hreturns : s'.returns = s.returns) :
      Truthful s' := by
    refine hsame ?_ hreturns
    rw [← Loop.doneUnits_books, Loop.books_of_core hloop, Loop.doneUnits_books]
  have hsupervise {s₁ : Supervisor U} (hr : Requests s s₁) (events : List (EventRef U))
      (rw : ReturnWhen) (heq : s' = s₁.superviseUntil events rw) : Truthful s' := by
    refine h.of_subset (fun d hd => ?_) (fun d hd => ?_) hresult
    · rw [heq] at hd
      cases hd
    · rw [heq, show (s₁.superviseUntil events rw).returns = s.returns from
        (restartReady_requests s₁).returns.trans hr.returns] at hd
      exact List.mem_append_left _ hd
  cases a with
  | addUnit u restart stopped => cases hstep; exact hrequest (addUnit_requests s u restart stopped)
  | removeUnit u => cases hstep; exact hrequest (removeUnitNowait_requests s u)
  | startUnit u => cases hstep; exact hrequest (startUnitNowait_requests s u)
  | stopUnit u force => cases hstep; exact hrequest (stopUnitNowait_requests s u force)
  | setEvent n => cases hstep; exact hcore (setEvent_core s _) rfl
  | clearEvent n => cases hstep; exact hsame rfl rfl
  | resume t o =>
    obtain ⟨k, -, -, -, hwithin, -⟩ := resume_within hw hstep
    exact hcore hwithin.loop hwithin.returns
  | monitorStep =>
    simp only [Supervisor.step, Supervisor.monitorStep] at hstep
    split at hstep
    · next c hloop => split at hstep <;> cases hstep <;> exact hsame (by rw [hloop]; rfl) rfl
    · cases hstep
  | helperStep e =>
    simp only [Supervisor.step, Supervisor.helperStep] at hstep
    split at hstep
    · next c hloop =>
      split at hstep
      · obtain ⟨h', -, rfl⟩ := Option.map_eq_some_iff.1 hstep
        exact hsame (by rw [hloop]; rfl) rfl
      · cases hstep
    · cases hstep
  | supervise events rw =>
    simp only [Supervisor.step] at hstep
    split at hstep
    · cases hstep; exact hsupervise ⟨rfl, rfl, rfl, rfl, rfl⟩ events rw rfl
    · cases hstep
  | wake order =>
    simp only [Supervisor.step, Supervisor.wake] at hstep
    split at hstep
    · next c hloop =>
      split at hstep
      · cases hstep
        obtain ⟨hreturns, hdone⟩ := wakeUp_truthful order hw hloop
        refine h.of_subset (fun d hd => ?_) (fun d hd => ?_) hresult
        · rw [hloop]
          exact hdone d hd
        · rw [hreturns] at hd
          exact List.mem_append_left _ hd
      · cases hstep
    · cases hstep
  | leave =>
    simp only [Supervisor.step, Supervisor.leave] at hstep
    split at hstep
    · next c hloop =>
      cases hstep
      refine h.of_subset (fun d hd => by cases hd) (fun d hd => ?_) hresult
      rw [hloop]
      rwa [List.flatMap_append, List.flatMap_singleton] at hd
    · cases hstep
      exact h.of_subset (fun d hd => by cases hd) (fun d hd => List.mem_append_left _ hd) hresult
    · cases hstep
  | cancel =>
    simp only [Supervisor.step, Supervisor.cancelCall] at hstep
    split at hstep
    · next c hloop => cases hstep; exact hsame (by rw [hloop]; rfl) rfl
    · next c err hloop => cases hstep; exact hsame (by rw [hloop]; rfl) rfl
    · cases hstep
  | stop =>
    simp only [Supervisor.step] at hstep
    split at hstep
    · cases hstep
      have hr := stopAll_requests s
      by_cases hbusy : 0 < s.stopAll.running.length ∨ s.stopAll.queue ≠ []
      · exact hsupervise hr [] .allUnits (if_pos hbusy)
      · have heq : s.stop = s.stopAll := if_neg hbusy
        exact hrequest (heq ▸ hr)
    · cases hstep

end

/-! ### An enter that raises -/

/-- Task `t` awaits the enter of `u`. -/
def Enters (s : Supervisor U) (u : U) (t : TaskId) : Prop :=
  ∃ k r, s.tasks t = some k ∧ k.unit = u ∧ k.pc = .entering r

/-- Task `t` is in the exit of `u`, and its result is `e`. -/
def FailedWith (s : Supervisor U) (u : U) (t : TaskId) (e : Exc U) : Prop :=
  Exits s (s.ref u) t ∧ (s.state u).result = .exc e

section
variable {s s' : Supervisor U} {u : U} {t t' : TaskId} {e : Exc U} {o : Outcome U} {a : Action U}

theorem Enters.live (h : Enters s u t) : s.Live t u := by
  obtain ⟨k, r, hk, hu, hpc⟩ := h
  exact ⟨k, hk, hu, by rw [hpc]; rfl⟩

theorem FailedWith.live (h : FailedWith s u t e) : s.Live t u := by
  obtain ⟨⟨k, hk, hu, hpc⟩, -⟩ := h
  exact ⟨k, hk, hu, by rw [hpc]; rfl⟩

theorem FailedWith.unfinished (h : FailedWith s u t e) : s.taskResult t = none := by
  obtain ⟨⟨k, hk, -, hpc⟩, -⟩ := h
  simp [taskResult, hk, hpc, Pc.result]

/-- No task of the unit enters while another is in its exit. -/
theorem FailedWith.not_enters (hw : WFOn (· = u) s) (h : FailedWith s u t e) : ¬ Enters s u t' := by
  intro henters
  obtain rfl := live_unique hw h.live henters.live
  obtain ⟨⟨k, hk, -, hpc⟩, -⟩ := h
  obtain ⟨k', r, hk', -, hpc'⟩ := henters
  rw [hk] at hk'
  cases hk'
  rw [hpc] at hpc'
  cases hpc'

theorem Enters.step {T : U → Prop} (hw : WFOn T s) (h : Enters s u t)
    (ha : ∀ o, a ≠ .resume t o) (hstep : Supervisor.step s a = some s') : Enters s' u t := by
  obtain ⟨k, r, hk, hu, hpc⟩ := h
  have hkept := step_pc hw ha hstep (by simp [hk])
  rw [hk] at hkept
  obtain ⟨k', hk', heq⟩ := Option.map_eq_some_iff.1 hkept
  have heq' := Prod.mk.inj heq
  exact ⟨k', r, hk', heq'.1.trans hu, heq'.2.trans hpc⟩

theorem FailedWith.step (hw : WFOn (· = u) s) (hw' : WFOn (· = u) s') (h : FailedWith s u t e)
    (ha : ∀ o, a ≠ .resume t o) (hstep : Supervisor.step s a = some s') :
    FailedWith s' u t e := by
  obtain ⟨hexits, hresult⟩ := Exits.step (r := s.ref u) hw h.1 hstep ha
  obtain ⟨-, href⟩ := hexits.fits hw'
  refine ⟨href ▸ hexits, ?_⟩
  rw [state, ← show s.ref u = s'.ref u from href, hresult]
  exact h.2

theorem Enters.raised (hw : WFOn (· = u) s) (hw' : WFOn (· = u) s') (h : Enters s u t)
    (hstep : Supervisor.step s (.resume t (.raise e)) = some s') : FailedWith s' u t e := by
  obtain ⟨⟨v, pc, cancel⟩, r, hk, rfl, hpc⟩ := h
  cases hpc
  obtain rfl : r = s.ref v := ref_of_live hw hk rfl
  obtain ⟨k', hk', hseg⟩ := Option.bind_eq_some_iff.1 hstep
  rw [hk] at hk'
  cases hk'
  cases hseg
  have hclear : (s.clearCancel t).tasks t = some ⟨v, .entering (s.ref v), false⟩ :=
    tasks_clearCancel hk
  refine ⟨exitUnit_exits hclear rfl, ?_⟩
  simp [state, ref, phaseFailed, exitUnit, setPc, modifyTask, log, modify, setEvent, clearCancel]

theorem Exits.enabled {r : StateRef U} (h : Exits s r t) (ho : o ≠ .suspend) :
    ∃ s', Supervisor.step s (.resume t o) = some s' ∧ s.lastSegment t o = true := by
  obtain ⟨⟨v, pc, cancel⟩, hk, -, hpc⟩ := h
  cases hpc
  cases o with
  | suspend => exact absurd rfl ho
  | ok v => exact ⟨_, by rw [Supervisor.step, resume, hk]; rfl, by simp [lastSegment, hk]⟩
  | raise e => exact ⟨_, by rw [Supervisor.step, resume, hk]; rfl, by simp [lastSegment, hk]⟩

end

end Silkjam.Supervisor
