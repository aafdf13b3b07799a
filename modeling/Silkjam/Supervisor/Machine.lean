import Silkjam.Supervisor.View

/-!
# What can happen to one unit

`Move l v v'` lists every change a step can make to the view of a unit, with the guard under which
the code makes it: this is the supervisor as one unit sees it. Every invariant about a unit is an
invariant of this small machine, and `Simulation` shows once that the steps of the whole supervisor
move every unit by `Move`.

`Fits` says in which situations a unit can be (`Slot`): idle, waiting for a START, or with one
unfinished task, whose position determines the status and the flags. It is kept by every move
(`Move.placed`), except that removing a unit needs `Registered`: the unit's `state.task` is not lost
while its task lives.
-/

namespace Silkjam

/-- The unit is READY or STOPPED. -/
def Status.isOff : Status → Bool
  | .ready | .stopped => true
  | _ => false

namespace Supervisor

variable {U : Type}

inductive Label where
  | add | remove
  /-- `start_unit_nowait`, called by a coroutine or by the loop -/
  | start | restart
  | stop
  | handle (c : Command)
  /-- a segment of the unit's task, and the last one -/
  | segment | finish
  /-- the loop takes note of a finished task -/
  | close
  /-- a command is lost with a cancelled call -/
  | lose (c : Command)
  deriving DecidableEq

/-- The state after the cleanup at the end of `_run_unit`, `state.task` apart. -/
def State.cleaned (st : State U) : State U :=
  { st with
    status := if st.pendingStop || !st.restart then .stopped else .ready
    pendingStop := false
    forcePendingStop := false }

/-- The state as the exit begins. -/
def State.atExit (st : State U) (v : Val U) : State U :=
  { st with result := v, pendingStart := false, status := .exiting }

/-- The handler cancels the task for a STOP. -/
def State.stopCancels (st : State U) : Prop :=
  (st.status = .entering ∧ st.forcePendingStop) ∨ (st.status ≠ .entering ∧ ¬ st.pendingStart)

inductive Move : Label → View U → View U → Prop where
  | add {v} (restart : Bool) (status : Status) : ¬ v.registered → status.isOff →
      Move .add v
        { v with
          registered := True
          ref := ⟨v.ref.unit, v.ref.gen + 1⟩
          st := { restart := restart, status := status } }
  | remove {v} : v.registered → v.st.task = none → v.st.pendingStart = false →
      Move .remove v { v with registered := False }
  | queueStart {v l} : l = .start ∨ l = .restart ∧ v.st.restart ∧ v.st.status = .ready →
      v.registered → v.st.pendingStop = false → v.st.status.isOff → v.st.pendingStart = false →
      Move l v
        { v with
          st := { v.st with pendingStart := true, status := .ready }
          starts := v.starts + 1
          trace := .queued .start v.ref.unit :: v.trace }
  | markReady {v} : v.registered → v.st.pendingStop = false → v.st.status.isOff →
      v.st.pendingStart = true →
      Move .start v { v with st := { v.st with status := .ready } }
  | queueStop {v} (force : Bool) : v.registered → v.st.pendingStop = false →
      (v.st.status.isOff ∧ v.st.pendingStart ∨ v.st.status = .entering ∨ v.st.status = .running) →
      Move .stop v
        { v with
          st := { v.st with
            pendingStop := true, forcePendingStop := v.st.forcePendingStop || force }
          stops := v.stops + 1
          trace := .queued .stop v.ref.unit :: v.trace }
  | markStopped {v} : v.registered → v.st.status.isOff → v.st.pendingStart = false →
      Move .stop v { v with st := { v.st with status := .stopped } }
  | stopExiting {v} : v.registered → v.st.status = .exiting →
      Move .stop v { v with st := { v.st with pendingStop := true } }
  | startTask {v n} (t : TaskId) : v.starts = n + 1 → v.registered → v.st.task = none →
      v.tasks t = none →
      Move (.handle .start) v
        { v with
          starts := n
          st := { v.st with task := some t }
          tasks := Function.update v.tasks t (some { unit := v.ref.unit })
          entries := fun t' => v.entries t' ∨ t' = t
          trace := .handled .start v.ref.unit true none none :: v.trace }
  | startFailed {v n reg} (e : Exc U) : v.starts = n + 1 → (¬ v.registered ∨ v.st.task ≠ none) →
      (reg = true ↔ v.registered) →
      Move (.handle .start) v
        { v with
          starts := n
          trace := .handled .start v.ref.unit reg v.st.task (some e) :: v.trace }
  | stopIgnored {v n} : v.stops = n + 1 → v.registered → ¬ v.st.stopCancels →
      Move (.handle .stop) v
        { v with
          stops := n
          trace := .handled .stop v.ref.unit true v.st.task none :: v.trace }
  | stopCancel {v n} (t : TaskId) (k : UnitTask U) : v.stops = n + 1 → v.registered → v.st.stopCancels →
      v.st.task = some t → v.tasks t = some k →
      Move (.handle .stop) v
        { v with
          stops := n
          tasks := Function.update v.tasks t (some { k with cancel := true })
          trace := .handled .stop v.ref.unit true v.st.task none ::
            .cancel t v.ref.unit v.st.status :: v.trace }
  | stopFailed {v n reg} (e : Exc U) : v.stops = n + 1 →
      (¬ v.registered ∨ v.st.stopCancels ∧ v.st.task = none) → (reg = true ↔ v.registered) →
      Move (.handle .stop) v
        { v with
          stops := n
          trace := .handled .stop v.ref.unit reg v.st.task (some e) :: v.trace }
  | beginForced {v} (t : TaskId) (k : UnitTask U) : v.tasks t = some k → k.pc = .created →
      v.st.pendingStop → v.st.forcePendingStop → v.st.task = some t →
      Move .segment v
        { v with
          st := { v.st with result := .none, status := .entering }
          tasks := Function.update v.tasks t (some { k with pc := .enterSleep v.ref, cancel := true })
          trace := .cancel t v.ref.unit .entering :: v.trace }
  | begin {v} (t : TaskId) (k : UnitTask U) : v.tasks t = some k → k.pc = .created →
      ¬ (v.st.pendingStop ∧ v.st.forcePendingStop) →
      Move .segment v
        { v with
          st := { v.st with result := .none, status := .entering }
          tasks := Function.update v.tasks t (some { k with pc := .entering v.ref, cancel := false })
          trace := .enter t v.ref.unit :: v.trace }
  | enteredStopped {v} (t : TaskId) (k : UnitTask U) : v.tasks t = some k → k.pc = .entering v.ref →
      v.st.pendingStop → v.st.task = some t →
      Move .segment v
        { v with
          st := { v.st with pendingStart := false, status := .running }
          tasks := Function.update v.tasks t (some { k with pc := .runSleep v.ref, cancel := true })
          trace := .cancel t v.ref.unit .running :: v.trace }
  | entered {v} (t : TaskId) (k : UnitTask U) : v.tasks t = some k → k.pc = .entering v.ref →
      v.st.pendingStop = false →
      Move .segment v
        { v with
          st := { v.st with pendingStart := false, status := .running }
          tasks := Function.update v.tasks t (some { k with pc := .running v.ref, cancel := false })
          trace := .run t v.ref.unit :: v.trace }
  /-- Entering or running ends, or `_stop_unit` fails on a `state.task` that was lost: to the
  exit. -/
  | toExit {v} (t : TaskId) (k : UnitTask U) (val : Val U) : v.tasks t = some k →
      (k.pc = .enterSleep v.ref ∨ k.pc = .entering v.ref ∨ k.pc = .runSleep v.ref ∨
        k.pc = .running v.ref ∨ k.pc = .created ∧ v.st.task = none) →
      Move .segment v
        { v with
          st := v.st.atExit val
          tasks := Function.update v.tasks t (some { k with pc := .exiting v.ref, cancel := false })
          trace := .exit t v.ref.unit :: v.trace }
  /-- A cancellation is swallowed by the unit. -/
  | suspend {v} (t : TaskId) (k : UnitTask U) : v.tasks t = some k →
      (k.pc = .entering v.ref ∨ k.pc = .running v.ref ∨ k.pc = .exiting v.ref) →
      Move .segment v
        { v with tasks := Function.update v.tasks t (some { k with cancel := false }) }
  /-- The end of the lifecycle; `drop` says whether the task removed its own entry. -/
  | finish {v} (t : TaskId) (k : UnitTask U) (val : Val U) (drop : Bool) : v.tasks t = some k →
      k.pc = .exiting v.ref → (drop → v.st.task = some t) →
      Move .finish v
        { v with
          st := { { v.st with result := val }.cleaned with task := none }
          tasks := Function.update v.tasks t none
          entries := fun t' => v.entries t' ∧ (drop → t' ≠ t) }
  | close {v} (t : TaskId) (task : Option TaskId) : v.entries t → v.tasks t = none →
      (task = none ∨ ¬ v.registered ∧ task = v.st.task) →
      Move .close v
        { v with
          st := { v.st with task := task }
          entries := fun t' => v.entries t' ∧ t' ≠ t }
  | loseStart {v n} : v.starts = n + 1 → Move (.lose .start) v { v with starts := n }
  | loseStop {v n} : v.stops = n + 1 → Move (.lose .stop) v { v with stops := n }

/-! ### The situations of a unit -/

inductive Slot (U : Type) where
  | idle
  /-- a START is on its way to the handler, or was lost -/
  | queued
  /-- the unit's one unfinished task, and its record -/
  | live (t : TaskId) (k : UnitTask U)

/-- Status and flags of a unit whose task is where `k` says. -/
def PcFits (v : View U) (k : UnitTask U) : Prop :=
  match k.pc with
  | .created => v.st.status = .ready ∧ v.st.pendingStart = true ∧ k.cancel = false
  | .enterSleep r => r = v.ref ∧ v.st.status = .entering ∧ v.st.pendingStart = true ∧
      v.st.pendingStop = true ∧ k.cancel = true
  | .entering r => r = v.ref ∧ v.st.status = .entering ∧ v.st.pendingStart = true
  | .runSleep r => r = v.ref ∧ v.st.status = .running ∧ v.st.pendingStart = false ∧
      v.st.pendingStop = true ∧ k.cancel = true
  | .running r => r = v.ref ∧ v.st.status = .running ∧ v.st.pendingStart = false
  | .exiting r => r = v.ref ∧ v.st.status = .exiting ∧ v.st.pendingStart = false
  | .finished _ => False

def NoTasks (v : View U) : Prop := ∀ t, v.tasks t = none

def Fits (v : View U) : Slot U → Prop
  | .idle => v.starts = 0 ∧ NoTasks v ∧ v.st.task = none ∧
      (v.registered → v.st.status.isOff ∧ v.st.pendingStart = false ∧
        v.st.pendingStop = false ∧ v.st.forcePendingStop = false)
  | .queued => v.starts ≤ 1 ∧ NoTasks v ∧ v.registered ∧ v.st.task = none ∧
      v.st.status = .ready ∧ v.st.pendingStart = true
  | .live t k => v.starts = 0 ∧ (∀ t', v.tasks t' = if t' = t then some k else none) ∧
      v.registered ∧ (v.st.task = none ∨ v.st.task = some t) ∧ v.entries t ∧ k.unit = v.ref.unit ∧
      PcFits v k

/-- The unit's `state.task` is its unfinished task. -/
def Registered (v : View U) : Prop := ∀ t, v.tasks t ≠ none → v.st.task = some t

/-- A view some slot fits. -/
def Placed (v : View U) : Prop := ∃ slot, Fits v slot

section
variable {v : View U} {t : TaskId} {k : UnitTask U}

theorem Fits.isOff (h : Fits v .idle) (hreg : v.registered) : v.st.status.isOff = true :=
  (h.2.2.2 hreg).1

theorem Fits.not_pendingStart (h : Fits v .idle) (hreg : v.registered) :
    v.st.pendingStart = false :=
  (h.2.2.2 hreg).2.1

theorem Fits.not_pendingStop (h : Fits v .idle) (hreg : v.registered) : v.st.pendingStop = false :=
  (h.2.2.2 hreg).2.2.1

theorem Fits.queued_registered (h : Fits v .queued) : v.registered := h.2.2.1

theorem Fits.queued_task (h : Fits v .queued) : v.st.task = none := h.2.2.2.1

theorem Fits.ready (h : Fits v .queued) : v.st.status = .ready := h.2.2.2.2.1

theorem Fits.pendingStart (h : Fits v .queued) : v.st.pendingStart = true := h.2.2.2.2.2

theorem Fits.live_tasks (h : Fits v (.live t k)) (t' : TaskId) :
    v.tasks t' = if t' = t then some k else none :=
  h.2.1 t'

theorem Fits.update_none (h : Fits v (.live t k)) (t' : TaskId) :
    Function.update v.tasks t none t' = none := by
  simp only [Function.update_apply, h.live_tasks t']
  split <;> rfl

theorem Fits.live_registered (h : Fits v (.live t k)) : v.registered := h.2.2.1

theorem Fits.live_task (h : Fits v (.live t k)) : v.st.task = none ∨ v.st.task = some t :=
  h.2.2.2.1

theorem Fits.entry (h : Fits v (.live t k)) : v.entries t := h.2.2.2.2.1

theorem Fits.pcFits (h : Fits v (.live t k)) : PcFits v k := h.2.2.2.2.2.2

end

theorem Placed.live {v : View U} {t : TaskId} {k : UnitTask U} (hp : Placed v)
    (ht : v.tasks t = some k) : Fits v (.live t k) := by
  obtain ⟨slot, hs⟩ := hp
  cases slot with
  | idle => rw [hs.2.1 t] at ht; cases ht
  | queued => rw [hs.2.1 t] at ht; cases ht
  | live t' k' =>
    rw [hs.2.1 t] at ht
    split at ht
    · next h => subst h; cases ht; exact hs
    · cases ht

theorem Placed.queued {v : View U} (hp : Placed v) (h : v.starts ≠ 0) : Fits v .queued := by
  obtain ⟨slot, hs⟩ := hp
  cases slot with
  | idle => exact absurd hs.1 h
  | queued => exact hs
  | live t k => exact absurd hs.1 h

/-- The handler can start a unit with a START on its way. -/
theorem Placed.start_fine {v : View U} {n : Nat} (hp : Placed v) (hstarts : v.starts = n + 1) :
    ¬ (¬ v.registered ∨ v.st.task ≠ none) := by
  have hs := hp.queued (by omega)
  rintro (hreg | htask)
  · exact hreg hs.queued_registered
  · exact htask hs.queued_task

theorem Placed.idle {v : View U} (hp : Placed v) (hn : NoTasks v) (h : v.st.pendingStart = false) :
    Fits v .idle := by
  obtain ⟨slot, hs⟩ := hp
  cases slot with
  | idle => exact hs
  | queued => simp [hs.pendingStart] at h
  | live t k => have := hs.live_tasks t; rw [hn t] at this; simp at this

theorem Placed.live_of_status {v : View U} (hp : Placed v) (hreg : v.registered)
    (hst : v.st.status.isOff = false) : ∃ t k, Fits v (.live t k) := by
  obtain ⟨slot, hs⟩ := hp
  cases slot with
  | idle => simp [hs.isOff hreg] at hst
  | queued =>
    rw [hs.ready] at hst
    cases hst
  | live t k => exact ⟨t, k, hs⟩

theorem Placed.task_live {v : View U} {t : TaskId} (hp : Placed v) (ht : v.st.task = some t) :
    ∃ k, v.tasks t = some k := by
  obtain ⟨slot, hs⟩ := hp
  cases slot with
  | idle => simp [hs.2.2.1] at ht
  | queued => simp [hs.queued_task] at ht
  | live t' k =>
    obtain rfl : t' = t := by simpa [ht, eq_comm] using hs.live_task
    exact ⟨k, by simp [hs.live_tasks t']⟩

theorem Placed.live_unique {v : View U} {t t' : TaskId} (hp : Placed v) (ht : v.tasks t ≠ none)
    (ht' : v.tasks t' ≠ none) : t = t' := by
  obtain ⟨k, hk⟩ := Option.ne_none_iff_exists'.1 ht
  by_contra hne
  simp [(hp.live hk).live_tasks t', Ne.symm hne] at ht'

section
variable {v : View U} {t : TaskId} {k k' : UnitTask U} {st : State U} {stops : Nat}
  {trace : List (Obs U)}

/-- The task of a unit moves on to the record `k'`. -/
theorem Fits.live_update (h : Fits v (.live t k)) (htask : st.task = v.st.task)
    (hunit : k'.unit = k.unit) (hpc : PcFits { v with st := st } k') :
    Placed { v with
      st := st
      tasks := Function.update v.tasks t (some k')
      stops := stops
      trace := trace } := by
  obtain ⟨hstarts, htasks, hreg, hst, hentry, hu, -⟩ := h
  rw [← htask] at hst
  refine ⟨.live t k', hstarts, ?_, hreg, hst, hentry, hunit.trans hu, hpc⟩
  intro t'
  simp only [Function.update_apply, htasks t']
  split <;> rfl

theorem Fits.live_state (h : Fits v (.live t k)) (htask : st.task = v.st.task)
    (hpc : PcFits { v with st := st } k) :
    Placed { v with st := st, stops := stops, trace := trace } := by
  obtain ⟨hstarts, htasks, hreg, hst, hentry, hu, -⟩ := h
  rw [← htask] at hst
  exact ⟨.live t k, hstarts, htasks, hreg, hst, hentry, hu, hpc⟩

/-- Where the task is does not depend on the flags of a stop, once they are set. -/
theorem PcFits.of_stop (h : PcFits v k) (hstatus : st.status = v.st.status)
    (hstart : st.pendingStart = v.st.pendingStart) (hstop : st.pendingStop = true) :
    PcFits { v with st := st } k := by
  unfold PcFits at h ⊢
  split at h <;> simp_all

theorem Fits.created_of_isOff (h : Fits v (.live t k)) (hoff : v.st.status.isOff = true) :
    k.pc = .created ∧ v.st.pendingStart = true ∧ k.cancel = false := by
  have hpc := h.pcFits
  unfold PcFits at hpc
  split at hpc <;> simp_all [Status.isOff]

theorem Fits.created (h : Fits v (.live t k)) (hpc : k.pc = .created) :
    v.st.pendingStart = true := by
  have hps := h.pcFits
  simp only [PcFits, hpc] at hps
  exact hps.2.1

theorem Fits.exiting {r : StateRef U} (h : Fits v (.live t k)) (hpc : k.pc = .exiting r) :
    v.st.pendingStart = false := by
  have hps := h.pcFits
  simp only [PcFits, hpc] at hps
  exact hps.2.2

end

theorem Placed.idle_of_unregistered {v : View U} (hp : Placed v) (hreg : ¬ v.registered) :
    Fits v .idle := by
  obtain ⟨slot, hs⟩ := hp
  cases slot with
  | idle => exact hs
  | queued => exact absurd hs.queued_registered hreg
  | live t k => exact absurd hs.live_registered hreg

theorem Placed.idle_of_isOff {v : View U} (hp : Placed v) (hoff : v.st.status.isOff = true)
    (hps : v.st.pendingStart = false) : Fits v .idle := by
  obtain ⟨slot, hs⟩ := hp
  cases slot with
  | idle => exact hs
  | queued => simp [hs.pendingStart] at hps
  | live t k => simp [(hs.created_of_isOff hoff).2.1] at hps

theorem Move.placed {l : Label} {v v' : View U} (h : Move l v v') (hp : Placed v)
    (hr : l = .remove → Registered v) : Placed v' := by
  cases h with
  | add restart status hreg hoff =>
    have hs := hp.idle_of_unregistered hreg
    exact ⟨.idle, hs.1, hs.2.1, rfl, fun _ => ⟨hoff, rfl, rfl, rfl⟩⟩
  | remove hreg htask hps =>
    obtain ⟨slot, hs⟩ := hp
    cases slot with
    | idle => exact ⟨.idle, hs.1, hs.2.1, hs.2.2.1, by simp⟩
    | queued => simp [hs.pendingStart] at hps
    | live t k =>
      have := hr rfl t (by simp [hs.live_tasks t])
      simp [htask] at this
  | queueStart hl hreg hstop hoff hps =>
    have hs := hp.idle_of_isOff hoff hps
    exact ⟨.queued, by simp [hs.1], hs.2.1, hreg, hs.2.2.1, rfl, rfl⟩
  | markReady hreg hstop hoff hps =>
    obtain ⟨slot, hs⟩ := hp
    cases slot with
    | idle => simp [hs.not_pendingStart hreg] at hps
    | queued => exact ⟨.queued, hs.1, hs.2.1, hreg, hs.queued_task, rfl, hps⟩
    | live t k =>
      obtain ⟨hpc, -, hcancel⟩ := hs.created_of_isOff hoff
      refine hs.live_state rfl ?_
      simpa only [PcFits, hpc, true_and] using ⟨hps, hcancel⟩
  | queueStop force hreg hstop hst =>
    obtain ⟨slot, hs⟩ := hp
    cases slot with
    | idle =>
      have hoff := hs.isOff hreg
      have hps := hs.not_pendingStart hreg
      rcases hst with ⟨-, h⟩ | h | h <;> simp_all [Status.isOff]
    | queued => exact ⟨.queued, hs.1, hs.2.1, hreg, hs.queued_task, hs.ready, hs.pendingStart⟩
    | live t k => exact hs.live_state rfl (hs.pcFits.of_stop rfl rfl rfl)
  | markStopped hreg hoff hps =>
    have hs := hp.idle_of_isOff hoff hps
    exact ⟨.idle, hs.1, hs.2.1, hs.2.2.1, fun _ => ⟨rfl, (hs.2.2.2 hreg).2⟩⟩
  | stopExiting hreg hst =>
    obtain ⟨slot, hs⟩ := hp
    cases slot with
    | idle =>
      have hoff := hs.isOff hreg
      simp [hst, Status.isOff] at hoff
    | queued => simp [hs.ready] at hst
    | live t k => exact hs.live_state rfl (hs.pcFits.of_stop rfl rfl rfl)
  | @startTask _ n t hstarts hreg htask hnone =>
    have hs := hp.queued (by omega)
    have hn : n = 0 := by have := hs.1; omega
    refine ⟨.live t { unit := v.ref.unit }, hn, ?_, hreg, .inr rfl, .inr rfl, rfl,
      hs.ready, hs.pendingStart, rfl⟩
    intro t'
    simp only [Function.update_apply, hs.2.1 t']
  | startFailed e hstarts hbad hreg =>
    exact absurd hbad (hp.start_fine hstarts)
  | stopIgnored hstops hreg hno => exact hp
  | stopCancel t k hstops hreg hcan htask hk =>
    have hs := hp.live hk
    have hpc := hs.pcFits
    refine hs.live_update rfl rfl ?_
    unfold State.stopCancels at hcan
    unfold PcFits at hpc ⊢
    split at hpc <;> simp_all
  | stopFailed e hstops hbad hreg => exact hp
  | beginForced t k hk hpc hstop hforce htask =>
    have hs := hp.live hk
    exact hs.live_update rfl rfl ⟨rfl, rfl, hs.created hpc, hstop, rfl⟩
  | begin t k hk hpc hno =>
    have hs := hp.live hk
    exact hs.live_update rfl rfl ⟨rfl, rfl, hs.created hpc⟩
  | enteredStopped t k hk hpc hstop htask =>
    exact (hp.live hk).live_update rfl rfl ⟨rfl, rfl, rfl, hstop, rfl⟩
  | entered t k hk hpc hstop => exact (hp.live hk).live_update rfl rfl ⟨rfl, rfl, rfl⟩
  | toExit t k val hk hpc => exact (hp.live hk).live_update rfl rfl ⟨rfl, rfl, rfl⟩
  | suspend t k hk hpc =>
    have hs := hp.live hk
    refine hs.live_update rfl rfl ?_
    have hps := hs.pcFits
    rcases hpc with hpc | hpc | hpc <;> simpa only [PcFits, hpc] using hps
  | finish t k val drop hk hpc hdrop =>
    have hs := hp.live hk
    refine ⟨.idle, hs.1, ?_, rfl, fun _ => ⟨?_, hs.exiting hpc, rfl, rfl⟩⟩
    · exact hs.update_none
    · simp only [State.cleaned]
      split <;> rfl
  | close t task hentry hnone hreg =>
    obtain ⟨slot, hs⟩ := hp
    cases slot with
    | idle =>
      have htask : task = none := hreg.elim id fun h => h.2.trans hs.2.2.1
      exact ⟨.idle, hs.1, hs.2.1, htask, hs.2.2.2⟩
    | queued =>
      have htask : task = none := hreg.elim id fun h => absurd hs.queued_registered h.1
      exact ⟨.queued, hs.1, hs.2.1, hs.queued_registered, htask, hs.ready, hs.pendingStart⟩
    | live t' k =>
      have htask : task = none := hreg.elim id fun h => absurd hs.live_registered h.1
      refine ⟨.live t' k, hs.1, hs.2.1, hs.live_registered, .inl htask, ⟨hs.entry, ?_⟩,
        hs.2.2.2.2.2.1, ?_⟩
      · rintro rfl
        have := hs.live_tasks t'
        simp [hnone] at this
      · have hpc := hs.pcFits
        unfold PcFits at hpc ⊢
        exact hpc
  | @loseStart _ n hstarts =>
    have hs := hp.queued (by omega)
    have hn : n ≤ 1 := by have := hs.1; omega
    exact ⟨.queued, hn, hs.2⟩
  | loseStop => exact hp

/-- A task is created by handling a START of a unit that is in `_units`. -/
theorem Move.noTasks {l : Label} {v v' : View U} (hnone : NoTasks v) (hm : Move l v v')
    (hstart : l = .handle .start → ¬ v.registered) : NoTasks v' := by
  cases hm with
  | startTask t hn hreg => exact absurd hreg (hstart rfl)
  | stopCancel t k _ _ _ _ hk | beginForced t k hk | begin t k hk | enteredStopped t k hk
  | entered t k hk | toExit t k val hk | suspend t k hk | finish t k val drop hk =>
    rw [hnone t] at hk
    cases hk
  | _ => exact hnone

end Supervisor

end Silkjam
