import Silkjam.Supervisor.System

/-!
# The part of the state that belongs to one unit

Units share the queue, the task table and the loop, and nothing else: `view u` is what the state
holds about unit `u`, its commands on the way to the handler (`inFlight`) and its own history
included. A function of the supervisor that works on another unit leaves it as it is
(`view_..._ne`), so an invariant about one unit is one about views.
-/

namespace Silkjam.Supervisor

variable {U : Type} [DecidableEq U]

@[ext] structure View (U : Type) where
  ref : StateRef U
  registered : Prop
  st : State U
  /-- the tasks of the unit that are not finished -/
  tasks : TaskId → Option (UnitTask U)
  /-- the tasks of the unit in `_running_unit_tasks` -/
  entries : TaskId → Prop
  starts : Nat
  stops : Nat
  trace : List (Obs U)

def Monitor.items : Monitor U → List (Command × U)
  | .got item => [item]
  | _ => []

def Loop.items : Loop U → List (Command × U)
  | .waiting c => c.monitor.items
  | _ => []

/-- The commands queued and not yet handled, the one that the monitor task has taken included. -/
def inFlight (s : Supervisor U) : List (Command × U) :=
  s.loop.items ++ s.queue

def Obs.unit : Obs U → U
  | .queued _ u | .handled _ u _ _ _ | .cancel _ u _ | .enter _ u | .run _ u | .exit _ u => u

/-- `k`, when it is the record of an unfinished task of `u`. -/
def UnitTask.liveOf (k : UnitTask U) (u : U) : Option (UnitTask U) :=
  if k.unit = u ∧ k.pc.isFinished = false then some k else none

def view (s : Supervisor U) (u : U) : View U where
  ref := s.ref u
  registered := u ∈ s.units
  st := s.state u
  tasks t := (s.tasks t).bind (·.liveOf u)
  entries t := (t, u) ∈ s.running
  starts := s.inFlight.count (.start, u)
  stops := s.inFlight.count (.stop, u)
  trace := s.trace.filter fun o => o.unit = u

/-- `u` has a task created and not yet finished, and it is `t`. -/
def Live (s : Supervisor U) (t : TaskId) (u : U) : Prop :=
  ∃ k, s.tasks t = some k ∧ k.unit = u ∧ k.pc.isFinished = false

instance (s : Supervisor U) (t : TaskId) (u : U) : Decidable (s.Live t u) :=
  match h : s.tasks t with
  | none => .isFalse fun ⟨_, hk, _⟩ => by simp [h] at hk
  | some k => decidable_of_iff (k.unit = u ∧ k.pc.isFinished = false)
    ⟨fun hk => ⟨k, h, hk⟩, fun ⟨k', hk', hu⟩ => by rw [h] at hk'; cases hk'; exact hu⟩

/-- `u` has an unfinished task. -/
def HasLive (s : Supervisor U) (u : U) : Prop :=
  ∃ t < s.nextTask, s.Live t u

instance (s : Supervisor U) (u : U) : Decidable (s.HasLive u) :=
  inferInstanceAs (Decidable (∃ t < s.nextTask, s.Live t u))

theorem live_iff (s : Supervisor U) (t : TaskId) (u : U) :
    s.Live t u ↔ (s.view u).tasks t ≠ none := by
  simp only [Live, view, UnitTask.liveOf]
  cases s.tasks t with
  | none => simp
  | some k => simp

theorem view_tasks_eq_some {s : Supervisor U} {t : TaskId} {u : U} {k : UnitTask U} :
    (s.view u).tasks t = some k ↔ s.tasks t = some k ∧ k.unit = u ∧ k.pc.isFinished = false := by
  simp only [view, UnitTask.liveOf, Option.bind_eq_some_iff, Option.ite_none_right_eq_some,
    Option.some.injEq]
  constructor
  · rintro ⟨k', hk, h, rfl⟩
    exact ⟨hk, h⟩
  · rintro ⟨hk, h⟩
    exact ⟨k, hk, h, rfl⟩

/-! ### Writing to the state of one unit -/

theorem view_modify_self (s : Supervisor U) {r : StateRef U} {u : U} (f : State U → State U)
    (h : r = s.ref u) : (s.modify r f).view u = { s.view u with st := f (s.view u).st } := by
  subst h
  simp [view, modify, state, ref, inFlight]

theorem view_modify_ne (s : Supervisor U) {r : StateRef U} {u : U} (f : State U → State U)
    (h : r.unit ≠ u) : (s.modify r f).view u = s.view u := by
  have hst : (s.modify r f).state u = s.state u :=
    Function.update_of_ne (fun he => h (by rw [← he]; rfl)) _ _
  simp only [view, hst]
  rfl

theorem view_log_self (s : Supervisor U) (o : Obs U) :
    (s.log o).view o.unit = { s.view o.unit with trace := o :: (s.view o.unit).trace } := by
  simp [view, log, state, ref, inFlight]

theorem view_log_ne (s : Supervisor U) {o : Obs U} {u : U} (h : o.unit ≠ u) :
    (s.log o).view u = s.view u := by
  simp [view, log, state, ref, inFlight, h]

theorem view_put_ne (s : Supervisor U) (c : Command) {u v : U} (h : v ≠ u) :
    (s.put c v).view u = s.view u := by
  rw [put, view_log_ne _ (by simpa [Obs.unit] using h)]
  simp [view, state, ref, inFlight, List.count_append, h]

theorem view_put_start (s : Supervisor U) (u : U) :
    (s.put .start u).view u =
      { s.view u with
        starts := (s.view u).starts + 1
        trace := .queued .start u :: (s.view u).trace } := by
  simp [view, put, log, Obs.unit, state, ref, inFlight, List.count_append, ← Nat.add_assoc]

theorem view_put_stop (s : Supervisor U) (u : U) :
    (s.put .stop u).view u =
      { s.view u with
        stops := (s.view u).stops + 1
        trace := .queued .stop u :: (s.view u).trace } := by
  simp [view, put, log, Obs.unit, state, ref, inFlight, List.count_append, ← Nat.add_assoc]

@[simp] theorem view_setEvent (s : Supervisor U) (e : EventRef U) (u : U) :
    (s.setEvent e).view u = s.view u := by
  have hitems : (s.setEvent e).loop.items = s.loop.items := by
    simp only [setEvent]
    cases s.loop <;> rfl
  simp only [view, inFlight, hitems]
  rfl

@[simp] theorem view_clearEvent (s : Supervisor U) (e : EventRef U) (u : U) :
    (s.clearEvent e).view u = s.view u := rfl

theorem view_modifyTask (s : Supervisor U) (t : TaskId) (f : UnitTask U → UnitTask U) (u : U) :
    (s.modifyTask t f).view u =
      { s.view u with
        tasks := Function.update (s.view u).tasks t (((s.tasks t).map f).bind (·.liveOf u)) } := by
  have htasks : ∀ t', ((s.modifyTask t f).tasks t').bind (·.liveOf u) =
      Function.update (s.view u).tasks t (((s.tasks t).map f).bind (·.liveOf u)) t' := by
    intro t'
    by_cases h : t' = t
    · subst h; simp [modifyTask]
    · simp [modifyTask, Function.update_of_ne h, view]
  simp only [view, htasks]
  rfl

theorem view_modifyTask_ne (s : Supervisor U) {t : TaskId} {k : UnitTask U}
    {f : UnitTask U → UnitTask U} {u : U} (hk : s.tasks t = some k) (hf : (f k).unit = k.unit)
    (h : k.unit ≠ u) : (s.modifyTask t f).view u = s.view u := by
  rw [view_modifyTask]
  have hnone : (s.view u).tasks t = none := by simp [view, hk, UnitTask.liveOf, h]
  have : ((s.tasks t).map f).bind (·.liveOf u) = (s.view u).tasks t := by
    rw [hnone, hk]; simp [UnitTask.liveOf, hf, h]
  rw [this, Function.update_eq_self]

end Silkjam.Supervisor
