import Silkjam.Supervisor.System

/-!
# What sets and clears events

A supervisor sets and clears the two events of each `State` object, in the segments of the unit
tasks and nowhere else (`step_events`). Those that it is only asked to wait for stay as they are,
whatever its tasks and its loop do (`step_isSet`).
-/

namespace Silkjam.Supervisor

variable {U : Type} [DecidableEq U]

/-- `event.is_set()` of an event of the rest of the program -/
def isSet (s : Supervisor U) (n : Nat) : Bool :=
  s.events (.other n)

/-- An action that is not the setting or clearing of an event of the rest of the program. -/
def Action.keepsEvents : Action U → Bool
  | .setEvent _ | .clearEvent _ => false
  | _ => true

section
variable (s : Supervisor U) (n : Nat) (t : TaskId) (u : U) (r : StateRef U)

/-! ### Writing the state -/

@[simp] theorem modify_isSet (f : State U → State U) : (s.modify r f).isSet n = s.isSet n :=
  rfl

@[simp] theorem setPc_isSet (pc : Pc U) : (s.setPc t pc).isSet n = s.isSet n :=
  rfl

@[simp] theorem clearCancel_isSet : (s.clearCancel t).isSet n = s.isSet n :=
  rfl

@[simp] theorem log_isSet (o : Obs U) : (s.log o).isSet n = s.isSet n :=
  rfl

theorem setEvent_isSet_of_ne {e : EventRef U} (h : e ≠ .other n) :
    (s.setEvent e).isSet n = s.isSet n := by
  show Function.update s.events e true (.other n) = s.events (.other n)
  rw [Function.update_of_ne h.symm]

theorem clearEvent_isSet_of_ne {e : EventRef U} (h : e ≠ .other n) :
    (s.clearEvent e).isSet n = s.isSet n := by
  show Function.update s.events e false (.other n) = s.events (.other n)
  rw [Function.update_of_ne h.symm]

@[simp] theorem setEvent_doneEntering_isSet :
    (s.setEvent (.doneEntering r)).isSet n = s.isSet n :=
  s.setEvent_isSet_of_ne n nofun

@[simp] theorem setEvent_doneExiting_isSet :
    (s.setEvent (.doneExiting r)).isSet n = s.isSet n :=
  s.setEvent_isSet_of_ne n nofun

@[simp] theorem clearEvent_doneEntering_isSet :
    (s.clearEvent (.doneEntering r)).isSet n = s.isSet n :=
  s.clearEvent_isSet_of_ne n nofun

@[simp] theorem clearEvent_doneExiting_isSet :
    (s.clearEvent (.doneExiting r)).isSet n = s.isSet n :=
  s.clearEvent_isSet_of_ne n nofun

theorem setEvent_isSet : (s.setEvent (.other n)).isSet n = true :=
  Function.update_self _ _ _

theorem clearEvent_isSet : (s.clearEvent (.other n)).isSet n = false :=
  Function.update_self _ _ _

/-! ### The public calls -/

@[simp] theorem startUnitNowait_events : (s.startUnitNowait u).1.events = s.events := by
  unfold startUnitNowait requestStart
  split
  · rfl
  · split <;> dsimp only <;> split <;> rfl

@[simp] theorem stopUnitNowait_events (force : Bool) :
    (s.stopUnitNowait u force).1.events = s.events := by
  unfold stopUnitNowait requestStop
  split
  · rfl
  · split <;> (try split) <;> (try split) <;> rfl

@[simp] theorem addUnit_events (restart stopped : Bool) :
    (s.addUnit u restart stopped).1.events = s.events := by
  unfold addUnit
  split
  · rfl
  · split
    · exact startUnitNowait_events _ u
    · rfl

@[simp] theorem removeUnitNowait_events : (s.removeUnitNowait u).1.events = s.events := by
  unfold removeUnitNowait
  split <;> rfl

theorem foldl_events (f : Supervisor U → U → Supervisor U) (hf : ∀ s u, (f s u).events = s.events)
    (l : List U) : (l.foldl f s).events = s.events := by
  induction l generalizing s with
  | nil => rfl
  | cons u l ih => rw [List.foldl_cons, ih, hf]

/-! ### Segments of the unit tasks -/

theorem stopUnit_events {s s' : Supervisor U} (h : s.stopUnit u = .ok s') :
    s'.events = s.events := by
  unfold stopUnit at h
  split at h
  · cases h
  · split at h
    · cases h
    · cases h
      rfl

theorem stopUnit_isSet {s s' : Supervisor U} (h : s.stopUnit u = .ok s') :
    s'.isSet n = s.isSet n :=
  congrFun (stopUnit_events u h) _

@[simp] theorem phaseFailed_isSet (e : Exc U) : (s.phaseFailed t r e).isSet n = s.isSet n := by
  simp [phaseFailed, exitUnit]

@[simp] theorem exitUnit_isSet : (s.exitUnit t r).isSet n = s.isSet n := by
  simp [exitUnit]

@[simp] theorem enterUnit_isSet : (s.enterUnit t r).isSet n = s.isSet n :=
  rfl

@[simp] theorem callRun_isSet : (s.callRun t r).isSet n = s.isSet n :=
  rfl

@[simp] theorem setEntering_isSet : (s.setEntering r).isSet n = s.isSet n := by
  simp [setEntering]

@[simp] theorem setRunning_isSet : (s.setRunning r).isSet n = s.isSet n := by
  simp [setRunning]

@[simp] theorem setExited_isSet : (s.setExited r).isSet n = s.isSet n := by
  simp [setExited]

@[simp] theorem finish_isSet (res : TaskResult U) : (s.finish t res).isSet n = s.isSet n :=
  rfl

@[simp] theorem cleanupDone_isSet : (s.cleanupDone t r).isSet n = s.isSet n := by
  simp [cleanupDone]

@[simp] theorem beginUnit_isSet : (s.beginUnit t u).isSet n = s.isSet n := by
  unfold beginUnit
  split
  · rfl
  · dsimp only
    split
    · split
      · simp
      · next hstop => simp [stopUnit_isSet n u hstop]
    · simp

@[simp] theorem unitEntered_isSet : (s.unitEntered t r).isSet n = s.isSet n := by
  unfold unitEntered
  dsimp only
  split
  · split
    · simp
    · next hstop => simp [stopUnit_isSet n _ hstop]
  · simp

@[simp] theorem cleanup_isSet : (s.cleanup t r).isSet n = s.isSet n := by
  unfold cleanup
  dsimp only
  split
  · simp
  · split
    · simp
    · split
      · rw [cleanupDone_isSet]
        exact setExited_isSet s n r
      · simp

/-! ### The loop -/

theorem handleStopUnit_events : (s.handleStopUnit u).1.events = s.events := by
  unfold handleStopUnit
  split
  · next h => exact stopUnit_events u h
  · rfl

theorem handleLogged_events (c : Command) : (s.handleLogged c u).1.events = s.events := by
  show (s.handleCommand c u).1.events = s.events
  unfold handleCommand
  cases c with
  | start =>
    dsimp only
    split
    · rfl
    · split <;> rfl
  | stop =>
    dsimp only
    split
    · rfl
    · split
      · split
        · exact handleStopUnit_events s u
        · rfl
      · split
        · rfl
        · split
          · rfl
          · exact handleStopUnit_events s u

theorem drainQueue_events (allowed : List Command) (q : List (Command × U)) :
    (drainQueue allowed q s).1.events = s.events := by
  induction q generalizing s with
  | nil => rfl
  | cons item q ih =>
    obtain ⟨c, u⟩ := item
    rw [drainQueue]
    have hlogged := handleLogged_events { s with queue := q } u c
    split
    · exact ih _
    · split
      · next h =>
        rw [h] at hlogged
        exact (ih _).trans hlogged
      · next h =>
        rw [h] at hlogged
        exact hlogged

theorem wakeCommands_events (c : Call U) : (s.wakeCommands c).1.events = s.events := by
  unfold wakeCommands
  split
  · exact drainQueue_events _ _ _
  · rfl

theorem closeTask_events : (s.closeTask t u).events = s.events := by
  unfold closeTask
  dsimp only
  split <;> rfl

theorem takeUnits_events (order : List TaskId) (c : Call U) :
    (takeUnits order s c).1.events = s.events := by
  induction order generalizing s c with
  | nil => rfl
  | cons t ts ih =>
    rw [takeUnits]
    split
    · exact (ih _ _).trans (closeTask_events s t _)
    · rfl
    · exact ih _ _

theorem restartReady_events : s.restartReady.events = s.events := by
  refine foldl_events s _ (fun s u => ?_) s.units
  split
  · exact startUnitNowait_events s u
  · rfl

@[simp] theorem superviseUntil_events (events : List (EventRef U)) (rw : ReturnWhen) :
    (s.superviseUntil events rw).events = s.events :=
  restartReady_events s

@[simp] theorem wakeUp_events (c : Call U) (order : List TaskId) :
    (s.wakeUp c order).events = s.events := by
  have hcommands := wakeCommands_events s c
  unfold wakeUp
  split
  · next h =>
    rw [h] at hcommands
    exact hcommands
  · next s₁ h =>
    rw [h] at hcommands
    have htake := takeUnits_events s₁ order c.renewMonitor.takeEvents
    rw [← hcommands, ← htake]
    split
    · next hunits => rw [hunits]
    · next hunits =>
      rw [hunits]
      dsimp only
      split
      · rfl
      · exact restartReady_events _

@[simp] theorem stop_events : s.stop.events = s.events := by
  have hstop : s.stopAll.events = s.events :=
    foldl_events s _ (fun s u => stopUnitNowait_events s u true) s.units
  unfold stop
  dsimp only
  split
  · rw [superviseUntil_events, hstop]
  · exact hstop

theorem superviseUntil_isSet (events : List (EventRef U)) (rw : ReturnWhen) :
    (s.superviseUntil events rw).isSet n = s.isSet n :=
  congrFun (superviseUntil_events s events rw) _

end

/-! ### One step -/

theorem runSegment_isSet {s s' : Supervisor U} {t : TaskId} {k : UnitTask U} {o : Outcome U}
    (n : Nat) (h : s.runSegment t k o = some s') : s'.isSet n = s.isSet n := by
  unfold runSegment at h
  split at h
  case h_1 | h_2 | h_5 =>
    split at h <;> (cases h; simp)
  case h_13 => cases h
  all_goals (cases h; simp)

/-- Only segments of unit tasks and the rest of the program set and clear events. -/
theorem step_events {s s' : Supervisor U} {a : Action U} (hresume : ∀ t o, a ≠ .resume t o)
    (ha : a.keepsEvents = true) (h : step s a = some s') : s'.events = s.events := by
  cases a with
  | setEvent | clearEvent => cases ha
  | resume t o => exact absurd rfl (hresume t o)
  | addUnit | removeUnit | startUnit | stopUnit => cases h; simp
  | monitorStep =>
    simp only [step, monitorStep] at h
    split at h
    · split at h <;> cases h <;> rfl
    · cases h
  | helperStep e =>
    simp only [step, helperStep] at h
    split at h
    · split at h
      · obtain ⟨_, -, rfl⟩ := Option.map_eq_some_iff.1 h
        rfl
      · cases h
    · cases h
  | supervise events rw =>
    simp only [step] at h
    split at h
    · cases h; simp
    · cases h
  | wake order =>
    simp only [step, wake] at h
    split at h
    · split at h
      · cases h; simp
      · cases h
    · cases h
  | leave =>
    simp only [step, leave] at h
    split at h <;> cases h <;> rfl
  | cancel =>
    simp only [step, cancelCall] at h
    split at h <;> cases h <;> rfl
  | stop =>
    simp only [step] at h
    split at h
    · cases h; simp
    · cases h

theorem step_isSet {s s' : Supervisor U} {a : Action U} (ha : a.keepsEvents = true)
    (h : step s a = some s') (n : Nat) : s'.isSet n = s.isSet n := by
  by_cases hresume : ∃ t o, a = .resume t o
  · obtain ⟨t, o, rfl⟩ := hresume
    obtain ⟨k, -, h⟩ := Option.bind_eq_some_iff.1 h
    exact runSegment_isSet n h
  · have hne : ∀ t o, a ≠ .resume t o := fun t o he => hresume ⟨t, o, he⟩
    exact congrFun (step_events hne ha h) _

end Silkjam.Supervisor
