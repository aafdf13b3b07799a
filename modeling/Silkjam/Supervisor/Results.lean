import Silkjam.Supervisor.Simulation

/-!
# Who writes `State.result`

`state.result` is written by the segments of the tasks that work with the object, and a task moves
on in its own segments only. A segment works on one task and one object (`Alone`); the other steps
move no task and write no result (`Quiet`).
-/

namespace Silkjam.Supervisor

open Transition

variable {U : Type} [DecidableEq U]

/-- The object that the next segment of a task works with. -/
def works (s : Supervisor U) (k : UnitTask U) : StateRef U :=
  k.pc.ref.getD (s.ref k.unit)

/-- From `s` to `s'` task `t` worked on the object `r`, and may have cancelled tasks. -/
structure Alone (t : TaskId) (r : StateRef U) (s s' : Supervisor U) : Prop where
  heap : ∀ r' ≠ r, s'.heap r' = s.heap r'
  gen : s'.gen = s.gen
  pc : ∀ t' ≠ t, (s'.tasks t').map (fun k => (k.unit, k.pc)) =
    (s.tasks t').map fun k => (k.unit, k.pc)
  nextTask : s'.nextTask = s.nextTask
  events : ∀ e, e ≠ .doneEntering r → e ≠ .doneExiting r → s'.events e = s.events e

section
variable {s s' s'' : Supervisor U} {t : TaskId} {r : StateRef U} {k : UnitTask U} {o : Outcome U}

theorem Alone.of_eq (hheap : s'.heap = s.heap) (hgen : s'.gen = s.gen) (htasks : s'.tasks = s.tasks)
    (hnext : s'.nextTask = s.nextTask) (hevents : s'.events = s.events) : Alone t r s s' :=
  ⟨fun _ _ => by rw [hheap], hgen, fun _ _ => by rw [htasks], hnext, fun _ _ _ => by rw [hevents]⟩

theorem Alone.trans (h : Alone t r s s') (h' : Alone t r s' s'') : Alone t r s s'' :=
  ⟨fun r' hr => (h'.heap r' hr).trans (h.heap r' hr), h'.gen.trans h.gen,
    fun t' ht => (h'.pc t' ht).trans (h.pc t' ht), h'.nextTask.trans h.nextTask,
    fun e hne hne' => (h'.events e hne hne').trans (h.events e hne hne')⟩

theorem alone_modify (f : State U → State U) : Alone t r s (s.modify r f) :=
  ⟨fun _ hr => Function.update_of_ne hr _ _, rfl, fun _ _ => rfl, rfl, fun _ _ _ => rfl⟩

theorem alone_modifyTask (f : UnitTask U → UnitTask U) : Alone t r s (s.modifyTask t f) := by
  refine ⟨fun _ _ => rfl, rfl, ?_, rfl, fun _ _ _ => rfl⟩
  intro t' ht
  show (Function.update s.tasks t ((s.tasks t).map f) t').map _ = _
  rw [Function.update_of_ne ht]

theorem cancelTask_pc (s : Supervisor U) (t t' : TaskId) :
    ((s.cancelTask t).tasks t').map (fun k => (k.unit, k.pc)) =
      (s.tasks t').map fun k => (k.unit, k.pc) := by
  by_cases h : t' = t
  · subst h
    simp only [cancelTask, modifyTask, Function.update_self, Option.map_map]
    rfl
  · simp only [cancelTask, modifyTask, Function.update_of_ne h]

theorem alone_stopUnit {u : U} (h : s.stopUnit u = .ok s') : Alone t r s s' := by
  unfold stopUnit at h
  split at h
  · cases h
  · split at h
    · cases h
    · next t'' _ =>
      cases h
      exact ⟨fun _ _ => rfl, rfl, fun t' _ => cancelTask_pc s t'' t', rfl, fun _ _ _ => rfl⟩

theorem alone_setPc (pc : Pc U) : Alone t r s (s.setPc t pc) :=
  alone_modifyTask _

theorem alone_setEvent {e : EventRef U} (he : e = .doneEntering r ∨ e = .doneExiting r) :
    Alone t r s (s.setEvent e) := by
  refine ⟨fun _ _ => rfl, rfl, fun _ _ => rfl, rfl, fun e' hne hne' => ?_⟩
  apply Function.update_of_ne
  rcases he with rfl | rfl
  · exact hne
  · exact hne'

theorem alone_clearEvent {e : EventRef U} (he : e = .doneEntering r ∨ e = .doneExiting r) :
    Alone t r s (s.clearEvent e) := by
  refine ⟨fun _ _ => rfl, rfl, fun _ _ => rfl, rfl, fun e' hne hne' => ?_⟩
  apply Function.update_of_ne
  rcases he with rfl | rfl
  · exact hne
  · exact hne'

theorem alone_log (o : Obs U) : Alone t r s (s.log o) :=
  .of_eq rfl rfl rfl rfl rfl

theorem exitUnit_alone : Alone t r s (s.exitUnit t r) :=
  (((alone_setEvent (.inl rfl)).trans (alone_modify _)).trans (alone_log _)).trans (alone_setPc _)

theorem phaseFailed_alone (e : Exc U) : Alone t r s (s.phaseFailed t r e) :=
  (alone_modify _).trans exitUnit_alone

theorem enterUnit_alone : Alone t r s (s.enterUnit t r) :=
  (alone_log _).trans (alone_setPc _)

theorem callRun_alone : Alone t r s (s.callRun t r) :=
  (alone_log _).trans (alone_setPc _)

theorem setEntering_alone : Alone t r s (s.setEntering r) :=
  (((alone_modify _).trans (alone_clearEvent (.inl rfl))).trans
    (alone_clearEvent (.inr rfl))).trans (alone_modify _)

theorem beginUnit_alone (u : U) : Alone t (s.ref u) s (s.beginUnit t u) := by
  unfold beginUnit
  split
  · exact alone_setPc _
  · have hentering : Alone t (s.ref u) s (s.setEntering (s.ref u)) := setEntering_alone
    dsimp only
    split
    · split
      · exact hentering.trans (phaseFailed_alone _)
      · next hstop => exact (hentering.trans (alone_stopUnit hstop)).trans (alone_setPc _)
    · exact hentering.trans enterUnit_alone

theorem setRunning_alone : Alone t r s (s.setRunning r) :=
  (alone_setEvent (.inl rfl)).trans (alone_modify _)

theorem unitEntered_alone : Alone t r s (s.unitEntered t r) := by
  have hrunning : Alone t r s (s.setRunning r) := setRunning_alone
  unfold unitEntered
  dsimp only
  split
  · split
    · exact hrunning.trans (phaseFailed_alone _)
    · next hstop => exact (hrunning.trans (alone_stopUnit hstop)).trans (alone_setPc _)
  · exact hrunning.trans callRun_alone

theorem setExited_alone : Alone t r s (s.setExited r) :=
  ((alone_setEvent (.inr rfl)).trans (alone_modify _)).trans (alone_modify _)

theorem cleanupDone_alone : Alone t r s (s.cleanupDone t r) :=
  ((alone_modify _).trans (alone_clearEvent (.inl rfl))).trans (alone_setPc _)

theorem cleanup_alone : Alone t r s (s.cleanup t r) := by
  have hexited : Alone t r s (s.setExited r) := setExited_alone
  unfold cleanup
  dsimp only
  split
  · exact hexited.trans cleanupDone_alone
  · split
    · exact hexited.trans (alone_setPc _)
    · next t' _ =>
      have hdrop : Alone t r s { s.setExited r with
          running := (s.setExited r).running.filter fun e => e.1 ≠ t' } :=
        hexited.trans (.of_eq rfl rfl rfl rfl rfl)
      split
      · exact hdrop.trans cleanupDone_alone
      · exact hexited.trans (alone_setPc _)

/-- **A segment works alone**, on its task and the object of it. -/
theorem runSegment_alone (h : s.runSegment t k o = some s') : Alone t (s.works k) s s' := by
  have hclear (r : StateRef U) : Alone t r s (s.clearCancel t) := alone_modifyTask _
  unfold works
  unfold runSegment at h
  dsimp only at h
  split at h
  · next hpc =>
    rw [hpc]
    split at h <;> cases h
    · exact (hclear _).trans (alone_setPc _)
    · have hbegin := beginUnit_alone (s := s.clearCancel t) (t := t) k.unit
      exact (hclear _).trans hbegin
  · next hpc =>
    rw [hpc]
    split at h <;> cases h
    · exact (hclear _).trans (phaseFailed_alone _)
    · exact (hclear _).trans enterUnit_alone
  · next hpc => rw [hpc]; cases h; exact (hclear _).trans unitEntered_alone
  · next hpc => rw [hpc]; cases h; exact (hclear _).trans (phaseFailed_alone _)
  · next hpc =>
    rw [hpc]
    split at h <;> cases h
    · exact (hclear _).trans (phaseFailed_alone _)
    · exact (hclear _).trans callRun_alone
  · next hpc =>
    rw [hpc]
    cases h
    exact ((hclear _).trans (alone_modify _)).trans exitUnit_alone
  · next hpc => rw [hpc]; cases h; exact (hclear _).trans (phaseFailed_alone _)
  · next hpc => rw [hpc]; cases h; exact (hclear _).trans cleanup_alone
  · next hpc =>
    rw [hpc]
    cases h
    exact ((hclear _).trans (alone_modify _)).trans cleanup_alone
  · cases h; exact hclear _
  · cases h; exact hclear _
  · cases h; exact hclear _
  · cases h

end

/-! ### The other steps -/

/-- From `s` to `s'` no segment ran: tasks may be created and cancelled, and objects made. -/
structure Quiet (s s' : Supervisor U) : Prop where
  result : ∀ r, r.gen ≤ s.gen r.unit → (s'.heap r).result = (s.heap r).result
  gen : ∀ u, s.gen u ≤ s'.gen u
  pc : ∀ t, s.tasks t ≠ none →
    (s'.tasks t).map (fun k => (k.unit, k.pc)) = (s.tasks t).map fun k => (k.unit, k.pc)
  new : ∀ t k, s.tasks t = none → s'.tasks t = some k → s.nextTask ≤ t ∧ k.pc = .created
  nextTask : s.nextTask ≤ s'.nextTask

section
variable {s s' s'' : Supervisor U} {t : TaskId} {r : StateRef U} {k : UnitTask U} {u : U}

theorem Quiet.of_eq (hheap : ∀ r, (s'.heap r).result = (s.heap r).result) (hgen : s'.gen = s.gen)
    (htasks : s'.tasks = s.tasks) (hnext : s'.nextTask = s.nextTask) : Quiet s s' := by
  refine ⟨fun r _ => hheap r, fun u => by rw [hgen], fun t _ => by rw [htasks], ?_, hnext.ge⟩
  intro t k hnone hk
  rw [htasks, hnone] at hk
  cases hk

theorem Quiet.refl (s : Supervisor U) : Quiet s s :=
  .of_eq (fun _ => rfl) rfl rfl rfl

theorem Quiet.trans (h : Quiet s s') (h' : Quiet s' s'') : Quiet s s'' := by
  refine ⟨?_, fun u => (h.gen u).trans (h'.gen u), ?_, ?_, h.nextTask.trans h'.nextTask⟩
  · exact fun r hr => (h'.result r (hr.trans (h.gen r.unit))).trans (h.result r hr)
  · intro t ht
    have hpc := h.pc t ht
    rw [← hpc]
    apply h'.pc
    intro hnone
    rw [hnone] at hpc
    cases hk : s.tasks t with
    | none => exact ht hk
    | some k => rw [hk] at hpc; cases hpc
  · intro t k hnone hk
    cases hk' : s'.tasks t with
    | none =>
      obtain ⟨hle, hpc⟩ := h'.new t k hk' hk
      exact ⟨h.nextTask.trans hle, hpc⟩
    | some k' =>
      obtain ⟨hle, hcreated⟩ := h.new t k' hnone hk'
      refine ⟨hle, ?_⟩
      have hpc := h'.pc t (by rw [hk']; simp)
      rw [hk, hk', Option.map_some, Option.map_some, Option.some.injEq, Prod.mk.injEq] at hpc
      exact hpc.2.trans hcreated

theorem modify_quiet {f : State U → State U} (hf : ∀ st, (f st).result = st.result) :
    Quiet s (s.modify r f) := by
  refine .of_eq (fun r' => ?_) rfl rfl rfl
  by_cases hr : r' = r
  · subst hr
    simp [modify, hf]
  · simp [modify, Function.update_of_ne hr]

theorem put_quiet (c : Command) (u : U) : Quiet s (s.put c u) :=
  .of_eq (fun _ => rfl) rfl rfl rfl

theorem requestStart_quiet (s : Supervisor U) (u : U) : Quiet s (s.requestStart u) := by
  unfold requestStart
  split
  · exact .refl s
  · exact (put_quiet _ _).trans (modify_quiet fun _ => rfl)

theorem startUnitNowait_quiet (s : Supervisor U) (u : U) : Quiet s (s.startUnitNowait u).1 := by
  have hrequest : Quiet s
      ((s.requestStart u).modify (s.ref u) fun st => { st with status := .ready }) :=
    (requestStart_quiet s u).trans (modify_quiet fun _ => rfl)
  unfold startUnitNowait
  split
  · exact .refl s
  · split
    · exact hrequest
    · exact hrequest
    all_goals exact .refl s

theorem requestStop_quiet (s : Supervisor U) (u : U) (force : Bool) :
    Quiet s (s.requestStop u force) := by
  unfold requestStop
  split
  · exact .refl s
  · exact (put_quiet _ _).trans (modify_quiet fun _ => rfl)

theorem stopUnitNowait_quiet (s : Supervisor U) (u : U) (force : Bool) :
    Quiet s (s.stopUnitNowait u force).1 := by
  have hrequest := requestStop_quiet s u force
  have hstopped : Quiet s (s.modify (s.ref u) fun st => { st with status := .stopped }) :=
    modify_quiet fun _ => rfl
  have hexiting : Quiet s (s.modify (s.ref u) fun st => { st with pendingStop := true }) :=
    modify_quiet fun _ => rfl
  unfold stopUnitNowait
  split
  · exact .refl s
  · split
    · split
      · exact hrequest
      · exact hstopped
    · split
      · exact hrequest
      · exact hstopped
    · exact hrequest
    · exact hrequest
    · exact hexiting

theorem insertUnit_quiet (restart : Bool) (status : Status) :
    Quiet s (s.insertUnit u restart status) := by
  refine ⟨?_, ?_, fun _ _ => rfl, fun t k hnone hk => ?_, le_rfl⟩
  · intro r hr
    have hne : r ≠ ⟨u, s.gen u + 1⟩ := by
      rintro rfl
      exact absurd hr (Nat.not_succ_le_self _)
    simp only [insertUnit, Function.update_of_ne hne]
  · intro w
    by_cases hw : w = u
    · subst hw
      simp [insertUnit]
    · simp [insertUnit, Function.update_of_ne hw]
  · have hk' : s.tasks t = some k := hk
    rw [hnone] at hk'
    cases hk'

theorem addUnit_quiet (s : Supervisor U) (u : U) (restart stopped : Bool) :
    Quiet s (s.addUnit u restart stopped).1 := by
  unfold addUnit
  split
  · exact .refl s
  · split
    · exact (insertUnit_quiet restart .ready).trans (startUnitNowait_quiet _ u)
    · exact insertUnit_quiet restart .stopped

theorem removeUnitNowait_quiet (s : Supervisor U) (u : U) : Quiet s (s.removeUnitNowait u).1 := by
  unfold removeUnitNowait
  split
  · exact .refl s
  · exact .of_eq (fun _ => rfl) rfl rfl rfl

theorem Quiet.foldl (f : Supervisor U → U → Supervisor U) (hf : ∀ s u, Quiet s (f s u))
    (l : List U) (s : Supervisor U) : Quiet s (l.foldl f s) := by
  induction l generalizing s with
  | nil => exact .refl s
  | cons u l ih => exact (hf s u).trans (ih (f s u))

theorem restartReady_quiet (s : Supervisor U) : Quiet s s.restartReady := by
  refine .foldl _ (fun s u => ?_) s.units s
  split
  · exact startUnitNowait_quiet s u
  · exact .refl s

theorem stopAll_quiet (s : Supervisor U) : Quiet s s.stopAll :=
  .foldl _ (fun s u => stopUnitNowait_quiet s u true) s.units s

theorem superviseUntil_quiet (s : Supervisor U) (events : List (EventRef U))
    (returnWhen : ReturnWhen) : Quiet s (s.superviseUntil events returnWhen) :=
  (restartReady_quiet s).trans (.of_eq (fun _ => rfl) rfl rfl rfl)

theorem startUnit_quiet (hw : Tables s) (u : U) : Quiet s (s.startUnit u) := by
  have hfresh := hw.fresh s.nextTask le_rfl
  refine ⟨?_, fun _ => le_rfl, ?_, ?_, Nat.le_succ _⟩
  · exact fun r hr => (modify_quiet (s := s) (f := fun st => { st with task := some s.nextTask })
      fun _ => rfl).result r hr
  · intro t ht
    have hne : t ≠ s.nextTask := fun h => ht (h ▸ hfresh)
    simp [startUnit, modify, Function.update_of_ne hne]
  · intro t k hnone hk
    by_cases hne : t = s.nextTask
    · subst hne
      simp only [startUnit, modify, Function.update_self, Option.some.injEq] at hk
      exact ⟨le_rfl, by rw [← hk]⟩
    · simp only [startUnit, modify, Function.update_of_ne hne] at hk
      rw [hnone] at hk
      cases hk

theorem stopUnit_quiet (h : s.stopUnit u = .ok s') : Quiet s s' := by
  unfold stopUnit at h
  split at h
  · cases h
  · split at h
    · cases h
    · next t' _ =>
      cases h
      refine ⟨fun _ _ => rfl, fun _ => le_rfl, fun t _ => cancelTask_pc s t' t, ?_, le_rfl⟩
      intro t k hnone hk
      have hpc := cancelTask_pc s t' t
      rw [hnone, show (s.cancelTask t').tasks t = some k from hk] at hpc
      cases hpc

theorem handleLogged_quiet (hw : Tables s) (c : Command) (u : U) :
    Quiet s (s.handleLogged c u).1 := by
  have hstop : Quiet s (s.handleStopUnit u).1 := by
    unfold handleStopUnit
    split
    · next h => exact stopUnit_quiet h
    · exact .refl s
  have hcommand : Quiet s (s.handleCommand c u).1 := by
    unfold handleCommand
    repeat' split
    all_goals first | exact hstop | exact startUnit_quiet hw u | exact .refl s
  exact hcommand.trans (.of_eq (fun _ => rfl) rfl rfl rfl)

variable {T : U → Prop}

theorem drainQueue_quiet (l : List (Command × U)) {s : Supervisor U} (hw : WFOn T s)
    (hq : s.queue = l) : Quiet s (drainQueue [.start, .stop] l s).1 := by
  induction l generalizing s with
  | nil => exact .refl s
  | cons item q ih =>
    obtain ⟨c, u⟩ := item
    have hevolves := handleLogged_evolves hw hq
    have hqueue : Quiet s ({ s with queue := q } : Supervisor U) :=
      .of_eq (fun _ => rfl) rfl rfl rfl
    have htables : Tables ({ s with queue := q } : Supervisor U) :=
      hw.toTables.of_eq rfl rfl rfl rfl
    have hhandled := hqueue.trans (handleLogged_quiet htables c u)
    have hqueue' := (handleLogged_handles htables c u).1
    unfold drainQueue
    dsimp only
    rw [if_neg (not_not.2 (mem_allowed c))]
    split
    · next s' hs' =>
      rw [hs'] at hevolves hhandled hqueue'
      exact hhandled.trans (ih hevolves.wf hqueue')
    · next s' e hs' =>
      rw [hs'] at hhandled
      exact hhandled

theorem wakeCommands_quiet {c : Call U} (hw : WFOn T s) (hloop : s.loop = .waiting c) :
    Quiet s (s.wakeCommands c).1 := by
  by_cases hgot : ∃ item, c.monitor = .got item
  · obtain ⟨item, hgot⟩ := hgot
    have hput : EvolvesOn T (fun _ _ => False) s (s.putBack c item) := putBack_evolves hw hloop hgot
    have hback : Quiet s (s.putBack c item) := .of_eq (fun _ => rfl) rfl rfl rfl
    rw [wakeCommands_got hgot]
    exact hback.trans (drainQueue_quiet _ hput.wf rfl)
  · rw [not_exists] at hgot
    rw [wakeCommands_not_got hgot]
    exact .refl s

theorem takeUnits_quiet (order : List TaskId) (s : Supervisor U) (c : Call U) :
    Quiet s (takeUnits order s c).1 := by
  induction order generalizing s c with
  | nil => exact .refl s
  | cons t ts ih =>
    have hclose (u : U) : Quiet s (s.closeTask t u) := by
      have hmodify : Quiet s (s.modify (s.ref u) fun st => { st with task := none }) :=
        modify_quiet fun _ => rfl
      unfold closeTask
      dsimp only
      split
      · exact hmodify.trans (.of_eq (fun _ => rfl) rfl rfl rfl)
      · exact .of_eq (fun _ => rfl) rfl rfl rfl
    unfold takeUnits
    split
    · next u v _ _ => exact (hclose u).trans (ih _ _)
    · exact .refl s
    · exact ih s c

theorem wakeUp_quiet {c : Call U} {order : List TaskId} (hw : WFOn T s)
    (hloop : s.loop = .waiting c) : Quiet s (s.wakeUp c order) := by
  have hcommands := wakeCommands_quiet hw hloop
  have hunits (s₁ : Supervisor U) (c₁ : Call U) := takeUnits_quiet order s₁ c₁
  have hloop (s₂ : Supervisor U) (l : Loop U) : Quiet s₂ { s₂ with loop := l } :=
    .of_eq (fun _ => rfl) rfl rfl rfl
  unfold wakeUp
  split
  · next h => rw [h] at hcommands; exact hcommands.trans (hloop _ _)
  · next s₁ h =>
    rw [h] at hcommands
    have htaken := hcommands.trans (hunits s₁ c.renewMonitor.takeEvents)
    split
    · next h' => rw [h'] at htaken; exact htaken.trans (hloop _ _)
    · next s₂ c₂ h' =>
      rw [h'] at htaken
      dsimp only
      split
      · exact htaken.trans (hloop _ _)
      · exact htaken.trans ((restartReady_quiet s₂).trans (hloop _ _))

/-- **The other steps** move no task and write no result. -/
theorem step_quiet {a : Action U} (hw : WFOn T s) (hresume : ∀ t o, a ≠ .resume t o)
    (hstep : step s a = some s') : Quiet s s' := by
  have hsame {s' : Supervisor U} (hheap : s'.heap = s.heap) (hgen : s'.gen = s.gen)
      (htasks : s'.tasks = s.tasks) (hnext : s'.nextTask = s.nextTask) : Quiet s s' :=
    .of_eq (fun _ => by rw [hheap]) hgen htasks hnext
  cases a with
  | addUnit u restart stopped => cases hstep; exact addUnit_quiet s u restart stopped
  | removeUnit u => cases hstep; exact removeUnitNowait_quiet s u
  | startUnit u => cases hstep; exact startUnitNowait_quiet s u
  | stopUnit u force => cases hstep; exact stopUnitNowait_quiet s u force
  | setEvent n => cases hstep; exact hsame rfl rfl rfl rfl
  | clearEvent n => cases hstep; exact hsame rfl rfl rfl rfl
  | resume t o => exact absurd rfl (hresume t o)
  | monitorStep =>
    simp only [step, monitorStep] at hstep
    repeat' split at hstep
    all_goals cases hstep
    all_goals exact hsame rfl rfl rfl rfl
  | helperStep e =>
    simp only [step, helperStep] at hstep
    repeat' split at hstep
    any_goals cases hstep
    obtain ⟨h', -, rfl⟩ := Option.map_eq_some_iff.1 hstep
    exact hsame rfl rfl rfl rfl
  | supervise events rw =>
    simp only [step] at hstep
    split at hstep
    · cases hstep; exact superviseUntil_quiet s events rw
    · cases hstep
  | wake order =>
    simp only [step, wake] at hstep
    split at hstep
    · next hloop =>
      split at hstep
      · cases hstep; exact wakeUp_quiet hw hloop
      · cases hstep
    · cases hstep
  | leave =>
    simp only [step, leave] at hstep
    split at hstep <;> cases hstep
    all_goals exact hsame rfl rfl rfl rfl
  | cancel =>
    simp only [step, cancelCall] at hstep
    split at hstep <;> cases hstep
    all_goals exact hsame rfl rfl rfl rfl
  | stop =>
    simp only [step] at hstep
    split at hstep
    · cases hstep
      unfold stop
      dsimp only
      split
      · exact (stopAll_quiet s).trans (superviseUntil_quiet _ _ _)
      · exact stopAll_quiet s
    · cases hstep

theorem step_pc {a : Action U} (hw : WFOn T s) (ha : ∀ o, a ≠ .resume t o)
    (hstep : step s a = some s') (ht : s.tasks t ≠ none) :
    (s'.tasks t).map (fun k => (k.unit, k.pc)) = (s.tasks t).map fun k => (k.unit, k.pc) := by
  by_cases hresume : ∃ t' o, a = .resume t' o
  · obtain ⟨t', o, rfl⟩ := hresume
    obtain ⟨k, hk, hseg⟩ := Option.bind_eq_some_iff.1 hstep
    refine (runSegment_alone hseg).pc t ?_
    rintro rfl
    exact ha o rfl
  · exact (step_quiet hw (fun t o h => hresume ⟨t, o, h⟩) hstep).pc t ht

/-! ### Finished tasks -/

theorem Quiet.taskResult (h : Quiet s s') (t : TaskId) : s'.taskResult t = s.taskResult t := by
  unfold Supervisor.taskResult
  cases hk : s.tasks t with
  | none =>
    cases hk' : s'.tasks t with
    | none => rfl
    | some k => simp [(h.new t k hk hk').2, Pc.result]
  | some k =>
    have hpc := h.pc t (by simp [hk])
    obtain ⟨k', hk', heq⟩ := Option.map_eq_some_iff.1 (hpc.trans (by rw [hk]; rfl))
    rw [hk', Option.bind_some, Option.bind_some, (Prod.mk.inj heq).2]

theorem Alone.taskResult (h : Alone t r s s') {t' : TaskId} (ht : t' ≠ t) :
    s'.taskResult t' = s.taskResult t' := by
  have hpc := congrArg (Option.map Prod.snd) (h.pc t' ht)
  unfold Supervisor.taskResult
  rw [Option.map_map, Option.map_map] at hpc
  cases hk : s.tasks t' <;> cases hk' : s'.tasks t' <;> simp_all [Pc.result]

theorem step_result {a : Action U} {res : TaskResult U} (hw : WFOn T s)
    (hstep : step s a = some s') (h : s.taskResult t = some res) : s'.taskResult t = some res := by
  by_cases hresume : ∃ t' o, a = .resume t' o
  · obtain ⟨t', o, rfl⟩ := hresume
    obtain ⟨k, hk, hseg⟩ := Option.bind_eq_some_iff.1 hstep
    rw [(runSegment_alone hseg).taskResult ?_]
    · exact h
    · rintro rfl
      obtain ⟨k', hk', hfin⟩ := taskResult_isSome.1 (Option.isSome_of_eq_some h)
      rw [hk] at hk'
      cases hk'
      cases hpc : k.pc with
      | finished res => simp [runSegment, hpc] at hseg
      | _ => rw [hpc] at hfin; cases hfin
  · rw [(step_quiet hw (fun t' o h => hresume ⟨t', o, h⟩) hstep).taskResult]
    exact h

end

end Silkjam.Supervisor
