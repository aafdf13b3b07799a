import Silkjam.Supervisor.Moves

/-!
# The segments of `_run_unit` as moves

A segment of a task of unit `u` works on that unit alone (`Within`), and takes its view along one
move: `segment`, or `finish` for the last one.
-/

namespace Silkjam.Supervisor

variable {U : Type} [DecidableEq U]

/-! ### Work on one unit -/

/-- Task `t` was created for `u`. -/
def Owns (s : Supervisor U) (t : TaskId) (u : U) : Prop :=
  (s.tasks t).map (·.unit) = some u

/-- The object bound to the variable `state` of `_run_unit`. -/
def Pc.ref : Pc U → Option (StateRef U)
  | .enterSleep r | .entering r | .runSleep r | .running r | .exiting r => some r
  | .created | .finished _ => none

/-- A `State` object names a task of its unit, and a task works with an object of its unit. -/
structure Owned (s : Supervisor U) : Prop where
  task : ∀ r t, (s.heap r).task = some t → s.Owns t r.unit
  ref : ∀ t k r, s.tasks t = some k → k.pc.ref = some r → r.unit = k.unit

/-- The state of the loop, up to what its event tasks do. -/
def Loop.core : Loop U → Loop U
  | .waiting c => .waiting { c with helpers := [] }
  | l => l

/-- `s'` comes from `s` by work on `u` alone, which creates no unit and no task and ends none but
`t`. -/
structure Within (u : U) (t : TaskId) (s s' : Supervisor U) : Prop where
  units : s'.units = s.units
  nextTask : s'.nextTask = s.nextTask
  owner : ∀ t, (s'.tasks t).map (·.unit) = (s.tasks t).map (·.unit)
  result : ∀ t' ≠ t, s'.taskResult t' = s.taskResult t'
  running : s'.running.Sublist s.running
  queue : s'.queue = s.queue
  loop : s'.loop.core = s.loop.core
  returns : s'.returns = s.returns
  other : ∀ w ≠ u, s'.view w = s.view w
  owned : s.Owned → s'.Owned

theorem Within.refl (u : U) (t : TaskId) (s : Supervisor U) : Within u t s s :=
  ⟨rfl, rfl, fun _ => rfl, fun _ _ => rfl, .refl _, rfl, rfl, rfl, fun _ _ => rfl, id⟩

theorem Within.trans {u : U} {t : TaskId} {s s' s'' : Supervisor U} (h : Within u t s s')
    (h' : Within u t s' s'') : Within u t s s'' :=
  ⟨h'.units.trans h.units, h'.nextTask.trans h.nextTask, fun t => (h'.owner t).trans (h.owner t),
    fun t ht => (h'.result t ht).trans (h.result t ht), h'.running.trans h.running,
    h'.queue.trans h.queue, h'.loop.trans h.loop, h'.returns.trans h.returns,
    fun w hw => (h'.other w hw).trans (h.other w hw), fun ho => h'.owned (h.owned ho)⟩

theorem Within.owns {u v : U} {s s' : Supervisor U} {t t' : TaskId} (h : Within u t s s')
    (ho : s.Owns t' v) : s'.Owns t' v :=
  (h.owner t').trans ho

theorem taskResult_modifyTask {s : Supervisor U} {t t' : TaskId} {f : UnitTask U → UnitTask U}
    (hf : ∀ k, (f k).pc = k.pc) : (s.modifyTask t f).taskResult t' = s.taskResult t' := by
  by_cases h : t' = t
  · subst h
    cases hk : s.tasks t' with
    | none => simp [taskResult, modifyTask, hk]
    | some k => simp [taskResult, modifyTask, hk, hf]
  · simp [taskResult, modifyTask, Function.update_of_ne h]

theorem setEvent_core (s : Supervisor U) (e : EventRef U) :
    (s.setEvent e).loop.core = s.loop.core := by
  simp only [setEvent]
  cases s.loop <;> rfl

section
variable {s : Supervisor U} {u : U} {t : TaskId} {r : StateRef U}

theorem Owned.modify (h : s.Owned) {f : State U → State U}
    (hf : ∀ st t, (f st).task = some t → st.task = some t) : (s.modify r f).Owned := by
  refine ⟨?_, h.ref⟩
  intro r' t' ht'
  apply h.task r' t'
  by_cases hr : r' = r
  · subst hr
    apply hf _ t'
    simpa [Supervisor.modify] using ht'
  · simpa [Supervisor.modify, Function.update_of_ne hr] using ht'

theorem within_modify (f : State U → State U) (hr : r.unit = u)
    (hf : ∀ st t, (f st).task = some t → st.task = some t := by exact fun _ _ h => h) :
    Within u t s (s.modify r f) :=
  ⟨rfl, rfl, fun _ => rfl, fun _ _ => rfl, .refl _, rfl, rfl, rfl,
    fun _ hw => view_modify_ne s f fun h => hw (h ▸ hr), fun ho => ho.modify hf⟩

theorem within_log (o : Obs U) (ho : o.unit = u) : Within u t s (s.log o) :=
  ⟨rfl, rfl, fun _ => rfl, fun _ _ => rfl, .refl _, rfl, rfl, rfl,
    fun _ hw => view_log_ne s fun h => hw (h ▸ ho), fun ho => ⟨ho.task, ho.ref⟩⟩

theorem within_setEvent (e : EventRef U) : Within u t s (s.setEvent e) :=
  ⟨rfl, rfl, fun _ => rfl, fun _ _ => rfl, .refl _, rfl, setEvent_core s e, rfl,
    fun w _ => view_setEvent s e w, fun ho => ⟨ho.task, ho.ref⟩⟩

theorem within_clearEvent (e : EventRef U) : Within u t s (s.clearEvent e) :=
  ⟨rfl, rfl, fun _ => rfl, fun _ _ => rfl, .refl _, rfl, rfl, rfl, fun w _ => view_clearEvent s e w,
    fun ho => ⟨ho.task, ho.ref⟩⟩

theorem within_modifyTask {t' : TaskId} {f : UnitTask U → UnitTask U} (ho : s.Owns t' u)
    (hf : ∀ k, (f k).unit = k.unit) (hpc : t' = t ∨ ∀ k, (f k).pc = k.pc)
    (href : ∀ k r, (f k).pc.ref = some r → k.pc.ref = some r ∨ r.unit = u) :
    Within u t s (s.modifyTask t' f) := by
  obtain ⟨k, hk, rfl⟩ := Option.map_eq_some_iff.1 ho
  have howner (t₁ : TaskId) :
      ((s.modifyTask t' f).tasks t₁).map (·.unit) = (s.tasks t₁).map (·.unit) := by
    by_cases h : t₁ = t'
    · subst h; simp [modifyTask, hk, hf]
    · simp [modifyTask, Function.update_of_ne h]
  refine ⟨rfl, rfl, howner, fun t₁ ht₁ => ?_, .refl _, rfl, rfl, rfl,
    fun w hw => view_modifyTask_ne s hk (hf k) hw.symm, fun howned => ⟨fun r t₁ ht₁ => ?_, ?_⟩⟩
  · rcases hpc with rfl | hpc
    · simp [taskResult, modifyTask, Function.update_of_ne ht₁]
    · exact taskResult_modifyTask hpc
  · exact (howner t₁).trans (howned.task r t₁ ht₁)
  · intro t₁ k₁ r hk₁ hr
    by_cases h : t₁ = t'
    · subst h
      obtain rfl : f k = k₁ := by simpa [modifyTask, hk] using hk₁
      rw [hf k]
      exact (href k r hr).elim (howned.ref t₁ k r hk) id
    · refine howned.ref t₁ k₁ r ?_ hr
      simpa [modifyTask, Function.update_of_ne h] using hk₁

theorem within_cancelTask {t' : TaskId} (ho : s.Owns t' u) : Within u t s (s.cancelTask t') :=
  within_modifyTask ho (fun _ => rfl) (.inr fun _ => rfl) fun _ _ h => .inl h

theorem within_setPc (ho : s.Owns t u) (pc : Pc U) (hpc : ∀ r, pc.ref = some r → r.unit = u) :
    Within u t s (s.setPc t pc) :=
  within_modifyTask ho (fun _ => rfl) (.inl rfl) fun _ r hr => .inr (hpc r hr)

theorem within_drop {t' : TaskId} (ht : ∀ w, (t', w) ∈ s.running → w = u) :
    Within u t s { s with running := s.running.filter fun e => e.1 ≠ t' } := by
  refine ⟨rfl, rfl, fun _ => rfl, fun _ _ => rfl, List.filter_sublist, rfl, rfl, rfl,
    fun w hw => ?_, fun ho => ⟨ho.task, ho.ref⟩⟩
  have hentries : ∀ t₁, ((t₁, w) ∈ s.running.filter fun e => e.1 ≠ t') = ((t₁, w) ∈ s.running) := by
    intro t₁
    simp only [List.mem_filter, decide_eq_true_eq, eq_iff_iff, and_iff_left_iff_imp]
    rintro hmem rfl
    exact hw (ht w hmem)
  simp only [view, hentries]
  rfl

theorem exitUnit_within (ho : s.Owns t u) (hr : r.unit = u) : Within u t s (s.exitUnit t r) := by
  have h := ((within_setEvent (s := s) (u := u) (t := t) (.doneEntering r)).trans (within_modify
    (fun st => { st with pendingStart := false, status := .exiting }) hr)).trans
      (within_log (.exit t r.unit) hr)
  exact h.trans (within_setPc (h.owns ho) _ fun _ h => Option.some.inj h ▸ hr)

theorem phaseFailed_within (ho : s.Owns t u) (hr : r.unit = u) (e : Exc U) :
    Within u t s (s.phaseFailed t r e) :=
  have h := within_modify (s := s) (t := t) (fun st => { st with result := .exc e }) hr
  h.trans (exitUnit_within (h.owns ho) hr)

theorem enterUnit_within (ho : s.Owns t u) (hr : r.unit = u) : Within u t s (s.enterUnit t r) :=
  have h := within_log (s := s) (t := t) (.enter t r.unit) hr
  h.trans (within_setPc (h.owns ho) _ fun _ h => Option.some.inj h ▸ hr)

theorem callRun_within (ho : s.Owns t u) (hr : r.unit = u) : Within u t s (s.callRun t r) :=
  have h := within_log (s := s) (t := t) (.run t r.unit) hr
  h.trans (within_setPc (h.owns ho) _ fun _ h => Option.some.inj h ▸ hr)

theorem stopUnit_within {s' : Supervisor U} (h : s.stopUnit u = .ok s')
    (ho : ∀ t, (s.state u).task = some t → s.Owns t u) : Within u t s s' := by
  unfold stopUnit at h
  split at h
  · cases h
  · split at h
    · cases h
    · next t htask =>
      cases h
      exact (within_cancelTask (ho t htask)).trans (within_log _ rfl)

theorem setEntering_within (hr : r.unit = u) : Within u t s (s.setEntering r) :=
  (((within_modify _ hr).trans (within_clearEvent _)).trans (within_clearEvent _)).trans
    (within_modify _ hr)

theorem setRunning_within (hr : r.unit = u) : Within u t s (s.setRunning r) :=
  (within_setEvent _).trans (within_modify _ hr)

theorem setExited_within (hr : r.unit = u) : Within u t s (s.setExited r) :=
  ((within_setEvent _).trans (within_modify _ hr)).trans (within_modify _ hr)

theorem cleanupDone_within (ho : s.Owns t u) (hr : r.unit = u) :
    Within u t s (s.cleanupDone t r) :=
  have h := (within_modify (s := s) (t := t) (fun st => { st with task := none }) hr nofun).trans
    (within_clearEvent (.doneEntering r))
  h.trans (within_setPc (h.owns ho) _ nofun)

theorem state_modify (s : Supervisor U) {r : StateRef U} (f : State U → State U) (h : r = s.ref u) :
    (s.modify r f).state u = f (s.state u) := by
  subst h
  simp [state, modify, ref]

theorem beginUnit_within (ho : s.Owns t u) (howned : s.Owned) : Within u t s (s.beginUnit t u) := by
  unfold beginUnit
  split
  · exact within_setPc ho _ nofun
  · dsimp only
    have h : Within u t s (s.setEntering (s.ref u)) := setEntering_within rfl
    split
    · split
      · exact h.trans (phaseFailed_within (h.owns ho) rfl _)
      · next hstop =>
        have h' := h.trans (stopUnit_within hstop fun t' => (h.owned howned).task _ t')
        exact h'.trans (within_setPc (h'.owns ho) _ fun _ h => Option.some.inj h ▸ rfl)
    · exact h.trans (enterUnit_within (h.owns ho) rfl)

theorem unitEntered_within (ho : s.Owns t u) (howned : s.Owned) (hr : r.unit = u) :
    Within u t s (s.unitEntered t r) := by
  have h : Within u t s (s.setRunning r) := setRunning_within hr
  unfold unitEntered
  dsimp only
  split
  · split
    · exact h.trans (phaseFailed_within (h.owns ho) hr _)
    · next hstop =>
      rw [hr] at hstop
      have h' := h.trans (stopUnit_within hstop fun t' => (h.owned howned).task _ t')
      exact h'.trans (within_setPc (h'.owns ho) _ fun _ h => Option.some.inj h ▸ hr)
  · exact h.trans (callRun_within (h.owns ho) hr)

theorem cleanup_within (ho : s.Owns t u) (howned : s.Owned) (hr : r.unit = u)
    (hentries : ∀ t w, (t, w) ∈ s.running → s.Owns t w) : Within u t s (s.cleanup t r) := by
  have h : Within u t s (s.setExited r) := setExited_within hr
  unfold cleanup
  dsimp only
  split
  · exact h.trans (cleanupDone_within (h.owns ho) hr)
  · split
    · exact h.trans (within_setPc (h.owns ho) _ nofun)
    · next t' ht' =>
      split
      · have hown : (s.setExited r).Owns t' u := hr ▸ (h.owned howned).task r t' ht'
        have h' := h.trans (within_drop fun w hw =>
          Option.some_injective _ ((h.owns (hentries t' w (h.running.subset hw))).symm.trans hown))
        exact h'.trans (cleanupDone_within (h'.owns ho) hr)
      · exact h.trans (within_setPc (h.owns ho) _ nofun)

end

/-! ### Segments -/

omit [DecidableEq U] in
/-- What the position of an unfinished task says of its record, see `Fits`. -/
theorem Fits.pc_ref {v : View U} {t : TaskId} {k : UnitTask U} (h : Fits v (.live t k)) :
    match k.pc with
    | .created => k.cancel = false
    | .enterSleep r | .runSleep r => r = v.ref ∧ k.cancel = true
    | .entering r | .running r | .exiting r => r = v.ref
    | .finished _ => False := by
  have hpc := h.pcFits
  unfold PcFits at hpc
  split at hpc <;> simp_all

/-- A segment works on the unit of its task alone. -/
theorem runSegment_within {s s' : Supervisor U} {t : TaskId} {k : UnitTask U} {o : Outcome U}
    (hk : s.tasks t = some k) (howned : s.Owned)
    (hentries : ∀ t w, (t, w) ∈ s.running → s.Owns t w) (h : s.runSegment t k o = some s') :
    Within k.unit t s s' := by
  have ho : s.Owns t k.unit := by simp [Owns, hk]
  have hr (r : StateRef U) (hpc : k.pc.ref = some r) : r.unit = k.unit := howned.ref t k r hk hpc
  have h₁ : Within k.unit t s (s.clearCancel t) :=
    within_modifyTask ho (fun _ => rfl) (.inl rfl) fun _ _ h => .inl h
  have ho₁ := h₁.owns ho
  have howned₁ := h₁.owned howned
  have hentries₁ (t' : TaskId) (w : U) (hmem : (t', w) ∈ (s.clearCancel t).running) :
      (s.clearCancel t).Owns t' w := h₁.owns (hentries t' w hmem)
  unfold runSegment at h
  dsimp only at h
  split at h <;> rename_i hpc <;> simp only [hpc, Pc.ref, Option.some.injEq, forall_eq'] at hr
  · split at h <;> cases h
    · exact h₁.trans (within_setPc ho₁ _ nofun)
    · exact h₁.trans (beginUnit_within ho₁ howned₁)
  · split at h <;> cases h
    · exact h₁.trans (phaseFailed_within ho₁ hr _)
    · exact h₁.trans (enterUnit_within ho₁ hr)
  · cases h
    exact h₁.trans (unitEntered_within ho₁ howned₁ hr)
  · cases h
    exact h₁.trans (phaseFailed_within ho₁ hr _)
  · split at h <;> cases h
    · exact h₁.trans (phaseFailed_within ho₁ hr _)
    · exact h₁.trans (callRun_within ho₁ hr)
  · cases h
    rename_i v
    have h₂ := h₁.trans (within_modify (fun st => { st with result := v }) hr)
    exact h₂.trans (exitUnit_within (h₂.owns ho) hr)
  · cases h
    exact h₁.trans (phaseFailed_within ho₁ hr _)
  · cases h
    exact h₁.trans (cleanup_within ho₁ howned₁ hr hentries₁)
  · cases h
    rename_i e
    have h₂ := within_modify (s := s.clearCancel t) (t := t)
      (fun st => { st with result := .exc e }) hr
    exact h₁.trans (h₂.trans (cleanup_within (h₂.owns ho₁) (h₂.owned howned₁) hr
      fun t' w hmem => h₂.owns (hentries₁ t' w hmem)))
  · cases h; exact h₁
  · cases h; exact h₁
  · cases h; exact h₁
  · cases h

/-! ### Their effect on the unit -/

section
variable {s : Supervisor U} {u : U} {t : TaskId} {k : UnitTask U}

theorem view_modifyTask_live {f : UnitTask U → UnitTask U} (hk : s.tasks t = some k)
    (hu : k.unit = u) (hf : (f k).unit = k.unit) (hlive : (f k).pc.isFinished = false) :
    (s.modifyTask t f).view u =
      { s.view u with tasks := Function.update (s.view u).tasks t (some (f k)) } := by
  rw [view_modifyTask, hk]
  simp [UnitTask.liveOf, hf, hu, hlive]

theorem view_setPc (hk : s.tasks t = some k) (hu : k.unit = u) {pc : Pc U}
    (hlive : pc.isFinished = false) :
    (s.setPc t pc).view u =
      { s.view u with tasks := Function.update (s.view u).tasks t (some { k with pc := pc }) } :=
  view_modifyTask_live hk hu rfl hlive

theorem view_finish (hk : s.tasks t = some k) (res : TaskResult U) :
    (s.finish t res).view u =
      { s.view u with tasks := Function.update (s.view u).tasks t none } := by
  rw [finish, setPc, view_modifyTask, hk]
  simp [UnitTask.liveOf, Pc.isFinished]

theorem view_log (o : Obs U) (hu : o.unit = u) :
    (s.log o).view u = { s.view u with trace := o :: (s.view u).trace } := by
  rw [← hu, view_log_self]

theorem view_setEntering {r : StateRef U} (hr : r = s.ref u) :
    (s.setEntering r).view u =
      { s.view u with st := { (s.view u).st with result := .none, status := .entering } } := by
  unfold setEntering
  rw [view_modify_self, view_clearEvent, view_clearEvent, view_modify_self _ _ hr]
  exact hr

theorem view_setRunning {r : StateRef U} (hr : r = s.ref u) :
    (s.setRunning r).view u =
      { s.view u with st := { (s.view u).st with pendingStart := false, status := .running } } := by
  unfold setRunning
  rw [view_modify_self, view_setEvent]
  exact hr

theorem view_setExited {r : StateRef U} (hr : r = s.ref u) :
    (s.setExited r).view u = { s.view u with st := (s.view u).st.cleaned } := by
  unfold setExited
  rw [view_modify_self, view_modify_self, view_setEvent]
  · rfl
  · exact hr
  · exact hr

theorem view_exitUnit {r : StateRef U} (hk : s.tasks t = some k) (hu : k.unit = u)
    (hr : r = s.ref u) :
    (s.exitUnit t r).view u =
      { s.view u with
        st := { (s.view u).st with pendingStart := false, status := .exiting }
        tasks := Function.update (s.view u).tasks t (some { k with pc := .exiting r })
        trace := .exit t u :: (s.view u).trace } := by
  unfold exitUnit
  rw [view_setPc (k := k), view_log, view_modify_self, view_setEvent]
  · subst hr; rfl
  · exact hr
  · subst hr; rfl
  · exact hk
  · exact hu
  · rfl

theorem view_phaseFailed {r : StateRef U} (hk : s.tasks t = some k) (hu : k.unit = u)
    (hr : r = s.ref u) (e : Exc U) :
    (s.phaseFailed t r e).view u =
      { s.view u with
        st := (s.view u).st.atExit (.exc e)
        tasks := Function.update (s.view u).tasks t (some { k with pc := .exiting r })
        trace := .exit t u :: (s.view u).trace } := by
  unfold phaseFailed
  rw [view_exitUnit (k := k), view_modify_self]
  · rfl
  · exact hr
  · exact hk
  · exact hu
  · exact hr

theorem view_cancelTask (hk : s.tasks t = some k) (hu : k.unit = u)
    (hlive : k.pc.isFinished = false) :
    (s.cancelTask t).view u =
      { s.view u with
        tasks := Function.update (s.view u).tasks t (some { k with cancel := true }) } := by
  rw [cancelTask, view_modifyTask_live hk hu rfl hlive]
  simp [hlive]

theorem view_stopUnit {s' : Supervisor U} (h : s.stopUnit u = .ok s')
    (htask : (s.state u).task = some t) (hk : s.tasks t = some k) (hu : k.unit = u)
    (hlive : k.pc.isFinished = false) :
    s'.view u =
      { s.view u with
        tasks := Function.update (s.view u).tasks t (some { k with cancel := true })
        trace := .cancel t u (s.view u).st.status :: (s.view u).trace } := by
  unfold stopUnit at h
  rw [htask] at h
  split at h
  · cases h
  · cases h
    rw [view_log (u := u), view_cancelTask hk hu hlive]
    · rfl
    · rfl

theorem view_clearCancel (hk : s.tasks t = some k) (hu : k.unit = u)
    (hlive : k.pc.isFinished = false) :
    (s.clearCancel t).view u =
      { s.view u with
        tasks := Function.update (s.view u).tasks t (some { k with cancel := false }) } :=
  view_modifyTask_live hk hu rfl hlive

theorem tasks_clearCancel (hk : s.tasks t = some k) :
    (s.clearCancel t).tasks t = some { k with cancel := false } := by
  simp [clearCancel, modifyTask, hk]

end

/-! ### Segments as moves -/

section
variable {s : Supervisor U} {u : U} {t : TaskId} {k : UnitTask U}

theorem enterUnit_view {r : StateRef U} (hk : s.tasks t = some k) (hu : k.unit = u)
    (hr : r = s.ref u) :
    (s.enterUnit t r).view u =
      { s.view u with
        tasks := Function.update (s.view u).tasks t (some { k with pc := .entering r })
        trace := .enter t u :: (s.view u).trace } := by
  unfold enterUnit
  rw [view_setPc (k := k), view_log]
  · subst hr; rfl
  · subst hr; rfl
  · exact hk
  · exact hu
  · rfl

theorem callRun_view {r : StateRef U} (hk : s.tasks t = some k) (hu : k.unit = u)
    (hr : r = s.ref u) :
    (s.callRun t r).view u =
      { s.view u with
        tasks := Function.update (s.view u).tasks t (some { k with pc := .running r })
        trace := .run t u :: (s.view u).trace } := by
  unfold callRun
  rw [view_setPc (k := k), view_log]
  · subst hr; rfl
  · subst hr; rfl
  · exact hk
  · exact hu
  · rfl

theorem stopUnit_error {e : Exc U} (h : s.stopUnit u = .error e) (hreg : u ∈ s.units) :
    (s.state u).task = none := by
  unfold stopUnit at h
  split at h
  · contradiction
  · split at h
    · assumption
    · cases h

theorem stopUnit_ok {s' : Supervisor U} (h : s.stopUnit u = .ok s') :
    ∃ t, (s.state u).task = some t := by
  unfold stopUnit at h
  split at h
  · cases h
  · split at h
    · cases h
    · next t ht => exact ⟨t, ht⟩

end

/-- Task `t`, whose record was `k`, has resumed in a state where the view of its unit was `v`; since
then only the `State` object of the unit has changed, to `st`. -/
structure Resumed (v : View U) (t : TaskId) (k : UnitTask U) (s : Supervisor U) (st : State U) :
    Prop where
  before : v.tasks t = some k
  ref : v.ref = s.ref k.unit
  task : s.tasks t = some { k with cancel := false }
  view : s.view k.unit =
    { v with st := st, tasks := Function.update v.tasks t (some { k with cancel := false }) }

section
variable {v : View U} {s s' : Supervisor U} {t : TaskId} {k : UnitTask U} {st : State U}
  {r : StateRef U}

theorem Resumed.start (hk : s.tasks t = some k) (hlive : k.pc.isFinished = false) :
    Resumed (s.view k.unit) t k (s.clearCancel t) (s.view k.unit).st :=
  ⟨view_tasks_eq_some.2 ⟨hk, rfl, hlive⟩, rfl, tasks_clearCancel hk, view_clearCancel hk rfl hlive⟩

theorem Resumed.st_eq (h : Resumed v t k s st) : s.heap v.ref = st := by
  have := congrArg View.st h.view
  rw [h.ref]
  exact this

theorem Resumed.state_eq (h : Resumed v t k s st) : s.state k.unit = st := by
  rw [← h.st_eq, h.ref]
  rfl

theorem Resumed.ref_unit (h : Resumed v t k s st) : v.ref.unit = k.unit := by
  rw [h.ref]
  rfl

theorem Resumed.units_iff (h : Resumed v t k s st) : k.unit ∈ s.units ↔ v.registered :=
  iff_of_eq (congrArg View.registered h.view)

theorem Resumed.modify (h : Resumed v t k s st) (f : State U → State U) :
    Resumed v t k (s.modify v.ref f) (f st) := by
  refine ⟨h.before, h.ref, h.task, ?_⟩
  rw [view_modify_self _ _ h.ref, h.view]

theorem Resumed.setEntering (h : Resumed v t k s st) :
    Resumed v t k (s.setEntering v.ref) { st with result := .none, status := .entering } := by
  refine ⟨h.before, h.ref, h.task, ?_⟩
  rw [view_setEntering h.ref, h.view]

theorem Resumed.setRunning (h : Resumed v t k s st) :
    Resumed v t k (s.setRunning v.ref) { st with pendingStart := false, status := .running } := by
  refine ⟨h.before, h.ref, h.task, ?_⟩
  rw [view_setRunning h.ref, h.view]

theorem Resumed.setExited (h : Resumed v t k s st) :
    Resumed v t k (s.setExited v.ref) st.cleaned := by
  refine ⟨h.before, h.ref, h.task, ?_⟩
  rw [view_setExited h.ref, h.view]

theorem Resumed.exitUnit (h : Resumed v t k s st) :
    (s.exitUnit t v.ref).view k.unit =
      { v with
        st := { st with pendingStart := false, status := .exiting }
        tasks := Function.update v.tasks t (some { k with pc := .exiting v.ref, cancel := false })
        trace := .exit t v.ref.unit :: v.trace } := by
  rw [view_exitUnit h.task rfl h.ref, h.view]
  simp [h.ref_unit]

theorem Resumed.phaseFailed (h : Resumed v t k s st) (e : Exc U) :
    (s.phaseFailed t v.ref e).view k.unit =
      { v with
        st := st.atExit (.exc e)
        tasks := Function.update v.tasks t (some { k with pc := .exiting v.ref, cancel := false })
        trace := .exit t v.ref.unit :: v.trace } := by
  rw [view_phaseFailed h.task rfl h.ref, h.view]
  simp [h.ref_unit]

theorem Resumed.enterUnit (h : Resumed v t k s st) :
    (s.enterUnit t v.ref).view k.unit =
      { v with
        st := st
        tasks := Function.update v.tasks t (some { k with pc := .entering v.ref, cancel := false })
        trace := .enter t v.ref.unit :: v.trace } := by
  rw [enterUnit_view h.task rfl h.ref, h.view]
  simp [h.ref_unit]

theorem Resumed.callRun (h : Resumed v t k s st) :
    (s.callRun t v.ref).view k.unit =
      { v with
        st := st
        tasks := Function.update v.tasks t (some { k with pc := .running v.ref, cancel := false })
        trace := .run t v.ref.unit :: v.trace } := by
  rw [callRun_view h.task rfl h.ref, h.view]
  simp [h.ref_unit]

/-- The task cancels itself and goes on to sleep at `pc`. -/
theorem Resumed.stopUnit (h : Resumed v t k s st) (hlive : k.pc.isFinished = false)
    (hstop : s.stopUnit k.unit = .ok s') (htask : st.task = some t) {pc : Pc U}
    (hpc : pc.isFinished = false) :
    (s'.setPc t pc).view k.unit =
      { v with
        st := st
        tasks := Function.update v.tasks t (some { k with pc := pc, cancel := true })
        trace := .cancel t v.ref.unit st.status :: v.trace } := by
  have htask' : (s.state k.unit).task = some t := by rw [h.state_eq, htask]
  have hk' : s'.tasks t = some { k with cancel := true } := by
    unfold Supervisor.stopUnit at hstop
    rw [htask'] at hstop
    split at hstop
    · cases hstop
    · cases hstop
      simp [cancelTask, log, modifyTask, h.task, hlive]
  rw [view_setPc hk' rfl hpc, view_stopUnit hstop htask' h.task rfl hlive, h.view]
  simp [h.ref_unit]

theorem Resumed.drop (h : Resumed v t k s st) :
    Resumed { v with entries := fun t' => v.entries t' ∧ t' ≠ t } t k
      { s with running := s.running.filter fun e => e.1 ≠ t } st := by
  refine ⟨h.before, h.ref, h.task, ?_⟩
  have hentries (t' : TaskId) : ((t', k.unit) ∈ s.running) = v.entries t' :=
    congrFun (congrArg View.entries h.view) t'
  have hview :
      ({ s with running := s.running.filter fun e => e.1 ≠ t } : Supervisor U).view k.unit =
      { s.view k.unit with entries := fun t' => v.entries t' ∧ t' ≠ t } := by
    simp only [Supervisor.view, List.mem_filter, decide_eq_true_eq, ← hentries]
    rfl
  rw [hview, h.view]

theorem Resumed.finish (h : Resumed v t k s st) (res : TaskResult U) :
    (s.finish t res).view k.unit =
      { v with st := st, tasks := Function.update v.tasks t none } := by
  rw [view_finish h.task, h.view]
  simp

theorem Resumed.cleanupDone (h : Resumed v t k s st) :
    (s.cleanupDone t v.ref).view k.unit =
      { v with st := { st with task := none }, tasks := Function.update v.tasks t none } := by
  have h' := h.modify fun st => { st with task := none }
  exact Resumed.finish ⟨h'.before, h'.ref, h'.task, h'.view⟩ _

theorem Resumed.beginUnit (h : Resumed v t k s v.st) (hreg : v.registered) (hpc : k.pc = .created)
    (htask : ∀ t', v.st.task = some t' → t' = t) :
    Move .segment v ((s.beginUnit t k.unit).view k.unit) := by
  have hlive : k.pc.isFinished = false := by rw [hpc]; rfl
  have h₁ := h.setEntering
  unfold Supervisor.beginUnit
  rw [if_neg (not_not.2 (h.units_iff.2 hreg))]
  dsimp only
  rw [← h.ref, h₁.st_eq]
  split
  · next hforce =>
    split
    · next e hstop =>
      have hnone : v.st.task = none := by
        simpa only [h₁.state_eq] using stopUnit_error hstop (h₁.units_iff.2 hreg)
      rw [h₁.phaseFailed]
      exact .toExit t k _ h.before (.inr (.inr (.inr (.inr ⟨hpc, hnone⟩))))
    · next s₂ hstop =>
      have htask' : v.st.task = some t := by
        obtain ⟨t', ht'⟩ := stopUnit_ok hstop
        rw [h₁.state_eq] at ht'
        exact htask t' ht' ▸ ht'
      rw [h₁.stopUnit hlive hstop htask' rfl]
      exact .beginForced t k h.before hpc hforce.1 hforce.2 htask'
  · next hforce =>
    rw [h₁.enterUnit]
    exact .begin t k h.before hpc hforce

theorem Resumed.unitEntered (h : Resumed v t k s v.st)
    (hpc : k.pc = .entering v.ref) (htask : ∀ t', v.st.task = some t' → t' = t) :
    Move .segment v ((s.unitEntered t v.ref).view k.unit) := by
  have hlive : k.pc.isFinished = false := by rw [hpc]; rfl
  have h₁ := h.setRunning
  unfold Supervisor.unitEntered
  dsimp only
  rw [h₁.st_eq, h.ref_unit]
  split
  · next hstopped =>
    split
    · next e hstop =>
      rw [h₁.phaseFailed]
      exact .toExit t k _ h.before (.inr (.inl hpc))
    · next s₂ hstop =>
      have htask' : v.st.task = some t := by
        obtain ⟨t', ht'⟩ := stopUnit_ok hstop
        rw [h₁.state_eq] at ht'
        exact htask t' ht' ▸ ht'
      rw [h₁.stopUnit hlive hstop htask' rfl]
      exact .enteredStopped t k h.before hpc hstopped htask'
  · next hstopped =>
    rw [h₁.callRun]
    exact .entered t k h.before hpc (Bool.eq_false_iff.2 hstopped)

theorem Resumed.cleanup {w : Val U} (h : Resumed v t k s { v.st with result := w })
    (hpc : k.pc = .exiting v.ref) (hentry : v.entries t)
    (htask : ∀ t', v.st.task = some t' → t' = t) :
    Move .finish v ((s.cleanup t v.ref).view k.unit) := by
  have h₁ := h.setExited
  unfold Supervisor.cleanup
  dsimp only
  rw [h₁.st_eq]
  split
  · rw [h₁.cleanupDone]
    simpa using Move.finish t k w false h.before hpc
  · split
    · next hnone =>
      rw [h₁.finish]
      have hlost : v.st.task = none := hnone
      have hmove := Move.finish t k w false h.before hpc (by simp)
      simpa [State.cleaned, hlost] using hmove
    · next t' ht' =>
      obtain rfl : t' = t := htask t' ht'
      have hmem : t' ∈ (s.setExited v.ref).running.map (·.1) := by
        have hentries := congrFun (congrArg View.entries h₁.view) t'
        exact List.mem_map_of_mem (hentries.mpr hentry)
      rw [if_pos hmem, h₁.drop.cleanupDone]
      simpa using Move.finish t' k w true h.before hpc fun _ => ht'

end

/-- **Every segment of a unit's task is one move of that unit.** -/
theorem runSegment_move {s s' : Supervisor U} {t : TaskId} {k : UnitTask U} {o : Outcome U}
    (hk : s.tasks t = some k) (hfit : Fits (s.view k.unit) (.live t k))
    (h : s.runSegment t k o = some s') :
    ∃ l, (l = .segment ∨ l = .finish) ∧ Move l (s.view k.unit) (s'.view k.unit) := by
  have hreg : (s.view k.unit).registered := hfit.live_registered
  have hentry : (s.view k.unit).entries t := hfit.entry
  have htask : ∀ t', (s.view k.unit).st.task = some t' → t' = t := by
    intro t' ht'
    simpa [ht'] using hfit.live_task
  have hpc := hfit.pc_ref
  have hlive : k.pc.isFinished = false := by
    cases hp : k.pc <;> simp_all [Pc.isFinished]
  have h₀ := Resumed.start hk hlive
  have hv := h₀.before
  unfold runSegment at h
  dsimp only at h
  split at h <;> rename_i hk_pc <;> simp only [hk_pc] at hpc
  · rw [hpc, if_neg (by simp)] at h
    cases h
    exact ⟨_, .inl rfl, h₀.beginUnit hreg hk_pc htask⟩
  · obtain ⟨rfl, hc⟩ := hpc
    rw [hc, if_pos rfl] at h
    cases h
    rw [h₀.phaseFailed]
    exact ⟨_, .inl rfl, .toExit t k _ hv (.inl hk_pc)⟩
  · subst hpc
    cases h
    exact ⟨_, .inl rfl, h₀.unitEntered hk_pc htask⟩
  · subst hpc
    cases h
    rw [h₀.phaseFailed]
    exact ⟨_, .inl rfl, .toExit t k _ hv (.inr (.inl hk_pc))⟩
  · obtain ⟨rfl, hc⟩ := hpc
    rw [hc, if_pos rfl] at h
    cases h
    rw [h₀.phaseFailed]
    exact ⟨_, .inl rfl, .toExit t k _ hv (.inr (.inr (.inl hk_pc)))⟩
  · rename_i val
    subst hpc
    cases h
    rw [(h₀.modify fun st => { st with result := val }).exitUnit]
    exact ⟨_, .inl rfl, .toExit t k val hv (.inr (.inr (.inr (.inl hk_pc))))⟩
  · subst hpc
    cases h
    rw [h₀.phaseFailed]
    exact ⟨_, .inl rfl, .toExit t k _ hv (.inr (.inr (.inr (.inl hk_pc))))⟩
  · subst hpc
    cases h
    exact ⟨_, .inr rfl, Resumed.cleanup (w := (s.view k.unit).st.result) h₀ hk_pc hentry htask⟩
  · rename_i e
    subst hpc
    cases h
    exact ⟨_, .inr rfl,
      (h₀.modify fun st => { st with result := .exc e }).cleanup hk_pc hentry htask⟩
  · subst hpc
    cases h
    rw [h₀.view]
    exact ⟨_, .inl rfl, .suspend t k hv (.inl hk_pc)⟩
  · subst hpc
    cases h
    rw [h₀.view]
    exact ⟨_, .inl rfl, .suspend t k hv (.inr (.inl hk_pc))⟩
  · subst hpc
    cases h
    rw [h₀.view]
    exact ⟨_, .inl rfl, .suspend t k hv (.inr (.inr hk_pc))⟩

end Silkjam.Supervisor
