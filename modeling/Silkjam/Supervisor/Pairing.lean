import Silkjam.Supervisor.Calls
import Silkjam.Supervisor.Shutdown

/-!
# Lifecycle pairing

A unit leaves an exit on the supervisor's stack each time it is entered, and its own task exits it
as well. The two do not meet: `_stop` supervises until no task is left (`Winding`), so the stack is
unwound while the unit is not started, and its exits do nothing (`Regular.not_started`). The
invariant of a unit in its context is `Regular`, which asks nothing of the other units: they may be
removed while their tasks run.
-/

namespace Silkjam.Supervisor

open Transition

variable {U : Type} [DecidableEq U]

/-! ### Until the supervisor has stopped -/

/-- What the loop waits for. -/
def Loop.condition : Loop U → Option ReturnWhen
  | .waiting c => some c.returnWhen
  | _ => none

/-- The loop of `_stop`: when it is over, `u` has no task. -/
def Winding (s : Supervisor U) (u : U) : Prop :=
  s.loop.raised = true ∨ s.loop.condition = some .allUnits ∨
    s.loop.condition = none ∧ NoTasks (s.view u)

theorem Loop.condition_core (l : Loop U) : l.core.condition = l.condition := by
  cases l <;> rfl

theorem Loop.raised_core (l : Loop U) : l.core.raised = l.raised := by
  cases l <;> rfl

theorem Loop.core_eq_idle {l : Loop U} (h : l.core = .idle) : l = .idle := by
  cases l with
  | idle => rfl
  | _ => cases h

section
variable {s s' : Supervisor U} {u : U} {T : U → Prop} {a : Action U}

theorem Winding.noTasks (h : Winding s u) (hloop : s.loop = .idle) : NoTasks (s.view u) := by
  unfold Winding at h
  rw [hloop] at h
  rcases h with h | h | h
  · cases h
  · cases h
  · exact h.2

theorem step_noTasks (hw : WFOn T s) (hu : T u)
    (hr : ∀ w, a = .removeUnit w → T w → Registered (s.view w)) (hwake : ∀ order, a ≠ .wake order)
    (h : step s a = some s') (hn : NoTasks (s.view u)) : NoTasks (s'.view u) :=
  stepOn_invariant (P := NoTasks) (Q := fun _ => False) hw hu hr h
    (fun order ha => hwake order ha) (fun _ _ _ _ hq => hq.elim)
    (fun _ _ _ hl _ _ hn hm => hm.noTasks hn fun h => absurd h (hl _)) hn

/-- Steps of the loop and of the task that waits for its commands. -/
def Action.ofLoop : Action U → Bool
  | .monitorStep | .supervise _ _ | .wake _ | .leave | .cancel | .stop => true
  | _ => false

theorem step_core (hw : WFOn T s) (ha : a.ofLoop = false) (h : step s a = some s') :
    s'.loop.core = s.loop.core := by
  cases a with
  | monitorStep | supervise | wake | leave | cancel | stop => cases ha
  | addUnit w restart stopped => cases h; rw [(addUnit_requests s w restart stopped).loop]
  | removeUnit w => cases h; rw [(removeUnitNowait_requests s w).loop]
  | startUnit w => cases h; rw [(startUnitNowait_requests s w).loop]
  | stopUnit w force => cases h; rw [(stopUnitNowait_requests s w force).loop]
  | setEvent n => cases h; exact setEvent_core s _
  | clearEvent n => cases h; rfl
  | resume t o =>
    obtain ⟨k, -, -, -, hwithin, -⟩ := resume_within hw h
    exact hwithin.loop
  | helperStep e =>
    simp only [step, helperStep] at h
    split at h
    · next c hloop =>
      split at h
      · obtain ⟨h', -, rfl⟩ := Option.map_eq_some_iff.1 h
        rw [hloop]
        rfl
      · cases h
    · cases h

theorem wakeUp_winding {c : Call U} {order : List TaskId} (hp : Placed ((s.wakeUp c order).view u))
    (hrw : c.returnWhen = .allUnits) : Winding (s.wakeUp c order) u := by
  unfold wakeUp at hp ⊢
  split at hp
  · exact .inl rfl
  · next s₁ hs₁ =>
    have hframe := takeUnits_frame order s₁ c.renewMonitor.takeEvents
    split at hp
    · exact .inl rfl
    · next s₂ c₂ hs₂ =>
      rw [hs₂] at hframe
      have hrw' : (c₂.addPending s₂).returnWhen = .allUnits :=
        hframe.2.2.2.trans ((renewMonitor_returnWhen c).trans hrw)
      dsimp only at hp ⊢
      by_cases hret : (c₂.addPending s₂).ret = true
      · rw [if_pos hret] at hp ⊢
        exact .inr (.inr ⟨rfl, noTasks_of_running hp (running_of_ret hrw' hret)⟩)
      · rw [if_neg hret]
        exact .inr (.inl (congrArg some hrw'))

theorem wake_winding {order : List TaskId} (hw : WFOn T s) (hu : T u)
    (h : s.wake order = some s') (hwind : Winding s u) : Winding s' u := by
  have hwf := (wake_turn hw h).wf
  unfold wake at h
  split at h
  · next c hwait =>
    split at h
    · cases h
      apply wakeUp_winding (hwf.placedOn u hu)
      unfold Winding at hwind
      rw [hwait] at hwind
      rcases hwind with hwind | hwind | hwind
      · cases hwind
      · exact Option.some_injective _ hwind
      · cases hwind.1
    · cases h
  · cases h

theorem monitorStep_condition (h : s.monitorStep = some s') :
    s'.loop.condition = s.loop.condition ∧ s'.loop.raised = s.loop.raised := by
  unfold monitorStep at h
  split at h
  · next c hwait =>
    rw [hwait]
    split at h
    · cases h
    · cases h
      exact ⟨rfl, rfl⟩
    · cases h
      exact ⟨rfl, rfl⟩
  · cases h

theorem leave_idle (h : s.leave = some s') :
    s'.loop = .idle ∧ s.loop.condition = none := by
  unfold leave at h
  split at h
  · next c hloop =>
    cases h
    exact ⟨rfl, by rw [hloop]; rfl⟩
  · next c e hloop =>
    cases h
    exact ⟨rfl, by rw [hloop]; rfl⟩
  · cases h

theorem step_winding (hw : WFOn T s) (hu : T u)
    (hr : ∀ w, a = .removeUnit w → T w → Registered (s.view w))
    (hsupervise : ∀ events rw, a ≠ .supervise events rw) (hstop : a ≠ .stop)
    (hleave : a = .leave → s.loop.raised = false) (h : step s a = some s') (hwind : Winding s u) :
    Winding s' u := by
  -- as the loop waits for the same, or is over
  have hsame (hcond : s'.loop.condition = s.loop.condition)
      (hraised : s'.loop.raised = s.loop.raised) (hwake : ∀ order, a ≠ .wake order) :
      Winding s' u := by
    unfold Winding
    rw [hcond, hraised]
    exact hwind.imp_right (.imp_right fun hn => ⟨hn.1, step_noTasks hw hu hr hwake h hn.2⟩)
  cases hloop : a.ofLoop with
  | false =>
    have hcore := step_core hw hloop h
    refine hsame ?_ ?_ fun order ha => ?_
    · rw [← Loop.condition_core, hcore, Loop.condition_core]
    · rw [← Loop.raised_core, hcore, Loop.raised_core]
    · rw [ha] at hloop
      cases hloop
  | true =>
    cases a with
    | addUnit | removeUnit | startUnit | stopUnit | setEvent | clearEvent | resume | helperStep =>
      cases hloop
    | supervise events rw => exact absurd rfl (hsupervise events rw)
    | stop => exact absurd rfl hstop
    | monitorStep =>
      obtain ⟨hcond, hraised⟩ := monitorStep_condition h
      exact hsame hcond hraised fun _ h => by cases h
    | wake order => exact wake_winding hw hu h hwind
    | leave =>
      obtain ⟨hidle, hcond⟩ := leave_idle h
      refine hsame ?_ ?_ fun _ h => by cases h
      · rw [hidle, hcond]
        rfl
      · rw [hidle, hleave rfl]
        rfl
    | cancel =>
      simp only [step, cancelCall] at h
      split at h <;> cases h <;> exact .inl rfl

theorem stop_winding (hw : WFOn T s) (hu : T u) (hloop : s.loop = .idle) : Winding s.stop u := by
  unfold stop
  dsimp only
  split
  · exact .inr (.inl rfl)
  · next hno =>
    rw [not_or, not_lt, Nat.le_zero, List.length_eq_zero_iff] at hno
    have hn := noTasks_of_running ((stopAll_evolves hw).wf.placedOn u hu) hno.1
    refine .inr (.inr ⟨?_, hn⟩)
    rw [(stopAll_requests s).loop, hloop]
    rfl

theorem step_idle (hw : WFOn T s) (hsupervise : ∀ events rw, a ≠ .supervise events rw)
    (hstop : a ≠ .stop) (hloop : s.loop = .idle) (h : step s a = some s') : s'.loop = .idle := by
  cases hofLoop : a.ofLoop with
  | false =>
    have hcore := step_core hw hofLoop h
    rw [hloop] at hcore
    exact Loop.core_eq_idle hcore
  | true =>
    cases a with
    | addUnit | removeUnit | startUnit | stopUnit | setEvent | clearEvent | resume | helperStep =>
      cases hofLoop
    | supervise events rw => exact absurd rfl (hsupervise events rw)
    | stop => exact absurd rfl hstop
    | monitorStep => simp [step, monitorStep, hloop] at h
    | wake order => simp [step, wake, hloop] at h
    | leave => simp [step, leave, hloop] at h
    | cancel => simp [step, cancelCall, hloop] at h

omit [DecidableEq U] in
theorem Action.labels_of_not_resume {l : Label} (ha : ∀ t o, a ≠ .resume t o)
    (hl : a.labels u l) : l ≠ .segment ∧ l ≠ .finish := by
  cases a with
  | resume t o => exact absurd rfl (ha t o)
  | _ => constructor <;> rintro rfl <;> simp [Action.labels] at hl

/-! ### Stops -/

theorem view_queuedStarts (s : Supervisor U) (u : U) :
    (s.view u).queuedStarts = s.queuedStarts u :=
  (queuedStarts_view s u).symm

/-- `_stop` quiets the unit and queues no START for it. -/
theorem stop_quieted (hw : WFOn T s) (hu : T u) (hloop : s.loop = .idle) (hreg : u ∈ s.units) :
    Quieted (s.stop.view u) ∧ (s.stop.view u).queuedStarts = (s.view u).queuedStarts := by
  have hstop := stopAll_evolves hw
  have hq := stopAll_quietedOn hw hu hreg
  have hn : (s.stopAll.view u).queuedStarts = (s.view u).queuedStarts :=
    (hstop.movesOn u hu).calm_of_stop.starts
  unfold stop
  dsimp only
  split
  · have hloop' : s.stopAll.loop = .idle := (stopAll_requests s).loop.trans hloop
    have hrestart := (superviseUntil_evolves hstop.wf hloop' [] .allUnits).movesOn u hu
    refine (hrestart.invariant (P := fun v => Placed v ∧ Quieted v ∧
      v.queuedStarts = (s.view u).queuedStarts) ⟨hstop.wf.placedOn u hu, hq, hn⟩ ?_).2
    rintro l v v' rfl ⟨hp, hq, hn⟩ hm
    have hnext := hm.quieted (by simp) (by simp) hp hq
    refine ⟨hm.placed hp (by simp), hnext.1, ?_⟩
    have hstarts := hnext.2.starts
    rw [← hnext.2.ref] at hstarts
    exact hstarts.trans (hnext.2.ref ▸ hn)
  · exact ⟨hq, hn⟩

theorem stop_view_of_notMem (hw : WFOn T s) (hu : T u) (hloop : s.loop = .idle)
    (hreg : u ∉ s.units) : s.stop.view u = s.view u := by
  apply ((stop_evolves hw hloop).movesOn u hu).invariant (P := fun v => v = s.view u) rfl
  rintro l v v' hl rfl hm
  cases hm with
  | queueStop _ hreg' | queueStart _ hreg' | markStopped hreg' | stopExiting hreg' =>
    exact absurd hreg' hreg
  | _ => simp at hl

/-- What a step accepts as a stop of the unit is what sets its `pending_stop`. -/
theorem step_stopRecorded {accepted : Bool} (hw : WFOn T s) (hu : T u)
    (hr : ∀ w, a = .removeUnit w → T w → Registered (s.view w)) (h : step s a = some s')
    (hrec : StopRecorded (s.queuedStarts u) accepted (s.view u)) :
    StopRecorded (s.queuedStarts u) (accepted || Context.accepts s u a) (s'.view u) := by
  have hother (hno : Context.accepts s u a = false) (hl : ∀ l, a.labels u l → l ≠ .stop) :
      StopRecorded (s.queuedStarts u) (accepted || Context.accepts s u a) (s'.view u) := by
    rw [hno, Bool.or_false]
    refine stepOn_invariant (Q := fun _ => True) hw hu hr h (fun _ _ => trivial) ?_ ?_ hrec
    · exact fun c v v' hp _ hrec hm => ⟨trivial, hm.stopRecorded (by simp) hp hrec⟩
    · exact fun l v v' _ hl' hp hrec hm => hm.stopRecorded (hl l hl') hp hrec
  cases a with
  | stopUnit w force =>
    by_cases he : w = u
    · subst he
      cases h
      cases hacc : (s.stopUnitNowait w force).2 with
      | true =>
        have hq := stopUnitNowait_quieted (hw.placedOn w hu) hacc
        have hn := (stopUnitNowait_moves s w force).calm_of_stop.starts
        simp only [Context.accepts, hacc, decide_true, Bool.and_true, Bool.or_true]
        exact hq.stopRecorded (hn.trans (view_queuedStarts s w))
      | false =>
        have hreg : w ∉ s.units := by
          intro hreg
          rw [stopUnitNowait_accepted force hreg] at hacc
          cases hacc
        have hsame : (s.stopUnitNowait w force).1 = s := by
          unfold stopUnitNowait
          rw [if_pos hreg]
        simp only [Context.accepts, hacc, Bool.and_false, Bool.or_false]
        rw [hsame]
        exact hrec
    · refine hother ?_ fun l hl => absurd hl.1.symm he
      simp [Context.accepts, he]
  | stop =>
    simp only [step] at h
    split at h
    · next hloop =>
      cases h
      by_cases hreg : u ∈ s.units
      · obtain ⟨hq, hn⟩ := stop_quieted hw hu hloop hreg
        simp only [Context.accepts, hreg, decide_true, Bool.or_true]
        exact hq.stopRecorded (hn.trans (view_queuedStarts s u))
      · simp only [Context.accepts, hreg, decide_false, Bool.or_false]
        rw [stop_view_of_notMem hw hu hloop hreg]
        exact hrec
    · cases h
  | addUnit | removeUnit | startUnit | setEvent | clearEvent | resume | monitorStep | helperStep
  | supervise | wake | leave | cancel =>
    apply hother rfl
    intro l hl
    rintro rfl
    simp [Action.labels] at hl

end

namespace Context

/-! ### Steps of the context -/

section
variable {c c' : Context U} {s' : Supervisor U} {a : Action U} {u : U}

theorem exit_frame (c : Context U) (raised : Bool) (a : Action U) :
    (c.exit raised a).sup = c.sup ∧ (c.exit raised a).units = c.units ∧
      (c.exit raised a).stopAccepted = c.stopAccepted := by
  unfold exit beginUnwind
  repeat' split
  all_goals exact ⟨rfl, rfl, rfl⟩

theorem push_frame (c : Context U) (t : TaskId) (u : U) :
    (c.push t u).sup = c.sup ∧ (c.push t u).units = c.units ∧ (c.push t u).stack = c.stack ∧
      (c.push t u).stopAccepted = c.stopAccepted ∧ (c.push t u).stopping = c.stopping := by
  unfold push
  split <;> exact ⟨rfl, rfl, rfl, rfl, rfl⟩

theorem resumed_frame (c : Context U) (s : Supervisor U) (t : TaskId) (o : Outcome U) :
    (c.resumed s t o).sup = c.sup ∧ (c.resumed s t o).stopAccepted = c.stopAccepted ∧
      (c.resumed s t o).stopping = c.stopping := by
  unfold resumed
  split
  · next k k' _ _ =>
    obtain ⟨hsup, -, -, haccepted, hstopping⟩ := push_frame c t k.unit
    split
    · exact ⟨hsup, haccepted, hstopping⟩
    · exact ⟨rfl, rfl, rfl⟩
  · exact ⟨rfl, rfl, rfl⟩

theorem after_sup (c : Context U) (a : Action U) (s' : Supervisor U) : (c.after a s').sup = s' := by
  unfold after
  rw [(exit_frame _ _ _).1]
  cases a with
  | resume t o => exact (resumed_frame { c with sup := s' } c.sup t o).1
  | _ => rfl

theorem after_stopAccepted (c : Context U) (a : Action U) (s' : Supervisor U) :
    (c.after a s').stopAccepted u =
      ((c.stopAccepted u || accepts c.sup u a) && s'.queuedStarts u == c.sup.queuedStarts u) := by
  unfold after
  rw [(exit_frame _ _ _).2.2]
  cases a with
  | resume t o =>
    obtain ⟨hsup, haccepted, -⟩ := resumed_frame { c with sup := s' } c.sup t o
    simp only [recordStops, hsup, haccepted]
  | _ => rfl

theorem after_stopping (hstop : a ≠ .stop) (hleave : a ≠ .leave) :
    (c.after a s').stopping = c.stopping := by
  cases a with
  | stop => exact absurd rfl hstop
  | leave => exact absurd rfl hleave
  | resume t o => exact (resumed_frame { c with sup := s' } c.sup t o).2.2
  | _ => rfl

theorem after_units (h : ∀ t o, a ≠ .resume t o) : (c.after a s').units = c.units := by
  unfold after
  rw [(exit_frame _ _ _).2.1]
  cases a with
  | resume t o => exact absurd rfl (h t o)
  | _ => rfl

theorem after_resume_units {t : TaskId} {o : Outcome U} {k k' : UnitTask U}
    (hk : c.sup.tasks t = some k) (hk' : s'.tasks t = some k') :
    (c.after (.resume t o) s').units = Function.update c.units k.unit
      ((c.units k.unit).segment (s'.queuedStarts k.unit) c.stack.isSome k.pc k'.pc) := by
  unfold after
  rw [(exit_frame _ _ _).2.1]
  simp only [recordStops, resumed, hk, hk']
  obtain ⟨hsup, hunits, hstack, -, -⟩ := push_frame { c with sup := s' } t k.unit
  split
  · simp only [segment, hsup, hunits, hstack]
  · rfl

theorem step_act (h : c.step (.act a) = some c') :
    c.enabled a = true ∧ ∃ s', Supervisor.step c.sup a = some s' ∧ c' = c.after a s' := by
  simp only [step] at h
  split at h
  · next henabled =>
    obtain ⟨s', hs', rfl⟩ := Option.map_eq_some_iff.1 h
    exact ⟨henabled, s', hs', rfl⟩
  · cases h

/-- The invariant of a unit that is not removed. -/
structure Regular (u : U) (c : Context U) : Prop where
  wf : WFOn (· = u) c.sup
  paired : Paired (c.units u) (c.sup.view u)
  stops : StopRecorded (c.sup.queuedStarts u) (c.stopAccepted u) (c.sup.view u)
  winding : c.stopping ≠ .no → Winding c.sup u
  unwinding : ∀ n raised, c.stopping = .unwinding n raised → c.sup.loop = .idle

theorem Regular.not_started (h : Regular u c) {n : Nat} {raised : Bool}
    (hstopping : c.stopping = .unwinding n raised) : (c.units u).started = false := by
  have hwind := h.winding (by rw [hstopping]; simp)
  exact h.paired.not_started (hwind.noTasks (h.unwinding n raised hstopping)).not_inside

theorem init_regular (u : U) : Regular u (init U) where
  wf := init_wf
  paired := .of_closed rfl (.nil _)
  stops := ⟨le_rfl, fun hb => by
    rcases hb with hps | ⟨t, ht⟩
    · cases hps
    · exact absurd rfl ht⟩
  winding h := absurd rfl h
  unwinding n raised h := by cases h

theorem step_refused (hok : Keeps u c (.act (.removeUnit u)))
    (h : c.step (.act (.removeUnit u)) = some c') : c' = c := by
  obtain ⟨-, s', hs', rfl⟩ := step_act h
  have hsame : s' = c.sup := by
    cases hs'
    simp only [Keeps, removes, decide_true, Bool.true_and] at hok
    unfold removeUnitNowait at hok ⊢
    split at hok
    · next hno => rw [if_pos hno]
    · cases hok
  subst hsame
  simp [after, exit, recordStops, accepts]

theorem registered_of_ne (ha : a ≠ .removeUnit u) (w : U) (he : a = .removeUnit w) (hw : w = u) :
    Registered (c.sup.view w) := by
  subst hw
  exact absurd he ha

/-- How the calls of the unit go on in a step. -/
theorem step_calls (hreg : Regular u c) (ha : a ≠ .removeUnit u)
    (h : c.step (.act a) = some c') :
    Paired (c'.units u) (c'.sup.view u) ∧
      (c'.units u = c.units u ∨ c'.sup.queuedStarts u = c.sup.queuedStarts u ∧
        ∃ stack, ∃ pc pc' : Pc U,
          c'.units u = (c.units u).segment (c.sup.queuedStarts u) stack pc pc') := by
  obtain ⟨-, s', hs', rfl⟩ := step_act h
  rw [after_sup]
  by_cases hresume : ∃ t o, a = .resume t o
  · obtain ⟨t, o, rfl⟩ := hresume
    obtain ⟨k, hk, -, -, hwithin, hmove⟩ := resume_within hreg.wf hs'
    obtain ⟨k', hk', hku⟩ : ∃ k', s'.tasks t = some k' ∧ k'.unit = k.unit := by
      have howner := hwithin.owner t
      rw [hk] at howner
      simpa using howner
    rw [after_resume_units hk hk']
    by_cases he : k.unit = u
    · subst he
      obtain ⟨hfit, l, hl, hm⟩ := hmove rfl
      have hn : s'.queuedStarts k.unit = c.sup.queuedStarts k.unit := by
        rw [← view_queuedStarts, ← view_queuedStarts]
        exact hm.queuedStarts_segment hl
      rw [Function.update_self, hn]
      refine ⟨?_, .inr ⟨rfl, _, _, _, rfl⟩⟩
      have htask : (s'.view k.unit).tasks t = k'.liveOf (c.sup.view k.unit).ref.unit := by
        simp [view, hk', ref]
      have hpaired := hm.paired_segment hfit hl hreg.paired htask hku c.stack.isSome
      rw [view_queuedStarts] at hpaired
      exact hpaired
    · rw [Function.update_of_ne (Ne.symm he), hwithin.other u (Ne.symm he)]
      exact ⟨hreg.paired, .inl rfl⟩
  · rw [not_exists] at hresume
    rw [after_units fun t o he => hresume t ⟨o, he⟩]
    refine ⟨?_, .inl rfl⟩
    refine stepOn_invariant (P := Paired (c.units u)) (Q := fun _ => True) hreg.wf rfl
      (registered_of_ne ha) hs' (fun _ _ => trivial) ?_ ?_ hreg.paired
    · exact fun command v v' hp _ hpaired hm => ⟨trivial, hm.paired (by simp) (by simp) hp hpaired⟩
    · intro l v v' _ hl hp hpaired hm
      obtain ⟨hsegment, hfinish⟩ := Action.labels_of_not_resume (fun t o he => hresume t ⟨o, he⟩) hl
      exact hm.paired hsegment hfinish hp hpaired

theorem step_stopping (hreg : Regular u c) (ha : a ≠ .removeUnit u)
    (h : c.step (.act a) = some c') :
    (c'.stopping ≠ .no → Winding c'.sup u) ∧
      ∀ n raised, c'.stopping = .unwinding n raised → c'.sup.loop = .idle := by
  obtain ⟨henabled, s', hs', rfl⟩ := step_act h
  rw [after_sup]
  by_cases hstop : a = .stop
  · subst hstop
    simp only [Supervisor.step] at hs'
    split at hs'
    · next hloop =>
      cases hs'
      refine ⟨fun _ => stop_winding hreg.wf rfl hloop, ?_⟩
      intro n raised hn
      cases hidle : c.sup.stop.loop.isIdle with
      | true => exact Loop.isIdle_iff.1 hidle
      | false =>
        simp [after, exit, recordStops, hidle] at hn
    · cases hs'
  · by_cases hleave : a = .leave
    · subst hleave
      have hidle : s'.loop = .idle := (leave_idle hs').1
      refine ⟨?_, fun _ _ _ => hidle⟩
      intro hno
      have hbefore : c.stopping ≠ .no ∧ c.sup.loop.raised = false := by
        cases hs : c.stopping with
        | no => simp [after, exit, recordStops, hs] at hno
        | supervising =>
          refine ⟨by simp, Bool.eq_false_iff.2 ?_⟩
          intro hraised
          simp [after, exit, recordStops, hs, hraised] at hno
        | unwinding n raised =>
          refine ⟨by simp, ?_⟩
          rw [hreg.unwinding n raised hs]
          rfl
      exact step_winding hreg.wf rfl (registered_of_ne ha) (by simp) (by simp)
        (fun _ => hbefore.2) hs' (hreg.winding hbefore.1)
    · rw [after_stopping hstop hleave]
      refine ⟨?_, ?_⟩
      · intro hno
        refine step_winding hreg.wf rfl (registered_of_ne ha) ?_ hstop (absurd · hleave) hs'
          (hreg.winding hno)
        rintro events rw rfl
        simp [enabled, hno] at henabled
      · intro n raised hn
        refine step_idle hreg.wf ?_ hstop (hreg.unwinding n raised hn) hs'
        rintro events rw rfl
        simp [enabled, hn] at henabled

theorem unwind_units (hreg : Regular u c) {raises : Bool} (h : c.unwind raises = some c') :
    c'.units u = c.units u ∧ c'.sup = c.sup ∧ c'.stopAccepted = c.stopAccepted ∧
      (c'.stopping = .no ∨ ∃ n raised, c'.stopping = .unwinding n raised ∧
        ∃ raised', c.stopping = .unwinding n raised') := by
  unfold unwind at h
  split at h
  · next n raised hstopping =>
    split at h
    · cases h
      exact ⟨rfl, rfl, rfl, .inl rfl⟩
    · next w exits hexits =>
      cases h
      refine ⟨?_, rfl, rfl, .inr ⟨_, _, rfl, raised, hstopping⟩⟩
      dsimp only
      by_cases he : w = u
      · subst he
        rw [Function.update_self, BaseUnit.aexit, hreg.not_started hstopping]
        rfl
      · rw [Function.update_of_ne (Ne.symm he)]
  · cases h

theorem step_regular {e : Event U} (hreg : Regular u c) (hok : Keeps u c e)
    (h : c.step e = some c') : Regular u c' := by
  cases e with
  | enter =>
    simp only [step] at h
    split at h
    · cases h
    · cases h
      exact ⟨hreg.wf, hreg.paired, hreg.stops, hreg.winding, hreg.unwinding⟩
  | unwind raises =>
    obtain ⟨hunits, hsup, haccepted, hstopping⟩ := unwind_units hreg h
    refine ⟨hsup ▸ hreg.wf, ?_, ?_, ?_, ?_⟩
    · rw [hunits, hsup]
      exact hreg.paired
    · rw [haccepted, hsup]
      exact hreg.stops
    · intro hno
      obtain ⟨n, raised, -, raised', hbefore⟩ := hstopping.resolve_left hno
      rw [hsup]
      exact hreg.winding (by rw [hbefore]; simp)
    · intro n raised hn
      rcases hstopping with hstopping | ⟨n', raised', -, raised'', hbefore⟩
      · rw [hstopping] at hn
        cases hn
      · rw [hsup]
        exact hreg.unwinding n' raised'' hbefore
  | act a =>
    by_cases ha : a = .removeUnit u
    · subst ha
      rw [step_refused hok h]
      exact hreg
    · have hcalls := step_calls hreg ha h
      have hstopping := step_stopping hreg ha h
      obtain ⟨-, s', hs', rfl⟩ := step_act h
      have hr := registered_of_ne (c := c) ha
      refine ⟨?_, hcalls.1, ?_, hstopping.1, hstopping.2⟩
      · rw [after_sup]
        exact (stepOn_evolves hreg.wf hr hs').wf
      · rw [after_sup, after_stopAccepted]
        have hrec := step_stopRecorded hreg.wf rfl hr hs' hreg.stops
        refine ⟨(view_queuedStarts s' u).ge, ?_⟩
        intro hb
        rw [hrec.2 hb, view_queuedStarts, beq_self_eq_true, Bool.and_true]

/-- Lifecycle `n` calls nothing any more, and has called nothing. -/
def Uncalled (u : U) (n : Nat) (c : Context U) : Prop :=
  Shut n (c.sup.view u) ∧ hooksOf (c.units u).calls n = []

theorem step_uncalled {e : Event U} {n : Nat} (hreg : Regular u c) (hok : Keeps u c e)
    (h : c.step e = some c') (hun : Uncalled u n c) : Uncalled u n c' := by
  cases e with
  | enter =>
    simp only [step] at h
    split at h
    · cases h
    · cases h
      exact hun
  | unwind raises =>
    obtain ⟨hunits, hsup, -⟩ := unwind_units hreg h
    unfold Uncalled
    rw [hunits, hsup]
    exact hun
  | act a =>
    by_cases ha : a = .removeUnit u
    · subst ha
      rw [step_refused hok h]
      exact hun
    · obtain ⟨hpaired, hcalls⟩ := step_calls hreg ha h
      obtain ⟨-, s', hs', rfl⟩ := step_act h
      unfold Uncalled
      rw [after_sup] at hpaired hcalls ⊢
      have hshut : Shut n (s'.view u) :=
        stepOn_invariant (Q := fun _ => True) hreg.wf rfl (registered_of_ne ha) hs'
          (fun _ _ => trivial) (fun _ _ _ hp _ h hm => ⟨trivial, hm.shut hp h⟩)
          (fun _ _ _ _ _ hp h hm => hm.shut hp h) hun.1
      refine ⟨hshut, ?_⟩
      rcases hcalls with hsame | ⟨hstarts, stack, pc, pc', hsegment⟩
      · rw [hsame]
        exact hun.2
      · by_cases hn : c.sup.queuedStarts u = n
        · -- the lifecycle itself, which neither enters nor exits the unit
          have hbarred := (hun.1.resolve_left (by rw [view_queuedStarts]; omega)).2
          have hbarred' := (hshut.resolve_left (by rw [view_queuedStarts]; omega)).2
          have hs := hreg.paired.not_started hbarred.1
          have hs' := hpaired.not_started hbarred'.1
          rw [hsegment] at hs' ⊢
          rw [BaseUnit.segment_of_not_started hs hs']
          exact hun.2
        · rw [hsegment, BaseUnit.segment_hooksOf _ hn]
          exact hun.2

theorem Regular.uncalled (hreg : Regular u c) (hready : (c.sup.state u).status = .ready)
    (hstart : (c.sup.state u).pendingStart = true) (hstop : (c.sup.state u).pendingStop = true)
    (hforce : (c.sup.state u).forcePendingStop = true) :
    Uncalled u (c.sup.queuedStarts u) c := by
  have hout : ¬ (c.sup.view u).Inside := by
    rintro ⟨t, k, hk, hin⟩
    have hfit := (hreg.wf.placedOn u rfl).live hk
    have hoff : (c.sup.view u).st.status.isOff = true := by
      rw [show (c.sup.view u).st.status = .ready from hready]
      rfl
    rw [(hfit.created_of_isOff hoff).1] at hin
    cases hin
  have hclosed := hreg.paired.fresh (hreg.paired.not_started hout) ⟨hstart, hout⟩
  refine ⟨.inr ⟨view_queuedStarts c.sup u, hout, fun _ => ⟨hstop, hforce⟩⟩, ?_⟩
  exact hclosed.hooksOf_eq_nil (view_queuedStarts c.sup u).le

theorem Reachable.regular (h : c.Reachable u) : Regular u c :=
  h.invariant (init_regular u) fun _ _ _ hreg hok hstep => step_regular hreg hok hstep

theorem Regular.final_status (hreg : Regular u c) {t : TaskId} {o : Outcome U}
    (h : c.step (.act (.resume t o)) = some c') (hlive : c.sup.Live t u)
    (hdone : ¬ c'.sup.Live t u) :
    (c'.sup.state u).status =
      if (c.sup.state u).restart = true ∧ c.stopAccepted u = false then .ready else .stopped := by
  obtain ⟨-, s', hs', rfl⟩ := step_act h
  rw [after_sup] at hdone ⊢
  obtain ⟨k, hk, -, -, -, hmove⟩ := resume_within hreg.wf hs'
  obtain ⟨k₁, hk₁, hunit, -⟩ := hlive
  obtain rfl : k = k₁ := Option.some_injective _ (hk.symm.trans hk₁)
  obtain ⟨hfit, l, hl, hm⟩ := hmove hunit
  rw [hunit] at hfit hm
  have hnone : (s'.view u).tasks t = none := by
    by_contra hne
    exact hdone ((s'.live_iff t u).2 hne)
  have hstop : (c.sup.state u).pendingStop = c.stopAccepted u := by
    have hbusy : (c.sup.view u).Busy := .inr ⟨t, by simp [hfit.live_tasks t]⟩
    have hrec := hreg.stops.2 hbusy
    rw [view_queuedStarts, beq_self_eq_true, Bool.and_true] at hrec
    exact hrec
  rw [← hstop]
  exact hm.status_of_ended hfit hl hnone

end

end Context

/-- **Lifecycle pairing.** In every state that a supervisor and its surroundings come to without
removing the unit: the calls of the unit's `_start` and `_stop` alternate, `_start` first; none of
them was made by the stack; each lifecycle has called both once, in this order, or neither, or it is
the current one, between its enter and its exit, and has called `_start`; a lifecycle that is
force-stopped before it begins calls neither, whatever happens next; and the segment that ends a
lifecycle leaves the unit READY if it is to be restarted and no stop was accepted, else STOPPED. -/
theorem lifecycle_pairing {u : U} {c : Context U} (h : c.Reachable u) :
    Alternates ((c.units u).calls.map (·.hook)) ∧
      (∀ call ∈ (c.units u).calls, call.lifecycle ≠ none) ∧
      (∀ n, hooksOf (c.units u).calls n = [] ∨ hooksOf (c.units u).calls n = [.start, .stop] ∨
        hooksOf (c.units u).calls n = [.start] ∧ n = c.sup.queuedStarts u ∧
          ∃ t k, c.sup.tasks t = some k ∧ k.unit = u ∧ k.pc.inside = true) ∧
      ((c.sup.state u).status = .ready → (c.sup.state u).pendingStart = true →
        (c.sup.state u).pendingStop = true → (c.sup.state u).forcePendingStop = true →
        ∀ c', Reach Context.step (Context.Keeps u) c c' →
          hooksOf (c'.units u).calls (c.sup.queuedStarts u) = []) ∧
      ∀ t o c', c.step (.act (.resume t o)) = some c' → c.sup.Live t u → ¬ c'.sup.Live t u →
        (c'.sup.state u).status =
          if (c.sup.state u).restart = true ∧ c.stopAccepted u = false then .ready
          else .stopped := by
  have hreg := Context.Reachable.regular h
  refine ⟨hreg.paired.alternates, hreg.paired.lifecycle_ne_none, ?_, ?_, ?_⟩
  · intro n
    refine (hreg.paired.hooksOf n).imp_right (.imp_right fun ⟨hcalls, hn, t, k, hk, hin⟩ => ?_)
    obtain ⟨htask, hunit, -⟩ := view_tasks_eq_some.1 hk
    exact ⟨hcalls, hn.trans (view_queuedStarts c.sup u), t, k, htask, hunit, hin⟩
  · intro hready hstart hstop hforce c' hrun
    have hlast := hrun.invariant
      (P := fun c' => Context.Regular u c' ∧ Context.Uncalled u (c.sup.queuedStarts u) c')
      ⟨hreg, hreg.uncalled hready hstart hstop hforce⟩ fun _ _ _ hP hok hstep =>
        ⟨Context.step_regular hP.1 hok hstep, Context.step_uncalled hP.1 hok hstep hP.2⟩
    exact hlast.2.2
  · exact fun t o c' hstep hlive hdone => hreg.final_status hstep hlive hdone

/-- The unit's run fails, and then its `_stop`. It is force-stopped before it is entered again, and
at last the supervisor exits and unwinds its stack. -/
theorem lifecycle_pairing_restarted :
    ∃ c c' : Context Nat, c.Reachable 0 ∧ c.exits 0 = [0] ∧ c.sup.queuedStarts 0 = 2 ∧
      Reach Context.step (Context.Keeps 0) c c' ∧ c'.stack = none ∧
      hooksOf (c'.units 0).calls 1 ≠ [] ∧ Alternates ((c'.units 0).calls.map (·.hook)) ∧
      hooksOf (c'.units 0).calls 2 = [] := by
  obtain ⟨c, hc, hexits, hstarts, hready, hstart, hstop, hforce, hrun⟩ :=
    Reach.exists_of_runIn Context.step (Context.Keeps 0) (Context.init Nat)
      [.enter, .act (.addUnit 0 true false), .act (.supervise [] .firstEvent), .act .monitorStep,
        .act (.wake []), .act (.resume 0 .suspend), .act (.resume 0 (.ok .none)),
        .act (.resume 0 (.raise (.other 1))), .act (.resume 0 (.raise (.other 2))),
        .act .monitorStep, .act (.wake [0]), .act (.stopUnit 0 true)]
      (p := fun c => c.exits 0 = [0] ∧ c.sup.queuedStarts 0 = 2 ∧ (c.sup.state 0).status = .ready ∧
        (c.sup.state 0).pendingStart = true ∧ (c.sup.state 0).pendingStop = true ∧
        (c.sup.state 0).forcePendingStop = true ∧
        (runIn Context.step (Context.Keeps 0) c
          [.act .monitorStep, .act (.wake []), .act (.resume 1 .suspend), .act (.resume 1 .suspend),
            .act (.resume 1 (.ok .none)), .act .monitorStep, .act (.wake [1]), .act .cancel,
            .act .leave, .act .stop, .unwind false, .unwind false]).any
              (fun c' => decide (c'.stack = none ∧ hooksOf (c'.units 0).calls 1 ≠ [])) = true)
      (by decide +kernel)
  obtain ⟨c', hc', hstack, hcalled⟩ := Reach.exists_of_runIn _ _ _ _
    (p := fun c' : Context Nat => c'.stack = none ∧ hooksOf (c'.units 0).calls 1 ≠ []) hrun
  have hforced := (lifecycle_pairing hc).2.2.2.1 hready hstart hstop hforce c' hc'
  rw [hstarts] at hforced
  exact ⟨c, c', hc, hexits, hstarts, hc', hstack, hcalled,
    (lifecycle_pairing (hc.trans hc')).1, hforced⟩

end Silkjam.Supervisor
