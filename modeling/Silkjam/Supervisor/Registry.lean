import Silkjam.Supervisor.Commands

/-!
# The task registry

`state.task` and `_running_unit_tasks` name the unfinished task of a unit. One turn of the loop
handles commands first and completed tasks second, so a START that it finds next to the completed
task of the same unit gets its new `state.task` wiped (`registry_lost`). Where no turn finds the two
together, the registry is right in every state (`registry_agrees`): `Tidy` is the invariant.
-/

namespace Silkjam.Supervisor

open Transition

variable {U : Type} [DecidableEq U]

/-- The unfinished task is registered, and there is none beside the entry of a finished one. -/
def Tidy (v : View U) : Prop :=
  Registered v ∧ ∀ t, v.entries t → v.tasks t = none → NoTasks v

/-- The unit that waits for a START has no entry left. -/
def StartClean (v : View U) : Prop :=
  v.starts ≠ 0 → ∀ t, ¬ v.entries t

omit [DecidableEq U] in
theorem Tidy.live_update {v : View U} {t : TaskId} {k k' : UnitTask U} {st : State U} {n : Nat}
    {trace : List (Obs U)} (h : Tidy v) (hk : v.tasks t = some k) (hst : st.task = v.st.task) :
    Tidy { v with
      st := st
      stops := n
      tasks := Function.update v.tasks t (some k')
      trace := trace } := by
  have hlive (t' : TaskId) (ht' : Function.update v.tasks t (some k') t' ≠ none) :
      v.tasks t' ≠ none := by
    by_cases he : t' = t
    · subst he; simp [hk]
    · simpa [Function.update_of_ne he] using ht'
  refine ⟨fun t' ht' => hst.trans (h.1 t' (hlive t' ht')), ?_⟩
  intro t' hentry hnone
  have hne : t' ≠ t := by
    rintro rfl
    simp at hnone
  have hnone' : v.tasks t' = none := by simpa [Function.update_of_ne hne] using hnone
  exact absurd (h.2 t' hentry hnone' t) (by simp [hk])

omit [DecidableEq U] in
theorem Move.tidy_handle {c : Command} {v v' : View U} (hp : Placed v) (hq : StartClean v)
    (h : Tidy v) (hm : Move (.handle c) v v') : StartClean v' ∧ Tidy v' := by
  cases hm with
  | queueStart hl => simp at hl
  | @startTask _ n t hn hreg htask hnone =>
    have hs := hp.queued (by omega)
    have hclean := hq (by omega)
    have hn0 : n = 0 := by have := hs.1; omega
    refine ⟨fun h => absurd hn0 h, ?_, ?_⟩
    · intro t' ht'
      by_cases he : t' = t
      · rw [he]
      · simp [Function.update_of_ne he, hs.2.1 t'] at ht'
    · intro t' hentry ht'
      rcases hentry with hentry | rfl
      · exact absurd hentry (hclean t')
      · simp at ht'
  | startFailed e hn hbad => exact absurd hbad (hp.start_fine hn)
  | stopIgnored | stopFailed => exact ⟨hq, h⟩
  | stopCancel t k hn hreg hcan htask hk => exact ⟨hq, h.live_update hk rfl⟩

omit [DecidableEq U] in
theorem Move.tidy_other {l : Label} {v v' : View U} (hl : ∀ c, l ≠ .handle c) (hp : Placed v)
    (h : Tidy v) (hm : Move l v v') : Tidy v' := by
  cases hm with
  | startTask | startFailed | stopIgnored | stopCancel | stopFailed => exact absurd rfl (hl _)
  | add restart status hreg hoff =>
    have hnone : NoTasks v := (hp.idle_of_unregistered hreg).2.1
    exact ⟨fun t ht => absurd (hnone t) ht, fun _ _ _ => hnone⟩
  | remove | queueStart | markReady | queueStop | markStopped | stopExiting | loseStart
  | loseStop => exact h
  | beginForced t k hk | begin t k hk | enteredStopped t k hk | entered t k hk | toExit t k val hk
  | suspend t k hk => exact h.live_update hk rfl
  | finish t k val drop hk hpc hdrop =>
    have hnone := (hp.live hk).update_none
    exact ⟨fun t' ht' => absurd (hnone t') ht', fun _ _ _ => hnone⟩
  | close t task hentry hnone htask =>
    have hnotasks := h.2 t hentry hnone
    exact ⟨fun t' ht' => absurd (hnotasks t') ht', fun _ _ _ => hnotasks⟩

/-- No turn of the loop finds a START for a unit next to an entry of a task of it in
`_running_unit_tasks`, and a unit is removed when it has no unfinished task. -/
def StartsAfterCompletion (s : Supervisor U) : Action U → Prop
  | .wake _ => ∀ c ∈ s.inFlight, c.1 = .start → c.2 ∉ s.running.map (·.2)
  | .removeUnit u => ¬ s.HasLive u
  | _ => True

instance (s : Supervisor U) : (a : Action U) → Decidable (StartsAfterCompletion s a)
  | .wake _ => inferInstanceAs (Decidable (∀ c ∈ s.inFlight, c.1 = .start → c.2 ∉ s.running.map (·.2)))
  | .removeUnit u => inferInstanceAs (Decidable (¬ s.HasLive u))
  | .addUnit .. | .startUnit _ | .stopUnit .. | .setEvent _ | .clearEvent _ | .resume ..
  | .monitorStep | .helperStep _ | .supervise .. | .leave | .cancel | .stop => inferInstanceAs (Decidable True)

/-- **Registry agreement**, in the runs in which no turn of the loop finds a START next to an entry
of an earlier task: a task of a unit is unfinished just when it is the unit's `state.task` and
registered for it; in particular a running unit has its `state.task`. -/
theorem registry_agrees {s : Supervisor U} (h : Reachable StartsAfterCompletion s) (u : U) :
    (∀ t, s.Live t u ↔ (s.state u).task = some t ∧ (t, u) ∈ s.running) ∧
      (u ∈ s.units → (s.state u).status = .running → (s.state u).task ≠ none) := by
  have hw : WF s := Reachable.wf_of h registered_of_idle
  have htidy : Tidy (s.view u) := by
    refine h.invariant_of (P := fun s => Tidy (s.view u)) (fun s hs => Reachable.wf_of hs registered_of_idle)
      ⟨fun t ht => absurd rfl ht, fun _ _ _ _ => rfl⟩ ?_
    intro s a s' hw hP hok hstep
    refine step_invariant (Q := StartClean) hw (fun w ha => ?_) hstep ?_ ?_ ?_ hP
    · subst ha
      exact registered_of_idle s w hw hok
    · rintro order rfl hn t hentry
      have hmem : (.start, u) ∈ s.inFlight := List.count_pos_iff.1 (Nat.pos_of_ne_zero hn)
      exact hok _ hmem rfl (List.mem_map_of_mem (f := (·.2)) hentry)
    · exact fun c v v' hp hq hP hm => hm.tidy_handle hp hq hP
    · exact fun l v v' hl _ hp hP hm => hm.tidy_other hl hp hP
  have hp := hw.placed u
  refine ⟨fun t => ⟨?_, fun ⟨htask, _⟩ => ?_⟩, ?_⟩
  · intro hlive
    have ht := (s.live_iff t u).1 hlive
    obtain ⟨k, hk⟩ := Option.ne_none_iff_exists'.1 ht
    exact ⟨htidy.1 t ht, (hp.live hk).entry⟩
  · obtain ⟨k, hk⟩ := hp.task_live htask
    exact (s.live_iff t u).2 (by simp [hk])
  · intro hreg hst
    obtain ⟨t, k, hs⟩ := hp.live_of_status hreg (by rw [show (s.view u).st.status = .running from hst]; rfl)
    have htask := htidy.1 t (by simp [hs.live_tasks t])
    rw [show (s.state u).task = some t from htask]
    exact Option.some_ne_none t

theorem registry_agrees_running :
    ∃ s : Supervisor Nat, Reachable StartsAfterCompletion s ∧ s.Live 1 0 ∧
      (s.state 0).task = some 1 ∧ (1, 0) ∈ s.running := by
  -- the unit is stopped and started again, by a START that comes after the completion of its task
  obtain ⟨s, hs, hlive⟩ := Reach.exists_of_runIn step StartsAfterCompletion (init Nat)
    [.addUnit 0 false false, .supervise [] .firstEvent, .monitorStep, .wake [], .resume 0 .suspend,
      .resume 0 (.ok .none), .resume 0 (.ok .none), .resume 0 (.ok .none), .monitorStep, .wake [0],
      .startUnit 0, .monitorStep, .wake [], .resume 1 .suspend]
    (p := fun s => s.Live 1 0) (by decide +kernel)
  exact ⟨s, hs, hlive, ((registry_agrees hs 0).1 1).1 hlive⟩

/-- The unit is started by a coroutine woken as its task finishes, so that one turn of the loop
finds the START and the completed task: the new task runs, and `state.task` is `None`. -/
theorem registry_lost :
    ∃ s : Supervisor Nat, Reachable KeepsUnits s ∧ 0 ∈ s.units ∧ s.Live 1 0 ∧
      (s.state 0).status = .running ∧ (s.state 0).task = none :=
  Reach.exists_of_runIn _ _ _
    [.addUnit 0 false false, .supervise [] .firstEventOrUnit, .monitorStep, .wake [],
      .resume 0 .suspend, .resume 0 (.ok .none), .resume 0 (.ok .none), .resume 0 (.ok .none),
      .startUnit 0, .monitorStep, .wake [0], .resume 1 .suspend, .resume 1 (.ok .none)]
    (by decide +kernel)

end Silkjam.Supervisor
