import Silkjam.Supervisor.Hearing
import Silkjam.Supervisor.Results

/-!
# What `_supervise_until` returns

A call keeps four collections, which each turn of the loop updates from what `asyncio.wait` found
done before the commands were handled. `Booked` is what holds of them while the call waits: the
events are split into done and pending ones, the pending units are those with an entry in
`_running_unit_tasks`. The turn that ends the call keeps it (`snapshot_sets`). `Turned` says what a
turn does with the registered tasks that it finds done.
-/

namespace Silkjam.Supervisor

open Transition

variable {U : Type} [DecidableEq U]

def Action.isLeave : Action U → Bool
  | .leave => true
  | _ => false

/-- The steps of one call: all up to its leaving. -/
def During (_ : Supervisor U) (a : Action U) : Prop :=
  a.isLeave = false

instance (s : Supervisor U) (a : Action U) : Decidable (During s a) :=
  inferInstanceAs (Decidable (_ = _))

/-- `e` was set in some state of a run from `s₁` to `s₂`. -/
def SetBetween (ok : Supervisor U → Action U → Prop) (s₁ s₂ : Supervisor U) (e : EventRef U) :
    Prop :=
  ∃ s, Reach step ok s₁ s ∧ s.events e = true ∧ Reach step ok s s₂

/-- What `return_when` asks for. -/
def ReturnWhen.Met (returnWhen : ReturnWhen) (c : Call U) : Prop :=
  match returnWhen with
  | .firstEvent => c.doneEvents.Nonempty
  | .firstUnit => ∃ u t v, (u, t, v) ∈ c.doneUnits
  | .firstEventOrUnit => c.doneEvents.Nonempty ∨ ∃ u t v, (u, t, v) ∈ c.doneUnits
  | .allEvents => c.pendingEvents = ∅
  | .allUnits => c.pendingUnits = ∅
  | .allEventsAndUnits => c.pendingEvents = ∅ ∧ c.pendingUnits = ∅

/-! ### The collections of a call -/

/-- The collections of the call `c`, which began in `s₁`, as they are in `s`. -/
structure Booked (s₁ s : Supervisor U) (events : List (EventRef U)) (returnWhen : ReturnWhen)
    (c : Call U) : Prop where
  returnWhen : c.returnWhen = returnWhen
  given : c.doneEvents ∪ c.pendingEvents = events.toFinset
  disjoint : Disjoint c.doneEvents c.pendingEvents
  wasSet : ∀ e ∈ c.doneEvents, SetBetween During s₁ s e
  units : c.pendingUnits = (s.running.map (·.2)).toFinset
  keys : (c.doneUnits.map (·.1)).Nodup
  results : ∀ u t v, (u, t, v) ∈ c.doneUnits → s.taskResult t = some (.returned v)

/-- Its tasks that await events: one for each pending event, and those that heard of their event
did so since `s₁`. -/
structure Awaited (s₁ s : Supervisor U) (c : Call U) : Prop where
  helpers : (c.helpers.map (·.1)).toFinset = c.pendingEvents
  nodup : (c.helpers.map (·.1)).Nodup
  heard : ∀ e h, (e, h) ∈ c.helpers → h.heard = true → SetBetween During s₁ s e

theorem Call.ret_met {c : Call U} (h : c.ret = true) : c.returnWhen.Met c := by
  have hunits (h : 0 < c.doneUnits.length) : ∃ u t v, (u, t, v) ∈ c.doneUnits := by
    obtain ⟨e, he⟩ := List.length_pos_iff_exists_mem.1 h
    exact ⟨e.1, e.2.1, e.2.2, he⟩
  unfold Call.ret at h
  unfold ReturnWhen.Met
  cases hrw : c.returnWhen with
  | firstEvent =>
    rw [hrw] at h
    exact Finset.card_pos.1 (of_decide_eq_true h)
  | firstUnit =>
    rw [hrw] at h
    exact hunits (of_decide_eq_true h)
  | firstEventOrUnit =>
    simp only [hrw, Bool.or_eq_true, decide_eq_true_eq] at h
    exact h.imp Finset.card_pos.1 hunits
  | allEvents =>
    rw [hrw] at h
    exact Finset.card_eq_zero.1 (of_decide_eq_true h)
  | allUnits =>
    rw [hrw] at h
    exact Finset.card_eq_zero.1 (of_decide_eq_true h)
  | allEventsAndUnits =>
    simp only [hrw, Bool.and_eq_true, decide_eq_true_eq] at h
    exact ⟨Finset.card_eq_zero.1 h.1, Finset.card_eq_zero.1 h.2⟩

theorem run_wfOn_false {s s' : Supervisor U} {ok : Supervisor U → Action U → Prop}
    (hw : WFOn (fun _ => False) s) (hrun : Reach step ok s s') : WFOn (fun _ => False) s' :=
  hrun.invariant hw fun _ _ _ hw _ hstep => (stepOn_evolves hw (fun _ _ hu => hu.elim) hstep).wf

/-! ### Taking note of finished tasks -/

/-- What `takeUnits` does with the entries of the finished tasks `order`. -/
structure Taken (s s' : Supervisor U) (c c' : Call U) (order : List TaskId) : Prop where
  running : ∀ e, e ∈ s'.running ↔ e ∈ s.running ∧ e.1 ∉ order
  tasks : s'.tasks = s.tasks
  pending : ∀ u, u ∈ c'.pendingUnits ↔ u ∈ c.pendingUnits ∧ ∀ t ∈ order, (t, u) ∉ s.running
  taken : ∀ t u, t ∈ order → (t, u) ∈ s.running → u ∈ c'.doneUnits.map (·.1)
  done : ∀ u t v, (u, t, v) ∈ c'.doneUnits →
    (t ∈ order ∧ (t, u) ∈ s.running ∧ s.taskResult t = some (.returned v)) ∨
      (u, t, v) ∈ c.doneUnits ∧ ∀ t ∈ order, (t, u) ∉ s.running
  kept : ∀ u t v, (u, t, v) ∈ c.doneUnits → (∀ t ∈ order, (t, u) ∉ s.running) →
    (u, t, v) ∈ c'.doneUnits
  keys : (c.doneUnits.map (·.1)).Nodup → (c'.doneUnits.map (·.1)).Nodup
  events : c'.doneEvents = c.doneEvents ∧ c'.pendingEvents = c.pendingEvents ∧
    c'.helpers = c.helpers ∧ c'.returnWhen = c.returnWhen

section
variable {s s' : Supervisor U} {c c' : Call U} {order : List TaskId}

theorem Taken.cons {t : TaskId} {ts : List TaskId} {u : U} {v : Val U}
    (hkeys : ∀ t u w, (t, u) ∈ s.running → (t, w) ∈ s.running → u = w)
    (hentry : (t, u) ∈ s.running) (hresult : s.taskResult t = some (.returned v))
    (h : Taken (s.closeTask t u) s' (c.takeUnit t u v) c' ts) : Taken s s' c c' (t :: ts) := by
  have hmem (e : TaskId × U) := mem_closeTask_running (s := s) (t := t) (u := u) e
  -- an entry of another unit is none of the task taken note of first
  have hother (w : U) (hw : w ≠ u) (t' : TaskId) :
      (t', w) ∈ (s.closeTask t u).running ↔ (t', w) ∈ s.running := by
    rw [hmem]
    refine ⟨And.left, fun hin => ⟨hin, ?_⟩⟩
    rintro rfl
    exact hw (hkeys t' w u hin hentry)
  -- what the first task left in `done_units` is overwritten only by another task of the unit
  have hkey (hin : (u, t, v) ∈ (c.takeUnit t u v).doneUnits) : u ∈ c'.doneUnits.map (·.1) := by
    by_cases hnew : ∃ t' ∈ ts, (t', u) ∈ (s.closeTask t u).running
    · obtain ⟨t', ht', hin'⟩ := hnew
      exact h.taken t' u ht' hin'
    · refine List.mem_map_of_mem (h.kept u t v hin fun t' ht' hin' => hnew ⟨t', ht', hin'⟩)
  refine ⟨?_, h.tasks.trans (closeTask_running s t u).2.1, ?_, ?_, ?_, ?_, ?_, h.events⟩
  · intro e
    rw [h.running, hmem, List.mem_cons, not_or, and_assoc]
  · intro w
    rw [h.pending, show (c.takeUnit t u v).pendingUnits = c.pendingUnits.erase u from rfl,
      Finset.mem_erase]
    by_cases hw : w = u
    · subst hw
      refine ⟨fun hin => absurd rfl hin.1.1, fun hin => ?_⟩
      exact absurd hentry (hin.2 t List.mem_cons_self)
    · simp only [hw, ne_eq, not_false_eq_true, true_and, List.mem_cons, forall_eq_or_imp,
        hother w hw]
      refine and_congr_right fun _ => (and_iff_right ?_).symm
      exact fun hin => hw (hkeys t w u hin hentry)
  · intro t' w ht' hin
    by_cases hw : w = u
    · subst hw
      exact hkey (by simp [Call.takeUnit])
    · have hne : t' ≠ t := by
        rintro rfl
        exact hw (hkeys t' w u hin hentry)
      exact h.taken t' w ((List.mem_cons.1 ht').resolve_left hne) ((hother w hw t').2 hin)
  · intro w t' v' hin
    rcases h.done w t' v' hin with ⟨ht', hin', hres⟩ | ⟨hin', hno⟩
    · rw [taskResult_closeTask] at hres
      exact .inl ⟨List.mem_cons_of_mem _ ht', ((hmem _).1 hin').1, hres⟩
    · simp only [Call.takeUnit, List.mem_append, List.mem_filter, decide_eq_true_eq,
        List.mem_singleton] at hin'
      rcases hin' with ⟨hin', hw⟩ | hin'
      · refine .inr ⟨hin', ?_⟩
        simp only [List.mem_cons, forall_eq_or_imp]
        refine ⟨fun hu => hw (hkeys t w u hu hentry), fun t'' ht'' => ?_⟩
        rw [← hother w hw]
        exact hno t'' ht''
      · cases hin'
        exact .inl ⟨List.mem_cons_self, hentry, hresult⟩
  · intro w t' v' hin hno
    simp only [List.mem_cons, forall_eq_or_imp] at hno
    have hw : w ≠ u := by
      rintro rfl
      exact hno.1 hentry
    apply h.kept
    · simp only [Call.takeUnit, List.mem_append, List.mem_filter, decide_eq_true_eq]
      exact .inl ⟨hin, hw⟩
    · intro t'' ht''
      rw [hother w hw]
      exact hno.2 t'' ht''
  · intro hnodup
    apply h.keys
    simp only [Call.takeUnit, List.map_append, List.map_cons, List.map_nil]
    refine List.Nodup.append ?_ (List.nodup_singleton u) ?_
    · exact hnodup.sublist (List.filter_sublist.map _)
    · rw [List.disjoint_singleton]
      intro hin
      obtain ⟨e, he, heq⟩ := List.mem_map.1 hin
      exact of_decide_eq_true (List.mem_filter.1 he).2 heq

theorem takeUnits_taken (hkeys : ∀ t u w, (t, u) ∈ s.running → (t, w) ∈ s.running → u = w)
    (hdone : ∀ t ∈ order, (s.taskResult t).isSome) (h : takeUnits order s c = (s', c', none)) :
    Taken s s' c c' order := by
  induction order generalizing s c with
  | nil =>
    cases h
    exact ⟨by simp, rfl, by simp, by simp, fun u t v h => .inr ⟨h, by simp⟩,
      fun u t v h _ => h, fun h => h, ⟨rfl, rfl, rfl, rfl⟩⟩
  | cons t ts ih =>
    rw [takeUnits] at h
    split at h
    · next e u v hfind hresult =>
      have hentry : (e, u) ∈ s.running := List.mem_of_find?_eq_some hfind
      obtain rfl : e = t := by simpa using List.find?_some hfind
      refine .cons hkeys hentry hresult (ih ?_ ?_ h)
      · intro t' w w' hw hw'
        rw [mem_closeTask_running] at hw hw'
        exact hkeys t' w w' hw.1 hw'.1
      · intro t' ht'
        rw [taskResult_closeTask]
        exact hdone t' (List.mem_cons_of_mem _ ht')
    · cases h
    · next hno hno' =>
      -- the task has no entry
      have hnone (u : U) (hu : (t, u) ∈ s.running) : False := by
        have hfind := find_entry hkeys hu
        obtain ⟨res, hres⟩ := Option.isSome_iff_exists.1 (hdone t List.mem_cons_self)
        cases res with
        | returned v => exact hno _ _ _ hfind hres
        | raised e => exact hno' _ _ hfind hres
      have htaken := ih hkeys (fun t' ht' => hdone t' (List.mem_cons_of_mem _ ht')) h
      refine ⟨?_, htaken.tasks, ?_, ?_, ?_, ?_, htaken.keys, htaken.events⟩
      · intro e
        rw [htaken.running, List.mem_cons, not_or]
        refine and_congr_right fun hin => (and_iff_right ?_).symm
        rintro rfl
        exact hnone e.2 hin
      · intro w
        rw [htaken.pending]
        simp only [List.mem_cons, forall_eq_or_imp]
        exact and_congr_right fun _ => (and_iff_right (hnone w)).symm
      · intro t' w ht' hin
        rcases List.mem_cons.1 ht' with rfl | ht'
        · exact (hnone w hin).elim
        · exact htaken.taken t' w ht' hin
      · intro w t' v hin
        apply (htaken.done w t' v hin).imp
        · exact fun h => ⟨List.mem_cons_of_mem _ h.1, h.2⟩
        · refine fun h => ⟨h.1, ?_⟩
          simp only [List.mem_cons, forall_eq_or_imp]
          exact ⟨hnone w, h.2⟩
      · intro w t' v hin hno
        exact htaken.kept w t' v hin fun t'' ht'' => hno t'' (List.mem_cons_of_mem _ ht'')

end

/-! ### One step of a call -/

section
variable {s₁ s s' s₂ s₃ : Supervisor U} {c c' c₂ : Call U} {order : List TaskId}
  {events : List (EventRef U)} {returnWhen : ReturnWhen} {a : Action U}

theorem SetBetween.append {ok : Supervisor U → Action U → Prop} {e : EventRef U}
    (h : SetBetween ok s₁ s e) (hrun : Reach step ok s s') : SetBetween ok s₁ s' e := by
  obtain ⟨s₂, hfrom, hset, hto⟩ := h
  exact ⟨s₂, hfrom, hset, hto.trans hrun⟩

theorem Loop.foldl_notify_leaving (l : List (EventRef U)) (c : Call U) (err : Option (Exc U)) :
    l.foldl Loop.notify (.leaving c err) = .leaving c err := by
  induction l with
  | nil => rfl
  | cons e l ih => exact ih

/-- A call that is left stays so, with its collections. -/
theorem step_leaving {err : Option (Exc U)} (hloop : s.loop = .leaving c err) (ha : During s a)
    (hstep : step s a = some s') :
    ∃ err', s'.loop = .leaving c err' ∧ (err' = none → err = none) := by
  have hsame (h : s'.loop = s.loop) : ∃ err', s'.loop = .leaving c err' ∧ (err' = none → err = none) :=
    ⟨err, h.trans hloop, id⟩
  cases a with
  | addUnit u restart stopped => cases hstep; exact hsame (addUnit_requests s u restart stopped).loop
  | removeUnit u => cases hstep; exact hsame (removeUnitNowait_requests s u).loop
  | startUnit u => cases hstep; exact hsame (startUnitNowait_requests s u).loop
  | stopUnit u force => cases hstep; exact hsame (stopUnitNowait_requests s u force).loop
  | setEvent n => cases hstep; exact hsame (by simp [setEvent, hloop])
  | clearEvent n => cases hstep; exact hsame rfl
  | resume t o =>
    obtain ⟨k, -, hseg⟩ := Option.bind_eq_some_iff.1 hstep
    obtain ⟨l, hl, -⟩ := runSegment_rung hseg
    exact hsame (by rw [hl.loop, hloop, Loop.foldl_notify_leaving])
  | monitorStep | helperStep _ | supervise | wake | stop =>
    simp [step, monitorStep, helperStep, wake, hloop] at hstep
  | leave => cases ha
  | cancel =>
    simp only [step, cancelCall, hloop] at hstep
    cases hstep
    exact ⟨_, rfl, by simp⟩

/-- The books do not depend on the command task, nor on the tasks that are waited for. -/
theorem Booked.update (h : Booked s₁ s events returnWhen c) (monitor : Monitor U)
    (waited : List TaskId) :
    Booked s₁ s events returnWhen { c with monitor := monitor, waited := waited } :=
  ⟨h.returnWhen, h.given, h.disjoint, h.wasSet, h.units, h.keys, h.results⟩

theorem Awaited.update (h : Awaited s₁ s c) (monitor : Monitor U) (waited : List TaskId) :
    Awaited s₁ s { c with monitor := monitor, waited := waited } :=
  ⟨h.helpers, h.nodup, h.heard⟩

theorem Booked.hears (h : Booked s₁ s events returnWhen c) (hrun : Reach step During s s')
    (hhears : Call.Hears s s' c c') (hrunning : s'.running = s.running)
    (hresult : ∀ t res, s.taskResult t = some res → s'.taskResult t = some res) :
    Booked s₁ s' events returnWhen c' := by
  have hsame := hhears.toSameBooks
  refine ⟨hsame.returnWhen.trans h.returnWhen, ?_, ?_, ?_, ?_, ?_, ?_⟩
  · rw [hsame.doneEvents, hsame.pendingEvents]; exact h.given
  · rw [hsame.doneEvents, hsame.pendingEvents]; exact h.disjoint
  · rw [hsame.doneEvents]
    exact fun e he => (h.wasSet e he).append hrun
  · rw [hsame.pendingUnits, hrunning]; exact h.units
  · rw [hsame.doneUnits]; exact h.keys
  · rw [hsame.doneUnits]
    exact fun u t v he => hresult t _ (h.results u t v he)

theorem Awaited.hears (h : Awaited s₁ s c) (hfrom : Reach step During s₁ s')
    (hrun : Reach step During s s') (hhears : Call.Hears s s' c c') : Awaited s₁ s' c' := by
  have hsame := hhears.toSameBooks
  refine ⟨?_, ?_, ?_⟩
  · rw [hsame.keys, hsame.pendingEvents]; exact h.helpers
  · rw [hsame.keys]; exact h.nodup
  · intro e h' hin hheard
    rcases hhears.heard e h' hin hheard with ⟨h'', hin', hheard'⟩ | hset
    · exact (h.heard e h'' hin' hheard').append hrun
    · exact ⟨s', hfrom, hset, .refl⟩

/-- The events whose tasks are done. -/
def Call.heardEvents (c : Call U) : Finset (EventRef U) :=
  ((c.helpers.filter fun h => h.2 = .done).map (·.1)).toFinset

theorem mem_heardEvents {e : EventRef U} : e ∈ c.heardEvents ↔ (e, .done) ∈ c.helpers := by
  simp only [Call.heardEvents, List.mem_toFinset, List.mem_map, List.mem_filter,
    decide_eq_true_eq]
  constructor
  · rintro ⟨⟨e', h⟩, ⟨hin, rfl⟩, rfl⟩
    exact hin
  · exact fun hin => ⟨_, ⟨hin, rfl⟩, rfl⟩

theorem Awaited.heard_subset (h : Awaited s₁ s c) : c.heardEvents ⊆ c.pendingEvents := by
  intro e he
  rw [← h.helpers, List.mem_toFinset]
  exact List.mem_map_of_mem (mem_heardEvents.1 he)

theorem Awaited.takeEvents (h : Awaited s₁ s c) : Awaited s₁ s c.takeEvents := by
  have hmem (e : EventRef U) (h' : Helper) :
      (e, h') ∈ c.takeEvents.helpers ↔ (e, h') ∈ c.helpers ∧ h' ≠ .done := by
    simp [Call.takeEvents]
  refine ⟨?_, ?_, fun e h' hin => h.heard e h' ((hmem e h').1 hin).1⟩
  · ext e
    show e ∈ (c.takeEvents.helpers.map (·.1)).toFinset ↔ e ∈ c.pendingEvents \ c.heardEvents
    rw [Finset.mem_sdiff, mem_heardEvents, ← h.helpers, List.mem_toFinset, List.mem_toFinset,
      List.mem_map, List.mem_map]
    constructor
    · rintro ⟨⟨e', h'⟩, hin, rfl⟩
      obtain ⟨hin, hne⟩ := (hmem e' h').1 hin
      refine ⟨⟨_, hin, rfl⟩, fun hdone => hne ?_⟩
      exact congrArg Prod.snd (List.inj_on_of_nodup_map h.nodup hin hdone rfl)
    · rintro ⟨⟨⟨e', h'⟩, hin, rfl⟩, hno⟩
      refine ⟨(e', h'), (hmem e' h').2 ⟨hin, ?_⟩, rfl⟩
      rintro rfl
      exact hno hin
  · exact h.nodup.sublist (List.filter_sublist.map _)

theorem Taken.pendingEvents (h : Taken s₂ s' c.takeEvents c' order) (hawaited : Awaited s₁ s c) :
    (c'.addPending s₃).pendingEvents = c.takeEvents.pendingEvents := by
  show c'.pendingEvents ∪ (c'.helpers.map (·.1)).toFinset = _
  rw [h.events.2.1, h.events.2.2.1, hawaited.takeEvents.helpers, Finset.union_self]

theorem Booked.turn {l : Loop U} (h : Booked s₁ s events returnWhen c) (hawaited : Awaited s₁ s c)
    (hhandles : Handles { s with loop := l } s₂) (htaken : Taken s₂ s₃ c.takeEvents c₂ order)
    (hrun : Reach step During s s') (hrunning : s'.running = s₃.running)
    (hresult : ∀ t, s'.taskResult t = s.taskResult t) :
    Booked s₁ s' events returnWhen (c₂.addPending s₃) ∧ Awaited s₁ s' (c₂.addPending s₃) := by
  have htake := hawaited.takeEvents
  have hpending : (c₂.addPending s₃).pendingEvents = c.takeEvents.pendingEvents :=
    htaken.pendingEvents hawaited
  have hdoneEvents : (c₂.addPending s₃).doneEvents = c.doneEvents ∪ c.heardEvents := htaken.events.1
  have hleft : c.takeEvents.pendingEvents = c.pendingEvents \ c.heardEvents := rfl
  refine ⟨⟨htaken.events.2.2.2.trans h.returnWhen, ?_, ?_, ?_, ?_, htaken.keys h.keys, ?_⟩, ?_⟩
  · rw [hpending, hdoneEvents, hleft, ← h.given, Finset.union_assoc,
      Finset.union_sdiff_of_subset hawaited.heard_subset]
  · rw [hpending, hdoneEvents, hleft, Finset.disjoint_union_left]
    exact ⟨h.disjoint.mono_right Finset.sdiff_subset, Finset.disjoint_sdiff⟩
  · intro e he
    rw [hdoneEvents, Finset.mem_union] at he
    rcases he with he | he
    · exact (h.wasSet e he).append hrun
    · exact (hawaited.heard e _ (mem_heardEvents.1 he) rfl).append hrun
  · rw [hrunning]
    apply Finset.union_eq_right.2
    intro u hu
    obtain ⟨hold, hno⟩ := (htaken.pending u).1 hu
    have hold' : u ∈ c.pendingUnits := hold
    rw [h.units, List.mem_toFinset, List.mem_map] at hold'
    obtain ⟨⟨t, u'⟩, hin, rfl⟩ := hold'
    rw [List.mem_toFinset, List.mem_map]
    have hin₂ : (t, u') ∈ s₂.running := hhandles.running.subset hin
    exact ⟨(t, u'), (htaken.running _).2 ⟨hin₂, fun ht => hno t ht hin₂⟩, rfl⟩
  · intro u t v hin
    rw [hresult]
    rcases htaken.done u t v hin with ⟨-, -, hres⟩ | ⟨hin, -⟩
    · exact (hhandles.result t).symm.trans hres
    · exact h.results u t v hin
  · refine ⟨?_, ?_, ?_⟩
    · rw [hpending, ← htake.helpers, ← htaken.events.2.2.1]
      rfl
    · have hnodup := htake.nodup
      rw [← htaken.events.2.2.1] at hnodup
      exact hnodup
    · intro e h' hin hheard
      have hin' : (e, h') ∈ c.takeEvents.helpers := htaken.events.2.2.1 ▸ hin
      exact (htake.heard e h' hin' hheard).append hrun

/-- What a turn does with the entries of the finished tasks `order`: as `Taken`, from one wait to the
next. What the turn registers is unfinished. -/
structure Turned (s s' : Supervisor U) (c c' : Call U) (order : List TaskId) : Prop where
  finished : ∀ t, t ∈ order ↔ t ∈ c.waited ∧ (s.taskResult t).isSome
  running : ∀ e ∈ s'.running, e ∈ s.running ∧ e.1 ∉ order ∨ s.taskResult e.1 = none
  left : ∀ e ∈ s.running, e.1 ∉ order → e ∈ s'.running
  taken : ∀ t u, t ∈ order → (t, u) ∈ s.running → u ∈ c'.doneUnits.map (·.1)
  done : ∀ u t v, (u, t, v) ∈ c'.doneUnits → t ∈ order ∧ (t, u) ∈ s.running ∨
    (u, t, v) ∈ c.doneUnits ∧ ∀ t ∈ order, (t, u) ∉ s.running
  kept : ∀ u t v, (u, t, v) ∈ c.doneUnits → (∀ t ∈ order, (t, u) ∉ s.running) →
    (u, t, v) ∈ c'.doneUnits

theorem Taken.turned {l : Loop U} (h : Taken s₂ s₃ c₃ c₂ order)
    (hhandles : Handles { s with loop := l } s₂) (horder : order.Perm (s.doneTasks c))
    (hdone : c₃.doneUnits = c.doneUnits) (hrunning : s'.running = s₃.running) :
    Turned s s' c (c₂.addPending s₃) order := by
  have hfin (t : TaskId) : t ∈ order ↔ t ∈ c.waited ∧ (s.taskResult t).isSome := by
    rw [horder.mem_iff]
    exact List.mem_filter
  have hold (t : TaskId) (u : U) (ht : t ∈ order) : (t, u) ∈ s₂.running ↔ (t, u) ∈ s.running :=
    ⟨hhandles.mem_running ((hfin t).1 ht).2, fun hin => hhandles.running.subset hin⟩
  refine ⟨hfin, ?_, ?_, ?_, ?_, ?_⟩
  · intro e he
    rw [hrunning] at he
    obtain ⟨hin, hno⟩ := (h.running e).1 he
    rcases hhandles.entries e hin with hin | hnew
    · exact .inl ⟨hin, hno⟩
    · exact .inr (by unfold taskResult; rw [show s.tasks e.1 = none from hnew, Option.bind_none])
  · intro e he hno
    rw [hrunning]
    exact (h.running e).2 ⟨hhandles.running.subset he, hno⟩
  · exact fun t u ht hin => h.taken t u ht ((hold t u ht).2 hin)
  · intro u t v hin
    rcases h.done u t v hin with ⟨ht, hin, -⟩ | ⟨hin, hno⟩
    · exact .inl ⟨ht, (hold t u ht).1 hin⟩
    · exact .inr ⟨hdone ▸ hin, fun t ht hin => hno t ht ((hold t u ht).2 hin)⟩
  · intro u t v hin hno
    exact h.kept u t v (hdone ▸ hin) fun t ht hin => hno t ht ((hold t u ht).1 hin)

/-- **One turn of the loop** that raises nothing. -/
theorem wake_booked {T : U → Prop} (hw : WFOn T s) (hloop : s.loop = .waiting c)
    (hbooked : Booked s₁ s events returnWhen c) (hawaited : Awaited s₁ s c)
    (hwake : s.wake order = some s') :
    (∃ c' e, s'.loop = .leaving c' (some e)) ∨
      ∃ c', (s'.loop = .leaving c' none ∧ returnWhen.Met c' ∨
          s'.loop = .waiting c' ∧ c'.waited = s'.running.map (·.1)) ∧
        Booked s₁ s' events returnWhen c' ∧ Awaited s₁ s' c' ∧ Turned s s' c c' order := by
  have hstep : step s (.wake order) = some s' := hwake
  have hrun : Reach step During s s' := .tail (.wake order) .refl rfl hstep
  simp only [wake, hloop] at hwake
  split at hwake
  · next hcan =>
    have hs' : s.wakeUp c order = s' := Option.some.inj hwake
    have hdone (t : TaskId) (ht : t ∈ order) : (s.taskResult t).isSome :=
      (List.mem_filter.1 (hcan.2.2.1.mem_iff.1 ht)).2
    have hresult (t : TaskId) : s'.taskResult t = s.taskResult t := by
      rw [← hs', (wakeUp_quiet hw hloop).taskResult]
    rcases wakeUp_cases s c order with ⟨c', e, hraised⟩ | ⟨s₂, s₃, c₂, hcommands, hunits, hcase⟩
    · exact .inl ⟨c', e, hs' ▸ hraised⟩
    · right
      have hrenew : Booked s₁ s events returnWhen c.renewMonitor ∧ Awaited s₁ s c.renewMonitor := by
        unfold Call.renewMonitor
        split
        · exact ⟨hbooked.update .fresh c.waited, hawaited.update .fresh c.waited⟩
        · exact ⟨hbooked, hawaited⟩
      obtain ⟨hbooked', hawaited'⟩ := hrenew
      have hcommanded := wakeCommands_evolves hw hloop
      rw [hcommands] at hcommanded
      obtain ⟨hevolves, hhandles⟩ := hcommanded
      have hdone₂ (t : TaskId) (ht : t ∈ order) : (s₂.taskResult t).isSome := by
        rw [hhandles.result t]
        exact hdone t ht
      have htaken := takeUnits_taken (fun t u w => hevolves.wf.entry_unique) hdone₂ hunits
      have hrunning : s'.running = s₃.running := by
        rcases hcase with ⟨-, hs⟩ | ⟨-, hs⟩
        · rw [← hs', hs]
        · rw [← hs', hs]
          exact (restartReady_requests s₃).running
      obtain ⟨hbooked₂, hawaited₂⟩ :=
        hbooked'.turn hawaited' hhandles htaken hrun hrunning hresult
      have hturned : Turned s s' c (c₂.addPending s₃) order := by
        refine htaken.turned hhandles hcan.2.2.1 ?_ hrunning
        unfold Call.renewMonitor
        split <;> rfl
      rcases hcase with ⟨hret, hs⟩ | ⟨-, hs⟩
      · refine ⟨_, .inl ⟨by rw [← hs', hs], ?_⟩, hbooked₂, hawaited₂, hturned⟩
        rw [← hbooked₂.returnWhen]
        exact Call.ret_met hret
      · exact ⟨_, .inr ⟨by rw [← hs', hs]; rfl, by rw [← hs', hs]; rfl⟩,
          hbooked₂.update c₂.monitor (s₃.restartReady.running.map (·.1)),
          hawaited₂.update c₂.monitor (s₃.restartReady.running.map (·.1)),
          ⟨hturned.finished, hturned.running, hturned.left, hturned.taken, hturned.done,
            hturned.kept⟩⟩
  · cases hwake

/-! ### The whole call -/

/-- The call that began in `s₁` waits in `s` with its books in order, or is left; the events that it
returns were set. -/
def Supervised (s₁ : Supervisor U) (events : List (EventRef U)) (returnWhen : ReturnWhen)
    (s : Supervisor U) : Prop :=
  match s.loop with
  | .waiting c => Booked s₁ s events returnWhen c ∧ Awaited s₁ s c
  | .leaving c err => err = none → ∀ e ∈ c.doneEvents, SetBetween During s₁ s e
  | .idle => False

theorem superviseUntil_supervised (s : Supervisor U) (events : List (EventRef U))
    (returnWhen : ReturnWhen) :
    Supervised (s.superviseUntil events returnWhen) events returnWhen
      (s.superviseUntil events returnWhen) := by
  have hrunning : (s.superviseUntil events returnWhen).running = s.running :=
    (restartReady_requests s).running
  have hkeys : (events.dedup.map fun e => (e, Helper.fresh)).map (·.1) = events.dedup := by
    rw [List.map_map]
    exact List.map_id _
  refine ⟨⟨rfl, Finset.empty_union _, Finset.disjoint_empty_left _, by simp, ?_, List.nodup_nil,
    by simp⟩, ⟨?_, ?_, ?_⟩⟩
  · rw [hrunning]
  · show ((events.dedup.map fun e => (e, Helper.fresh)).map (·.1)).toFinset = events.toFinset
    rw [hkeys]
    ext e
    simp
  · show ((events.dedup.map fun e => (e, Helper.fresh)).map (·.1)).Nodup
    rw [hkeys]
    exact events.nodup_dedup
  · intro e h hin hheard
    obtain ⟨e', -, heq⟩ := List.mem_map.1 hin
    cases heq
    cases hheard

theorem step_supervised (hw : WFOn (fun _ => False) s) (hfrom : Reach step During s₁ s)
    (h : Supervised s₁ events returnWhen s) (ha : During s a) (hstep : step s a = some s') :
    Supervised s₁ events returnWhen s' := by
  have hrun : Reach step During s s' := .tail a .refl ha hstep
  unfold Supervised at h ⊢
  split at h
  · next c hloop =>
    by_cases hwake : ∃ order, a = .wake order
    · obtain ⟨order, rfl⟩ := hwake
      rcases wake_booked hw hloop h.1 h.2 hstep with ⟨c', e, hend⟩ | ⟨c', hend, hbooks⟩
      · rw [hend]
        exact nofun
      · rcases hend with ⟨hend, -⟩ | ⟨hend, -⟩
        · rw [hend]
          exact fun _ => hbooks.1.wasSet
        · rw [hend]
          exact ⟨hbooks.1, hbooks.2.1⟩
    · obtain ⟨c', hend, hhears, hrunning⟩ :=
        step_hears hloop (fun order h => hwake ⟨order, h⟩) hstep
      rcases hend with hend | ⟨-, hend⟩
      · rw [hend]
        exact ⟨h.1.hears hrun hhears hrunning fun t res hres => step_result hw hstep hres,
          h.2.hears (hfrom.trans hrun) hrun hhears⟩
      · rw [hend]
        exact nofun
  · next hloop =>
    obtain ⟨err', hend, herr⟩ := step_leaving hloop ha hstep
    rw [hend]
    exact fun hnone e he => (h (herr hnone) e he).append hrun
  · exact h.elim

end

end Silkjam.Supervisor
