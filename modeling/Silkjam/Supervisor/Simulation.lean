import Silkjam.Supervisor.Segments

/-!
# The supervisor moves its units

`WF` is the invariant of the whole state: the tables the units share are consistent, and every unit
is in one of its situations. `Evolves ok s s'` says that `s'` is well formed too and that each unit
`u` got there by moves with labels in `ok u`. This module shows it of every step of the event loop
(`step_evolves`), and for a turn of the supervise loop in which order its moves come
(`wake_turn`): commands are handled, completed tasks closed, units restarted.

A unit that is removed while a task of it runs leaves its situations. `WFOn T` and `EvolvesOn T`
follow the units in `T` only, whatever becomes of the others.
-/

namespace Silkjam.Supervisor

variable {U : Type} [DecidableEq U]

/-- The tables that the units share. -/
structure Tables (s : Supervisor U) : Prop where
  fresh : ∀ t, s.nextTask ≤ t → s.tasks t = none
  entries : ∀ t u, (t, u) ∈ s.running → s.Owns t u
  keys : (s.running.map (·.1)).Nodup
  units : s.units.Nodup
  owned : s.Owned

/-- The invariant, with the units in `T` in one of their situations. -/
structure WFOn (T : U → Prop) (s : Supervisor U) : Prop extends Tables s where
  placedOn : ∀ u, T u → Placed (s.view u)

/-- A step that is moves of the units in `T`. -/
structure EvolvesOn (T : U → Prop) (ok : U → Label → Prop) (s s' : Supervisor U) : Prop where
  wf : WFOn T s'
  movesOn : ∀ u, T u → Moves (ok u) (s.view u) (s'.view u)

abbrev WF (s : Supervisor U) : Prop :=
  WFOn (fun _ => True) s

abbrev Evolves (ok : U → Label → Prop) (s s' : Supervisor U) : Prop :=
  EvolvesOn (fun _ => True) ok s s'

variable {T : U → Prop}

theorem WFOn.placed {s : Supervisor U} (hw : WFOn T s) (u : U) (hu : T u := by trivial) :
    Placed (s.view u) :=
  hw.placedOn u hu

theorem EvolvesOn.moves {ok : U → Label → Prop} {s s' : Supervisor U} (h : EvolvesOn T ok s s')
    (u : U) (hu : T u := by trivial) : Moves (ok u) (s.view u) (s'.view u) :=
  h.movesOn u hu

/-! ### The tables -/

theorem Tables.of_eq {s s' : Supervisor U} (h : Tables s) (hunits : s'.units = s.units)
    (hnext : s'.nextTask = s.nextTask) (htasks : s'.tasks = s.tasks)
    (hrunning : s'.running = s.running)
    (hheap : ∀ r, (s'.heap r).task = (s.heap r).task := by exact fun _ => rfl) : Tables s' := by
  constructor
  · rw [hnext, htasks]; exact h.fresh
  · rw [hrunning]; unfold Owns; rw [htasks]; exact h.entries
  · rw [hrunning]; exact h.keys
  · rw [hunits]; exact h.units
  · refine ⟨?_, ?_⟩
    · intro r t ht
      unfold Owns
      rw [htasks]
      exact h.owned.task r t (hheap r ▸ ht)
    · rw [htasks]; exact h.owned.ref

theorem Tables.modify {s : Supervisor U} (h : Tables s) {r : StateRef U} {f : State U → State U}
    (hf : ∀ st, (f st).task = st.task) : Tables (s.modify r f) := by
  refine h.of_eq rfl rfl rfl rfl fun r' => ?_
  by_cases hr : r' = r
  · subst hr
    simp [Supervisor.modify, hf]
  · simp [Supervisor.modify, Function.update_of_ne hr]

theorem Tables.of_within {s s' : Supervisor U} {u : U} {t : TaskId} (h : Tables s)
    (hw : Within u t s s') :
    Tables s' := by
  refine ⟨?_, ?_, ?_, ?_, hw.owned h.owned⟩
  · intro t ht
    have := hw.owner t
    rw [h.fresh t (hw.nextTask ▸ ht)] at this
    simpa using this
  · intro t w hmem
    exact hw.owns (h.entries t w (hw.running.subset hmem))
  · exact h.keys.sublist (hw.running.map _)
  · rw [hw.units]; exact h.units

theorem Tables.entry_unique {s : Supervisor U} (h : Tables s) {t : TaskId} {u w : U}
    (hu : (t, u) ∈ s.running) (hw : (t, w) ∈ s.running) : u = w :=
  Option.some_injective _ ((h.entries t u hu).symm.trans (h.entries t w hw))

theorem Tables.entry_of_owns {s : Supervisor U} (h : Tables s) {t : TaskId} {u w : U}
    (hu : s.Owns t u) (hw : (t, w) ∈ s.running) : w = u :=
  Option.some_injective _ ((h.entries t w hw).symm.trans hu)

theorem Tables.hasLive {s : Supervisor U} (h : Tables s) {t : TaskId} {u : U} (ht : s.Live t u) :
    s.HasLive u := by
  refine ⟨t, Nat.lt_of_not_le ?_, ht⟩
  intro hle
  obtain ⟨k, hk, -⟩ := ht
  rw [h.fresh t hle] at hk
  cases hk

/-! ### Composing -/

section
variable {ok ok' : U → Label → Prop} {s s' s'' : Supervisor U}

theorem EvolvesOn.mono (h : EvolvesOn T ok s s') (himp : ∀ u l, ok u l → ok' u l) :
    EvolvesOn T ok' s s' :=
  ⟨h.wf, fun u hu => (h.movesOn u hu).mono (himp u)⟩

theorem EvolvesOn.trans (h : EvolvesOn T ok s s') (h' : EvolvesOn T ok s' s'') :
    EvolvesOn T ok s s'' :=
  ⟨h'.wf, fun u hu => (h.movesOn u hu).trans (h'.movesOn u hu)⟩

theorem EvolvesOn.of_view (hw : WFOn T s) (ht : Tables s') (hv : ∀ u, s'.view u = s.view u) :
    EvolvesOn T ok s s' :=
  ⟨⟨ht, fun u hu => hv u ▸ hw.placedOn u hu⟩, fun u _ => .of_eq (hv u)⟩

theorem EvolvesOn.of_unit {u : U} (hw : WFOn T s) (ht : Tables s') (hok : ¬ ok u .remove)
    (hother : ∀ w ≠ u, s'.view w = s.view w) (hv : T u → Moves (ok u) (s.view u) (s'.view u)) :
    EvolvesOn T ok s s' := by
  have hmoves (w : U) (hw : T w) : Moves (ok w) (s.view w) (s'.view w) := by
    by_cases h : w = u
    · subst h; exact hv hw
    · exact .of_eq (hother w h)
  refine ⟨⟨ht, ?_⟩, hmoves⟩
  intro w hT
  by_cases h : w = u
  · subst h; exact (hv hT).placed (hw.placedOn w hT) hok
  · exact hother w h ▸ hw.placedOn w hT

theorem EvolvesOn.foldl {β : Type} (f : Supervisor U → β → Supervisor U)
    (hf : ∀ s b, WFOn T s → EvolvesOn T ok s (f s b)) (l : List β) (hw : WFOn T s) :
    EvolvesOn T ok s (l.foldl f s) := by
  induction l generalizing s with
  | nil => exact .of_view hw hw.toTables fun _ => rfl
  | cons b l ih => exact (hf s b hw).trans (ih (hf s b hw).wf)

end

/-! ### Public calls -/

theorem requestStart_tables {s : Supervisor U} (h : Tables s) (u : U) :
    Tables (s.requestStart u) := by
  unfold requestStart
  split
  · exact h
  · have hput : Tables (s.put .start u) := h.of_eq rfl rfl rfl rfl
    exact hput.modify fun _ => rfl

theorem startUnitNowait_tables {s : Supervisor U} (h : Tables s) (u : U) :
    Tables (s.startUnitNowait u).1 := by
  unfold startUnitNowait
  split
  · exact h
  · split
    · dsimp only
      exact (requestStart_tables h u).modify fun _ => rfl
    · dsimp only
      exact (requestStart_tables h u).modify fun _ => rfl
    all_goals exact h

theorem requestStop_tables {s : Supervisor U} (h : Tables s) (u : U) (force : Bool) :
    Tables (s.requestStop u force) := by
  unfold requestStop
  split
  · exact h
  · have hput : Tables (s.put .stop u) := h.of_eq rfl rfl rfl rfl
    exact hput.modify fun _ => rfl

theorem stopUnitNowait_tables {s : Supervisor U} (h : Tables s) (u : U) (force : Bool) :
    Tables (s.stopUnitNowait u force).1 := by
  have hreq := requestStop_tables h u force
  unfold stopUnitNowait
  split
  · exact h
  · split
    · split
      · exact hreq
      · dsimp only
        exact h.modify fun _ => rfl
    · split
      · exact hreq
      · dsimp only
        exact h.modify fun _ => rfl
    · exact hreq
    · exact hreq
    · dsimp only
      exact h.modify fun _ => rfl

theorem addUnit_tables {s : Supervisor U} (h : Tables s) (u : U) (restart stopped : Bool) :
    Tables (s.addUnit u restart stopped).1 := by
  unfold addUnit
  split
  · exact h
  · next hnew =>
    have hins (status : Status) : Tables (s.insertUnit u restart status) := by
      refine ⟨h.fresh, h.entries, h.keys, ?_, fun r t ht => h.owned.task r t ?_, h.owned.ref⟩
      · exact List.Nodup.append h.units (by simp) (by simpa using hnew)
      · by_cases hr : r = ⟨u, s.gen u + 1⟩
        · subst hr
          simp [insertUnit] at ht
        · simpa [insertUnit, Function.update_of_ne hr] using ht
    split
    · exact startUnitNowait_tables (hins _) u
    · exact hins _

theorem removeUnitNowait_tables {s : Supervisor U} (h : Tables s) (u : U) :
    Tables (s.removeUnitNowait u).1 := by
  unfold removeUnitNowait
  split
  · exact h
  · exact ⟨h.fresh, h.entries, h.keys, h.units.erase u, ⟨h.owned.task, h.owned.ref⟩⟩

theorem startUnitNowait_evolves {s : Supervisor U} (hw : WFOn T s) (u : U) :
    EvolvesOn T (fun w l => w = u ∧ l = .start) s (s.startUnitNowait u).1 :=
  .of_unit hw (startUnitNowait_tables hw.toTables u) (by simp)
    (fun w h => startUnitNowait_view_ne s h.symm)
    fun _ => (startUnitNowait_moves s u (.inl rfl)).mono fun l hl => ⟨rfl, hl⟩

theorem stopUnitNowait_evolves {s : Supervisor U} (hw : WFOn T s) (u : U) (force : Bool) :
    EvolvesOn T (fun w l => w = u ∧ l = .stop) s (s.stopUnitNowait u force).1 :=
  .of_unit hw (stopUnitNowait_tables hw.toTables u force) (by simp)
    (fun w h => stopUnitNowait_view_ne s force h.symm)
    fun _ => (stopUnitNowait_moves s u force).mono fun l hl => ⟨rfl, hl⟩

theorem addUnit_evolves {s : Supervisor U} (hw : WFOn T s) (u : U) (restart stopped : Bool) :
    EvolvesOn T (fun w l => w = u ∧ (l = .add ∨ l = .start)) s (s.addUnit u restart stopped).1 :=
  .of_unit hw (addUnit_tables hw.toTables u restart stopped) (by simp)
    (fun w h => addUnit_view_ne s restart stopped h.symm)
    fun _ => (addUnit_moves s u restart stopped).mono fun l hl => ⟨rfl, hl⟩

/-- A unit is removed: the unit's `state.task` must not have been lost. -/
theorem removeUnitNowait_evolves {s : Supervisor U} (hw : WFOn T s) (u : U)
    (hreg : T u → Registered (s.view u)) :
    EvolvesOn T (fun w l => w = u ∧ l = .remove) s (s.removeUnitNowait u).1 := by
  have hmoves := removeUnitNowait_moves s u hw.units
  have hother (w : U) (h : w ≠ u) : (s.removeUnitNowait u).1.view w = s.view w :=
    removeUnitNowait_view_ne s h.symm
  refine ⟨⟨removeUnitNowait_tables hw.toTables u, ?_⟩, ?_⟩
  · intro w hT
    by_cases h : w = u
    · subst h
      refine (hmoves.invariant (P := fun v => Placed v ∧ Registered v)
        ⟨hw.placedOn w hT, hreg hT⟩ ?_).1
      rintro l v v' rfl ⟨hp, hr⟩ hm
      refine ⟨hm.placed hp fun _ => hr, ?_⟩
      cases hm with
      | queueStart hl => simp at hl
      | remove => exact hr
    · exact hother w h ▸ hw.placedOn w hT
  · intro w _
    by_cases h : w = u
    · subst h; exact hmoves.mono fun l hl => ⟨rfl, hl⟩
    · exact .of_eq (hother w h)

/-! ### Handling a command -/

section
variable {s : Supervisor U} {q : List (Command × U)} {c : Command} {u w : U}

theorem view_pop_ne (hq : s.queue = (c, u) :: q) (h : u ≠ w) :
    ({ s with queue := q } : Supervisor U).view w = s.view w := by
  simp [view, inFlight, hq, state, ref, h]

theorem view_pop_start (hq : s.queue = (.start, u) :: q) :
    ∃ n, (s.view u).starts = n + 1 ∧
      ({ s with queue := q } : Supervisor U).view u = { s.view u with starts := n } := by
  refine ⟨(s.loop.items ++ q).count (.start, u), ?_, ?_⟩
  · simp [view, inFlight, hq, Nat.add_assoc]
  · simp [view, inFlight, hq, state, ref]

theorem view_pop_stop (hq : s.queue = (.stop, u) :: q) :
    ∃ n, (s.view u).stops = n + 1 ∧
      ({ s with queue := q } : Supervisor U).view u = { s.view u with stops := n } := by
  refine ⟨(s.loop.items ++ q).count (.stop, u), ?_, ?_⟩
  · simp [view, inFlight, hq, Nat.add_assoc]
  · simp [view, inFlight, hq, state, ref]

theorem view_startUnit (s : Supervisor U) (u : U) :
    (s.startUnit u).view u =
      { s.view u with
        st := { (s.view u).st with task := some s.nextTask }
        tasks := Function.update (s.view u).tasks s.nextTask (some { unit := u })
        entries := fun t => (s.view u).entries t ∨ t = s.nextTask } := by
  unfold startUnit
  dsimp only
  rw [view_modify_self]
  swap
  · rfl
  have htasks (t : TaskId) : (Function.update s.tasks s.nextTask
      (some ({ unit := u } : UnitTask U)) t).bind (·.liveOf u) =
        Function.update (s.view u).tasks s.nextTask (some { unit := u }) t := by
    by_cases h : t = s.nextTask
    · subst h; simp [UnitTask.liveOf, Pc.isFinished]
    · simp [Function.update_of_ne h, view]
  simp only [view, htasks]
  simp [inFlight, state, ref]

theorem view_startUnit_ne (hw : Tables s) (h : u ≠ w) : (s.startUnit u).view w = s.view w := by
  unfold startUnit
  dsimp only
  rw [view_modify_ne _ _ h]
  have htasks (t : TaskId) : (Function.update s.tasks s.nextTask
      (some ({ unit := u } : UnitTask U)) t).bind (·.liveOf w) = (s.tasks t).bind (·.liveOf w) := by
    by_cases ht : t = s.nextTask
    · subst ht; simp [UnitTask.liveOf, hw.fresh _ le_rfl, h]
    · simp [Function.update_of_ne ht]
  simp only [view, htasks]
  simp [inFlight, state, ref, h.symm]

theorem startUnit_tables (hw : Tables s) (u : U) : Tables (s.startUnit u) := by
  have hnew (t : TaskId) (w : U) (h : (t, w) ∈ s.running) : t ≠ s.nextTask := by
    rintro rfl
    have := hw.entries _ _ h
    simp [Owns, hw.fresh _ le_rfl] at this
  have howns (t : TaskId) (w : U) (h : s.Owns t w) : (s.startUnit u).Owns t w := by
    have hne : t ≠ s.nextTask := by
      rintro rfl
      simp [Owns, hw.fresh _ le_rfl] at h
    simpa [startUnit, modify, Owns, hne] using h
  have hself : (s.startUnit u).Owns s.nextTask u := by simp [startUnit, modify, Owns]
  refine ⟨?_, ?_, ?_, hw.units, ?_, ?_⟩
  · intro t ht
    have ht' : s.nextTask + 1 ≤ t := ht
    have hne : t ≠ s.nextTask := Nat.ne_of_gt ht'
    simpa [startUnit, modify, hne] using hw.fresh t (Nat.le_of_succ_le ht')
  · intro t w hmem
    have hmem' : (t, w) ∈ s.running ++ [(s.nextTask, u)] := hmem
    rw [List.mem_append, List.mem_singleton] at hmem'
    rcases hmem' with hmem' | hmem'
    · exact howns t w (hw.entries t w hmem')
    · cases hmem'; exact hself
  · simp only [startUnit, modify, List.map_append, List.map_cons, List.map_nil]
    apply List.Nodup.append hw.keys (by simp)
    simpa using fun w h => hnew _ w h rfl
  · intro r t ht
    by_cases hr : r = s.ref u
    · subst hr
      obtain rfl : s.nextTask = t := by simpa [startUnit, modify, ref] using ht
      exact hself
    · refine howns t _ (hw.owned.task r t ?_)
      have hr' : r ≠ ⟨u, s.gen u⟩ := hr
      simpa [startUnit, modify, ref, Function.update_of_ne hr'] using ht
  · intro t k r hk
    by_cases hne : t = s.nextTask
    · subst hne
      obtain rfl : ({ unit := u } : UnitTask U) = k := by simpa [startUnit, modify] using hk
      intro h
      cases h
    · apply hw.owned.ref t k r
      simpa [startUnit, modify, Function.update_of_ne hne] using hk

/-- `_stop_unit` from the handler, on a unit whose `state.task` is not lost. -/
theorem handleStopUnit_eq (hreg : u ∈ s.units) :
    s.handleStopUnit u =
      match (s.state u).task with
      | none => (s, some .assertionError)
      | some t => ((s.cancelTask t).log (.cancel t u (s.state u).status), none) := by
  unfold handleStopUnit stopUnit
  rw [if_neg (not_not.2 hreg)]
  cases (s.state u).task <;> rfl

end

theorem EvolvesOn.handled {s s' : Supervisor U} {c : Command} {u : U} {reg : Bool}
    {task : Option TaskId} {err : Option (Exc U)} (hw : WFOn T s) (ht : Tables s')
    (hother : ∀ w ≠ u, s'.view w = s.view w)
    (hm : T u → Move (.handle c) (s.view u)
      { s'.view u with trace := .handled c u reg task err :: (s'.view u).trace }) :
    EvolvesOn T (fun w l => w = u ∧ l = .handle c) s (s'.log (.handled c u reg task err)) := by
  refine .of_unit (u := u) hw (ht.of_eq rfl rfl rfl rfl) (by simp) (fun w h => ?_) ?_
  · rw [view_log_ne s' (o := .handled c u reg task err) h.symm, hother w h]
  · rw [view_log (u := u) _ rfl]
    exact fun hT => .single ⟨rfl, rfl⟩ (hm hT)

theorem handleStart_evolves {s : Supervisor U} {q : List (Command × U)} {u : U}
    (hw : WFOn T s) (hq : s.queue = (.start, u) :: q) :
    EvolvesOn T (fun w l => w = u ∧ l = .handle .start) s
      (({ s with queue := q } : Supervisor U).handleLogged .start u).1 := by
  obtain ⟨n, hn, hview⟩ := view_pop_start hq
  have hother (w : U) (h : w ≠ u) := view_pop_ne hq h.symm
  have htables : Tables ({ s with queue := q } : Supervisor U) := hw.toTables.of_eq rfl rfl rfl rfl
  have hnone : (s.view u).tasks s.nextTask = none := by simp [view, hw.fresh _ le_rfl]
  unfold handleLogged handleCommand
  dsimp only
  split
  · next hreg =>
    refine .handled hw htables hother fun _ => ?_
    rw [hview]
    exact Move.startFailed _ hn (.inl hreg) (by simp [view])
  · next hreg =>
    split
    · next htask =>
      refine .handled hw htables hother fun _ => ?_
      rw [hview]
      exact Move.startFailed _ hn (.inr htask) (by simp [view])
    · next htask =>
      rw [not_not] at hreg htask
      refine .handled hw (startUnit_tables htables u) (fun w h => ?_) fun _ => ?_
      · rw [view_startUnit_ne htables h.symm, hother w h]
      · rw [view_startUnit, hview, htask, decide_eq_true hreg]
        exact Move.startTask s.nextTask hn hreg htask hnone

theorem handleStop_evolves {s : Supervisor U} {q : List (Command × U)} {u : U}
    (hw : WFOn T s) (hq : s.queue = (.stop, u) :: q) :
    EvolvesOn T (fun w l => w = u ∧ l = .handle .stop) s
      (({ s with queue := q } : Supervisor U).handleLogged .stop u).1 := by
  obtain ⟨n, hn, hview⟩ := view_pop_stop hq
  have hother (w : U) (h : w ≠ u) := view_pop_ne hq h.symm
  have htables : Tables ({ s with queue := q } : Supervisor U) := hw.toTables.of_eq rfl rfl rfl rfl
  have hreg_iff : decide (u ∈ s.units) = true ↔ (s.view u).registered := by simp [view]
  have htask_eq : (({ s with queue := q } : Supervisor U).state u).task = (s.state u).task := rfl
  -- the two branches that call `_stop_unit`
  have hstop (hreg : u ∈ s.units) (hcan : (s.view u).st.stopCancels) :
      EvolvesOn T (fun w l => w = u ∧ l = .handle .stop) s
        ((({ s with queue := q } : Supervisor U).handleStopUnit u).1.log
          (.handled .stop u (decide (u ∈ s.units)) (s.state u).task
            (({ s with queue := q } : Supervisor U).handleStopUnit u).2)) := by
    rw [handleStopUnit_eq (s := { s with queue := q }) hreg, htask_eq]
    cases ht : (s.state u).task with
    | none =>
      refine .handled hw htables hother fun _ => ?_
      have hmove := Move.stopFailed .assertionError hn (.inr ⟨hcan, ht⟩) hreg_iff
      rw [show (s.view u).st.task = none from ht] at hmove
      rw [hview]
      exact hmove
    | some t =>
      have hwithin : Within u t ({ s with queue := q } : Supervisor U)
          ((({ s with queue := q } : Supervisor U).cancelTask t).log
            (.cancel t u (s.state u).status)) :=
        (within_cancelTask (htables.owned.task (s.ref u) t ht)).trans (within_log _ rfl)
      refine .handled hw (htables.of_within hwithin) (fun w h => ?_) fun hT => ?_
      · exact (hwithin.other w h).trans (hother w h)
      · obtain ⟨k, hk⟩ : ∃ k, (s.view u).tasks t = some k := (hw.placedOn u hT).task_live ht
        obtain ⟨hk', hku, hlive⟩ := view_tasks_eq_some.1 hk
        have hmove := Move.stopCancel t k hn hreg hcan ht hk
        rw [show (s.view u).st.task = some t from ht] at hmove
        rw [view_log (u := u) _ rfl, view_cancelTask (s := { s with queue := q }) hk' hku hlive,
          hview, decide_eq_true hreg]
        exact hmove
  unfold handleLogged handleCommand
  dsimp only
  split
  · next hreg =>
    refine .handled hw htables hother fun _ => ?_
    rw [hview]
    exact Move.stopFailed _ hn (.inl hreg) hreg_iff
  · next hreg =>
    rw [not_not] at hreg
    have hignored (hno : ¬ (s.view u).st.stopCancels) :
        EvolvesOn T (fun w l => w = u ∧ l = .handle .stop) s
          (({ s with queue := q } : Supervisor U).log
            (.handled .stop u (decide (u ∈ s.units)) (s.state u).task none)) := by
      refine .handled hw htables hother fun _ => ?_
      rw [hview, decide_eq_true hreg]
      exact Move.stopIgnored hn hreg hno
    split
    · next hst =>
      split
      · next hforce => exact hstop hreg (.inl ⟨hst, hforce⟩)
      · next hforce =>
        exact hignored fun h => h.elim (fun h => hforce h.2) fun h => h.1 hst
    · next hst =>
      split
      · next hps => exact hignored fun h => h.elim (fun h => hst h.1) fun h => h.2 hps
      · next hps =>
        have hcan : (s.view u).st.stopCancels := .inr ⟨hst, hps⟩
        split
        · next htask =>
          refine .handled hw htables hother fun _ => ?_
          rw [hview]
          exact Move.stopFailed _ hn (.inr ⟨hcan, htask⟩) hreg_iff
        · exact hstop hreg hcan

/-- What handling commands leaves alone: it ends no task, and registers only tasks that it
creates. -/
structure Handles (s s' : Supervisor U) : Prop where
  units : s'.units = s.units
  loop : s'.loop = s.loop
  returns : s'.returns = s.returns
  result : ∀ t, s'.taskResult t = s.taskResult t
  owns : ∀ t u, s.Owns t u → s'.Owns t u
  running : s.running.Sublist s'.running
  entries : ∀ e ∈ s'.running, e ∈ s.running ∨ s.tasks e.1 = none

theorem Handles.refl (s : Supervisor U) : Handles s s :=
  ⟨rfl, rfl, rfl, fun _ => rfl, fun _ _ h => h, .refl _, fun _ h => .inl h⟩

theorem Handles.trans {s s' s'' : Supervisor U} (h : Handles s s') (h' : Handles s' s'') :
    Handles s s'' := by
  refine ⟨h'.units.trans h.units, h'.loop.trans h.loop, h'.returns.trans h.returns,
    fun t => (h'.result t).trans (h.result t), fun t u ho => h'.owns t u (h.owns t u ho),
    h.running.trans h'.running, fun e he => ?_⟩
  rcases h'.entries e he with he | he
  · exact h.entries e he
  · refine .inr (Option.eq_none_iff_forall_ne_some.2 fun k hk => ?_)
    have := h.owns e.1 k.unit (by simp [Owns, hk])
    simp [Owns, he] at this

theorem stopUnit_handles {s s' : Supervisor U} {u : U} (h : s.stopUnit u = .ok s') :
    s'.queue = s.queue ∧ Handles s s' := by
  unfold stopUnit at h
  split at h
  · cases h
  · split at h
    · cases h
    · next t _ =>
      cases h
      refine ⟨rfl, rfl, rfl, rfl, ?_, ?_, .refl _, fun _ h => .inl h⟩
      · intro t'
        exact taskResult_modifyTask (s := s) (t := t)
          (f := fun k => { k with cancel := k.cancel || !k.pc.isFinished }) fun _ => rfl
      · intro t' u ho
        by_cases he : t' = t
        · subst he
          obtain ⟨k, hk, rfl⟩ := Option.map_eq_some_iff.1 ho
          simp [Owns, cancelTask, log, modifyTask, hk]
        · simpa [Owns, cancelTask, log, modifyTask, Function.update_of_ne he] using ho

theorem startUnit_handles {s : Supervisor U} (hw : Tables s) (u : U) :
    (s.startUnit u).queue = s.queue ∧ Handles s (s.startUnit u) := by
  have hfresh := hw.fresh s.nextTask le_rfl
  refine ⟨rfl, rfl, rfl, rfl, fun t => ?_, fun t u ho => ?_, List.sublist_append_left ..,
    fun e he => ?_⟩
  · by_cases hne : t = s.nextTask
    · subst hne
      simp [startUnit, taskResult, modify, hfresh, Pc.result]
    · simp [startUnit, taskResult, modify, Function.update_of_ne hne]
  · have hne : t ≠ s.nextTask := by
      rintro rfl
      simp [Owns, hfresh] at ho
    simpa [startUnit, Owns, modify, Function.update_of_ne hne] using ho
  · have he' : e ∈ s.running ++ [(s.nextTask, u)] := he
    rcases List.mem_append.1 he' with he | he
    · exact .inl he
    · rw [List.mem_singleton.1 he]
      exact .inr hfresh

theorem handleLogged_handles {s : Supervisor U} (hw : Tables s) (c : Command) (u : U) :
    (s.handleLogged c u).1.queue = s.queue ∧ Handles s (s.handleLogged c u).1 := by
  have hstop : (s.handleStopUnit u).1.queue = s.queue ∧ Handles s (s.handleStopUnit u).1 := by
    unfold handleStopUnit
    split
    · next h => exact stopUnit_handles h
    · exact ⟨rfl, .refl s⟩
  have hcommand : (s.handleCommand c u).1.queue = s.queue ∧ Handles s (s.handleCommand c u).1 := by
    unfold handleCommand
    repeat' split
    all_goals first | exact hstop | exact startUnit_handles hw u | exact ⟨rfl, .refl s⟩
  obtain ⟨hq, hunits, hloop, hreturns, hresult, howns, hrunning, hentries⟩ := hcommand
  exact ⟨hq, hunits, hloop, hreturns, hresult, howns, hrunning, hentries⟩

theorem handleLogged_evolves {s : Supervisor U} {q : List (Command × U)} {c : Command} {u : U}
    (hw : WFOn T s) (hq : s.queue = (c, u) :: q) :
    EvolvesOn T (fun w l => w = u ∧ l = .handle c) s
      (({ s with queue := q } : Supervisor U).handleLogged c u).1 := by
  cases c with
  | start => exact handleStart_evolves hw hq
  | stop => exact handleStop_evolves hw hq

theorem mem_allowed (c : Command) : c ∈ [Command.start, .stop] := by
  cases c <;> simp

theorem drainQueue_evolves (l : List (Command × U)) {s : Supervisor U} (hw : WFOn T s)
    (hq : s.queue = l) :
    EvolvesOn T (fun _ l => ∃ c, l = .handle c) s (drainQueue [.start, .stop] l s).1 ∧
      Handles s (drainQueue [.start, .stop] l s).1 := by
  induction l generalizing s with
  | nil => exact ⟨.of_view hw hw.toTables fun _ => rfl, .refl s⟩
  | cons item q ih =>
    obtain ⟨c, u⟩ := item
    have h : EvolvesOn T (fun _ l => ∃ c, l = .handle c) s
        (({ s with queue := q } : Supervisor U).handleLogged c u).1 :=
      (handleLogged_evolves hw hq).mono fun w l hl => ⟨c, hl.2⟩
    have hh := handleLogged_handles (s := { s with queue := q }) (hw.toTables.of_eq rfl rfl rfl rfl)
      c u
    have hh' : Handles s (({ s with queue := q } : Supervisor U).handleLogged c u).1 :=
      ⟨hh.2.units, hh.2.loop, hh.2.returns, hh.2.result, hh.2.owns, hh.2.running, hh.2.entries⟩
    unfold drainQueue
    dsimp only
    rw [if_neg (not_not.2 (mem_allowed c))]
    split
    · next s' hs' =>
      rw [hs'] at h hh hh'
      have hrest := ih h.wf hh.1
      exact ⟨h.trans hrest.1, hh'.trans hrest.2⟩
    · next s' e hs' =>
      rw [hs'] at h hh'
      exact ⟨h, hh'⟩

/-! ### The other steps of the loop -/

theorem taskResult_isSome {s : Supervisor U} {t : TaskId} :
    (s.taskResult t).isSome ↔ ∃ k, s.tasks t = some k ∧ k.pc.isFinished := by
  unfold taskResult
  cases s.tasks t with
  | none => simp
  | some k => cases hpc : k.pc <;> simp [hpc, Pc.result, Pc.isFinished]

theorem view_loop (s : Supervisor U) {l : Loop U} (u : U) (h : l.items = s.loop.items) :
    ({ s with loop := l } : Supervisor U).view u = s.view u := by
  simp [view, inFlight, state, ref, h]

theorem EvolvesOn.loop {ok : U → Label → Prop} {s : Supervisor U} (hw : WFOn T s) {l : Loop U}
    (h : l.items = s.loop.items) : EvolvesOn T ok s { s with loop := l } :=
  .of_view hw (hw.toTables.of_eq rfl rfl rfl rfl) fun u => view_loop s u h

theorem closeTask_evolves {s : Supervisor U} {t : TaskId} {u : U} (hw : WFOn T s)
    (hentry : (t, u) ∈ s.running) (hdone : (s.taskResult t).isSome) :
    EvolvesOn T (fun w l => w = u ∧ l = .close) s (s.closeTask t u) := by
  have hnone : (s.view u).tasks t = none := by
    have hfin := taskResult_isSome.1 hdone
    obtain ⟨k, hk, hpc⟩ := hfin
    simp [view, hk, UnitTask.liveOf, hpc]
  have hown := hw.entries t u hentry
  have hdrop (s' : Supervisor U) (h : Within u t s s') :
      Within u t s { s' with running := s'.running.filter fun e => e.1 ≠ t } :=
    h.trans (within_drop fun w hmem => hw.entry_of_owns hown (h.running.subset hmem))
  have hview (s' : Supervisor U) (hrun : s'.running = s.running) :
      ({ s' with running := s'.running.filter fun e => e.1 ≠ t } : Supervisor U).view u =
        { s'.view u with entries := fun t' => (s.view u).entries t' ∧ t' ≠ t } := by
    simp only [view, hrun, List.mem_filter, decide_eq_true_eq]
    rfl
  unfold closeTask
  dsimp only
  by_cases hreg : u ∈ s.units
  · rw [if_pos hreg]
    have h := hdrop _ (within_modify (r := s.ref u) (fun st => { st with task := none }) rfl
      fun _ _ h => by cases h)
    refine .of_unit (u := u) hw (hw.toTables.of_within h) (by simp) h.other fun _ =>
      .single ⟨rfl, rfl⟩ ?_
    rw [hview (s.modify (s.ref u) fun st => { st with task := none }) rfl,
      view_modify_self _ _ rfl]
    exact .close t none hentry hnone (.inl rfl)
  · rw [if_neg hreg]
    have h := hdrop s (.refl u t s)
    refine .of_unit (u := u) hw (hw.toTables.of_within h) (by simp) h.other fun _ =>
      .single ⟨rfl, rfl⟩ ?_
    rw [hview s rfl]
    exact .close t (s.view u).st.task hentry hnone (.inr ⟨hreg, rfl⟩)

theorem closeTask_queue (s : Supervisor U) (t : TaskId) (u : U) :
    (s.closeTask t u).queue = s.queue := by
  unfold closeTask
  dsimp only
  split <;> rfl

theorem taskResult_closeTask (s : Supervisor U) (t t' : TaskId) (u : U) :
    (s.closeTask t u).taskResult t' = s.taskResult t' := by
  unfold closeTask
  dsimp only
  split <;> rfl

theorem takeUnits_evolves (order : List TaskId) {s : Supervisor U} (c : Call U) (hw : WFOn T s)
    (hdone : ∀ t ∈ order, (s.taskResult t).isSome) :
    EvolvesOn T (fun _ l => l = .close) s (takeUnits order s c).1 := by
  induction order generalizing s c with
  | nil => exact .of_view hw hw.toTables fun _ => rfl
  | cons t ts ih =>
    have hts (t' : TaskId) (ht' : t' ∈ ts) := hdone t' (List.mem_cons_of_mem _ ht')
    unfold takeUnits
    split
    · next t₁ u v hfind hres =>
      obtain rfl : t₁ = t := by simpa using List.find?_some hfind
      have h : EvolvesOn T (fun _ l => l = .close) s (s.closeTask t₁ u) :=
        (closeTask_evolves hw (List.mem_of_find?_eq_some hfind)
          (hdone t₁ (List.mem_cons_self ..))).mono fun _ _ hl => hl.2
      exact h.trans (ih (c.takeUnit t₁ u v) h.wf fun t' ht' =>
        taskResult_closeTask s t₁ t' u ▸ hts t' ht')
    · exact .of_view hw hw.toTables fun _ => rfl
    · exact ih c hw hts

theorem restartReady_evolves {s : Supervisor U} (hw : WFOn T s) :
    EvolvesOn T (fun _ l => l = .restart) s s.restartReady := by
  refine .foldl _ (fun s u hw => ?_) s.units hw
  split
  · next h =>
    refine .of_unit hw (startUnitNowait_tables hw.toTables u) (by simp)
      (fun w hne => startUnitNowait_view_ne s hne.symm) fun _ =>
        startUnitNowait_moves s u (.inr ?_)
    exact ⟨rfl, h.1, h.2.1, Bool.eq_false_iff.2 h.2.2⟩
  · exact .of_view hw hw.toTables fun _ => rfl

theorem stopAll_evolves {s : Supervisor U} (hw : WFOn T s) :
    EvolvesOn T (fun _ l => l = .stop) s s.stopAll :=
  .foldl _ (fun _ u hw => (stopUnitNowait_evolves hw u true).mono fun _ _ hl => hl.2) s.units hw

theorem EvolvesOn.enterWait {ok : U → Label → Prop} {s : Supervisor U} (hw : WFOn T s) {c : Call U}
    (hc : c.monitor.items = s.loop.items) : EvolvesOn T ok s (s.enterWait c) :=
  .loop hw (l := .waiting { c with waited := s.running.map (·.1) }) hc

/-- The state in which the item that the monitor task has taken is back at the head of the queue,
where `drainQueue` takes the commands from. -/
def putBack (s : Supervisor U) (c : Call U) (item : Command × U) : Supervisor U :=
  { s with loop := .waiting { c with monitor := .fresh }, queue := item :: s.queue }

theorem putBack_evolves {ok : U → Label → Prop} {s : Supervisor U} {c : Call U}
    {item : Command × U} (hw : WFOn T s) (hloop : s.loop = .waiting c)
    (hgot : c.monitor = .got item) :
    EvolvesOn T ok s (s.putBack c item) := by
  refine .of_view hw (hw.toTables.of_eq rfl rfl rfl rfl) fun u => ?_
  simp [putBack, view, inFlight, state, ref, hloop, Loop.items, hgot, Monitor.items]

theorem wakeCommands_got {s : Supervisor U} {c : Call U} {item : Command × U}
    (hgot : c.monitor = .got item) :
    s.wakeCommands c = drainQueue [.start, .stop] (item :: s.queue) (s.putBack c item) := by
  unfold wakeCommands handleCommandQueue drainQueue
  rw [hgot]
  rfl

theorem wakeCommands_not_got {s : Supervisor U} {c : Call U}
    (h : ∀ item, c.monitor ≠ .got item) : s.wakeCommands c = (s, none) := by
  unfold wakeCommands
  split
  · next item hgot => exact absurd hgot (h item)
  · rfl

theorem wakeCommands_evolves {s : Supervisor U} {c : Call U} (hw : WFOn T s)
    (hloop : s.loop = .waiting c) :
    EvolvesOn T (fun _ l => ∃ c, l = .handle c) s (s.wakeCommands c).1 ∧
      Handles { s with loop := .waiting c.renewMonitor } (s.wakeCommands c).1 := by
  by_cases hgot : ∃ item, c.monitor = .got item
  · obtain ⟨item, hgot⟩ := hgot
    have hrenew : c.renewMonitor = { c with monitor := .fresh } := by
      unfold Call.renewMonitor
      rw [if_pos (by rw [hgot]; rfl)]
    have hput : EvolvesOn T (fun _ l => ∃ c, l = .handle c) s (s.putBack c item) :=
      putBack_evolves hw hloop hgot
    have h := drainQueue_evolves (item :: s.queue) hput.wf rfl
    rw [wakeCommands_got hgot, hrenew]
    exact ⟨hput.trans h.1, h.2.units, h.2.loop, h.2.returns, h.2.result, h.2.owns, h.2.running,
      h.2.entries⟩
  · rw [not_exists] at hgot
    have hrenew : c.renewMonitor = c := by
      unfold Call.renewMonitor Monitor.isGot
      split
      · next item h => exact absurd h (hgot item)
      · rfl
    rw [wakeCommands_not_got hgot, hrenew, ← hloop]
    exact ⟨.of_view hw hw.toTables fun _ => rfl, .refl s⟩

theorem closeTask_loop (s : Supervisor U) (t : TaskId) (u : U) :
    (s.closeTask t u).loop = s.loop := by
  unfold closeTask
  dsimp only
  split <;> rfl

theorem takeUnits_frame (order : List TaskId) (s : Supervisor U) (c : Call U) :
    (takeUnits order s c).1.loop = s.loop ∧ (takeUnits order s c).1.queue = s.queue ∧
      (takeUnits order s c).2.1.monitor = c.monitor ∧
      (takeUnits order s c).2.1.returnWhen = c.returnWhen := by
  induction order generalizing s c with
  | nil => exact ⟨rfl, rfl, rfl, rfl⟩
  | cons t ts ih =>
    unfold takeUnits
    split
    · next u v _ _ =>
      obtain ⟨hloop, hqueue, hcall⟩ := ih (s.closeTask t u) (c.takeUnit t u v)
      exact ⟨hloop.trans (closeTask_loop s t u), hqueue.trans (closeTask_queue s t u), hcall⟩
    · exact ⟨rfl, rfl, rfl, rfl⟩
    · exact ih s c

theorem renewMonitor_items (c : Call U) : c.renewMonitor.monitor.items = [] := by
  unfold Call.renewMonitor
  split
  · rfl
  · next h =>
    unfold Monitor.items
    split
    · next item hgot => exact absurd (by rw [hgot]; rfl) h
    · rfl

/-- What a request changes is the queue and the `State` object of its unit. -/
structure Requests (s s' : Supervisor U) : Prop where
  tasks : s'.tasks = s.tasks
  nextTask : s'.nextTask = s.nextTask
  running : s'.running = s.running
  loop : s'.loop = s.loop
  returns : s'.returns = s.returns

theorem Requests.trans {s s' s'' : Supervisor U} (h : Requests s s') (h' : Requests s' s'') :
    Requests s s'' :=
  ⟨h'.tasks.trans h.tasks, h'.nextTask.trans h.nextTask, h'.running.trans h.running,
    h'.loop.trans h.loop, h'.returns.trans h.returns⟩

/-- The moves of one turn of the loop, in their order. -/
structure TurnOn (T : U → Prop) (s s' : Supervisor U) : Prop where
  wf : WFOn T s'
  moves : ∀ u, T u → ∃ v v', Moves (fun l => ∃ c, l = .handle c) (s.view u) v ∧
    Moves (· = .close) v v' ∧ Moves (· = .restart) v' (s'.view u)

theorem requestStart_requests (s : Supervisor U) (u : U) : Requests s (s.requestStart u) := by
  unfold requestStart
  split <;> exact ⟨rfl, rfl, rfl, rfl, rfl⟩

theorem startUnitNowait_requests (s : Supervisor U) (u : U) :
    Requests s (s.startUnitNowait u).1 := by
  have h := requestStart_requests s u
  unfold startUnitNowait
  split
  · exact ⟨rfl, rfl, rfl, rfl, rfl⟩
  · split
    · exact ⟨h.tasks, h.nextTask, h.running, h.loop, h.returns⟩
    · exact ⟨h.tasks, h.nextTask, h.running, h.loop, h.returns⟩
    all_goals exact ⟨rfl, rfl, rfl, rfl, rfl⟩

theorem requestStop_requests (s : Supervisor U) (u : U) (force : Bool) :
    Requests s (s.requestStop u force) := by
  unfold requestStop
  split <;> exact ⟨rfl, rfl, rfl, rfl, rfl⟩

theorem stopUnitNowait_requests (s : Supervisor U) (u : U) (force : Bool) :
    Requests s (s.stopUnitNowait u force).1 := by
  have h := requestStop_requests s u force
  unfold stopUnitNowait
  repeat' split
  any_goals exact h
  all_goals exact ⟨rfl, rfl, rfl, rfl, rfl⟩

theorem addUnit_requests (s : Supervisor U) (u : U) (restart stopped : Bool) :
    Requests s (s.addUnit u restart stopped).1 := by
  unfold addUnit
  split
  · exact ⟨rfl, rfl, rfl, rfl, rfl⟩
  · split
    · have h := startUnitNowait_requests (s.insertUnit u restart .ready) u
      exact ⟨h.tasks, h.nextTask, h.running, h.loop, h.returns⟩
    · exact ⟨rfl, rfl, rfl, rfl, rfl⟩

theorem removeUnitNowait_requests (s : Supervisor U) (u : U) :
    Requests s (s.removeUnitNowait u).1 := by
  unfold removeUnitNowait
  split <;> exact ⟨rfl, rfl, rfl, rfl, rfl⟩

theorem Requests.foldl (f : Supervisor U → U → Supervisor U) (hf : ∀ s u, Requests s (f s u))
    (l : List U) (s : Supervisor U) : Requests s (l.foldl f s) := by
  induction l generalizing s with
  | nil => exact ⟨rfl, rfl, rfl, rfl, rfl⟩
  | cons u l ih => exact (hf s u).trans (ih (f s u))

theorem restartReady_requests (s : Supervisor U) : Requests s s.restartReady := by
  refine .foldl _ (fun s u => ?_) s.units s
  split
  · exact startUnitNowait_requests s u
  · exact ⟨rfl, rfl, rfl, rfl, rfl⟩

theorem stopAll_requests (s : Supervisor U) : Requests s s.stopAll :=
  .foldl _ (fun s u => stopUnitNowait_requests s u true) s.units s

theorem wakeUp_turn {s : Supervisor U} {c : Call U} {order : List TaskId} (hw : WFOn T s)
    (hloop : s.loop = .waiting c) (hdone : ∀ t ∈ order, (s.taskResult t).isSome) :
    TurnOn T s (s.wakeUp c order) := by
  have h₁ := wakeCommands_evolves hw hloop
  unfold wakeUp
  split
  · next s₁ e hs₁ =>
    rw [hs₁] at h₁
    have hleave : EvolvesOn T (fun _ l => l = .restart) s₁
        { s₁ with loop := .leaving c (some e) } := by
      refine .loop h₁.1.wf ?_
      rw [h₁.2.loop]
      exact (renewMonitor_items c).symm
    exact ⟨hleave.wf, fun u hu => ⟨_, _, h₁.1.movesOn u hu, .refl _, hleave.movesOn u hu⟩⟩
  · next s₁ hs₁ =>
    rw [hs₁] at h₁
    have hdone₁ (t : TaskId) (ht : t ∈ order) : (s₁.taskResult t).isSome := by
      rw [h₁.2.result t]
      exact hdone t ht
    have h₂ := takeUnits_evolves order c.renewMonitor.takeEvents h₁.1.wf hdone₁
    have hframe := takeUnits_frame order s₁ c.renewMonitor.takeEvents
    have hitems : s₁.loop.items = [] := by
      rw [h₁.2.loop]
      exact renewMonitor_items c
    split
    · next s₂ c₂ e hs₂ =>
      rw [hs₂] at h₂ hframe
      have hleave : EvolvesOn T (fun _ l => l = .restart) s₂
          { s₂ with loop := .leaving c₂ (some e) } :=
        .loop h₂.wf (by rw [hframe.1, hitems]; rfl)
      exact ⟨hleave.wf, fun u hu => ⟨_, _, h₁.1.movesOn u hu, h₂.movesOn u hu, hleave.movesOn u hu⟩⟩
    · next s₂ c₂ hs₂ =>
      rw [hs₂] at h₂ hframe
      dsimp only
      split
      · have hleave : EvolvesOn T (fun _ l => l = .restart) s₂
            { s₂ with loop := .leaving (c₂.addPending s₂) none } :=
          .loop h₂.wf (by rw [hframe.1, hitems]; rfl)
        exact ⟨hleave.wf, fun u hu =>
          ⟨_, _, h₁.1.movesOn u hu, h₂.movesOn u hu, hleave.movesOn u hu⟩⟩
      · have h₃ := restartReady_evolves h₂.wf
        have hwait : EvolvesOn T (fun _ l => l = .restart) s₂.restartReady
            (s₂.restartReady.enterWait (c₂.addPending s₂)) := by
          refine .enterWait h₃.wf ?_
          rw [(restartReady_requests s₂).loop, hframe.1, hitems]
          exact (congrArg Monitor.items hframe.2.2.1).trans (renewMonitor_items c)
        exact ⟨hwait.wf, fun u hu =>
          ⟨_, _, h₁.1.movesOn u hu, h₂.movesOn u hu, (h₃.trans hwait).movesOn u hu⟩⟩

/-- **One turn of the supervise loop** handles commands, closes completed tasks and restarts units,
in this order. -/
theorem wake_turn {s s' : Supervisor U} {order : List TaskId} (hw : WFOn T s)
    (h : s.wake order = some s') : TurnOn T s s' := by
  unfold wake at h
  split at h
  · next c hloop =>
    split at h
    · next hwake =>
      cases h
      apply wakeUp_turn hw hloop
      intro t ht
      exact (List.mem_filter.1 (hwake.2.2.1.mem_iff.1 ht)).2
    · cases h
  · cases h

theorem TurnOn.evolves {s s' : Supervisor U} (h : TurnOn T s s') :
    EvolvesOn T (fun _ l => (∃ c, l = .handle c) ∨ l = .close ∨ l = .restart) s s' := by
  refine ⟨h.wf, ?_⟩
  intro u hu
  obtain ⟨v, v', h₁, h₂, h₃⟩ := h.moves u hu
  exact (h₁.mono fun l hl => .inl hl).trans
    ((h₂.mono fun l hl => .inr (.inl hl)).trans (h₃.mono fun l hl => .inr (.inr hl)))

/-! ### Every step -/

theorem superviseUntil_evolves {s : Supervisor U} (hw : WFOn T s) (hloop : s.loop = .idle)
    (events : List (EventRef U)) (rw : ReturnWhen) :
    EvolvesOn T (fun _ l => l = .restart) s (s.superviseUntil events rw) := by
  have h := restartReady_evolves hw
  refine h.trans (.enterWait h.wf ?_)
  rw [(restartReady_requests s).loop, hloop]
  rfl

theorem stop_evolves {s : Supervisor U} (hw : WFOn T s) (hloop : s.loop = .idle) :
    EvolvesOn T (fun _ l => l = .stop ∨ l = .restart) s s.stop := by
  have h : EvolvesOn T (fun _ l => l = .stop ∨ l = .restart) s s.stopAll :=
    (stopAll_evolves hw).mono fun _ _ hl => .inl hl
  unfold stop
  dsimp only
  split
  · have hloop' : s.stopAll.loop = .idle := (stopAll_requests s).loop.trans hloop
    exact h.trans ((superviseUntil_evolves h.wf hloop' _ _).mono fun _ _ hl => .inr hl)
  · exact h

/-- A segment of the task of a unit works on that unit, and is one move of it. -/
theorem resume_within {s s' : Supervisor U} {t : TaskId} {o : Outcome U} (hw : WFOn T s)
    (h : s.resume t o = some s') :
    ∃ k, s.tasks t = some k ∧ k.pc.isFinished = false ∧ s.runSegment t k o = some s' ∧
      Within k.unit t s s' ∧ (T k.unit → Fits (s.view k.unit) (.live t k) ∧
        ∃ l, (l = .segment ∨ l = .finish) ∧ Move l (s.view k.unit) (s'.view k.unit)) := by
  obtain ⟨k, hk, h⟩ := Option.bind_eq_some_iff.1 h
  have hlive : k.pc.isFinished = false := by
    cases hpc : k.pc with
    | finished res => simp [runSegment, hpc] at h
    | _ => rfl
  refine ⟨k, hk, hlive, h, runSegment_within hk hw.owned hw.entries h, ?_⟩
  intro hT
  have hfit := (hw.placedOn k.unit hT).live (view_tasks_eq_some.2 ⟨hk, rfl, hlive⟩)
  exact ⟨hfit, runSegment_move hk hfit h⟩

theorem resume_evolves {s s' : Supervisor U} {t : TaskId} {o : Outcome U} (hw : WFOn T s)
    (h : s.resume t o = some s') : EvolvesOn T (fun _ l => l = .segment ∨ l = .finish) s s' := by
  obtain ⟨k, -, -, -, hwithin, hmove⟩ := resume_within hw h
  refine .of_unit hw (hw.toTables.of_within hwithin) (by simp) hwithin.other fun hT => ?_
  obtain ⟨-, l, hl, hmove⟩ := hmove hT
  exact .single hl hmove

theorem setEvent_evolves {ok : U → Label → Prop} {s : Supervisor U} (hw : WFOn T s)
    (e : EventRef U) : EvolvesOn T ok s (s.setEvent e) :=
  .of_view hw (hw.toTables.of_eq rfl rfl rfl rfl) (view_setEvent s e)

theorem clearEvent_evolves {ok : U → Label → Prop} {s : Supervisor U} (hw : WFOn T s)
    (e : EventRef U) : EvolvesOn T ok s (s.clearEvent e) :=
  .of_view hw (hw.toTables.of_eq rfl rfl rfl rfl) (view_clearEvent s e)

theorem monitorStep_evolves {ok : U → Label → Prop} {s s' : Supervisor U} (hw : WFOn T s)
    (h : s.monitorStep = some s') : EvolvesOn T ok s s' := by
  unfold monitorStep at h
  split at h
  · next c hloop =>
    split at h
    · cases h
    · next hgot =>
      cases h
      refine .loop hw ?_
      rw [hloop]
      cases hc : c.monitor with
      | got item => exact absurd hc (hgot item)
      | _ => simp [Loop.items, Monitor.items, hc]
    · next item q hq hgot =>
      cases h
      refine .of_view hw (hw.toTables.of_eq rfl rfl rfl rfl) fun u => ?_
      have hitems : s.loop.items = [] := by
        rw [hloop]
        cases hc : c.monitor with
        | got item => exact absurd hc (hgot item)
        | _ => simp [Loop.items, Monitor.items, hc]
      have hflight : s.inFlight = item :: q := by simp [inFlight, hitems, hq]
      simp only [view, hflight]
      rfl
  · cases h

theorem helperStep_evolves {ok : U → Label → Prop} {s s' : Supervisor U} {e : EventRef U}
    (hw : WFOn T s) (h : s.helperStep e = some s') : EvolvesOn T ok s s' := by
  unfold helperStep at h
  split at h
  · next c hloop =>
    split at h
    · obtain ⟨h', -, rfl⟩ := Option.map_eq_some_iff.1 h
      exact .loop hw (by rw [hloop]; rfl)
    · cases h
  · cases h

theorem leave_evolves {ok : U → Label → Prop} {s s' : Supervisor U} (hw : WFOn T s)
    (h : s.leave = some s') : EvolvesOn T ok s s' := by
  unfold leave at h
  split at h
  · next c hloop =>
    cases h
    refine .of_view hw (hw.toTables.of_eq rfl rfl rfl rfl) fun u => ?_
    simp [view, inFlight, state, ref, hloop, Loop.items]
  · next hloop =>
    cases h
    exact .loop hw (by rw [hloop]; rfl)
  · cases h

/-- A call that is cancelled loses the command that its monitor task has taken. -/
theorem cancelCall_evolves {s s' : Supervisor U} (hw : WFOn T s) (h : s.cancelCall = some s') :
    EvolvesOn T (fun u l => ∃ c, l = .lose c ∧ (c, u) ∈ s.loop.items) s s' := by
  unfold cancelCall at h
  split at h
  · next c hloop =>
    cases h
    by_cases hgot : ∃ item, c.monitor = .got item
    · obtain ⟨⟨command, u⟩, hgot⟩ := hgot
      have hitems : s.loop.items = [(command, u)] := by
        rw [hloop, Loop.items, hgot]
        rfl
      have hput : EvolvesOn T (fun u l => ∃ c, l = .lose c ∧ (c, u) ∈ s.loop.items) s
          (s.putBack c (command, u)) := putBack_evolves hw hloop hgot
      apply hput.trans
      have hq : (s.putBack c (command, u)).queue = (command, u) :: s.queue := rfl
      have hview (w : U) : ({ s with loop := .leaving c (some .cancelled) } : Supervisor U).view w =
          ({ s.putBack c (command, u) with queue := s.queue } : Supervisor U).view w := rfl
      have htables : Tables ({ s with loop := .leaving c (some .cancelled) } : Supervisor U) :=
        hput.wf.toTables.of_eq rfl rfl rfl rfl
      refine .of_unit (u := u) hput.wf htables (by simp) (fun w hne => ?_) ?_
      · rw [hview, view_pop_ne hq hne.symm]
      · rw [hview]
        cases command with
        | start =>
          obtain ⟨n, hn, hpop⟩ := view_pop_start hq
          rw [hpop]
          exact fun _ => .single ⟨.start, rfl, by simp [hitems]⟩ (.loseStart hn)
        | stop =>
          obtain ⟨n, hn, hpop⟩ := view_pop_stop hq
          rw [hpop]
          exact fun _ => .single ⟨.stop, rfl, by simp [hitems]⟩ (.loseStop hn)
    · refine .loop hw ?_
      rw [hloop]
      cases hc : c.monitor with
      | got item => exact absurd ⟨item, hc⟩ hgot
      | _ => simp [Loop.items, hc, Monitor.items]
  · next c err hloop =>
    cases h
    exact .loop hw (by rw [hloop]; rfl)
  · cases h

/-- The labels that the moves of unit `u` have in a step. -/
def Action.labels (a : Action U) (u : U) (l : Label) : Prop :=
  match a with
  | .addUnit w _ _ => u = w ∧ (l = .add ∨ l = .start)
  | .removeUnit w => u = w ∧ l = .remove
  | .startUnit w => u = w ∧ l = .start
  | .stopUnit w _ => u = w ∧ l = .stop
  | .resume _ _ => l = .segment ∨ l = .finish
  | .wake _ => (∃ c, l = .handle c) ∨ l = .close ∨ l = .restart
  | .supervise _ _ => l = .restart
  | .cancel => ∃ c, l = .lose c
  | .stop => l = .stop ∨ l = .restart
  | .setEvent _ | .clearEvent _ | .monitorStep | .helperStep _ | .leave => False

/-- **Every step moves the units**, each along moves with the labels of the step, and keeps the
invariant, but for the removal of a unit whose task was lost. -/
theorem stepOn_evolves {s s' : Supervisor U} {a : Action U} (hw : WFOn T s)
    (hr : ∀ u, a = .removeUnit u → T u → Registered (s.view u)) (h : step s a = some s') :
    EvolvesOn T a.labels s s' := by
  cases a with
  | addUnit u restart stopped => cases h; exact addUnit_evolves hw u restart stopped
  | removeUnit u => cases h; exact removeUnitNowait_evolves hw u (hr u rfl)
  | startUnit u => cases h; exact startUnitNowait_evolves hw u
  | stopUnit u force => cases h; exact stopUnitNowait_evolves hw u force
  | setEvent n => cases h; exact setEvent_evolves hw _
  | clearEvent n => cases h; exact clearEvent_evolves hw _
  | resume t o => exact resume_evolves hw h
  | monitorStep => exact monitorStep_evolves hw h
  | helperStep e => exact helperStep_evolves hw h
  | supervise events rw =>
    simp only [step] at h
    split at h
    · next hloop => cases h; exact superviseUntil_evolves hw hloop events rw
    · cases h
  | wake order => exact (wake_turn hw h).evolves
  | leave => exact leave_evolves hw h
  | cancel => exact (cancelCall_evolves hw h).mono fun _ _ ⟨c, hl, _⟩ => ⟨c, hl⟩
  | stop =>
    simp only [step] at h
    split at h
    · next hloop => cases h; exact stop_evolves hw hloop
    · cases h

omit [DecidableEq U] in
theorem Action.labels_plain {a : Action U} {u : U} {l : Label} (hwake : ∀ order, a ≠ .wake order)
    (hremove : ∀ w, a ≠ .removeUnit w) (h : a.labels u l) :
    (∀ c, l ≠ .handle c) ∧ l ≠ .remove := by
  cases a <;> cases l <;> simp_all [Action.labels]

/-- **The step rule.** `P` is kept by a step if it is kept by the moves of the step's labels; the
moves for commands may use `Q`, which holds when the loop begins the turn in which it handles
them. -/
theorem stepOn_invariant {P Q : View U → Prop} {s s' : Supervisor U} {a : Action U} {u : U}
    (hw : WFOn T s) (hu : T u) (hr : ∀ u, a = .removeUnit u → T u → Registered (s.view u))
    (h : step s a = some s')
    (hQ : ∀ order, a = .wake order → Q (s.view u))
    (hhandle : ∀ c v v', Placed v → Q v → P v → Move (.handle c) v v' → Q v' ∧ P v')
    (hother : ∀ l v v', (∀ c, l ≠ .handle c) → a.labels u l → Placed v → P v → Move l v v' → P v')
    (hP : P (s.view u)) : P (s'.view u) := by
  -- moves other than commands, from any view in which `P` holds
  have hmoves (ok : Label → Prop) (v v' : View U) (hok : ∀ l, ok l → a.labels u l ∧
      (∀ c, l ≠ .handle c) ∧ l ≠ .remove) (hv : Placed v ∧ P v) (hm : Moves ok v v') :
      Placed v' ∧ P v' := by
    apply hm.invariant (P := fun v => Placed v ∧ P v) hv
    intro l w w' hl hw hm
    obtain ⟨hlab, hc, hrem⟩ := hok l hl
    exact ⟨hm.placed hw.1 fun h => absurd h hrem, hother l w w' hc hlab hw.1 hw.2 hm⟩
  by_cases hwake : ∃ order, a = .wake order
  · obtain ⟨order, rfl⟩ := hwake
    obtain ⟨v, v', h₁, h₂, h₃⟩ := (wake_turn hw h).moves u hu
    have hv : Placed v ∧ Q v ∧ P v := by
      refine h₁.invariant (P := fun v => Placed v ∧ Q v ∧ P v)
        ⟨hw.placedOn u hu, hQ order rfl, hP⟩ ?_
      rintro l w w' ⟨c, rfl⟩ ⟨hp, hq, hP⟩ hm
      exact ⟨hm.placed hp nofun, hhandle c w w' hp hq hP hm⟩
    have hv' := hmoves _ v v' (by rintro l rfl; simp [Action.labels]) ⟨hv.1, hv.2.2⟩ h₂
    exact (hmoves _ v' _ (by rintro l rfl; simp [Action.labels]) hv' h₃).2
  · by_cases hremove : ∃ w, a = .removeUnit w
    · obtain ⟨w, rfl⟩ := hremove
      have hm := (removeUnitNowait_evolves hw w (hr w rfl)).movesOn u hu
      cases h
      refine (hm.invariant (P := fun v => (u = w → Registered v) ∧ Placed v ∧ P v)
        ⟨fun he => he ▸ hr w rfl (he ▸ hu), hw.placedOn u hu, hP⟩ ?_).2.2
      rintro l v v' ⟨rfl, rfl⟩ ⟨hreg, hp, hP⟩ hm
      refine ⟨fun _ => ?_, hm.placed hp fun _ => hreg rfl,
        hother _ v v' (by simp) ⟨rfl, rfl⟩ hp hP hm⟩
      have hreg' := hreg rfl
      cases hm with
      | queueStart hl => simp at hl
      | remove => exact hreg'
    · rw [not_exists] at hwake hremove
      exact (hmoves _ _ _ (fun l hl => ⟨hl, Action.labels_plain hwake hremove hl⟩)
        ⟨hw.placedOn u hu, hP⟩ ((stepOn_evolves hw hr h).movesOn u hu)).2

theorem step_evolves {s s' : Supervisor U} {a : Action U} (hw : WF s)
    (hr : ∀ u, a = .removeUnit u → Registered (s.view u)) (h : step s a = some s') :
    Evolves a.labels s s' :=
  stepOn_evolves hw (fun u ha _ => hr u ha) h

theorem step_invariant {P Q : View U → Prop} {s s' : Supervisor U} {a : Action U} {u : U}
    (hw : WF s) (hr : ∀ u, a = .removeUnit u → Registered (s.view u)) (h : step s a = some s')
    (hQ : ∀ order, a = .wake order → Q (s.view u))
    (hhandle : ∀ c v v', Placed v → Q v → P v → Move (.handle c) v v' → Q v' ∧ P v')
    (hother : ∀ l v v', (∀ c, l ≠ .handle c) → a.labels u l → Placed v → P v → Move l v v' → P v')
    (hP : P (s.view u)) : P (s'.view u) :=
  stepOn_invariant hw trivial (fun u ha _ => hr u ha) h hQ hhandle hother hP

theorem init_wf : WFOn T (init U) where
  fresh _ _ := rfl
  entries _ _ h := by cases h
  keys := List.nodup_nil
  units := List.nodup_nil
  owned := ⟨nofun, nofun⟩
  placedOn _ _ := ⟨.idle, rfl, fun _ => rfl, rfl, fun h => by cases h⟩

/-- The invariant holds in every state reached by steps that lose no task of a removed unit. -/
theorem Reachable.wfOn_of {ok : Supervisor U → Action U → Prop} {s : Supervisor U}
    (h : Reachable ok s)
    (hr : ∀ s u, WFOn T s → ok s (.removeUnit u) → T u → Registered (s.view u)) : WFOn T s :=
  h.invariant init_wf fun s a s' hw hok hstep => by
    refine (stepOn_evolves hw ?_ hstep).wf
    rintro u rfl
    exact hr s u hw hok

theorem Reachable.wf_of {ok : Supervisor U → Action U → Prop} {s : Supervisor U}
    (h : Reachable ok s) (hr : ∀ s u, WF s → ok s (.removeUnit u) → Registered (s.view u)) : WF s :=
  Reachable.wfOn_of h fun s u hw hok _ => hr s u hw hok

theorem Reachable.wf {s : Supervisor U} (h : Reachable KeepsUnits s) : WF s :=
  Reachable.wf_of h fun s u _ hok => by cases hok

end Silkjam.Supervisor
