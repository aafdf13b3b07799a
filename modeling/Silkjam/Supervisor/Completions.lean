import Silkjam.Supervisor.Simulation

/-!
# Reporting completions

A unit task that finishes while the loop holds the lock keeps its entry in `_running_unit_tasks`,
and the next turn of the loop reports it. One that finishes without the lock, while a call leaves
its task group or between two calls, deletes its entry itself and is never reported
(`completion_lost`). In the runs in which every task finishes under the lock, each is reported once
(`completion_reported`): `Accounted` is the invariant, and `takeUnits_reports` says what one turn
reports.
-/

namespace Silkjam.Supervisor

open Transition

variable {U : Type} [DecidableEq U]

/-- `done_units` of the call in progress. -/
def Loop.doneUnits : Loop U → List (U × TaskId × Val U)
  | .waiting c | .leaving c _ => c.doneUnits
  | .idle => []

/-- What the calls report of task `t` in their `done_units`. -/
def reports (s : Supervisor U) (t : TaskId) : List (U × TaskId × Val U) :=
  (s.returns.flatMap (·.doneUnits) ++ s.loop.doneUnits).filter (·.2.1 = t)

/-- The segment of `t` ends the task: the unit's exit returns or raises. -/
def lastSegment (s : Supervisor U) (t : TaskId) (o : Outcome U) : Bool :=
  match s.tasks t, o with
  | some ⟨_, .exiting _, _⟩, .ok _ | some ⟨_, .exiting _, _⟩, .raise _ => true
  | _, _ => false

/-- The caller goes on calling `supervise_until` while no call raises; a unit that is removed has no
unfinished task; every unit task ends while the lock is held, and none while the call in progress
has an earlier task of its unit in `done_units`. -/
def FinishesLocked (s : Supervisor U) : Action U → Prop
  | .wake order => ∀ e ∈ s.running, e.1 ∈ order → e.2 ∉ s.loop.doneUnits.map (·.1)
  | .stop => False
  | .leave => s.loop.raised = false
  | .removeUnit u => ¬ s.HasLive u
  | .resume t o => s.lastSegment t o = true → s.locked = true
  | _ => True

instance (s : Supervisor U) : (a : Action U) → Decidable (FinishesLocked s a)
  | .wake order => inferInstanceAs
    (Decidable (∀ e ∈ s.running, e.1 ∈ order → e.2 ∉ s.loop.doneUnits.map (·.1)))
  | .stop => inferInstanceAs (Decidable (False))
  | .leave => inferInstanceAs (Decidable (s.loop.raised = false))
  | .removeUnit u => inferInstanceAs (Decidable (¬ s.HasLive u))
  | .resume t o => inferInstanceAs (Decidable (s.lastSegment t o = true → s.locked = true))
  | .addUnit .. | .startUnit _ | .stopUnit .. | .setEvent _ | .clearEvent _ | .monitorStep
  | .helperStep _ | .supervise .. | .cancel => inferInstanceAs (Decidable True)

/-! ### What one turn reports -/

/-- The entries of `_running_unit_tasks` for the tasks `order`, with their results. -/
structure DoneEntries (s : Supervisor U) (order : List TaskId) (l : List (U × TaskId × Val U)) :
    Prop where
  tasks : l.map (·.2.1) = order
  mem : ∀ e ∈ l, (e.2.1, e.1) ∈ s.running ∧ s.taskResult e.2.1 = some (.returned e.2.2)

theorem closeTask_running (s : Supervisor U) (t : TaskId) (u : U) :
    (s.closeTask t u).running = s.running.filter (·.1 ≠ t) ∧ (s.closeTask t u).tasks = s.tasks ∧
      (s.closeTask t u).returns = s.returns := by
  unfold closeTask
  dsimp only
  split <;> exact ⟨rfl, rfl, rfl⟩

/-- The tasks `order` are finished and registered, for different units of which the call has none in
`done_units`. -/
structure Reportable (s : Supervisor U) (c : Call U) (order : List TaskId) : Prop where
  keys : ∀ t u w, (t, u) ∈ s.running → (t, w) ∈ s.running → u = w
  nodup : order.Nodup
  finished : ∀ t ∈ order, ∃ u v, (t, u) ∈ s.running ∧ s.taskResult t = some (.returned v)
  units : ∀ t ∈ order, ∀ t' ∈ order, ∀ u, (t, u) ∈ s.running → (t', u) ∈ s.running → t = t'
  unreported : ∀ e ∈ c.doneUnits, ∀ t ∈ order, (t, e.1) ∉ s.running

section
variable {s : Supervisor U} {c : Call U} {t : TaskId} {ts : List TaskId} {u : U}

theorem mem_closeTask_running (e : TaskId × U) :
    e ∈ (s.closeTask t u).running ↔ e ∈ s.running ∧ e.1 ≠ t := by
  rw [(closeTask_running s t u).1, List.mem_filter, decide_eq_true_eq]

theorem find_entry (hkeys : ∀ t u w, (t, u) ∈ s.running → (t, w) ∈ s.running → u = w)
    (hentry : (t, u) ∈ s.running) : s.running.find? (fun e => e.1 = t) = some (t, u) := by
  cases hf : s.running.find? (fun e => e.1 = t) with
  | none => exact absurd (List.find?_eq_none.1 hf _ hentry) (by simp)
  | some e =>
    obtain ⟨t', w⟩ := e
    obtain rfl : t' = t := by simpa using List.find?_some hf
    rw [hkeys t' w u (List.mem_of_find?_eq_some hf) hentry]

theorem Reportable.find (h : Reportable s c (t :: ts)) (hentry : (t, u) ∈ s.running) :
    s.running.find? (fun e => e.1 = t) = some (t, u) :=
  find_entry h.keys hentry

/-- No entry of the unit is reported yet, so none is overwritten. -/
theorem Reportable.doneUnits_takeUnit (h : Reportable s c (t :: ts)) (hentry : (t, u) ∈ s.running)
    (v : Val U) :
    (c.takeUnit t u v).doneUnits = c.doneUnits ++ [(u, t, v)] := by
  simp only [Call.takeUnit, List.append_cancel_right_eq, List.filter_eq_self, decide_eq_true_eq]
  rintro e he rfl
  exact h.unreported e he t (by simp) hentry

theorem Reportable.tail (h : Reportable s c (t :: ts)) (hentry : (t, u) ∈ s.running) (v : Val U) :
    Reportable (s.closeTask t u) (c.takeUnit t u v) ts where
  keys t' a b ha hb :=
    h.keys t' a b ((mem_closeTask_running _).1 ha).1 ((mem_closeTask_running _).1 hb).1
  nodup := (List.nodup_cons.1 h.nodup).2
  finished t' ht' := by
    obtain ⟨u', v', hentry', hres⟩ := h.finished t' (by simp [ht'])
    refine ⟨u', v', (mem_closeTask_running _).2 ⟨hentry', ?_⟩,
      (taskResult_closeTask s t t' u).trans hres⟩
    rintro rfl
    exact (List.nodup_cons.1 h.nodup).1 ht'
  units t₁ ht₁ t₂ ht₂ w h₁ h₂ :=
    h.units t₁ (by simp [ht₁]) t₂ (by simp [ht₂]) w ((mem_closeTask_running _).1 h₁).1
      ((mem_closeTask_running _).1 h₂).1
  unreported e he t' ht' hcontra := by
    obtain ⟨hmem, hne⟩ := (mem_closeTask_running _).1 hcontra
    rw [h.doneUnits_takeUnit hentry, List.mem_append, List.mem_singleton] at he
    rcases he with he | rfl
    · exact h.unreported e he t' (by simp [ht']) hmem
    · exact hne (h.units t' (by simp [ht']) t (by simp) u hmem hentry)

end

theorem takeUnits_reports (order : List TaskId) {s : Supervisor U} {c : Call U}
    (h : Reportable s c order) :
    ∃ l, DoneEntries s order l ∧ (takeUnits order s c).2.2 = none ∧
      (takeUnits order s c).2.1.doneUnits = c.doneUnits ++ l ∧
      (takeUnits order s c).1.running = s.running.filter (·.1 ∉ order) ∧
      (takeUnits order s c).1.tasks = s.tasks ∧ (takeUnits order s c).1.returns = s.returns := by
  induction order generalizing s c with
  | nil => exact ⟨[], ⟨rfl, by simp⟩, rfl, by simp [takeUnits], by simp [takeUnits], rfl, rfl⟩
  | cons t ts ih =>
    obtain ⟨u, v, hentry, hres⟩ := h.finished t (by simp)
    have hstep : takeUnits (t :: ts) s c = takeUnits ts (s.closeTask t u) (c.takeUnit t u v) := by
      rw [takeUnits, h.find hentry, hres]
    obtain ⟨hclosed, hclosed_tasks, hclosed_returns⟩ := closeTask_running s t u
    obtain ⟨l, hl, herr, hdone, hrunning, htasks, hreturns⟩ := ih (h.tail hentry v)
    rw [hstep]
    refine ⟨(u, t, v) :: l, ⟨by simp [hl.tasks], ?_⟩, herr, ?_, ?_,
      htasks.trans hclosed_tasks, hreturns.trans hclosed_returns⟩
    · intro e he
      rcases List.mem_cons.1 he with rfl | he
      · exact ⟨hentry, hres⟩
      · obtain ⟨hmem, hres'⟩ := hl.mem e he
        exact ⟨((mem_closeTask_running _).1 hmem).1,
          (taskResult_closeTask s t e.2.1 u).symm.trans hres'⟩
    · rw [hdone, h.doneUnits_takeUnit hentry]
      simp
    · rw [hrunning, hclosed, List.filter_filter]
      apply List.filter_congr
      intro e _
      simp [Bool.and_comm]

/-! ### The invariant -/

/-- The loop, up to what its event tasks and its command task do. -/
def Loop.books : Loop U → Loop U
  | .waiting c => .waiting { c with helpers := [], monitor := .fresh }
  | l => l

/-- A wait is for every registered task, all of different units; where none is in progress, every
registered task is unfinished. -/
def Books (s : Supervisor U) : Prop :=
  match s.loop with
  | .waiting c => c.waited = s.running.map (·.1) ∧ (s.running.map (·.2)).Nodup
  | .leaving _ (some _) => True
  | _ => ∀ e ∈ s.running, s.taskResult e.1 = none

/-- Each finished task returned its result, and is either registered still or reported once, where
`rep` is what is reported of each task. -/
structure Counts (s : Supervisor U) (rep : TaskId → List (U × TaskId × Val U)) : Prop where
  finished : ∀ t res, s.taskResult t = some res → ∃ u v, res = .returned v ∧ s.Owns t u ∧
    ((t, u) ∈ s.running ∧ rep t = [] ∨ (∀ w, (t, w) ∉ s.running) ∧ rep t = [(u, t, v)])
  unfinished : ∀ t, s.taskResult t = none → rep t = []

structure Accounted (s : Supervisor U) : Prop where
  counts : Counts s s.reports
  books : Books s

section
variable {s s' : Supervisor U}

theorem Loop.doneUnits_books (l : Loop U) : l.books.doneUnits = l.doneUnits := by
  cases l <;> rfl

theorem reports_append {l : List (U × TaskId × Val U)} (hreturns : s'.returns = s.returns)
    (hloop : s'.loop.doneUnits = s.loop.doneUnits ++ l) (t : TaskId) :
    s'.reports t = s.reports t ++ l.filter (·.2.1 = t) := by
  unfold reports
  rw [hreturns, hloop, ← List.append_assoc, List.filter_append]

theorem reports_of_doneUnits (hdone : s'.loop.doneUnits = s.loop.doneUnits)
    (hreturns : s'.returns = s.returns) : s'.reports = s.reports := by
  funext t
  unfold reports
  rw [hreturns, hdone]

theorem reports_congr (hloop : s'.loop.books = s.loop.books) (hreturns : s'.returns = s.returns) :
    s'.reports = s.reports := by
  refine reports_of_doneUnits ?_ hreturns
  rw [← Loop.doneUnits_books, hloop, Loop.doneUnits_books]

theorem Books.congr (h : Books s) (hloop : s'.loop.books = s.loop.books)
    (hrunning : s'.running = s.running)
    (hresult : s.locked = false → ∀ t, s'.taskResult t = s.taskResult t) : Books s' := by
  unfold Books at h ⊢
  cases hl : s.loop with
  | waiting c =>
    rw [hl] at h hloop
    cases hl' : s'.loop with
    | waiting c' =>
      rw [hl'] at hloop
      simp only [Loop.books, Loop.waiting.injEq, Call.mk.injEq] at hloop
      obtain ⟨-, -, -, -, -, -, -, hwaited⟩ := hloop
      exact ⟨by rw [hwaited, hrunning]; exact h.1, by rw [hrunning]; exact h.2⟩
    | _ => rw [hl'] at hloop; cases hloop
  | idle =>
    rw [hl] at h hloop
    cases hl' : s'.loop with
    | idle =>
      intro e he
      rw [hresult (by simp [locked, hl])]
      exact h e (hrunning ▸ he)
    | _ => rw [hl'] at hloop; cases hloop
  | leaving c err =>
    rw [hl] at h hloop
    cases hl' : s'.loop with
    | leaving c' err' =>
      rw [hl'] at hloop
      cases hloop
      cases err with
      | some e => exact trivial
      | none =>
        intro e he
        rw [hresult (by simp [locked, hl])]
        exact h e (hrunning ▸ he)
    | _ => rw [hl'] at hloop; cases hloop

theorem Counts.congr {rep : TaskId → List (U × TaskId × Val U)} (h : Counts s rep)
    (hrunning : s'.running = s.running) (hresult : ∀ t, s'.taskResult t = s.taskResult t)
    (howns : ∀ t u, s.Owns t u → s'.Owns t u) : Counts s' rep := by
  refine ⟨?_, fun t ht => h.unfinished t (hresult t ▸ ht)⟩
  intro t res hres
  obtain ⟨u, v, hv, ho, hcase⟩ := h.finished t res (hresult t ▸ hres)
  exact ⟨u, v, hv, howns t u ho, by rw [hrunning]; exact hcase⟩

theorem Accounted.congr (h : Accounted s) (hloop : s'.loop.books = s.loop.books)
    (hreturns : s'.returns = s.returns) (hrunning : s'.running = s.running)
    (hresult : ∀ t, s'.taskResult t = s.taskResult t)
    (howns : ∀ t u, s.Owns t u → s'.Owns t u) : Accounted s' := by
  refine ⟨?_, h.books.congr hloop hrunning fun _ => hresult⟩
  rw [reports_congr hloop hreturns]
  exact h.counts.congr hrunning hresult howns

theorem running_units_nodup (hw : WF s) (h : ∀ e ∈ s.running, s.taskResult e.1 = none) :
    (s.running.map (·.2)).Nodup := by
  refine List.Nodup.map_on (fun e he e' he' hu => ?_) (List.Nodup.of_map _ hw.keys)
  have hlive (e : TaskId × U) (he : e ∈ s.running) : (s.view e.2).tasks e.1 ≠ none := by
    obtain ⟨k, hk, hku⟩ := Option.map_eq_some_iff.1 (hw.entries e.1 e.2 he)
    refine (s.live_iff e.1 e.2).1 ⟨k, hk, hku, ?_⟩
    by_contra hfin
    have hsome := taskResult_isSome.2 ⟨k, hk, by simpa using hfin⟩
    rw [h e he] at hsome
    cases hsome
  have ht := (hw.placed e.2).live_unique (hlive e he) (hu ▸ hlive e' he')
  exact Prod.ext ht hu

end

/-! ### Segments -/

omit [DecidableEq U] in
theorem Move.segment_live {v v' : View U} (hm : Move .segment v v') (t : TaskId)
    (ht : v.tasks t ≠ none) : v'.tasks t ≠ none := by
  cases hm with
  | queueStart hl => simp at hl
  | beginForced t' | begin t' | enteredStopped t' | entered t' | toExit t' | suspend t' =>
    by_cases he : t = t'
    · subst he; simp
    · simpa [Function.update_of_ne he] using ht

omit [DecidableEq U] in
theorem Move.finish_exiting {v v' : View U} (hm : Move .finish v v') :
    ∃ t k, v.tasks t = some k ∧ k.pc = .exiting v.ref := by
  cases hm with
  | queueStart hl => simp at hl
  | finish t k val drop hk hpc => exact ⟨t, k, hk, hpc⟩

section
variable {s s' : Supervisor U} {t : TaskId} {k : UnitTask U} {o : Outcome U} {r : StateRef U}
  {u : U}

theorem locked_of_core (h : s'.loop.core = s.loop.core) : s'.locked = s.locked := by
  unfold locked
  cases hl : s.loop <;> cases hl' : s'.loop <;> simp_all [Loop.core]

theorem stopUnit_running (h : s.stopUnit u = .ok s') : s'.running = s.running := by
  unfold stopUnit at h
  split at h
  · cases h
  · split at h
    · cases h
    · cases h; rfl

theorem phaseFailed_running (s : Supervisor U) (t : TaskId) (r : StateRef U) (e : Exc U) :
    (s.phaseFailed t r e).running = s.running :=
  rfl

theorem setEntering_running (s : Supervisor U) (r : StateRef U) :
    (s.setEntering r).running = s.running :=
  rfl

theorem beginUnit_running : (s.beginUnit t u).running = s.running := by
  unfold beginUnit
  split
  · rfl
  · have hentering := setEntering_running s (s.ref u)
    dsimp only
    generalize s.setEntering (s.ref u) = s₁ at hentering
    rw [← hentering]
    split
    · split
      · exact phaseFailed_running s₁ t _ _
      · next hstop =>
        have hrunning := stopUnit_running hstop
        exact hrunning
    · rfl

theorem unitEntered_running : (s.unitEntered t r).running = s.running := by
  unfold unitEntered
  dsimp only
  split
  · split
    · exact phaseFailed_running _ t r _
    · next hstop =>
      have hrunning := stopUnit_running hstop
      exact hrunning
  · rfl

theorem setExited_running (s : Supervisor U) (r : StateRef U) :
    (s.setExited r).running = s.running :=
  rfl

theorem cleanup_locked (h : s.locked = true) :
    s.cleanup t r = (s.setExited r).cleanupDone t r := by
  unfold cleanup
  have hlocked : (s.setExited r).locked = true :=
    (locked_of_core (setEvent_core s _)).trans h
  exact if_pos hlocked

theorem cleanup_running (h : s.locked = true) : (s.cleanup t r).running = s.running := by
  rw [cleanup_locked h, ← setExited_running s r]
  rfl

theorem cleanupDone_result (hk : s.tasks t = some k) :
    ∃ v, (s.cleanupDone t r).taskResult t = some (.returned v) := by
  refine ⟨(s.heap r).result, ?_⟩
  simp only [cleanupDone, finish, setPc, taskResult, modifyTask, clearEvent, modify,
    Function.update_self, hk, Option.map_some, Option.bind_some, Pc.result]

/-- A segment leaves `_running_unit_tasks` alone, the last one without the lock apart. -/
theorem runSegment_running (hk : s.tasks t = some k) (h : s.runSegment t k o = some s')
    (hlast : s.lastSegment t o = true → s.locked = true) : s'.running = s.running := by
  unfold lastSegment at hlast
  rw [hk] at hlast
  obtain ⟨w, pc, c⟩ := k
  unfold runSegment at h
  dsimp only at h
  split at h
  · split at h
    · cases h; rfl
    · cases h; exact beginUnit_running
  · split at h
    · cases h; exact phaseFailed_running _ t _ _
    · cases h; rfl
  · cases h; exact unitEntered_running
  · cases h; exact phaseFailed_running _ t _ _
  · split at h
    · cases h; exact phaseFailed_running _ t _ _
    · cases h; rfl
  · cases h; rfl
  · cases h; exact phaseFailed_running _ t _ _
  · cases h; exact cleanup_running (hlast rfl)
  · cases h; exact cleanup_running (hlast rfl)
  · cases h; rfl
  · cases h; rfl
  · cases h; rfl
  · cases h

theorem runSegment_last (hk : s.tasks t = some k) (h : s.runSegment t k o = some s')
    (hlast : s.lastSegment t o = true) (hlocked : s.locked = true) :
    ∃ v, s'.taskResult t = some (.returned v) := by
  unfold lastSegment at hlast
  rw [hk] at hlast
  obtain ⟨w, pc, c⟩ := k
  have hk' : (s.clearCancel t).tasks t = some { unit := w, pc := pc, cancel := false } :=
    tasks_clearCancel hk
  split at hlast
  · next heq =>
    cases heq
    cases h
    rw [cleanup_locked]
    · exact cleanupDone_result (k := { unit := w, pc := _, cancel := false }) hk'
    · exact hlocked
  · next heq =>
    cases heq
    cases h
    rw [cleanup_locked]
    · exact cleanupDone_result (k := { unit := w, pc := _, cancel := false }) hk'
    · exact hlocked
  · cases hlast

theorem Fits.taskResult (hk : s.tasks t = some k) (hfit : Fits (s.view k.unit) (.live t k)) :
    s.taskResult t = none := by
  have hpc := hfit.pc_ref
  unfold Supervisor.taskResult
  rw [hk]
  cases hp : k.pc <;> simp_all [Pc.result]

theorem runSegment_unfinished (hk : s.tasks t = some k) (h : s.runSegment t k o = some s')
    (hfit : Fits (s.view k.unit) (.live t k)) (hlast : s.lastSegment t o = false) :
    s'.taskResult t = none := by
  have hnone := hfit.taskResult hk
  by_cases hexit : ∃ r, k.pc = .exiting r
  · -- the unit swallowed a cancellation of its exit
    obtain ⟨r, hexit⟩ := hexit
    unfold lastSegment at hlast
    rw [hk] at hlast
    unfold runSegment at h
    obtain ⟨w, pc, c⟩ := k
    cases hexit
    cases o with
    | ok v => cases hlast
    | raise e => cases hlast
    | suspend =>
      cases h
      have hkept : (s.clearCancel t).taskResult t = s.taskResult t :=
        taskResult_modifyTask (f := fun k => { k with cancel := false }) fun _ => rfl
      exact hkept.trans hnone
  · obtain ⟨l, hl, hmove⟩ := runSegment_move hk hfit h
    have hlive : (s.view k.unit).tasks t ≠ none := by simp [hfit.live_tasks t]
    rcases hl with rfl | rfl
    · obtain ⟨k', hk'⟩ := Option.ne_none_iff_exists'.1 (hmove.segment_live t hlive)
      obtain ⟨htasks, -, hfin⟩ := view_tasks_eq_some.1 hk'
      apply Option.not_isSome_iff_eq_none.1
      intro hsome
      obtain ⟨k'', hk'', hfin'⟩ := taskResult_isSome.1 hsome
      rw [htasks] at hk''
      cases hk''
      rw [hfin] at hfin'
      cases hfin'
    · obtain ⟨t', k', hk', hpc⟩ := hmove.finish_exiting
      rw [hfit.live_tasks t'] at hk'
      split at hk'
      · cases hk'
        exact absurd ⟨_, hpc⟩ hexit
      · cases hk'

end

/-! ### Every step -/

theorem Loop.books_of_core {l l' : Loop U} (h : l'.core = l.core) : l'.books = l.books := by
  cases l <;> cases l' <;> simp_all [Loop.core, Loop.books]

section
variable {s s' : Supervisor U}

theorem Accounted.resume {t : TaskId} {o : Outcome U} (hw : WF s) (h : Accounted s)
    (hok : s.lastSegment t o = true → s.locked = true) (hstep : s.resume t o = some s') :
    Accounted s' := by
  obtain ⟨k, hk, -, hseg, hwithin, hmove⟩ := resume_within hw hstep
  obtain ⟨hfit, -⟩ := hmove trivial
  have hrunning := runSegment_running hk hseg hok
  have hbooks := Loop.books_of_core hwithin.loop
  have hbefore := hfit.taskResult hk
  by_cases hlast : s.lastSegment t o = true
  · obtain ⟨v, hv⟩ := runSegment_last hk hseg hlast (hok hlast)
    have hentry : (t, k.unit) ∈ s.running := hfit.entry
    refine ⟨?_, h.books.congr hbooks hrunning ?_⟩
    · rw [reports_congr hbooks hwithin.returns]
      refine ⟨?_, ?_⟩
      · intro t' res hres
        by_cases he : t' = t
        · subst he
          rw [hv] at hres
          cases hres
          exact ⟨k.unit, v, rfl, hwithin.owns (by simp [Owns, hk]),
            .inl ⟨hrunning ▸ hentry, h.counts.unfinished t' hbefore⟩⟩
        · rw [hwithin.result t' he] at hres
          obtain ⟨u, v', hv', ho, hcase⟩ := h.counts.finished t' res hres
          exact ⟨u, v', hv', hwithin.owns ho, by rw [hrunning]; exact hcase⟩
      · intro t' ht'
        have he : t' ≠ t := by
          rintro rfl
          rw [hv] at ht'
          cases ht'
        exact h.counts.unfinished t' (hwithin.result t' he ▸ ht')
    · intro hno
      rw [hok hlast] at hno
      cases hno
  · refine h.congr hbooks hwithin.returns hrunning (fun t' => ?_) fun t' u ho => hwithin.owns ho
    by_cases he : t' = t
    · subst he
      rw [hbefore]
      exact runSegment_unfinished hk hseg hfit (Bool.eq_false_iff.2 hlast)
    · exact hwithin.result t' he

theorem Accounted.requests (h : Accounted s) (hr : Requests s s') : Accounted s' := by
  refine h.congr (by rw [hr.loop]) hr.returns hr.running (fun t => ?_) fun t u ho => ?_
  · unfold taskResult; rw [hr.tasks]
  · unfold Owns; rw [hr.tasks]; exact ho

/-- The loop begins to wait, with every registered task unfinished. -/
theorem Counts.enterWait {c : Call U} {rep : TaskId → List (U × TaskId × Val U)} (hw : WF s)
    (h : Counts s rep) (hfree : ∀ e ∈ s.running, s.taskResult e.1 = none)
    (hrep : (s.enterWait c).reports = rep) : Accounted (s.enterWait c) := by
  refine ⟨?_, rfl, running_units_nodup (s := s) hw hfree⟩
  rw [hrep]
  exact h.congr rfl (fun _ => rfl) fun _ _ ho => ho

theorem Counts.leaving {c : Call U} {err : Option (Exc U)}
    {rep : TaskId → List (U × TaskId × Val U)} (h : Counts s rep)
    (hfree : err = none → ∀ e ∈ s.running, s.taskResult e.1 = none)
    (hrep : ({ s with loop := .leaving c err } : Supervisor U).reports = rep) :
    Accounted { s with loop := .leaving c err } := by
  refine ⟨?_, ?_⟩
  · rw [hrep]
    exact h.congr rfl (fun _ => rfl) fun _ _ ho => ho
  · cases err with
    | none => exact hfree rfl
    | some e => exact trivial

/-! ### One turn of the loop -/

/-- The commands register tasks that they create, which are not finished. -/
theorem Handles.mem_running {l : Loop U} {t : TaskId} {w : U} (hh : Handles { s with loop := l } s')
    (hsome : (s.taskResult t).isSome) (hmem : (t, w) ∈ s'.running) : (t, w) ∈ s.running := by
  apply (hh.entries _ hmem).resolve_right
  intro hnone
  obtain ⟨k, hk, -⟩ := taskResult_isSome.1 hsome
  rw [show s.tasks t = none from hnone] at hk
  cases hk

theorem Counts.handles {rep : TaskId → List (U × TaskId × Val U)} {l : Loop U} (h : Counts s rep)
    (hh : Handles { s with loop := l } s') : Counts s' rep := by
  refine ⟨?_, fun t ht => h.unfinished t ((hh.result t).symm.trans ht)⟩
  intro t res hres
  have hres' : s.taskResult t = some res := (hh.result t).symm.trans hres
  obtain ⟨u, v, hv, ho, hcase⟩ := h.finished t res hres'
  refine ⟨u, v, hv, hh.owns t u ho,
    hcase.imp (fun ⟨hmem, hrep⟩ => ⟨hh.running.subset hmem, hrep⟩) ?_⟩
  rintro ⟨hno, hrep⟩
  exact ⟨fun w hmem => hno w (hh.mem_running (by rw [hres']; rfl) hmem), hrep⟩

/-- The tasks that a turn finds done are those registered and finished after its commands. -/
theorem mem_order_iff {c : Call U} {l : Loop U} {order : List TaskId}
    (hwaited : c.waited = s.running.map (·.1)) (horder : order.Perm (s.doneTasks c))
    (hh : Handles { s with loop := l } s') (t : TaskId) :
    t ∈ order ↔ (∃ w, (t, w) ∈ s'.running) ∧ (s'.taskResult t).isSome := by
  have hresult : s'.taskResult t = s.taskResult t := hh.result t
  rw [horder.mem_iff, doneTasks, List.mem_filter, hwaited, hresult, List.mem_map]
  constructor
  · rintro ⟨⟨⟨t', w⟩, hmem, rfl⟩, hsome⟩
    exact ⟨⟨w, hh.running.subset hmem⟩, hsome⟩
  · rintro ⟨⟨w, hmem⟩, hsome⟩
    exact ⟨⟨(t, w), hh.mem_running hsome hmem, rfl⟩, hsome⟩

theorem Accounted.reportable {c c' : Call U} {order : List TaskId} (hw : WF s) (hw' : WF s')
    (h : Accounted s) (hloop : s.loop = .waiting c) (horder : order.Perm (s.doneTasks c))
    {l : Loop U} (hh : Handles { s with loop := l } s') (hc' : c'.doneUnits = c.doneUnits)
    (hnew : ∀ e ∈ s.running, e.1 ∈ order → e.2 ∉ c.doneUnits.map (·.1)) :
    Reportable s' c' order := by
  have hbooks := h.books
  unfold Books at hbooks
  rw [hloop] at hbooks
  obtain ⟨hwaited, hunits⟩ := hbooks
  have hmem_order := mem_order_iff hwaited horder hh
  have hold (t : TaskId) (w : U) (ht : t ∈ order) (hmem : (t, w) ∈ s'.running) :
      (t, w) ∈ s.running :=
    hh.mem_running (hh.result t ▸ ((hmem_order t).1 ht).2) hmem
  refine ⟨fun t u w => hw'.entry_unique, ?_, fun t ht => ?_, fun t ht t' ht' u hmem hmem' => ?_,
    fun e he t ht hmem => ?_⟩
  · refine horder.nodup_iff.2 (List.Nodup.filter _ ?_)
    rw [hwaited]
    exact hw.keys
  · obtain ⟨⟨w, hmem⟩, hsome⟩ := (hmem_order t).1 ht
    obtain ⟨res, hres⟩ := Option.isSome_iff_exists.1 hsome
    obtain ⟨u, v, rfl, -, hcase⟩ := (h.counts.handles hh).finished t res hres
    rcases hcase with ⟨hreg, -⟩ | ⟨hno, -⟩
    · exact ⟨u, v, hreg, hres⟩
    · exact absurd hmem (hno w)
  · exact congrArg Prod.fst
      (List.inj_on_of_nodup_map hunits (hold t u ht hmem) (hold t' u ht' hmem') rfl)
  · rw [hc'] at he
    exact hnew _ (hold t e.1 ht hmem) ht (List.mem_map_of_mem he)

theorem filter_of_nodup_map {α β : Type} [DecidableEq β] (f : α → β) {l : List α}
    (h : (l.map f).Nodup) {e : α} (he : e ∈ l) : l.filter (fun x => f x = f e) = [e] := by
  induction l with
  | nil => cases he
  | cons a l ih =>
    rw [List.map_cons, List.nodup_cons] at h
    rcases List.mem_cons.1 he with rfl | he
    · have hnil : l.filter (fun x => f x = f e) = [] := by
        rw [List.filter_eq_nil_iff]
        intro x hx heq
        exact h.1 (List.mem_map.2 ⟨x, hx, by simpa using heq⟩)
      simp [hnil]
    · have hne : f a ≠ f e := fun heq => h.1 (heq ▸ List.mem_map_of_mem he)
      rw [List.filter_cons_of_neg (by simpa using hne), ih h.2 he]

/-- Once the entries `l` of the finished tasks are taken, every finished task is reported. -/
theorem Counts.taken {rep : TaskId → List (U × TaskId × Val U)} {order : List TaskId}
    {l : List (U × TaskId × Val U)} (hw : WF s) (h : Counts s rep) (hl : DoneEntries s order l)
    (hnodup : order.Nodup)
    (horder : ∀ t, t ∈ order ↔ (∃ w, (t, w) ∈ s.running) ∧ (s.taskResult t).isSome)
    (hrunning : s'.running = s.running.filter (·.1 ∉ order)) (htasks : s'.tasks = s.tasks) :
    Counts s' (fun t => rep t ++ l.filter (·.2.1 = t)) ∧
      ∀ e ∈ s'.running, s'.taskResult e.1 = none := by
  have hresult (t : TaskId) : s'.taskResult t = s.taskResult t := by unfold taskResult; rw [htasks]
  have hmem (e : TaskId × U) : e ∈ s'.running ↔ e ∈ s.running ∧ e.1 ∉ order := by
    rw [hrunning, List.mem_filter, decide_eq_true_eq]
  have hlist (t : TaskId) (ht : t ∉ order) : l.filter (·.2.1 = t) = [] := by
    rw [List.filter_eq_nil_iff]
    intro e he heq
    apply ht
    rw [← hl.tasks]
    exact List.mem_map.2 ⟨e, he, by simpa using heq⟩
  refine ⟨⟨?_, ?_⟩, ?_⟩
  · intro t res hres
    rw [hresult] at hres
    obtain ⟨u, v, rfl, ho, hcase⟩ := h.finished t res hres
    refine ⟨u, v, rfl, by unfold Owns; rw [htasks]; exact ho, .inr ?_⟩
    rcases hcase with ⟨hreg, hrep⟩ | ⟨hno, hrep⟩
    · -- the task is reported now
      have hin : t ∈ order := (horder t).2 ⟨⟨u, hreg⟩, by rw [hres]; rfl⟩
      refine ⟨fun w hw' => ((hmem _).1 hw').2 hin, ?_⟩
      rw [← hl.tasks] at hin
      obtain ⟨⟨u', t', v'⟩, hmem', rfl⟩ := List.mem_map.1 hin
      obtain ⟨hreg', hres'⟩ := hl.mem _ hmem'
      dsimp only at hreg' hres' hreg hres hrep ⊢
      rw [hres] at hres'
      cases hres'
      rw [hrep, List.nil_append, hw.entry_unique hreg hreg']
      exact filter_of_nodup_map (fun e : U × TaskId × Val U => e.2.1) (hl.tasks ▸ hnodup) hmem'
    · -- it was reported before
      refine ⟨fun w hw' => hno w ((hmem _).1 hw').1, ?_⟩
      rw [hrep, hlist t fun hin => ?_, List.append_nil]
      obtain ⟨⟨w, hreg⟩, -⟩ := (horder t).1 hin
      exact hno w hreg
  · intro t ht
    rw [hresult] at ht
    rw [h.unfinished t ht, hlist t fun hin => ?_]
    · rfl
    · rw [horder, ht] at hin
      cases hin.2
  · intro e he
    obtain ⟨hreg, hno⟩ := (hmem e).1 he
    rw [hresult]
    refine Option.not_isSome_iff_eq_none.1 fun hsome => hno ?_
    exact (horder e.1).2 ⟨⟨e.2, hreg⟩, hsome⟩

theorem Accounted.wakeUp {c : Call U} {order : List TaskId} (hw : WF s) (h : Accounted s)
    (hloop : s.loop = .waiting c) (horder : order.Perm (s.doneTasks c))
    (hnew : ∀ e ∈ s.running, e.1 ∈ order → e.2 ∉ c.doneUnits.map (·.1)) :
    Accounted (s.wakeUp c order) := by
  have hwaited : c.waited = s.running.map (·.1) := by
    have hbooks := h.books
    unfold Books at hbooks
    rw [hloop] at hbooks
    exact hbooks.1
  have h₁ := wakeCommands_evolves hw hloop
  unfold Supervisor.wakeUp
  generalize s.wakeCommands c = r at h₁
  obtain ⟨s₁, err⟩ := r
  obtain ⟨he₁, hh₁⟩ := h₁
  dsimp only at he₁ hh₁
  have hcounts₁ : Counts s₁ s.reports := h.counts.handles hh₁
  have hreturns₁ : s₁.returns = s.returns := hh₁.returns
  split
  · -- a command raised
    next s₂ e heq =>
    cases heq
    refine hcounts₁.leaving nofun (reports_of_doneUnits ?_ hreturns₁)
    rw [hloop]
    rfl
  · next s₂ heq =>
    cases heq
    have hcall : c.renewMonitor.takeEvents.doneUnits = c.doneUnits := by
      unfold Call.renewMonitor
      split <;> rfl
    have hready := h.reportable hw he₁.wf hloop horder hh₁ hcall hnew
    have hmem_order := mem_order_iff hwaited horder hh₁
    obtain ⟨l, hl, herr, hdoneUnits, hrunning, htasks, hreturns⟩ := takeUnits_reports order hready
    have hw₂ := (takeUnits_evolves order c.renewMonitor.takeEvents he₁.wf fun t ht =>
      ((hmem_order t).1 ht).2).wf
    have htaken := hcounts₁.taken he₁.wf hl hready.nodup hmem_order hrunning htasks
    generalize takeUnits order s₁ c.renewMonitor.takeEvents = r at *
    obtain ⟨s₂, c₂, err⟩ := r
    dsimp only at *
    subst herr
    obtain ⟨hcounts₂, hfree⟩ := htaken
    -- both ways on, the call has the units of this turn
    have hrep (s' : Supervisor U) (hret : s'.returns = s₂.returns)
        (hdone' : s'.loop.doneUnits = c₂.doneUnits) :
        s'.reports = fun t => s.reports t ++ l.filter (·.2.1 = t) := by
      funext t
      refine reports_append (hret.trans (hreturns.trans hreturns₁)) ?_ t
      rw [hdone', hdoneUnits, hcall, hloop]
      rfl
    split
    · next heq => cases heq
    next heq =>
    cases heq
    split
    · exact hcounts₂.leaving (fun _ => hfree) (hrep _ rfl rfl)
    · have hreq := restartReady_requests s₂
      have hresult₃ (t : TaskId) : s₂.restartReady.taskResult t = s₂.taskResult t := by
        unfold taskResult
        rw [hreq.tasks]
      refine Counts.enterWait (restartReady_evolves hw₂).wf
        (hcounts₂.congr hreq.running hresult₃ fun t u ho => ?_) (fun e he => ?_)
        (hrep _ hreq.returns rfl)
      · unfold Owns; rw [hreq.tasks]; exact ho
      · rw [hresult₃]
        exact hfree e (hreq.running ▸ he)

/-! ### The call begins and ends -/

theorem Accounted.raise {c : Call U} {e : Exc U} (h : Accounted s)
    (hdone : c.doneUnits = s.loop.doneUnits) : Accounted { s with loop := .leaving c (some e) } :=
  h.counts.leaving nofun (reports_of_doneUnits hdone rfl)

theorem Accounted.cancelCall (h : Accounted s) (hstep : s.cancelCall = some s') :
    Accounted s' := by
  unfold Supervisor.cancelCall at hstep
  split at hstep
  · next c hloop => cases hstep; exact h.raise (by rw [hloop]; rfl)
  · next c err hloop => cases hstep; exact h.raise (by rw [hloop]; rfl)
  · cases hstep

theorem Accounted.supervise {events : List (EventRef U)} {returnWhen : ReturnWhen} (hw : WF s)
    (h : Accounted s) (hstep : step s (.supervise events returnWhen) = some s') :
    Accounted s' := by
  simp only [Supervisor.step] at hstep
  split at hstep
  · next hloop =>
    cases hstep
    have hreq := restartReady_requests s
    have hidle : s.restartReady.loop = .idle := hreq.loop.trans hloop
    have hacc := h.requests hreq
    have hbooks := hacc.books
    unfold Books at hbooks
    rw [hidle] at hbooks
    refine hacc.counts.enterWait (restartReady_evolves hw).wf hbooks (reports_of_doneUnits ?_ rfl)
    rw [hidle]
    rfl
  · cases hstep

theorem Accounted.leave (h : Accounted s) (hraised : s.loop.raised = false)
    (hstep : s.leave = some s') : Accounted s' := by
  unfold Supervisor.leave at hstep
  have hbooks := h.books
  unfold Books at hbooks
  split at hstep
  · next c hloop =>
    cases hstep
    rw [hloop] at hbooks
    have hrep : ({ s with loop := .idle, returns := s.returns ++ [c] } :
        Supervisor U).reports = s.reports := by
      funext t
      simp [reports, hloop, Loop.doneUnits]
    refine ⟨?_, hbooks⟩
    rw [hrep]
    exact h.counts.congr rfl (fun _ => rfl) fun _ _ ho => ho
  · next c e hloop =>
    rw [hloop] at hraised
    cases hraised
  · cases hstep

end

theorem Accounted.step {s s' : Supervisor U} {a : Action U} (hw : WF s) (h : Accounted s)
    (hok : FinishesLocked s a) (hstep : step s a = some s') : Accounted s' := by
  have hsame (s' : Supervisor U) (hloop : s'.loop.books = s.loop.books)
      (hreturns : s'.returns = s.returns) (hrunning : s'.running = s.running)
      (htasks : s'.tasks = s.tasks) : Accounted s' := by
    refine h.congr hloop hreturns hrunning (fun t => ?_) fun t u ho => ?_
    · unfold taskResult; rw [htasks]
    · unfold Owns; rw [htasks]; exact ho
  cases a with
  | addUnit u restart stopped => cases hstep; exact h.requests (addUnit_requests s u _ _)
  | removeUnit u => cases hstep; exact h.requests (removeUnitNowait_requests s u)
  | startUnit u => cases hstep; exact h.requests (startUnitNowait_requests s u)
  | stopUnit u force => cases hstep; exact h.requests (stopUnitNowait_requests s u force)
  | setEvent n =>
    cases hstep
    exact hsame _ (Loop.books_of_core (setEvent_core s _)) rfl rfl rfl
  | clearEvent n => cases hstep; exact hsame _ rfl rfl rfl rfl
  | resume t o => exact h.resume hw hok hstep
  | monitorStep =>
    simp only [Supervisor.step, monitorStep] at hstep
    split at hstep
    · next c hloop =>
      split at hstep
      · cases hstep
      · cases hstep; exact hsame _ (by rw [hloop]; rfl) rfl rfl rfl
      · cases hstep; exact hsame _ (by rw [hloop]; rfl) rfl rfl rfl
    · cases hstep
  | helperStep e =>
    simp only [Supervisor.step, helperStep] at hstep
    split at hstep
    · next c hloop =>
      split at hstep
      · obtain ⟨h', -, rfl⟩ := Option.map_eq_some_iff.1 hstep
        exact hsame _ (by rw [hloop]; rfl) rfl rfl rfl
      · cases hstep
    · cases hstep
  | supervise events returnWhen => exact h.supervise hw hstep
  | wake order =>
    simp only [Supervisor.step, wake] at hstep
    split at hstep
    · next c hloop =>
      split at hstep
      · next hwake =>
        cases hstep
        apply h.wakeUp hw hloop hwake.2.2.1
        intro e he ht
        have hnew := hok e he ht
        rw [hloop] at hnew
        exact hnew
      · cases hstep
    · cases hstep
  | leave => exact h.leave hok hstep
  | cancel => exact h.cancelCall hstep
  | stop => exact hok.elim

/-- **No completion is lost** in the runs in which every unit task ends under the lock: a finished
task returned a result and is either registered still, for the next turn of the loop to report, or
was reported once, in the `done_units` of one call and with its result; and when a call returns,
every finished task has been reported. -/
theorem completion_reported {s : Supervisor U} (h : Reachable FinishesLocked s) {t : TaskId} {u : U}
    {k : UnitTask U} {res : TaskResult U} (hk : s.tasks t = some k) (hu : k.unit = u)
    (hfin : k.pc = .finished res) :
    ∃ v, res = .returned v ∧
      ((t, u) ∈ s.running ∧ s.reports t = [] ∨
        (∀ w, (t, w) ∉ s.running) ∧ s.reports t = [(u, t, v)]) ∧
      (s.locked = false → s.loop.raised = false → s.reports t = [(u, t, v)]) := by
  have hremove (s : Supervisor U) (u : U) (hw : WF s) (hok : FinishesLocked s (.removeUnit u)) :
      Registered (s.view u) :=
    fun t ht => absurd (hw.hasLive ((s.live_iff t u).2 ht)) hok
  have hacc : Accounted s := by
    refine h.invariant_of (P := Accounted) (fun s hs => Reachable.wf_of hs hremove)
      ⟨⟨fun t res hres => ?_, fun _ _ => rfl⟩, fun e he => ?_⟩ ?_
    · cases hres
    · cases he
    exact fun s a s' hw hacc hok hstep => hacc.step hw hok hstep
  have hres : s.taskResult t = some res := by simp [taskResult, hk, hfin, Pc.result]
  obtain ⟨u', v, rfl, ho, hcase⟩ := hacc.counts.finished t res hres
  obtain rfl : k.unit = u' := by simpa [Owns, hk] using ho
  subst hu
  refine ⟨v, rfl, hcase, ?_⟩
  intro hlocked hraised
  rcases hcase with ⟨hmem, -⟩ | ⟨-, hrep⟩
  · -- outside the wait, every registered task is unfinished
    have hbooks := hacc.books
    unfold Books at hbooks
    have hnone : s.taskResult t = none := by
      split at hbooks
      · next c hloop => simp [locked, hloop] at hlocked
      · next c e hloop => simp [Loop.raised, hloop] at hraised
      · exact hbooks _ hmem
    rw [hres] at hnone
    cases hnone
  · exact hrep

theorem completion_reported_once :
    ∃ s : Supervisor Nat, Reachable FinishesLocked s ∧ s.returns.length = 1 ∧
      s.reports 0 = [(0, 0, .none)] := by
  -- the task ends while the call that was made before the unit was added still waits
  obtain ⟨s, hs, ⟨htask, hlocked, hraised, hreturns⟩⟩ :=
    Reach.exists_of_runIn step FinishesLocked (init Nat)
    [.supervise [] .firstEventOrUnit, .addUnit 0 false false, .monitorStep, .wake [],
      .resume 0 .suspend, .resume 0 (.ok .none), .resume 0 (.ok .none), .resume 0 (.ok .none),
      .monitorStep, .wake [0], .leave]
    (p := fun s => s.tasks 0 = some ⟨0, .finished (.returned .none), false⟩ ∧ s.locked = false ∧
      s.loop.raised = false ∧ s.returns.length = 1) (by decide +kernel)
  obtain ⟨v, hv, -, hreports⟩ := completion_reported hs htask rfl rfl
  cases hv
  exact ⟨s, hs, hreturns, hreports hlocked hraised⟩

/-- The event returns the call. The unit's task ends while the call leaves its task group, deletes
its own entry, and is reported by no call. -/
theorem completion_lost :
    ∃ s : Supervisor Nat, Reachable KeepsUnits s ∧
      s.tasks 0 = some ⟨0, .finished (.returned .none), false⟩ ∧ s.loop.isIdle = true ∧
      s.running = [] ∧ s.reports 0 = [] :=
  Reach.exists_of_runIn _ _ _
    [.addUnit 0 false false, .supervise [.other 0] .firstEventOrUnit, .monitorStep,
      .helperStep (.other 0), .wake [], .resume 0 .suspend, .resume 0 (.ok .none),
      .resume 0 (.ok .none), .setEvent 0, .monitorStep, .helperStep (.other 0), .wake [],
      .resume 0 (.ok .none), .leave]
    (by decide +kernel)

end Silkjam.Supervisor
