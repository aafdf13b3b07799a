import Silkjam.Supervisor.Snapshot

/-!
# Whose result `done_units` has

`asyncio.wait` returns the done tasks as a set, so a turn that finds two finished tasks of one unit
may overwrite the result of the later one by that of the earlier. A `Chronicle` is a supervisor with
the tasks that ended, in their order. While a call waits and none of its turns finds two finished
tasks of one unit, `done_units` has the last of those that were taken note of (`Call.Tells`), so a
call that ends returns the result of each unit's last task (`snapshot`). A call that raised in the
middle of a turn leaves two such tasks to the next one (`snapshot_overwritten`).
-/

namespace Silkjam.Supervisor

open Transition

variable {U : Type} [DecidableEq U]

/-- A supervisor with two histories: the unit tasks that ended, in their order, and the entries that
`_running_unit_tasks` had since the call began. -/
structure Chronicle (U : Type) [DecidableEq U] where
  supervisor : Supervisor U := {}
  ended : List TaskId := []
  registered : List (TaskId × U) := []

def Action.isWake : Action U → Bool
  | .wake _ => true
  | _ => false

/-- The sets of the call, where it ends without raising. -/
def Loop.returned : Loop U → Option (Call U)
  | .leaving c none => some c
  | _ => none

/-- No two finished tasks of one unit are registered. -/
def Apart (s : Supervisor U) : Prop :=
  ∀ e ∈ s.running, ∀ e' ∈ s.running, e.2 = e'.2 → (s.taskResult e.1).isSome →
    (s.taskResult e'.1).isSome → e = e'

instance (s : Supervisor U) : Decidable s.Apart :=
  inferInstanceAs (Decidable (∀ e ∈ s.running, ∀ e' ∈ s.running, _ → _ → _ → _))

/-- Of the tasks `ended` of `u` the first ones were taken note of, and `done_units` has the last of
these; the others are in `running`. -/
def Call.Tells (c : Call U) (running : List (TaskId × U)) (u : U) (ended : List TaskId) : Prop :=
  ∃ taken waiting, ended = taken ++ waiting ∧ (∀ t ∈ taken, (t, u) ∉ running) ∧
    (∀ t ∈ waiting, (t, u) ∈ running) ∧
    (∀ t v, (u, t, v) ∈ c.doneUnits → taken.getLast? = some t) ∧
    (u ∉ c.doneUnits.map (·.1) → taken = [])

/-- **A turn** in which no two of the finished tasks are of one unit takes note of all of them. -/
theorem Turned.tells {s s' : Supervisor U} {c c' : Call U} {order ended : List TaskId} {u : U}
    (hturn : Turned s s' c c' order) (h : c.Tells s.running u ended) (hapart : s.Apart)
    (hwaited : c.waited = s.running.map (·.1)) (hended : ∀ t ∈ ended, (s.taskResult t).isSome)
    (hin : ∀ t, (t, u) ∈ s.running → (s.taskResult t).isSome → t ∈ ended) :
    (∀ t ∈ ended, (t, u) ∉ s'.running) ∧
      (∀ t v, (u, t, v) ∈ c'.doneUnits → ended.getLast? = some t) ∧
      (u ∉ c'.doneUnits.map (·.1) → ended = []) := by
  obtain ⟨taken, waiting, rfl, htaken, hwaiting, hdone, hnone⟩ := h
  have horder (t : TaskId) (ht : t ∈ waiting) : t ∈ order := by
    refine (hturn.finished t).2 ⟨?_, hended t (List.mem_append_right _ ht)⟩
    rw [hwaited]
    exact List.mem_map_of_mem (hwaiting t ht)
  -- without a finished task of the unit the turn leaves its entry in `done_units` alone
  have hidle (hno : ∀ t ∈ order, (t, u) ∉ s.running) : waiting = [] :=
    List.eq_nil_iff_forall_not_mem.2 fun t ht => hno t (horder t ht) (hwaiting t ht)
  refine ⟨?_, ?_, ?_⟩
  · intro t ht hreg
    rcases hturn.running _ hreg with ⟨hreg, hno⟩ | hnew
    · rcases List.mem_append.1 ht with ht | ht
      · exact htaken t ht hreg
      · exact hno (horder t ht)
    · have hfin := hended t ht
      rw [hnew] at hfin
      cases hfin
  · intro t v hentry
    rcases hturn.done u t v hentry with ⟨ht, hreg⟩ | ⟨hold, hno⟩
    · have hfin := ((hturn.finished t).1 ht).2
      have hmem : t ∈ waiting :=
        (List.mem_append.1 (hin t hreg hfin)).resolve_left fun h => htaken t h hreg
      cases hlast : waiting.getLast? with
      | none => simp [List.getLast?_eq_none_iff.1 hlast] at hmem
      | some t' =>
        have ht' : t' ∈ waiting := List.mem_of_getLast? hlast
        have heq := hapart _ (hwaiting t' ht') _ hreg rfl (hended t' (List.mem_append_right _ ht'))
          hfin
        cases heq
        rw [List.getLast?_append, hlast]
        rfl
    · rw [hidle hno, List.append_nil]
      exact hdone t v hold
  · intro hno
    have hwait : waiting = [] := by
      refine List.eq_nil_iff_forall_not_mem.2 fun t ht => hno ?_
      exact hturn.taken t u (horder t ht) (hwaiting t ht)
    rw [hwait, List.append_nil]
    refine hnone fun hkey => hno ?_
    obtain ⟨⟨u', t, v⟩, hentry, rfl⟩ := List.mem_map.1 hkey
    refine List.mem_map_of_mem (hturn.kept u' t v hentry fun t' ht' hreg => ?_)
    exact hno (hturn.taken t' u' ht' hreg)

namespace Chronicle

/-- The task that ended with the step that led to `s`. -/
def ends (s : Supervisor U) : Action U → List TaskId
  | .resume t _ => if (s.taskResult t).isSome then [t] else []
  | _ => []

def step (w : Chronicle U) (a : Action U) : Option (Chronicle U) :=
  (w.supervisor.step a).map fun s =>
    { supervisor := s, ended := w.ended ++ ends s a, registered := w.registered ++ s.running }

/-- A call begins. -/
def superviseUntil (w : Chronicle U) (events : List (EventRef U)) (returnWhen : ReturnWhen) :
    Chronicle U :=
  { w with
    supervisor := w.supervisor.superviseUntil events returnWhen
    registered := w.supervisor.running }

/-- The tasks of `u` that ended, those that were removed before the call apart. -/
def endedOf (w : Chronicle U) (u : U) : List TaskId :=
  w.ended.filter fun t => (t, u) ∈ w.registered

/-- The steps of a call in which no turn finds two finished tasks of one unit. -/
def FindsApart (w : Chronicle U) (a : Action U) : Prop :=
  During w.supervisor a ∧ (a.isWake = true → w.supervisor.Apart)

instance (w : Chronicle U) (a : Action U) : Decidable (w.FindsApart a) :=
  inferInstanceAs (Decidable (_ ∧ (_ → _)))

section
variable {w w₀ w' : Chronicle U} {a : Action U} {u : U} {c c' : Call U}
  {events : List (EventRef U)} {returnWhen : ReturnWhen} {s : Supervisor U}

theorem run {ok : Chronicle U → Action U → Prop} (ok' : Supervisor U → Action U → Prop)
    (h : Reach step ok w₀ w) (himp : ∀ w a, ok w a → ok' w.supervisor a) :
    Reach Supervisor.step ok' w₀.supervisor w.supervisor := by
  induction h with
  | refl => exact .refl
  | tail a _ hok hstep ih =>
    obtain ⟨s, hs, rfl⟩ := Option.map_eq_some_iff.1 hstep
    exact .tail a ih (himp _ a hok) hs

theorem resume_unfinished {t : TaskId} {o : Outcome U} {s s' : Supervisor U}
    (hstep : Supervisor.step s (.resume t o) = some s') : s.taskResult t = none := by
  obtain ⟨k, hk, hseg⟩ := Option.bind_eq_some_iff.1 hstep
  unfold taskResult
  rw [hk, Option.bind_some]
  cases hpc : k.pc with
  | finished res => simp [runSegment, hpc] at hseg
  | _ => rfl

/-- `ended` has the finished tasks. -/
def Recorded (w : Chronicle U) : Prop :=
  ∀ t, t ∈ w.ended ↔ (w.supervisor.taskResult t).isSome

theorem step_recorded (hw : WFOn (fun _ => False) w.supervisor) (h : w.Recorded)
    (hstep : w.step a = some w') : w'.Recorded := by
  obtain ⟨s, hs, rfl⟩ := Option.map_eq_some_iff.1 hstep
  intro t'
  rw [List.mem_append, h t']
  by_cases hresume : ∃ t o, a = .resume t o
  · obtain ⟨t, o, rfl⟩ := hresume
    obtain ⟨k, hk, hseg⟩ := Option.bind_eq_some_iff.1 hs
    by_cases ht : t' = t
    · subst ht
      constructor
      · rintro (hold | hnew)
        · obtain ⟨res, hres⟩ := Option.isSome_iff_exists.1 hold
          exact Option.isSome_of_eq_some (step_result hw hs hres)
        · by_contra hno
          simp [ends, hno] at hnew
      · intro hfin
        simp [ends, hfin]
    · have hother : t' ∉ ends s (.resume t o) := by
        simp only [ends]
        split <;> simp [ht]
      rw [or_iff_left hother, (runSegment_alone hseg).taskResult ht]
  · have hother : ends s a = [] := by
      cases a with
      | resume t o => exact absurd ⟨t, o, rfl⟩ hresume
      | _ => rfl
    have hsame := (step_quiet hw (fun t o h => hresume ⟨t, o, h⟩) hs).taskResult t'
    rw [hother, hsame]
    simp

/-- The histories of the call `c` while it waits. -/
structure Told (w : Chronicle U) (c : Call U) : Prop where
  waited : c.waited = w.supervisor.running.map (·.1)
  registered : w.supervisor.running ⊆ w.registered
  entries : ∀ e ∈ w.registered, e ∈ w.supervisor.running ∨ e.1 ∈ w.ended
  tells : ∀ u, c.Tells w.supervisor.running u (w.endedOf u)

/-- A step that changes neither `_running_unit_tasks` nor `done_units`. -/
theorem Told.hears (hrec : w.Recorded) (h : w.Told c)
    (hs : Supervisor.step w.supervisor a = some s) (hsame : Call.SameBooks c c')
    (hrunning : s.running = w.supervisor.running) :
    Told { supervisor := s, ended := w.ended ++ ends s a, registered := w.registered ++ s.running }
      c' := by
  have hmem (e : TaskId × U) : e ∈ w.registered ++ s.running ↔ e ∈ w.registered := by
    rw [List.mem_append, hrunning]
    exact or_iff_left_of_imp fun he => h.registered he
  refine ⟨?_, ?_, ?_, ?_⟩
  · rw [hsame.waited, hrunning]
    exact h.waited
  · exact fun e he => List.mem_append_right _ he
  · intro e he
    rw [hrunning]
    exact (h.entries e ((hmem e).1 he)).imp_right fun he => List.mem_append_left _ he
  · intro u
    obtain ⟨taken, waiting, heq, htaken, hwaiting, hdone, hnone⟩ := h.tells u
    have hended : endedOf
        { supervisor := s, ended := w.ended ++ ends s a,
          registered := w.registered ++ s.running } u =
        taken ++ (waiting ++ (ends s a).filter fun t => (t, u) ∈ w.registered) := by
      unfold endedOf at heq ⊢
      simp only [hmem, List.filter_append, heq, List.append_assoc]
    refine ⟨taken, _, hended, ?_, ?_, ?_, ?_⟩
    · rw [hrunning]
      exact htaken
    · intro t ht
      rw [hrunning]
      rcases List.mem_append.1 ht with ht | ht
      · exact hwaiting t ht
      · -- the task that ended was registered, and unfinished before
        obtain ⟨hend, hreg⟩ := List.mem_filter.1 ht
        refine (h.entries _ (of_decide_eq_true hreg)).resolve_right fun hold => ?_
        cases a with
        | resume t' o =>
          simp only [ends] at hend
          split at hend
          · obtain rfl := List.mem_singleton.1 hend
            rw [hrec t, resume_unfinished hs] at hold
            cases hold
          · cases hend
        | _ => cases hend
    · rw [hsame.doneUnits]
      exact hdone
    · rw [hsame.doneUnits]
      exact hnone

theorem Told.turn {order : List TaskId} (hrec : w.Recorded) (h : w.Told c)
    (hturn : Turned w.supervisor s c c' order) (hapart : w.supervisor.Apart)
    (hw' : w' = { supervisor := s, ended := w.ended, registered := w.registered ++ s.running }) :
    (∀ e ∈ w'.registered, e ∈ s.running ∨ e.1 ∈ w'.ended) ∧
      ∀ u, (∀ t ∈ w'.endedOf u, (t, u) ∉ s.running) ∧
        (∀ t v, (u, t, v) ∈ c'.doneUnits → (w'.endedOf u).getLast? = some t) ∧
        (u ∉ c'.doneUnits.map (·.1) → w'.endedOf u = []) := by
  subst hw'
  refine ⟨?_, fun u => ?_⟩
  · intro e he
    refine (List.mem_append.1 he).elim (fun he => ?_) .inl
    rcases h.entries e he with hreg | hold
    · by_cases ht : e.1 ∈ order
      · exact .inr ((hrec e.1).2 ((hturn.finished e.1).1 ht).2)
      · exact .inl (hturn.left e hreg ht)
    · exact .inr hold
  · -- the turn registers no task that has ended
    have hended : endedOf
        { supervisor := s, ended := w.ended, registered := w.registered ++ s.running } u =
        w.endedOf u := by
      apply List.filter_congr
      intro t ht
      rw [decide_eq_decide, List.mem_append]
      refine or_iff_left_of_imp fun hreg => ?_
      rcases hturn.running _ hreg with ⟨hreg, -⟩ | hnew
      · exact h.registered hreg
      · have hfin := (hrec t).1 ht
        rw [hnew] at hfin
        cases hfin
    rw [hended]
    refine hturn.tells (h.tells u) hapart h.waited ?_ ?_
    · exact fun t ht => (hrec t).1 (List.mem_of_mem_filter ht)
    · intro t hreg hfin
      exact List.mem_filter.2 ⟨(hrec t).2 hfin, decide_eq_true (h.registered hreg)⟩

end

end Chronicle

section
variable {s s' : Supervisor U} {w w₀ w' : Chronicle U} {c : Call U} {order : List TaskId}
  {events : List (EventRef U)} {returnWhen : ReturnWhen} {a : Action U}

open Chronicle

/-- While the call waits, its books and its histories are in order. -/
def Chronicle.Kept (s₁ : Supervisor U) (events : List (EventRef U)) (returnWhen : ReturnWhen)
    (w : Chronicle U) : Prop :=
  WFOn (fun _ => False) w.supervisor ∧ w.Recorded ∧ Supervised s₁ events returnWhen w.supervisor ∧
    ∀ c, w.supervisor.loop = .waiting c → w.Told c

theorem Chronicle.step_kept {s₁ : Supervisor U}
    (hfrom : Reach Supervisor.step During s₁ w.supervisor) (h : w.Kept s₁ events returnWhen)
    (ha : w.FindsApart a) (hstep : w.step a = some w') : w'.Kept s₁ events returnWhen := by
  obtain ⟨hw, hrec, hsup, htold⟩ := h
  have hrec' := step_recorded hw hrec hstep
  obtain ⟨s', hs, rfl⟩ := Option.map_eq_some_iff.1 hstep
  refine ⟨(stepOn_evolves hw (fun _ _ hu => hu.elim) hs).wf, hrec',
    step_supervised hw hfrom hsup ha.1 hs, ?_⟩
  intro c' hloop'
  unfold Supervised at hsup
  split at hsup
  · next c hloop =>
    by_cases hwake : ∃ order, a = .wake order
    · obtain ⟨order, rfl⟩ := hwake
      rcases wake_booked hw hloop hsup.1 hsup.2 hs with ⟨c₂, e, hend⟩ | ⟨c₂, hend, -, -, hturn⟩
      · rw [hend] at hloop'
        cases hloop'
      · rcases hend with ⟨hend, -⟩ | ⟨hend, hwaited⟩
        · rw [hend] at hloop'
          cases hloop'
        · rw [hend] at hloop'
          cases hloop'
          obtain ⟨hentries, htells⟩ := (htold c hloop).turn hrec hturn (ha.2 rfl) rfl
          rw [show ends s' (.wake order) = [] from rfl, List.append_nil]
          refine ⟨hwaited, fun e he => List.mem_append_right _ he, hentries, fun u => ?_⟩
          obtain ⟨htaken, hdone, hnone⟩ := htells u
          exact ⟨_, [], (List.append_nil _).symm, htaken, by simp, hdone, hnone⟩
    · obtain ⟨c₂, hend, hhears, hrunning⟩ := step_hears hloop (fun order h => hwake ⟨order, h⟩) hs
      rcases hend with hend | ⟨-, hend⟩
      · rw [hend] at hloop'
        cases hloop'
        exact (htold c hloop).hears hrec hs hhears.toSameBooks hrunning
      · rw [hend] at hloop'
        cases hloop'
  · next hloop =>
    obtain ⟨err', hend, -⟩ := step_leaving hloop ha.1 hs
    rw [hend] at hloop'
    cases hloop'
  · exact hsup.elim

end

end Silkjam.Supervisor
