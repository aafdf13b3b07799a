import Silkjam.Proxy.Sessions

/-!
# The tasks that track sessions

Whatever else a proxy does, a task that tracks a session goes on for the same session, and when it
is over it stays so. The table of sessions has at most the sessions of tasks that track them
(`Only`), also where identifiers are not distinct and it lacks some.
-/

namespace Silkjam.Proxy

open Transition

namespace MCProxy

variable {s s' : MCProxy} {a : Action} {t : Nat} {task : SessionTask} {profile : UserProfile}

/-- A step of a proxy that makes no task: a task may come to another phase, unless it is over. -/
structure Progress (s s' : MCProxy) : Prop where
  nextTask : s'.nextTask = s.nextTask
  tasks : ∀ t, s'.sessionTasks t = s.sessionTasks t ∨ ∃ task phase, s.sessionTasks t = some task ∧
    task.phase ≠ .finished ∧ s'.sessionTasks t = some { task with phase := phase }

theorem progress_update {phase : Phase} (htask : s.sessionTasks t = some task)
    (hphase : task.phase ≠ .finished) (hnext : s'.nextTask = s.nextTask)
    (htasks : s'.sessionTasks =
      Function.update s.sessionTasks t (some { task with phase := phase })) : Progress s s' := by
  refine ⟨hnext, fun w => ?_⟩
  by_cases hw : w = t
  · subst hw
    refine .inr ⟨task, phase, htask, hphase, ?_⟩
    rw [htasks, Function.update_self]
  · refine .inl ?_
    rw [htasks, Function.update_of_ne hw]

theorem SameSessions.progress (h : SameSessions s s') : Progress s s' :=
  ⟨h.nextTask, fun t => .inl (congrFun h.sessionTasks t)⟩

theorem removeSession_sessions (profile : UserProfile) (h : s.sessionTasks t = some task) :
    (s.removeSession t task profile).sessionTasks =
        Function.update s.sessionTasks t (some { task with phase := .finished }) ∧
      (s.removeSession t task profile).nextTask = s.nextTask ∧
      ∀ p sid session, (s.removeSession t task profile).lookup p sid = some session →
        s.lookup p sid = some session ∧ ¬ (p = profile.id ∧ sid = task.sessionId) := by
  have htasks := setPhase_tasks h .finished
  have hlookup (sessions : Option (Dict Nat PlayerSession))
      (hget : s.playerSessions.get? profile.id = sessions)
      (hnone : ∀ d, sessions = some d → task.sessionId ∉ d.keys) (p : Uuid) (sid : Nat)
      (session : PlayerSession) (hfound : s.lookup p sid = some session) :
      ¬ (p = profile.id ∧ sid = task.sessionId) := by
    rintro ⟨rfl, rfl⟩
    obtain ⟨d, hd, hsid⟩ := Option.bind_eq_some_iff.1 hfound
    exact hnone d (hget.symm.trans hd) (Dict.mem_keys.2 (by rw [hsid]; rfl))
  cases hget : s.playerSessions.get? profile.id with
  | none =>
    have heq : s.removeSession t task profile = s.setPhase t .finished := by
      unfold removeSession
      dsimp only
      rw [show (s.setPhase t .finished).playerSessions.get? profile.id = none from hget]
    rw [heq]
    exact ⟨htasks, rfl, fun p sid session hfound =>
      ⟨hfound, hlookup none hget nofun p sid session hfound⟩⟩
  | some sessions =>
    by_cases hmem : task.sessionId ∈ sessions.keys
    · have hsame := removeSession_same t task hget hmem
      refine ⟨hsame.sessionTasks.trans htasks, hsame.nextTask, fun p sid session hfound => ?_⟩
      unfold lookup at hfound
      rw [hsame.playerSessions] at hfound
      have hwithout := hfound
      dsimp only at hwithout
      rw [lookup_without hget] at hwithout
      split at hwithout
      · cases hwithout
      · next hne => exact ⟨hwithout, hne⟩
    · have heq : s.removeSession t task profile = s.setPhase t .finished := by
        unfold removeSession
        dsimp only
        rw [show (s.setPhase t .finished).playerSessions.get? profile.id = some sessions from hget]
        dsimp only
        rw [if_pos hmem]
      rw [heq]
      refine ⟨htasks, rfl, fun p sid session hfound => ⟨hfound, ?_⟩⟩
      refine hlookup (some sessions) hget ?_ p sid session hfound
      rintro d ⟨⟩
      exact hmem

theorem step_progress (ha : ∀ sessionId loginStart backend clientIp,
      a ≠ .startSession sessionId loginStart backend clientIp) (hstep : s.step a = some s') :
    Progress s s' := by
  by_cases hsession : a.onSession = true
  · cases a with
    | startSession => exact absurd rfl (ha _ _ _ _)
    | beginSession t =>
      obtain ⟨task, htask, hphase, rfl⟩ := resume_eq hstep
      have hcreated := isCreated_iff.1 hphase
      have hne : task.phase ≠ .finished := by
        rw [hcreated]
        nofun
      unfold beginSession
      split
      · exact progress_update htask hne rfl (setPhase_tasks htask _)
      · exact progress_update htask hne rfl (setPhase_tasks htask _)
    | resolveSession t profile =>
      obtain ⟨task, htask, hphase, rfl⟩ := resume_eq hstep
      have hresolving := isResolving_iff.1 hphase
      have hne : task.phase ≠ .finished := by
        rw [hresolving]
        nofun
      unfold resolveSession
      split
      · exact progress_update htask hne rfl (setPhase_tasks htask _)
      · exact progress_update htask hne rfl (setPhase_tasks htask _)
    | cancelSession t =>
      obtain ⟨task, htask, hphase, rfl⟩ := resume_eq hstep
      have hne : task.phase ≠ .finished := by
        intro h
        rw [h] at hphase
        cases hphase
      unfold cancelSession
      split
      · exact progress_update htask hne rfl (setPhase_tasks htask _)
      · exact progress_update htask hne rfl (setPhase_tasks htask _)
      · next profile _ =>
        obtain ⟨htasks, hnext, -⟩ := removeSession_sessions profile htask
        exact progress_update htask hne hnext htasks
      · next h => exact absurd h hne
    | _ => cases hsession
  · exact (step_sameSessions (Bool.eq_false_iff.2 hsession) hstep).progress

/-- The tasks go on, and those that were over are. -/
def Extends (s s' : MCProxy) : Prop :=
  ∀ t task, s.sessionTasks t = some task → ∃ task', s'.sessionTasks t = some task' ∧
    task'.backend = task.backend ∧ task'.clientIp = task.clientIp ∧
      (task.phase = .finished → task'.phase = .finished)

theorem Extends.refl (s : MCProxy) : s.Extends s := fun _ task htask =>
  ⟨task, htask, rfl, rfl, id⟩

theorem Progress.extends (h : Progress s s') : s.Extends s' := by
  intro t task htask
  obtain heq | ⟨task', phase, htask', hne, heq⟩ := h.tasks t
  · exact ⟨task, heq.trans htask, rfl, rfl, id⟩
  · obtain rfl := Option.some.inj (htask.symm.trans htask')
    exact ⟨_, heq, rfl, rfl, fun hfinished => absurd hfinished hne⟩

theorem extends_startSession (hmade : s.TasksMade) : s.Extends (s.startSession task) := by
  intro t task' htask'
  have ht : t ≠ s.nextTask := by
    rintro rfl
    exact absurd ((hmade _ (Nat.le_refl _)).symm.trans htask') nofun
  refine ⟨task', ?_, rfl, rfl, id⟩
  show Function.update s.sessionTasks s.nextTask _ t = some task'
  rw [Function.update_of_ne ht]
  exact htask'

/-- The task is over. -/
def Finished (s : MCProxy) (t : Nat) : Prop :=
  ∀ task, s.sessionTasks t = some task → task.phase = .finished

theorem finished_cancelSession : ((s.step (.cancelSession t)).getD s).Finished t := by
  cases hstep : s.step (.cancelSession t) with
  | none =>
    intro task htask
    rw [Option.getD_none] at htask
    have hresume : s.resume t Phase.isUnfinished (s.cancelSession t) = none := hstep
    unfold resume at hresume
    rw [htask, Option.map_eq_none_iff, Option.filter_eq_none_iff] at hresume
    have hphase := hresume task rfl
    cases hcase : task.phase with
    | finished => rfl
    | created | resolving | tracking =>
      rw [hcase] at hphase
      exact absurd rfl hphase
  | some s' =>
    rw [Option.getD_some]
    obtain ⟨task, htask, hphase, rfl⟩ := resume_eq hstep
    intro task' htask'
    have hupdate : (s.cancelSession t task).sessionTasks =
        Function.update s.sessionTasks t (some { task with phase := .finished }) := by
      unfold cancelSession
      split
      · exact setPhase_tasks htask _
      · exact setPhase_tasks htask _
      · exact (removeSession_sessions _ htask).1
      · next h =>
        rw [h] at hphase
        cases hphase
    rw [hupdate, Function.update_self] at htask'
    cases htask'
    rfl

/-- Every session in the table is the one of a task that tracks it. -/
def Only (s : MCProxy) : Prop :=
  ∀ p sid session, s.lookup p sid = some session →
    ∃ t task profile, s.Tracks t task profile ∧ profile.id = p ∧ task.sessionId = sid

/-- A session in the table was there before, or is the one that is tracked now. -/
theorem lookup_of_trackSession {p : Uuid} {sid : Nat} {session : PlayerSession}
    (h : (s.trackSession t task profile).lookup p sid = some session) :
    p = profile.id ∧ sid = task.sessionId ∨ s.lookup p sid = some session := by
  unfold lookup trackSession setPhase at h
  dsimp only at h
  rw [Dict.get?_set] at h
  split at h
  · next hp =>
    subst hp
    rw [Option.bind_some] at h
    have hold (hget : ((s.playerSessions.get? profile.id).getD {}).get? sid = some session) :
        s.lookup profile.id sid = some session := by
      unfold lookup
      cases hd : s.playerSessions.get? profile.id with
      | none =>
        rw [hd] at hget
        cases hget
      | some d =>
        rw [hd] at hget
        exact hget
    split at h
    · exact .inr (hold h)
    · rw [Dict.get?_set] at h
      split at h
      · next hsid => exact .inl ⟨rfl, hsid⟩
      · exact .inr (hold h)
  · exact .inr h

/-- The table loses entries at most, and the tasks track what they did. -/
theorem Only.of_tracks (h : s.Only)
    (hlookup : ∀ p sid session, s'.lookup p sid = some session → s.lookup p sid = some session)
    (htracks : ∀ t task profile, s.Tracks t task profile → s'.Tracks t task profile) : s'.Only := by
  intro p sid session hfound
  obtain ⟨t, task, profile, htrack, hkey⟩ := h p sid session (hlookup p sid session hfound)
  exact ⟨t, task, profile, htracks t task profile htrack, hkey⟩

theorem Only.setPhase (h : s.Only) (htask : s.sessionTasks t = some task) {phase : Phase}
    (hbefore : ∀ profile, task.phase ≠ .tracking profile) : (s.setPhase t phase).Only := by
  refine h.of_tracks (fun _ _ _ hfound => hfound) fun w task' profile' htrack => ?_
  rw [tracks_update (setPhase_tasks htask phase)]
  exact .inr ⟨htrack.ne htask hbefore, htrack⟩

theorem Only.trackSession (h : s.Only) (htask : s.sessionTasks t = some task)
    (hbefore : ∀ profile, task.phase ≠ .tracking profile) :
    (s.trackSession t task profile).Only := by
  intro p sid session hfound
  have htasks : (s.trackSession t task profile).sessionTasks =
      Function.update s.sessionTasks t (some { task with phase := .tracking profile }) :=
    setPhase_tasks htask _
  obtain ⟨rfl, rfl⟩ | hold := lookup_of_trackSession hfound
  · exact ⟨t, _, profile, (tracks_update htasks).2 (.inl ⟨rfl, rfl, rfl⟩), rfl, rfl⟩
  · obtain ⟨w, task', profile', htrack, hkey⟩ := h p sid session hold
    exact ⟨w, task', profile',
      (tracks_update htasks).2 (.inr ⟨htrack.ne htask hbefore, htrack⟩), hkey⟩

theorem Only.removeSession (h : s.Only) (htrack : s.Tracks t task profile) :
    (s.removeSession t task profile).Only := by
  obtain ⟨htasks, -, hlookup⟩ := removeSession_sessions profile htrack.1
  intro p sid session hfound
  obtain ⟨hold, hne⟩ := hlookup p sid session hfound
  obtain ⟨w, task', profile', htrack', hp, hsid⟩ := h p sid session hold
  refine ⟨w, task', profile', (tracks_update htasks).2 (.inr ⟨?_, htrack'⟩), hp, hsid⟩
  rintro rfl
  obtain ⟨rfl, rfl⟩ := htrack.unique htrack'
  exact hne ⟨hp.symm, hsid.symm⟩

theorem Only.startSession (h : s.Only) (hmade : s.TasksMade) : (s.startSession task).Only := by
  refine h.of_tracks (fun _ _ _ hfound => hfound) fun w task' profile' htrack => ?_
  have hw : w ≠ s.nextTask := by
    rintro rfl
    exact absurd ((hmade _ (Nat.le_refl _)).symm.trans htrack.1) nofun
  refine ⟨?_, htrack.2⟩
  show Function.update s.sessionTasks s.nextTask _ w = some task'
  rw [Function.update_of_ne hw]
  exact htrack.1

theorem Only.step (h : s.Only) (hmade : s.TasksMade) (hstep : s.step a = some s') : s'.Only := by
  by_cases hsession : a.onSession = true
  · cases a with
    | startSession =>
      cases hstep
      exact h.startSession hmade
    | beginSession t =>
      obtain ⟨task, htask, hphase, rfl⟩ := resume_eq hstep
      have hbefore : ∀ profile, task.phase ≠ .tracking profile := by
        rw [isCreated_iff.1 hphase]
        nofun
      unfold beginSession
      split
      · exact h.setPhase htask hbefore
      · exact h.trackSession htask hbefore
    | resolveSession t profile =>
      obtain ⟨task, htask, hphase, rfl⟩ := resume_eq hstep
      have hbefore : ∀ profile, task.phase ≠ .tracking profile := by
        rw [isResolving_iff.1 hphase]
        nofun
      unfold resolveSession
      split
      · exact h.setPhase htask hbefore
      · exact h.trackSession htask hbefore
    | cancelSession t =>
      obtain ⟨task, htask, -, rfl⟩ := resume_eq hstep
      unfold cancelSession
      split
      · next heq => exact h.setPhase htask (by rw [heq]; nofun)
      · next heq => exact h.setPhase htask (by rw [heq]; nofun)
      · next profile heq => exact h.removeSession ⟨htask, heq⟩
      · exact h
    | _ => cases hsession
  · have hsame := step_sameSessions (Bool.eq_false_iff.2 hsession) hstep
    refine h.of_tracks ?_ fun _ _ _ => (Tracks.of_same hsame).2
    intro p sid session hfound
    unfold lookup at hfound ⊢
    rwa [hsame.playerSessions] at hfound

end MCProxy

end Silkjam.Proxy
