import Silkjam.Supervisor.Context

/-!
# The calls of one unit

`Closed` is the shape of a history of finished lifecycles: each called both `_start` and `_stop`, or
neither. `Paired` ties the calls to where the unit's task is: between its enter and its exit the
current lifecycle has called `_start`, and outside it has called both or none. Every move of the
unit keeps that. So do moves with what a stop call leaves in `pending_stop` (`StopRecorded`), and
with a forced stop that the lifecycle finds before its enter (`Barred`).
-/

namespace Silkjam.Supervisor

open Transition

/-! ### Histories of calls -/

/-- The calls of lifecycles before the `n`-th that called both, the last one first. -/
inductive Closed : Nat → List HookCall → Prop where
  | nil (n : Nat) : Closed n []
  | cons {n m : Nat} {l : List HookCall} : m < n → Closed m l →
      Closed n (⟨.stop, some m⟩ :: ⟨.start, some m⟩ :: l)

/-- Each call is of the other hook than the one before it, and the first one of `_start`. -/
def Alternates : List Hook → Prop
  | [] => True
  | [h] => h = .start
  | h :: h' :: l => h ≠ h' ∧ Alternates (h' :: l)

/-- What lifecycle `m` called, the first call first. -/
def hooksOf (calls : List HookCall) (m : Nat) : List Hook :=
  ((calls.filter fun call => call.lifecycle = some m).map (·.hook)).reverse

section
variable {n n' m : Nat} {l : List HookCall}

theorem Closed.mono (h : Closed n l) (hle : n ≤ n') : Closed n' l := by
  cases h with
  | nil => exact .nil n'
  | cons hlt h => exact .cons (hlt.trans_le hle) h

theorem Closed.start_alternates (h : Closed n l) : Alternates (.start :: l.map (·.hook)) := by
  induction h with
  | nil => rfl
  | cons _ _ ih => exact ⟨nofun, nofun, ih⟩

theorem Closed.alternates (h : Closed n l) : Alternates (l.map (·.hook)) := by
  cases h with
  | nil => trivial
  | cons _ h => exact ⟨nofun, h.start_alternates⟩

theorem Closed.lifecycle_ne_none (h : Closed n l) : ∀ call ∈ l, call.lifecycle ≠ none := by
  induction h with
  | nil => nofun
  | cons _ _ ih => simpa using ih

theorem hooksOf_cons_of_ne {call : HookCall} (h : call.lifecycle ≠ some m) :
    hooksOf (call :: l) m = hooksOf l m := by
  unfold hooksOf
  rw [List.filter_cons_of_neg (by simpa using h)]

theorem hooksOf_cons_self (hook : Hook) :
    hooksOf (⟨hook, some m⟩ :: l) m = hooksOf l m ++ [hook] := by
  unfold hooksOf
  rw [List.filter_cons_of_pos (by simp)]
  simp

theorem Closed.hooksOf_eq_nil (h : Closed n l) (hle : n ≤ m) : hooksOf l m = [] := by
  induction h with
  | nil => rfl
  | @cons n m' l hlt _ ih =>
    have hne : (some m' : Option Nat) ≠ some m := by
      rw [ne_eq, Option.some_inj]
      omega
    rw [hooksOf_cons_of_ne hne, hooksOf_cons_of_ne hne]
    exact ih (by omega)

theorem Closed.hooksOf (h : Closed n l) (m : Nat) :
    hooksOf l m = [] ∨ hooksOf l m = [.start, .stop] := by
  induction h with
  | nil => exact .inl rfl
  | @cons n m' l hlt h ih =>
    by_cases hm : m' = m
    · subst hm
      rw [hooksOf_cons_self, hooksOf_cons_self, h.hooksOf_eq_nil le_rfl]
      exact .inr rfl
    · have hne : (some m' : Option Nat) ≠ some m := by
        rw [ne_eq, Option.some_inj]
        exact hm
      rw [hooksOf_cons_of_ne hne, hooksOf_cons_of_ne hne]
      exact ih

end

/-! ### On views -/

section
variable {U : Type} {v v' : View U} {b : BaseUnit} {l : Label}

/-- The unit has been entered, and not exited since. -/
def Pc.inside : Pc U → Bool
  | .entering _ | .runSleep _ | .running _ => true
  | _ => false

def View.Inside (v : View U) : Prop :=
  ∃ t k, v.tasks t = some k ∧ k.pc.inside = true

/-- The lifecycle is pending, and the unit has not been entered. -/
def View.Fresh (v : View U) : Prop :=
  v.st.pendingStart = true ∧ ¬ v.Inside

/-- A lifecycle is pending or in progress. -/
def View.Busy (v : View U) : Prop :=
  v.st.pendingStart = true ∨ ∃ t, v.tasks t ≠ none

theorem NoTasks.not_inside (h : NoTasks v) : ¬ v.Inside := by
  rintro ⟨t, k, hk, -⟩
  rw [h t] at hk
  cases hk

theorem Fits.live_eq {t t' : TaskId} {k k' : UnitTask U} (h : Fits v (.live t k))
    (hk : v.tasks t' = some k') : t' = t ∧ k' = k := by
  rw [h.live_tasks t'] at hk
  split at hk
  · next he => exact ⟨he, (Option.some_injective _ hk).symm⟩
  · cases hk

/-- Where the task of the unit is says whether the unit is inside. -/
theorem Fits.inside_iff {t : TaskId} {k : UnitTask U} (h : Fits v (.live t k)) :
    v.Inside ↔ k.pc.inside = true := by
  constructor
  · rintro ⟨t', k', hk', hpc⟩
    rw [(h.live_eq hk').2] at hpc
    exact hpc
  · intro hpc
    exact ⟨t, k, by simp [h.live_tasks t], hpc⟩

theorem inside_update {t : TaskId} {k : UnitTask U} (k' : UnitTask U)
    (hfit : Fits v (.live t k)) (htasks : v'.tasks = Function.update v.tasks t (some k')) :
    v'.Inside ↔ k'.pc.inside = true := by
  constructor
  · rintro ⟨t', k'', hk'', hpc⟩
    rw [htasks] at hk''
    by_cases he : t' = t
    · subst he
      rw [Function.update_self] at hk''
      cases hk''
      exact hpc
    · simp [hfit.live_tasks t', he] at hk''
  · intro hpc
    exact ⟨t, k', by simp [htasks], hpc⟩

theorem not_inside_update {t : TaskId} {k' : UnitTask U} (h : ¬ v.Inside)
    (hpc : k'.pc.inside = false) (htasks : v'.tasks = Function.update v.tasks t (some k')) :
    ¬ v'.Inside := by
  rintro ⟨t', k, hk, hin⟩
  rw [htasks] at hk
  by_cases he : t' = t
  · subst he
    rw [Function.update_self] at hk
    cases hk
    rw [hpc] at hin
    cases hin
  · rw [Function.update_of_ne he] at hk
    exact h ⟨t', k, hk, hin⟩

variable [DecidableEq U]

def View.queuedStarts (v : View U) : Nat :=
  v.trace.count (.queued .start v.ref.unit)

/-- The number of STARTs queued goes up by one as one is queued, and stays in every other move. -/
theorem Move.queuedStarts_le (hm : Move l v v') : v.queuedStarts ≤ v'.queuedStarts := by
  cases hm <;> simp [View.queuedStarts]

theorem Move.queuedStarts_segment (hl : l = .segment ∨ l = .finish) (hm : Move l v v') :
    v'.queuedStarts = v.queuedStarts := by
  cases hm with
  | queueStart hl' => rcases hl' with rfl | ⟨rfl, -⟩ <;> simp at hl
  | _ => simp [View.queuedStarts]

/-! ### What a segment calls -/

/-- A segment of the unit's task calls one of the two, or none. -/
theorem BaseUnit.segment_cases (b : BaseUnit) (n : Nat) (stack : Bool) (pc pc' : Pc U) :
    b.segment n stack pc pc' = b ∨
      b.started = false ∧ b.segment n stack pc pc' = ⟨true, ⟨.start, some n⟩ :: b.calls⟩ ∨
      b.started = true ∧ b.segment n stack pc pc' = ⟨false, ⟨.stop, some n⟩ :: b.calls⟩ := by
  cases hs : b.started with
  | false =>
    unfold segment aenter aexit
    repeat' split
    all_goals simp_all
  | true =>
    unfold segment aenter aexit
    repeat' split
    all_goals simp_all

section
variable {n m : Nat} {stack : Bool} {pc pc' : Pc U}

theorem BaseUnit.segment_hooksOf (b : BaseUnit) (hne : n ≠ m) :
    hooksOf (b.segment n stack pc pc').calls m = hooksOf b.calls m := by
  have hne' : (some n : Option Nat) ≠ some m := by simpa using hne
  rcases b.segment_cases n stack pc pc' with hb | ⟨-, hb⟩ | ⟨-, hb⟩
  · rw [hb]
  · rw [hb, hooksOf_cons_of_ne hne']
  · rw [hb, hooksOf_cons_of_ne hne']

theorem BaseUnit.segment_of_not_started (hs : b.started = false)
    (hs' : (b.segment n stack pc pc').started = false) : b.segment n stack pc pc' = b := by
  rcases b.segment_cases n stack pc pc' with hb | ⟨-, hb⟩ | ⟨hstarted, -⟩
  · exact hb
  · rw [hb] at hs'
    cases hs'
  · rw [hs] at hstarted
    cases hstarted

end

/-! ### The calls of a unit -/

/-- The calls of a unit, in terms of where its lifecycle is. -/
structure Paired (b : BaseUnit) (v : View U) : Prop where
  begun : b.started = true → v.Inside ∧
    ∃ l, b.calls = ⟨.start, some v.queuedStarts⟩ :: l ∧ Closed v.queuedStarts l
  done : b.started = false → Closed (v.queuedStarts + 1) b.calls
  fresh : b.started = false → v.Fresh → Closed v.queuedStarts b.calls

theorem Paired.not_started (h : Paired b v) (hout : ¬ v.Inside) : b.started = false := by
  rw [← Bool.not_eq_true]
  exact fun hs => hout (h.begun hs).1

theorem Paired.frame (h : Paired b v) (hn : v'.queuedStarts = v.queuedStarts)
    (hinside : v'.Inside ↔ v.Inside)
    (hpending : v'.st.pendingStart = true → v.st.pendingStart = true) : Paired b v' := by
  constructor
  · intro hs
    rw [hn]
    exact ⟨hinside.2 (h.begun hs).1, (h.begun hs).2⟩
  · rw [hn]
    exact h.done
  · intro hs hf
    rw [hn]
    exact h.fresh hs ⟨hpending hf.1, fun hi => hf.2 (hinside.2 hi)⟩

theorem Paired.of_closed (hs : b.started = false) (h : Closed v.queuedStarts b.calls) :
    Paired b v := by
  refine ⟨?_, fun _ => h.mono (Nat.le_succ _), fun _ _ => h⟩
  intro hs'
  rw [hs] at hs'
  cases hs'

theorem Paired.rest (h : Paired b v) (hs : b.started = false)
    (hn : v'.queuedStarts = v.queuedStarts) (hps : v'.st.pendingStart = false) : Paired b v' := by
  refine ⟨?_, fun _ => hn ▸ h.done hs, ?_⟩
  · intro hs'
    rw [hs] at hs'
    cases hs'
  · intro _ hf
    have hps' := hf.1
    rw [hps] at hps'
    cases hps'

theorem Paired.aenter (hs : b.started = false) (hclosed : Closed v.queuedStarts b.calls)
    (hn : v'.queuedStarts = v.queuedStarts) (hin : v'.Inside) :
    Paired (b.aenter (some v.queuedStarts)) v' := by
  rw [BaseUnit.aenter, hs, ← hn]
  rw [← hn] at hclosed
  refine ⟨fun _ => ⟨hin, b.calls, rfl, hclosed⟩, ?_, ?_⟩
  · intro hs'
    cases hs'
  · intro hs'
    cases hs'

theorem Paired.aexit (h : Paired b v) (hn : v'.queuedStarts = v.queuedStarts)
    (hps : v'.st.pendingStart = false) : Paired (b.aexit (some v.queuedStarts)) v' := by
  unfold BaseUnit.aexit
  split
  · next hs =>
    obtain ⟨-, l, hcalls, hclosed⟩ := h.begun hs
    refine ⟨?_, ?_, ?_⟩
    · intro hs'
      cases hs'
    · intro _
      rw [hn, hcalls]
      exact .cons (Nat.lt_succ_self _) hclosed
    · intro _ hf
      have hps' := hf.1
      rw [hps] at hps'
      cases hps'
  · next hs => exact h.rest (Bool.eq_false_iff.2 hs) hn hps

/-- What happens to a unit other than through its own task. -/
theorem Move.paired (hsegment : l ≠ .segment) (hfinish : l ≠ .finish)
    (hp : Placed v) (h : Paired b v) (hm : Move l v v') : Paired b v' := by
  cases hm with
  | add => exact h.frame rfl .rfl nofun
  | remove | markReady | markStopped | stopExiting | close | loseStart | loseStop =>
    exact h.frame rfl .rfl id
  | queueStop | startFailed | stopIgnored | stopFailed =>
    exact h.frame (by simp [View.queuedStarts]) .rfl id
  | queueStart hl hreg hstop hoff hps =>
    -- the unit is idle: the lifecycle before is over
    have hs := h.not_started (hp.idle_of_isOff hoff hps).2.1.not_inside
    refine .of_closed hs ((h.done hs).mono ?_)
    simp [View.queuedStarts]
  | startTask t hn =>
    have hs := hp.queued (by omega)
    have hout := hs.2.1.not_inside
    exact h.frame (by simp [View.queuedStarts])
      (iff_of_false (not_inside_update hout rfl rfl) hout) id
  | stopCancel t k hn hreg hcan htask hk =>
    have hs := hp.live hk
    refine h.frame (by simp [View.queuedStarts]) ?_ id
    rw [inside_update { k with cancel := true } hs rfl, hs.inside_iff]
  | beginForced | begin | enteredStopped | entered | toExit | suspend => exact absurd rfl hsegment
  | finish => exact absurd rfl hfinish

/-- The unit's own task, which calls the unit. -/
theorem Move.paired_segment {t : TaskId} {k k' : UnitTask U} (hfit : Fits v (.live t k))
    (hl : l = .segment ∨ l = .finish) (h : Paired b v) (hm : Move l v v')
    (hk' : v'.tasks t = k'.liveOf v.ref.unit) (hunit : k'.unit = v.ref.unit) (stack : Bool) :
    Paired (b.segment v.queuedStarts stack k.pc k'.pc) v' := by
  have hn := hm.queuedStarts_segment hl
  -- the record that the move puts in the place of `k` is `k'`
  have hnext (k₂ : UnitTask U) (ht : v'.tasks = Function.update v.tasks t (some k₂)) :
      k' = k₂ ∧ (v'.Inside ↔ k'.pc.inside = true) := by
    have heq : k₂ = k' := by
      have hsome : some k₂ = k'.liveOf v.ref.unit := by rw [← hk', ht, Function.update_self]
      unfold UnitTask.liveOf at hsome
      split at hsome
      · exact Option.some_injective _ hsome
      · cases hsome
    subst heq
    exact ⟨rfl, inside_update k₂ hfit ht⟩
  cases hm with
  | queueStart hl' => rcases hl' with rfl | ⟨rfl, -⟩ <;> simp at hl
  | add | remove | markReady | queueStop | markStopped | stopExiting | startTask | startFailed
  | stopIgnored | stopCancel | stopFailed | close | loseStart | loseStop => simp at hl
  | beginForced t₁ k₁ hk₁ hpc =>
    obtain ⟨rfl, rfl⟩ := hfit.live_eq hk₁
    obtain ⟨rfl, hinside⟩ := hnext _ rfl
    refine h.frame hn ?_ id
    rw [hinside, hfit.inside_iff, hpc]
    rfl
  | begin t₁ k₁ hk₁ hpc =>
    obtain ⟨rfl, rfl⟩ := hfit.live_eq hk₁
    obtain ⟨rfl, hinside⟩ := hnext _ rfl
    have hout : ¬ v.Inside := by simp [hfit.inside_iff, hpc, Pc.inside]
    have hs := h.not_started hout
    have hclosed := h.fresh hs ⟨hfit.created hpc, hout⟩
    cases stack with
    | false =>
      have hsame (n : Nat) : b.segment n false k₁.pc (.entering v.ref) = b := by
        simp [BaseUnit.segment]
      rw [hsame]
      exact .of_closed hs (hn ▸ hclosed)
    | true =>
      have hcall (n : Nat) : b.segment n true k₁.pc (.entering v.ref) = b.aenter (some n) := by
        simp [BaseUnit.segment, hpc]
      rw [hcall]
      exact .aenter hs hclosed hn (hinside.2 rfl)
  | enteredStopped t₁ k₁ hk₁ hpc | entered t₁ k₁ hk₁ hpc =>
    obtain ⟨rfl, rfl⟩ := hfit.live_eq hk₁
    obtain ⟨rfl, hinside⟩ := hnext _ rfl
    refine h.frame hn ?_ fun h => by cases h
    rw [hinside, hfit.inside_iff, hpc]
    rfl
  | toExit t₁ k₁ val hk₁ hpc =>
    obtain ⟨rfl, rfl⟩ := hfit.live_eq hk₁
    obtain ⟨rfl, hinside⟩ := hnext _ rfl
    have hne : k₁.pc ≠ .exiting v.ref := by
      rcases hpc with hpc | hpc | hpc | hpc | ⟨hpc, -⟩ <;> simp [hpc]
    have hcall (n : Nat) : b.segment n stack k₁.pc (.exiting v.ref) = b.aexit (some n) := by
      simp [BaseUnit.segment, hne]
    rw [hcall]
    exact h.aexit hn rfl
  | suspend t₁ k₁ hk₁ hpc =>
    obtain ⟨rfl, rfl⟩ := hfit.live_eq hk₁
    obtain ⟨rfl, hinside⟩ := hnext _ rfl
    have hsame (n : Nat) : b.segment n stack k₁.pc k₁.pc = b := by
      unfold BaseUnit.segment
      split <;> simp_all
    rw [hsame]
    exact h.frame hn (by rw [hinside, hfit.inside_iff]) id
  | finish t₁ k₁ val drop hk₁ hpc =>
    obtain ⟨rfl, rfl⟩ := hfit.live_eq hk₁
    have hfinished : k'.pc.isFinished = true := by
      have hnone : Function.update v.tasks t₁ none t₁ = k'.liveOf v.ref.unit := hk'
      simpa [UnitTask.liveOf, hunit] using hnone.symm
    have hsame (n : Nat) : b.segment n stack k₁.pc k'.pc = b := by
      unfold BaseUnit.segment
      split <;> simp_all [Pc.isFinished]
    have hs := h.not_started (by simp [hfit.inside_iff, hpc, Pc.inside])
    rw [hsame]
    exact h.rest hs hn (hfit.exiting hpc)

theorem Paired.alternates (h : Paired b v) : Alternates (b.calls.map (·.hook)) := by
  cases hs : b.started with
  | false => exact (h.done hs).alternates
  | true =>
    obtain ⟨-, l, hcalls, hclosed⟩ := h.begun hs
    rw [hcalls]
    exact hclosed.start_alternates

theorem Paired.lifecycle_ne_none (h : Paired b v) : ∀ call ∈ b.calls, call.lifecycle ≠ none := by
  cases hs : b.started with
  | false => exact (h.done hs).lifecycle_ne_none
  | true =>
    obtain ⟨-, l, hcalls, hclosed⟩ := h.begun hs
    rw [hcalls]
    exact List.forall_mem_cons.2 ⟨by simp, hclosed.lifecycle_ne_none⟩

theorem Paired.hooksOf (h : Paired b v) (m : Nat) :
    hooksOf b.calls m = [] ∨ hooksOf b.calls m = [.start, .stop] ∨
      hooksOf b.calls m = [.start] ∧ m = v.queuedStarts ∧ v.Inside := by
  cases hs : b.started with
  | false => exact ((h.done hs).hooksOf m).imp_right .inl
  | true =>
    obtain ⟨hin, l, hcalls, hclosed⟩ := h.begun hs
    rw [hcalls]
    by_cases he : m = v.queuedStarts
    · rw [he, hooksOf_cons_self, hclosed.hooksOf_eq_nil le_rfl]
      exact .inr (.inr ⟨rfl, rfl, hin⟩)
    · rw [hooksOf_cons_of_ne (by simpa using Ne.symm he)]
      exact (hclosed.hooksOf m).imp_right .inl

/-! ### Stops accepted -/

/-- `pending_stop` of a unit with a lifecycle: `accepted`, unless a START was queued since the
`n`-th. -/
def StopRecorded (n : Nat) (accepted : Bool) (v : View U) : Prop :=
  n ≤ v.queuedStarts ∧ (v.Busy → v.st.pendingStop = (accepted && v.queuedStarts == n))

section
variable {n : Nat} {accepted : Bool}

theorem StopRecorded.frame (h : StopRecorded n accepted v) (hn : v'.queuedStarts = v.queuedStarts)
    (hbusy : v'.Busy → v.Busy) (hstop : v'.st.pendingStop = v.st.pendingStop) :
    StopRecorded n accepted v' := by
  unfold StopRecorded
  rw [hn, hstop]
  exact ⟨h.1, fun hb => h.2 (hbusy hb)⟩

theorem Move.stopRecorded (hl : l ≠ .stop) (hp : Placed v) (h : StopRecorded n accepted v)
    (hm : Move l v v') : StopRecorded n accepted v' := by
  have hlive (t : TaskId) (k : UnitTask U) (hk : v.tasks t = some k) : v.Busy :=
    .inr ⟨t, by simp [hk]⟩
  cases hm with
  | queueStop | markStopped | stopExiting => exact absurd rfl hl
  | add restart status hnew =>
    refine ⟨h.1, ?_⟩
    rintro (hps | ⟨t, ht⟩)
    · cases hps
    · exact absurd ((hp.idle_of_unregistered hnew).2.1 t) ht
  | queueStart _ _ hstop =>
    have hlt : n < v.queuedStarts + 1 := Nat.lt_succ_of_le h.1
    refine ⟨?_, ?_⟩
    · simpa [View.queuedStarts] using hlt.le
    · intro _
      have hne : (v.queuedStarts + 1 == n) = false := beq_false_of_ne hlt.ne'
      rw [View.queuedStarts] at hne
      simp [View.queuedStarts, hstop, hne]
  | remove | markReady | close | loseStart | loseStop => exact h.frame rfl id rfl
  | startFailed | stopIgnored | stopFailed => exact h.frame (by simp [View.queuedStarts]) id rfl
  | startTask t hn =>
    have hs := hp.queued (by omega)
    exact h.frame (by simp [View.queuedStarts]) (fun _ => .inl hs.pendingStart) rfl
  | stopCancel t k hn hreg hcan htask hk | beginForced t k hk | begin t k hk
  | enteredStopped t k hk | entered t k hk | toExit t k val hk | suspend t k hk =>
    exact h.frame (by simp [View.queuedStarts]) (fun _ => hlive t k hk) rfl
  | finish t k val drop hk hpc =>
    have hs := hp.live hk
    refine ⟨h.1, ?_⟩
    rintro (hps | ⟨t', ht'⟩)
    · have hps' : v.st.pendingStart = true := hps
      rw [hs.exiting hpc] at hps'
      cases hps'
    · exact absurd (hs.update_none t') ht'

theorem Quieted.stopRecorded (h : Quieted v) (hn : v.queuedStarts = n) : StopRecorded n true v := by
  refine ⟨hn.ge, ?_⟩
  intro hb
  rw [hn, beq_self_eq_true, Bool.and_true]
  apply h.2.resolve_right
  intro hq
  rcases hb with hps | ⟨t, ht⟩
  · rw [hq.2.1] at hps
    cases hps
  · exact ht (hq.1 t)

end

/-! ### Forced stops -/

/-- The lifecycle will not enter the unit, if it is pending still. -/
def Barred (v : View U) : Prop :=
  ¬ v.Inside ∧
    (v.st.pendingStart = true → v.st.pendingStop = true ∧ v.st.forcePendingStop = true)

/-- A unit that will not be entered will not be before another START is queued for it. -/
theorem Move.barred (hp : Placed v) (h : Barred v) (hm : Move l v v') :
    v.queuedStarts < v'.queuedStarts ∨ v'.queuedStarts = v.queuedStarts ∧ Barred v' := by
  have hentered {t : TaskId} {k : UnitTask U} (hk : v.tasks t = some k) : k.pc.inside = false := by
    rw [← Bool.not_eq_true, ← (hp.live hk).inside_iff]
    exact h.1
  cases hm with
  | queueStart =>
    left
    simp [View.queuedStarts]
  | add => exact .inr ⟨rfl, h.1, fun h => by cases h⟩
  | remove | markReady | markStopped | close | loseStart | loseStop => exact .inr ⟨rfl, h⟩
  | stopExiting => exact .inr ⟨rfl, h.1, fun hps => ⟨rfl, (h.2 hps).2⟩⟩
  | startFailed | stopIgnored | stopFailed => exact .inr ⟨by simp [View.queuedStarts], h⟩
  | queueStop force hreg hstop =>
    refine .inr ⟨by simp [View.queuedStarts], h.1, fun hps => ?_⟩
    rw [(h.2 hps).1] at hstop
    cases hstop
  | startTask t hn =>
    exact .inr ⟨by simp [View.queuedStarts], not_inside_update h.1 rfl rfl, h.2⟩
  | stopCancel t k hn hreg hcan htask hk =>
    have hpc := hentered hk
    have hpc' : ({ k with cancel := true } : UnitTask U).pc.inside = false := hpc
    exact .inr ⟨by simp [View.queuedStarts], not_inside_update h.1 hpc' rfl, h.2⟩
  | beginForced t k hk =>
    exact .inr ⟨by simp [View.queuedStarts], not_inside_update h.1 rfl rfl, h.2⟩
  | begin t k hk hpc hno =>
    exact absurd (h.2 ((hp.live hk).created hpc)) hno
  | enteredStopped t k hk hpc | entered t k hk hpc =>
    have hin := hentered hk
    rw [hpc] at hin
    cases hin
  | toExit t k val hk =>
    exact .inr ⟨by simp [View.queuedStarts], not_inside_update h.1 rfl rfl, fun h => by cases h⟩
  | suspend t k hk =>
    have hpc := hentered hk
    have hpc' : ({ k with cancel := false } : UnitTask U).pc.inside = false := hpc
    exact .inr ⟨rfl, not_inside_update h.1 hpc' rfl, h.2⟩
  | finish t k val drop hk hpc =>
    have hs := hp.live hk
    refine .inr ⟨rfl, NoTasks.not_inside hs.update_none, fun hps => ?_⟩
    have hps' : v.st.pendingStart = true := hps
    rw [hs.exiting hpc] at hps'
    cases hps'

/-- The `n`-th lifecycle will not enter the unit, or is over. -/
def Shut (n : Nat) (v : View U) : Prop :=
  n < v.queuedStarts ∨ v.queuedStarts = n ∧ Barred v

theorem Move.shut {n : Nat} (hp : Placed v) (h : Shut n v) (hm : Move l v v') : Shut n v' := by
  rcases h with h | ⟨rfl, hb⟩
  · exact .inl (h.trans_le hm.queuedStarts_le)
  · exact hm.barred hp hb

/-! ### Ends -/

omit [DecidableEq U] in
theorem Move.status_of_ended {t : TaskId} {k : UnitTask U} (hfit : Fits v (.live t k))
    (hl : l = .segment ∨ l = .finish) (hm : Move l v v') (hnone : v'.tasks t = none) :
    v'.st.status = if v.st.restart = true ∧ v.st.pendingStop = false then .ready else .stopped := by
  cases hm with
  | queueStart hl' => rcases hl' with rfl | ⟨rfl, -⟩ <;> simp at hl
  | add | remove | markReady | queueStop | markStopped | stopExiting | startTask | startFailed
  | stopIgnored | stopCancel | stopFailed | close | loseStart | loseStop => simp at hl
  | beginForced t₁ k₁ hk₁ | begin t₁ k₁ hk₁ | enteredStopped t₁ k₁ hk₁ | entered t₁ k₁ hk₁
  | toExit t₁ k₁ val hk₁ | suspend t₁ k₁ hk₁ =>
    obtain ⟨rfl, rfl⟩ := hfit.live_eq hk₁
    simp at hnone
  | finish =>
    simp only [State.cleaned]
    cases v.st.restart <;> cases v.st.pendingStop <;> rfl

end

end Silkjam.Supervisor
