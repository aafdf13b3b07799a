import Silkjam.Supervisor.Snapshot

/-!
# Waiting for a unit to start or stop

A unit's start or stop is awaited in two ways. `supervise_until_done_starting` and
`supervise_until_done_stopping` supervise all units meanwhile: they call `supervise_until` again and
again (`lead`). `done_starting` and `done_stopping` await the event itself, next to a task that
supervises (`side`). `Waiting` is the supervisor with one coroutine of each kind, which await the
same `State` object.

An event that is set wakes the coroutine that awaits it by way of the queue of the event loop, which
is first in, first out: a task created afterwards has its first segment after the coroutine
(`Waiter.precedes`).
-/

namespace Silkjam.Supervisor

open Transition

variable {U : Type} [DecidableEq U]

/-- `isinstance(value, BaseException)` -/
def Val.isExc : Val U → Bool
  | .exc _ => true
  | _ => false

/-! ### The calls, up to their first await -/

/-- What a call returns at once: it waits while what it waits for is pending or in progress. -/
def doneNow (s : Supervisor U) (u : U) (reached : Status) (isPending : State U → Bool)
    (phase : Status) : Option Bool :=
  if u ∉ s.units then some false
  else if (s.state u).status = reached then some true
  else if isPending (s.state u) ∨ (s.state u).status = phase then none
  else some false

def doneStartingNow (s : Supervisor U) (u : U) : Option Bool :=
  s.doneNow u .running (·.pendingStart) .entering

def doneStoppingNow (s : Supervisor U) (u : U) : Option Bool :=
  s.doneNow u .stopped (·.pendingStop) .exiting

/-- A coroutine that waits: not called, waiting, woken by its event when tasks up to `next` had been
created, or back. -/
inductive Waiter (U : Type) where
  | idle
  | awaiting
  | woken (next : TaskId)
  | returned (b : Bool)
  | raised (e : Exc U)
  deriving DecidableEq

/-- Supervise until `e` is set, up to the first await. -/
def superviseUntilDone (s : Supervisor U) (now : Option Bool) (e : EventRef U) :
    Supervisor U × Waiter U :=
  match now with
  | some b => (s, .returned b)
  | none => (s.superviseUntil [e], .awaiting)

def superviseUntilDoneStarting (s : Supervisor U) (u : U) : Supervisor U × Waiter U :=
  s.superviseUntilDone (s.doneStartingNow u) (.doneEntering (s.ref u))

def superviseUntilDoneStopping (s : Supervisor U) (u : U) : Supervisor U × Waiter U :=
  s.superviseUntilDone (s.doneStoppingNow u) (.doneExiting (s.ref u))

/-- Await `e`, up to the first await: there is none if the event is set. -/
def awaitDone (s : Supervisor U) (u : U) (now : Option Bool) (e : EventRef U) : Waiter U :=
  match now with
  | some b => .returned b
  | none => if s.events e then .returned (!(s.state u).result.isExc) else .awaiting

def doneStarting (s : Supervisor U) (u : U) : Waiter U :=
  s.awaitDone u (s.doneStartingNow u) (.doneEntering (s.ref u))

def doneStopping (s : Supervisor U) (u : U) : Waiter U :=
  s.awaitDone u (s.doneStoppingNow u) (.doneExiting (s.ref u))

/-- The event of the calls: `state.done_entering` or `state.done_exiting`. -/
def Command.event (command : Command) (r : StateRef U) : EventRef U :=
  match command with
  | .start => .doneEntering r
  | .stop => .doneExiting r

def Command.doneNow (command : Command) (s : Supervisor U) (u : U) : Option Bool :=
  match command with
  | .start => s.doneStartingNow u
  | .stop => s.doneStoppingNow u

def Command.superviseUntilDone (command : Command) (s : Supervisor U) (u : U) :
    Supervisor U × Waiter U :=
  match command with
  | .start => s.superviseUntilDoneStarting u
  | .stop => s.superviseUntilDoneStopping u

def Command.awaitDone (command : Command) (s : Supervisor U) (u : U) : Waiter U :=
  match command with
  | .start => s.doneStarting u
  | .stop => s.doneStopping u

/-! ### Awaiting -/

/-- The answer that `done_events` and `done_units` give, if they do. -/
def Call.verdict (c : Call U) (u : U) (e : EventRef U) : Option Bool :=
  if c.doneUnits.any fun d => d.1 = u ∧ d.2.2.isExc then some false
  else if e ∈ c.doneEvents then some true
  else none

/-- The supervisor with a coroutine that supervises while it waits, and one that waits next to
it. -/
structure Waiting (U : Type) [DecidableEq U] where
  sup : Supervisor U
  lead : Waiter U
  side : Waiter U

inductive WaitAction (U : Type) where
  | sup (a : Action U)
  /-- the coroutine that was woken goes on -/
  | side

/-- The task `t` was created after the coroutine was woken. -/
def Waiter.precedes (side : Waiter U) (t : TaskId) : Bool :=
  match side with
  | .woken next => next ≤ t
  | _ => false

namespace Waiting

/-- The step would overtake the coroutine that was woken. -/
def overtakes (w : Waiting U) : Action U → Bool
  | .resume t _ => w.side.precedes t
  | _ => false

/-- The call of `supervise_until` is over; `s` is the supervisor after it. -/
def supervised (command : Command) (r : StateRef U) (l : Loop U) (s : Supervisor U) :
    Supervisor U × Waiter U :=
  match l with
  | .leaving c none =>
    match c.verdict r.unit (command.event r) with
    | some b => (s, .returned b)
    | none => (s.superviseUntil [command.event r], .awaiting)
  | .leaving _ (some e) => (s, .raised e)
  | _ => (s, .awaiting)

/-- What the step to `s` means for the coroutine that supervises. -/
def leadStep (command : Command) (r : StateRef U) (w : Waiting U) (a : Action U)
    (s : Supervisor U) : Supervisor U × Waiter U :=
  if w.lead = .awaiting ∧ a.isLeave then supervised command r w.sup.loop s else (s, w.lead)

/-- What it means for the other. -/
def sideStep (e : EventRef U) (w : Waiting U) (s : Supervisor U) : Waiter U :=
  if w.side = .awaiting ∧ s.events e then .woken s.nextTask else w.side

def step (command : Command) (r : StateRef U) (w : Waiting U) :
    WaitAction U → Option (Waiting U)
  | .sup a =>
    if w.overtakes a then none
    else
      (w.sup.step a).map fun s =>
        { sup := (leadStep command r w a s).1
          lead := (leadStep command r w a s).2
          side := sideStep (command.event r) w s }
  | .side =>
    match w.side with
    | .woken _ => some { w with side := .returned (!(w.sup.heap r).result.isExc) }
    | _ => none

/-- The two calls, or one of them, are made in state `s`. -/
def call (command : Command) (s : Supervisor U) (u : U) (lead side : Bool) : Waiting U :=
  let side := if side then command.awaitDone s u else .idle
  if lead then
    { sup := (command.superviseUntilDone s u).1, lead := (command.superviseUntilDone s u).2,
      side := side }
  else { sup := s, lead := .idle, side := side }

/-! ### What a step does -/

/-- The steps of the two coroutines and the supervisor. -/
inductive Stepped (command : Command) (r : StateRef U) (w w' : Waiting U) :
    WaitAction U → Prop where
  /-- the coroutine that was woken goes on -/
  | side (next : TaskId) : w.side = .woken next → w'.sup = w.sup → w'.lead = w.lead →
      w'.side = .returned (!(w.sup.heap r).result.isExc) → Stepped command r w w' .side
  | plain (a : Action U) : (w.lead = .awaiting → a.isLeave = false) → w.overtakes a = false →
      w.sup.step a = some w'.sup → w'.lead = w.lead →
      w'.side = sideStep (command.event r) w w'.sup → Stepped command r w w' (.sup a)
  /-- the call of `supervise_until` gives the answer -/
  | answered (c : Call U) (b : Bool) : w.lead = .awaiting → w.sup.loop = .leaving c none →
      c.verdict r.unit (command.event r) = some b → w.sup.step .leave = some w'.sup →
      w'.lead = .returned b → w'.side = sideStep (command.event r) w w'.sup →
      Stepped command r w w' (.sup .leave)
  /-- it does not, and the next one begins -/
  | again (c : Call U) (s : Supervisor U) : w.lead = .awaiting → w.sup.loop = .leaving c none →
      c.verdict r.unit (command.event r) = none → w.sup.step .leave = some s → s.loop = .idle →
      w'.sup = s.superviseUntil [command.event r] → w'.lead = .awaiting →
      w'.side = sideStep (command.event r) w s → Stepped command r w w' (.sup .leave)
  | failed (c : Call U) (e : Exc U) : w.lead = .awaiting → w.sup.loop = .leaving c (some e) →
      w.sup.step .leave = some w'.sup → w'.lead = .raised e →
      w'.side = sideStep (command.event r) w w'.sup → Stepped command r w w' (.sup .leave)

end Waiting

section
variable {command : Command} {r : StateRef U} {w w' : Waiting U} {x : WaitAction U}
  {s s' : Supervisor U} {u : U}

theorem leave_loop (h : s.leave = some s') : s'.loop = .idle := by
  unfold leave at h
  split at h <;> cases h <;> rfl

theorem Waiting.step_stepped (h : w.step command r x = some w') : Stepped command r w w' x := by
  cases x with
  | side =>
    simp only [Waiting.step] at h
    split at h
    · next next hside => cases h; exact .side next hside rfl rfl rfl
    · cases h
  | sup a =>
    simp only [Waiting.step] at h
    split at h
    · cases h
    · next hovertakes =>
      obtain ⟨s, hs, rfl⟩ := Option.map_eq_some_iff.1 h
      have hno : w.overtakes a = false := Bool.eq_false_iff.2 hovertakes
      by_cases hlead : w.lead = .awaiting ∧ a.isLeave = true
      · obtain ⟨hlead, ha⟩ := hlead
        cases a with
        | leave =>
          have hidle : s.loop = .idle := leave_loop hs
          simp only [leadStep, hlead, Action.isLeave, and_self, if_true, supervised]
          cases hloop : w.sup.loop with
          | idle => simp [Supervisor.step, Supervisor.leave, hloop] at hs
          | waiting c => simp [Supervisor.step, Supervisor.leave, hloop] at hs
          | leaving c err =>
            cases err with
            | some e => exact .failed c e hlead hloop hs rfl rfl
            | none =>
              dsimp only
              cases hv : c.verdict r.unit (command.event r) with
              | some b => exact .answered c b hlead hloop hv hs rfl rfl
              | none => exact .again c s hlead hloop hv hs hidle rfl rfl rfl
        | _ => cases ha
      · have hplain : w.leadStep command r a s = (s, w.lead) := if_neg hlead
        rw [hplain]
        refine .plain a ?_ hno hs rfl rfl
        exact fun hlead' => Bool.eq_false_iff.2 fun ha => hlead ⟨hlead', ha⟩

theorem Waiting.Stepped.run {P : Supervisor U → Action U → Prop} (h : Stepped command r w w' x)
    (hok : ∀ a, x = .sup a → P w.sup a) (hsup : ∀ s events rw, P s (.supervise events rw)) :
    Reach Supervisor.step P w.sup w'.sup := by
  cases h with
  | side next hside hsame => rw [hsame]; exact .refl
  | plain a _ _ hs => exact .tail a .refl (hok a rfl) hs
  | answered c b _ _ _ hs => exact .tail .leave .refl (hok _ rfl) hs
  | again c s _ _ _ hs hidle hagain =>
    rw [hagain]
    refine .tail (.supervise [command.event r] .firstEventOrUnit)
      (.tail .leave .refl (hok _ rfl) hs) (hsup _ _ _) ?_
    simp only [Supervisor.step, hidle]
  | failed c e _ _ hs => exact .tail .leave .refl (hok _ rfl) hs

/-- The call of `supervise_until` in progress began after `s`, and keeps its books. -/
def Waiting.Leading (command : Command) (r : StateRef U) (s : Supervisor U) (w : Waiting U) : Prop :=
  w.lead = .awaiting →
    ∃ s₁, Reach Supervisor.step (fun _ _ => True) s s₁ ∧ Reach Supervisor.step During s₁ w.sup ∧
      Supervised s₁ [command.event r] .firstEventOrUnit w.sup

/-- A coroutine that was woken or answered that it is done heard of the event, after `s`. -/
def Waiting.Heard (command : Command) (r : StateRef U) (s : Supervisor U) (w : Waiting U) : Prop :=
  (w.lead = .returned true ∨ (∃ next, w.side = .woken next) ∨ ∃ b, w.side = .returned b) →
    SetBetween (fun _ _ => True) s w.sup (command.event r)

theorem Call.mem_of_verdict {c : Call U} {e : EventRef U} (h : c.verdict u e = some true) :
    e ∈ c.doneEvents := by
  unfold Call.verdict at h
  split at h
  · cases h
  · split at h
    · next he => exact he
    · cases h

theorem SetBetween.mono {ok ok' : Supervisor U → Action U → Prop} {s₂ : Supervisor U}
    {e : EventRef U} (h : SetBetween ok s s' e) (hfrom : Reach Supervisor.step ok' s₂ s)
    (himp : ∀ s a, ok s a → ok' s a) : SetBetween ok' s₂ s' e := by
  obtain ⟨s₁, h₁, hset, h₂⟩ := h
  exact ⟨s₁, hfrom.trans (h₁.mono himp), hset, h₂.mono himp⟩

theorem Waiting.Leading.step {s : Supervisor U} (hw : WFOn (fun _ => False) w.sup)
    (hrun : Reach Supervisor.step (fun _ _ => True) s w.sup) (h : Leading command r s w)
    (hstep : Stepped command r w w' x) : Leading command r s w' := by
  have hto : Reach Supervisor.step (fun _ _ => True) s w'.sup :=
    hrun.trans (hstep.run (P := fun _ _ => True) (fun _ _ => trivial) fun _ _ _ => trivial)
  intro hlead
  cases hstep with
  | side next hside hsame hlead' =>
    rw [hsame]
    exact h (hlead' ▸ hlead)
  | plain a hleave _ hs hlead' =>
    obtain ⟨s₁, h₁, hfrom, hsup⟩ := h (hlead' ▸ hlead)
    have ha : During w.sup a := hleave (hlead' ▸ hlead)
    refine ⟨s₁, h₁, .tail a hfrom ha hs, step_supervised hw hfrom hsup ha hs⟩
  | answered c b _ _ _ _ hlead' | failed c e _ _ _ hlead' =>
    rw [hlead] at hlead'
    cases hlead'
  | again c s₂ _ _ _ _ _ hagain =>
    refine ⟨w'.sup, hto, .refl, ?_⟩
    rw [hagain]
    exact superviseUntil_supervised s₂ _ _

theorem Waiting.Heard.step {s : Supervisor U}
    (hrun : Reach Supervisor.step (fun _ _ => True) s w.sup) (hlead : Leading command r s w)
    (h : Heard command r s w) (hstep : Stepped command r w w' x) : Heard command r s w' := by
  have hto : Reach Supervisor.step (fun _ _ => True) w.sup w'.sup :=
    hstep.run (P := fun _ _ => True) (fun _ _ => trivial) fun _ _ _ => trivial
  -- the coroutine that awaits the event is woken as it is set
  have hside {s₂ : Supervisor U} (h₂ : Reach Supervisor.step (fun _ _ => True) s s₂)
      (hto₂ : Reach Supervisor.step (fun _ _ => True) s₂ w'.sup)
      (hside : w'.side = sideStep (command.event r) w s₂)
      (hw : (∃ next, w'.side = .woken next) ∨ ∃ b, w'.side = .returned b) :
      SetBetween (fun _ _ => True) s w'.sup (command.event r) := by
    unfold sideStep at hside
    split at hside
    · next hset => exact ⟨s₂, h₂, hset.2, hto₂⟩
    · rw [hside] at hw
      exact (h (.inr hw)).append hto
  rintro (hdone | hw)
  · cases hstep with
    | side next _ _ hlead' => exact (h (.inl (hlead' ▸ hdone))).append hto
    | plain a _ _ _ hlead' => exact (h (.inl (hlead' ▸ hdone))).append hto
    | answered c b hawaiting hloop hverdict _ hlead' =>
      rw [hdone] at hlead'
      cases hlead'
      obtain ⟨s₁, h₁, hfrom, hsup⟩ := hlead hawaiting
      unfold Supervised at hsup
      rw [hloop] at hsup
      exact ((hsup rfl _ (Call.mem_of_verdict hverdict)).mono h₁ fun _ _ _ => trivial).append hto
    | again c s₂ _ _ _ _ _ _ hlead' | failed c e _ _ _ hlead' =>
      rw [hdone] at hlead'
      cases hlead'
  · cases hstep with
    | side next hside' _ _ _ => exact (h (.inr (.inl ⟨next, hside'⟩))).append hto
    | plain a _ _ hs _ hside' => exact hside (hrun.trans hto) .refl hside' hw
    | answered c b _ _ _ _ _ hside' => exact hside (hrun.trans hto) .refl hside' hw
    | again c s₂ _ _ _ hs hidle hagain _ hside' =>
      refine hside (hrun.trans (.tail .leave .refl trivial hs)) ?_ hside' hw
      rw [hagain]
      exact .tail (.supervise [command.event r] .firstEventOrUnit) .refl trivial
        (by simp only [Supervisor.step, hidle])
    | failed c e _ _ _ _ hside' => exact hside (hrun.trans hto) .refl hside' hw

theorem Command.superviseUntilDone_awaits (hwaits : command.doneNow s u = none) :
    command.superviseUntilDone s u =
      (s.superviseUntil [command.event (s.ref u)], .awaiting) := by
  cases command
  all_goals
    unfold Command.doneNow at hwaits
    simp only [Command.superviseUntilDone, superviseUntilDoneStarting, superviseUntilDoneStopping,
      Supervisor.superviseUntilDone, hwaits, Command.event]

theorem Command.awaitDone_awaits (hwaits : command.doneNow s u = none)
    (hunset : s.events (command.event (s.ref u)) = false) :
    command.awaitDone s u = .awaiting := by
  cases command
  all_goals
    unfold Command.doneNow at hwaits
    unfold Command.event at hunset
    simp [Command.awaitDone, doneStarting, doneStopping, Supervisor.awaitDone, hwaits, hunset]

theorem Waiting.call_heard {lead side : Bool} (hidle : lead = true → s.loop = .idle)
    (hwaits : command.doneNow s u = none) (hunset : s.events (command.event (s.ref u)) = false) :
    Reach Supervisor.step (fun _ _ => True) s (call command s u lead side).sup ∧
      Leading command (s.ref u) s (call command s u lead side) ∧
      Heard command (s.ref u) s (call command s u lead side) := by
  have hside : (call command s u lead side).side = if side then .awaiting else .idle := by
    unfold call
    rw [Command.awaitDone_awaits hwaits hunset]
    cases lead <;> rfl
  have hnone : ¬ ((∃ next, (call command s u lead side).side = .woken next) ∨
      ∃ b, (call command s u lead side).side = .returned b) := by
    rw [hside]
    cases side <;> simp
  cases lead with
  | false =>
    refine ⟨.refl, ?_, ?_⟩
    · intro h
      cases h
    · rintro (h | h)
      · cases h
      · exact absurd h hnone
  | true =>
    have hcall : (call command s u true side).sup = s.superviseUntil [command.event (s.ref u)] ∧
        (call command s u true side).lead = .awaiting := by
      simp only [call, if_true, Command.superviseUntilDone_awaits hwaits, and_self]
    have hbegins : Reach Supervisor.step (fun _ _ => True) s (call command s u true side).sup := by
      rw [hcall.1]
      exact .tail (.supervise [command.event (s.ref u)] .firstEventOrUnit) .refl trivial
        (by simp only [Supervisor.step, hidle rfl])
    refine ⟨hbegins, fun _ => ⟨_, hbegins, .refl, ?_⟩, ?_⟩
    · rw [hcall.1]
      exact superviseUntil_supervised s _ _
    · rintro (h | h)
      · rw [hcall.2] at h
        cases h
      · exact absurd h hnone

end

/-! ### Waiting for a stop -/

/-- The unit's exit ends, between `s₁` and `s₂`: `done_exiting` is set, and the unit is READY or
STOPPED. -/
structure ExitEnds (s₁ s₂ : Supervisor U) (r : StateRef U) : Prop where
  segment : ∃ t o k, s₁.tasks t = some k ∧ k.pc = .exiting r ∧ s₁.step (.resume t o) = some s₂
  unset : s₁.events (.doneExiting r) = false
  isSet : s₂.events (.doneExiting r) = true
  isOff : (s₂.heap r).status.isOff = true

theorem step_events_unit {s s' : Supervisor U} {a : Action U} {e : EventRef U}
    (hresume : ∀ t o, a ≠ .resume t o) (he : ∀ n, e ≠ .other n) (hstep : s.step a = some s') :
    s'.events e = s.events e := by
  by_cases hkeep : a.keepsEvents = true
  · rw [step_events hresume hkeep hstep]
  · cases a with
    | setEvent n =>
      cases hstep
      exact Function.update_of_ne (he n) _ _
    | clearEvent n =>
      cases hstep
      exact Function.update_of_ne (he n) _ _
    | _ => exact absurd rfl hkeep

/-- The step that sets `done_exiting` ends the exit of the unit. -/
theorem step_exitEnds {s s' : Supervisor U} {a : Action U} {r : StateRef U}
    (hunset : s.events (.doneExiting r) = false) (hset : s'.events (.doneExiting r) = true)
    (hstep : s.step a = some s') : ExitEnds s s' r := by
  by_cases hresume : ∃ t o, a = .resume t o
  · obtain ⟨t, o, rfl⟩ := hresume
    obtain ⟨k, hk, hseg⟩ := Option.bind_eq_some_iff.1 hstep
    obtain ⟨l, hl, hkind⟩ := runSegment_rung hseg
    rcases hl.set _ hset with hset' | hin
    · rw [hunset] at hset'
      cases hset'
    · rcases hkind _ hin with ⟨r', hr⟩ | ⟨r', hr, hpc, hoff⟩
      · cases hr
      · cases hr
        exact ⟨⟨t, o, k, hk, hpc, hstep⟩, hunset, hset, hoff⟩
  · exfalso
    rw [step_events_unit (fun t o h => hresume ⟨t, o, h⟩) (by simp) hstep, hunset] at hset
    cases hset

/-- `u` is removed only without an unfinished task. -/
def RemovesIdle (u : U) (s : Supervisor U) : Action U → Prop
  | .removeUnit w => w = u → ¬ s.HasLive u
  | _ => True

instance (u : U) (s : Supervisor U) : (a : Action U) → Decidable (RemovesIdle u s a)
  | .removeUnit w => inferInstanceAs (Decidable (w = u → ¬ s.HasLive u))
  | .addUnit .. | .startUnit _ | .stopUnit .. | .setEvent _ | .clearEvent _ | .resume ..
  | .monitorStep | .helperStep _ | .supervise .. | .wake _ | .leave | .cancel | .stop =>
    inferInstanceAs (Decidable True)

section
variable {s s' s₁ s₂ : Supervisor U} {u : U} {r : StateRef U}

theorem RemovesIdle.registered {a : Action U} (hw : WFOn (· = u) s) (hok : RemovesIdle u s a)
    (w : U) (ha : a = .removeUnit w) (hu : w = u) : Registered (s.view w) := by
  subst ha hu
  intro t ht
  exact absurd (hw.hasLive ((s.live_iff t w).2 ht)) (hok rfl)

theorem run_wfOn {ok : Supervisor U → Action U → Prop} (hw : WFOn (· = u) s)
    (hok : ∀ s a, ok s a → RemovesIdle u s a) (hrun : Reach step ok s s') : WFOn (· = u) s' :=
  hrun.invariant hw fun s a _ hw h hstep =>
    (stepOn_evolves hw ((hok s a h).registered hw) hstep).wf

theorem reachable_wfOn (h : Reachable (RemovesIdle u) s) : WFOn (· = u) s :=
  run_wfOn init_wf (fun _ _ h => h) h

omit [DecidableEq U] in
theorem Move.exiting_pendingStart {l : Label} {v v' : View U} {t : TaskId} {k : UnitTask U}
    (hfit : Fits v (.live t k)) (hpc : k.pc = .exiting v.ref) (hl : l = .segment ∨ l = .finish)
    (hm : Move l v v') : v'.ref = v.ref ∧ v'.st.pendingStart = false := by
  have hps : v.st.pendingStart = false := by
    have hfits := hfit.pcFits
    unfold PcFits at hfits
    rw [hpc] at hfits
    exact hfits.2.2
  have hsame {t' : TaskId} {k' : UnitTask U} (hk : v.tasks t' = some k') : k'.pc = .exiting v.ref := by
    rw [hfit.live_tasks t'] at hk
    split at hk
    · cases hk; exact hpc
    · cases hk
  rcases hl with rfl | rfl
  · cases hm with
    | queueStart hl => simp at hl
    | beginForced t' k' hk hpc' | begin t' k' hk hpc' | enteredStopped t' k' hk hpc'
      | entered t' k' hk hpc' =>
      rw [hsame hk] at hpc'
      cases hpc'
    | toExit => exact ⟨rfl, rfl⟩
    | suspend => exact ⟨rfl, hps⟩
  · cases hm with
    | queueStart hl => simp at hl
    | finish => exact ⟨rfl, hps⟩

theorem ExitEnds.pendingStart (h : ExitEnds s₁ s₂ r) (hw : WFOn (· = r.unit) s₁) :
    (s₂.heap r).pendingStart = false := by
  obtain ⟨t, o, k, hk, hpc, hstep⟩ := h.segment
  have hunit : r.unit = k.unit := hw.owned.ref t k r hk (by rw [hpc]; rfl)
  obtain ⟨k', hk', -, -, -, hmove⟩ := resume_within hw hstep
  rw [hk] at hk'
  cases hk'
  obtain ⟨hfit, l, hl, hmove⟩ := hmove hunit.symm
  have href : r = (s₁.view k.unit).ref := by
    have hfits := hfit.pcFits
    unfold PcFits at hfits
    rw [hpc] at hfits
    exact hfits.1
  obtain ⟨href', hps⟩ := hmove.exiting_pendingStart hfit (hpc.trans (congrArg _ href)) hl
  have hstate : (s₂.view k.unit).st = s₂.heap r := by
    rw [href, ← href']
    rfl
  rw [← hstate]
  exact hps

end

/-- **Waiting for a stop waits for that stop** if `done_exiting` is not set as the call is made: a
call that returns `True` after it had to wait saw the unit's exit end. -/
theorem stop_waited {s : Supervisor U} {u : U} {lead side : Bool} {w : Waiting U}
    (h : Reachable (fun _ _ => True) s) (hidle : lead = true → s.loop = .idle)
    (hwaits : s.doneStoppingNow u = none) (hunset : s.events (.doneExiting (s.ref u)) = false)
    (hrun : Reach (Waiting.step .stop (s.ref u)) (fun _ _ => True)
      (Waiting.call .stop s u lead side) w)
    (hreturned : w.lead = .returned true ∨ w.side = .returned true) :
    ∃ s₁ s₂, Reach step (fun _ _ => True) s s₁ ∧ ExitEnds s₁ s₂ (s.ref u) ∧
      Reach step (fun _ _ => True) s₂ w.sup ∧
      (Reachable (RemovesIdle u) s₁ → (s₂.heap (s.ref u)).pendingStart = false) := by
  have hw : WFOn (fun _ => False) s := Reachable.wfOn_of h fun _ _ _ _ hu => hu.elim
  have hwaits' : Command.stop.doneNow s u = none := hwaits
  have hset : SetBetween (fun _ _ => True) s w.sup (.doneExiting (s.ref u)) := by
    refine (hrun.invariant (P := fun w => Reach step (fun _ _ => True) s w.sup ∧
      Waiting.Leading .stop (s.ref u) s w ∧ Waiting.Heard .stop (s.ref u) s w)
      (Waiting.call_heard hidle hwaits' hunset) ?_).2.2 ?_
    · rintro w x w' ⟨hto, hlead, hheard⟩ - hstep
      have hstepped := Waiting.step_stepped hstep
      refine ⟨hto.trans (hstepped.run (P := fun _ _ => True) (fun _ _ => trivial)
        fun _ _ _ => trivial), hlead.step (run_wfOn_false hw hto) hto hstepped,
        hheard.step hto hlead hstepped⟩
    · exact hreturned.imp id fun hside => .inr ⟨true, hside⟩
  obtain ⟨s₃, h₃, hset, hto⟩ := hset
  obtain ⟨s₁, a, s₂, h₁, hunset₁, -, hstep, hset₂, h₂⟩ :=
    h₃.crossing (P := fun s' => s'.events (.doneExiting (s.ref u)) = false) hunset (by simp [hset])
  have hends := step_exitEnds hunset₁ (by simpa using hset₂) hstep
  exact ⟨s₁, s₂, h₁, hends, h₂.trans hto, fun hidle => hends.pendingStart (reachable_wfOn hidle)⟩

/-- The unit is exiting for the first time as the calls are made. -/
theorem stop_waited_exiting :
    ∃ (s : Supervisor Nat) (w : Waiting Nat), Reachable (fun _ _ => True) s ∧
      (s.state 0).status = .exiting ∧ w.lead = .returned true ∧ w.side = .returned true ∧
      ∃ s₁ s₂, Reach step (fun _ _ => True) s s₁ ∧ ExitEnds s₁ s₂ (s.ref 0) ∧
        Reach step (fun _ _ => True) s₂ w.sup := by
  obtain ⟨s, hs, hexiting, hwaits, hunset, hidle, hend⟩ :=
    Reach.exists_of_runIn step (fun _ _ => True) (init Nat)
    [.addUnit 0 false false, .supervise [.other 0] .firstEvent, .monitorStep, .helperStep (.other 0),
      .wake [], .setEvent 0, .helperStep (.other 0), .monitorStep, .wake [], .leave,
      .resume 0 .suspend, .resume 0 (.ok .none), .resume 0 (.ok .none)]
    (p := fun s => (s.state 0).status = .exiting ∧ s.doneStoppingNow 0 = none ∧
      s.events (.doneExiting (s.ref 0)) = false ∧ s.loop.isIdle = true ∧
      (runIn (Waiting.step .stop (s.ref 0)) (fun _ _ => True) (Waiting.call .stop s 0 true true)
        [.sup .monitorStep, .sup (.helperStep (.doneExiting (s.ref 0))),
          .sup (.resume 0 (.ok .none)), .side, .sup (.helperStep (.doneExiting (s.ref 0))),
          .sup (.wake [0]), .sup .leave]).any
        (fun w => decide (w.lead = .returned true ∧ w.side = .returned true)) = true)
    (by decide +kernel)
  obtain ⟨w, hrun, hreturned⟩ := (Option.any_eq_true ..).1 hend
  obtain ⟨hlead, hside⟩ := of_decide_eq_true hreturned
  have hloop := Loop.isIdle_iff.1 hidle
  obtain ⟨s₁, s₂, h₁, hends, h₂, -⟩ :=
    stop_waited hs (fun _ => hloop) hwaits hunset (.of_runIn _ hrun) (.inl hlead)
  exact ⟨s, w, hs, hexiting, hlead, hside, s₁, s₂, h₁, hends, h₂⟩

/-- The unit, which has stopped before, is to be started and stopped once more: `done_stopping`
returns `True` at once, and the supervising call does as its first turn is over, with the unit
still to be entered. -/
theorem stop_not_waited :
    ∃ s : Supervisor Nat, Reachable (RemovesIdle 0) s ∧ (s.state 0).pendingStop = true ∧
      (s.state 0).pendingStart = true ∧ (s.state 0).status = .ready ∧ s.doneStoppingNow 0 = none ∧
      s.doneStopping 0 = .returned true ∧
      ∃ w, Reach (Waiting.step .stop (s.ref 0)) (fun _ _ => True) (Waiting.call .stop s 0 true true) w ∧
        w.lead = .returned true ∧ (w.sup.state 0).pendingStart = true ∧
        (w.sup.state 0).status = .ready := by
  obtain ⟨s, hs, hstop, hstart, hready, hwaits, hside, hend⟩ :=
    Reach.exists_of_runIn step (RemovesIdle 0) (init Nat)
    [.addUnit 0 true false, .supervise [] .firstEventOrUnit, .monitorStep, .wake [],
      .resume 0 .suspend, .resume 0 (.ok .none), .resume 0 (.ok .none), .resume 0 (.ok .none),
      .monitorStep, .wake [0], .leave, .startUnit 0, .stopUnit 0 false]
    (p := fun s => (s.state 0).pendingStop = true ∧ (s.state 0).pendingStart = true ∧
      (s.state 0).status = .ready ∧ s.doneStoppingNow 0 = none ∧
      s.doneStopping 0 = .returned true ∧
      (runIn (Waiting.step .stop (s.ref 0)) (fun _ _ => True) (Waiting.call .stop s 0 true true)
        [.sup .monitorStep, .sup (.helperStep (.doneExiting (s.ref 0))), .sup (.wake []),
          .sup .leave]).any
        (fun w => decide (w.lead = .returned true ∧ (w.sup.state 0).pendingStart = true ∧
          (w.sup.state 0).status = .ready)) = true)
    (by decide +kernel)
  obtain ⟨w, hrun, hreturned⟩ := (Option.any_eq_true ..).1 hend
  obtain ⟨hlead, hqueued⟩ := of_decide_eq_true hreturned
  exact ⟨s, hs, hstop, hstart, hready, hwaits, hside, w, .of_runIn _ hrun, hlead, hqueued⟩

end Silkjam.Supervisor
