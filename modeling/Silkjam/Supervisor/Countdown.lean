import Silkjam.Lib.Transition
import Silkjam.Supervisor.Timer

/-!
# The end of a timer

`Timer.run` waits for a write of `timeout` or `remaining`, for as long as remains, and looks at what
remains again after each write. When the wait expires, the coroutine is resumed with a
`TimeoutError` in a later turn of the event loop, which ends `run` without another look; so a write
that comes before that, or that came so late that the wait expired before the coroutine was resumed
for it, is lost. `Countdown` is a timer that runs, with a history of what the last write of this
wait made of its end.
-/

namespace Silkjam.Supervisor

open Transition

namespace Timer

/-- `remaining`, of a timer that has a start time. -/
def remaining (timer : Timer) (now : Time) : Option Time :=
  match timer.timeout, timer.startTime with
  | some timeout, some startTime => some (max (startTime + timeout - now) 0)
  | _, _ => none

/-- When the timer ends, if it is not suspended. -/
def ends (timer : Timer) : Option Time :=
  match timer.timeout, timer.startTime with
  | some timeout, some startTime => some (startTime + timeout)
  | _, _ => none

/-- `run` has looked at the events. -/
def clearEvents (timer : Timer) : Timer :=
  { timer with timeoutChanged := false, remainingChanged := false }

end Timer

/-- Where `run` is: called, in its wait, which has a deadline unless the timer is suspended, about
to be resumed with a `TimeoutError`, or over. -/
inductive RunPc where
  | called
  | waiting (deadline : Option Time)
  | expired
  | returned
  deriving DecidableEq

/-- A timer that runs. `written` is what the last write since the wait began made of its end. -/
structure Countdown where
  timer : Timer
  now : Time
  pc : RunPc := .called
  written : Option (Option Time) := none

namespace Countdown

/-- `asyncio.wait_for(…, self.remaining)`, up to its wait. The clock goes on by `lag` until
`self.remaining` is read again and by `lag'` until the deadline is computed from it. If nothing
remains then, `wait_for` raises without a wait. -/
def waitFor (w : Countdown) (lag lag' : Nat) : Countdown :=
  let now := w.now + lag + lag'
  match w.timer.remaining (w.now + lag) with
  | none => { w with now := now, pc := .waiting none, written := none }
  | some remaining =>
    if remaining ≤ 0 then { w with now := now, pc := .expired, written := none }
    else { w with now := now, pc := .waiting (some (now + remaining)), written := none }

/-- The test of the loop, and what follows. -/
def loop (w : Countdown) (lag lag' : Nat) : Countdown :=
  match w.timer.remaining w.now with
  | none => w.waitFor lag lag'
  | some remaining =>
    if remaining > 0 then w.waitFor lag lag' else { w with pc := .returned }

def write (w : Countdown) (timer : Timer) : Countdown :=
  { w with timer := timer, written := some timer.ends }

inductive Action where
  | setTimeout (value : Option Time)
  | setRemaining (value : Time)
  | reset
  | advance (time : Nat)
  /-- `run`, up to its first wait -/
  | call (lag lag' : Nat)
  /-- the wait expires -/
  | expire
  /-- one of the events was set, and `run` is resumed -/
  | wake (lag lag' : Nat)
  /-- `run` is resumed with the `TimeoutError`, which it suppresses -/
  | timedOut

def step (w : Countdown) : Action → Option Countdown
  | .setTimeout value => some (w.write (w.timer.setTimeout value))
  | .setRemaining value => some (w.write (w.timer.setRemaining w.now value))
  | .reset => some (w.write (w.timer.reset w.now))
  | .advance time => some { w with now := w.now + time }
  | .call lag lag' => if w.pc = .called then some (w.loop lag lag') else none
  | .expire =>
    match w.pc with
    | .waiting (some deadline) => if deadline ≤ w.now then some { w with pc := .expired } else none
    | _ => none
  | .wake lag lag' =>
    match w.pc with
    | .waiting _ =>
      if w.timer.timeoutChanged || w.timer.remainingChanged then
        some ({ w with timer := w.timer.clearEvents }.loop lag lag')
      else none
    | _ => none
  | .timedOut => if w.pc = .expired then some { w with pc := .returned } else none

/-- A timer as its unit enters, whatever was written to it before. -/
def init (timer : Timer) (now : Time) : Countdown where
  timer := timer.start now
  now := now

/-- The timer is not suspended, and nothing remains. -/
def Due (w : Countdown) : Prop :=
  w.timer.timeout ≠ none ∧ w.timer.remaining w.now = some 0

/-- The last write since the wait began, if there was one before `run` is resumed with the
`TimeoutError`, made the timer end by now. -/
def Settled (w : Countdown) : Action → Prop
  | .timedOut => ∀ e, w.written = some e → ∃ time, e = some time ∧ time ≤ w.now
  | _ => True

/-! ### The invariant -/

section
variable {w w' : Countdown} {a : Action} {lag lag' : Nat}

theorem remaining_eq (timer : Timer) (now : Time) :
    timer.remaining now = timer.ends.map fun time => max (time - now) 0 := by
  unfold Timer.remaining Timer.ends
  cases timer.timeout with
  | none => rfl
  | some timeout =>
    cases timer.startTime with
    | none => rfl
    | some startTime => rfl

/-- What remains at `now` is nothing once the end has passed, and never too little. -/
theorem remains (time now : Int) :
    (max (time - now) 0 = 0 ↔ time ≤ now) ∧ (max (time - now) 0 ≤ 0 ↔ time ≤ now) ∧
      time ≤ now + max (time - now) 0 := by
  omega

theorem due_iff : w.Due ↔ ∃ time, w.timer.ends = some time ∧ time ≤ w.now := by
  unfold Due
  rw [remaining_eq]
  constructor
  · rintro ⟨-, hremaining⟩
    obtain ⟨time, hends, hzero⟩ := Option.map_eq_some_iff.1 hremaining
    exact ⟨time, hends, (remains time w.now).1.1 hzero⟩
  · rintro ⟨time, hends, hle⟩
    refine ⟨?_, ?_⟩
    · intro hnone
      simp [Timer.ends, hnone] at hends
    · rw [hends, Option.map_some, (remains time w.now).1.2 hle]

/-- The deadline of a wait without a write is not before the end of the timer. -/
structure Timed (w : Countdown) : Prop where
  written : ∀ e, w.written = some e → e = w.timer.ends
  deadline : ∀ d, w.pc = .waiting (some d) → w.written = none →
    ∃ time, w.timer.ends = some time ∧ time ≤ d
  expired : w.pc = .expired → w.written = none → ∃ time, w.timer.ends = some time ∧ time ≤ w.now

theorem timed_waitFor (w : Countdown) (lag lag' : Nat) : (w.waitFor lag lag').Timed := by
  unfold waitFor
  dsimp only
  cases hremaining : w.timer.remaining (w.now + lag) with
  | none =>
    refine ⟨by simp, ?_, by simp⟩
    rintro d ⟨⟩
  | some remaining =>
    rw [remaining_eq] at hremaining
    obtain ⟨time, hends, rfl⟩ := Option.map_eq_some_iff.1 hremaining
    obtain ⟨-, hpassed, hle⟩ := remains time (w.now + lag)
    dsimp only
    split
    · next hzero =>
      refine ⟨by simp, by simp, fun _ _ => ⟨time, hends, ?_⟩⟩
      exact Int.le_trans (hpassed.1 hzero) (Int.le_add_of_nonneg_right (Int.natCast_nonneg lag'))
    · refine ⟨by simp, ?_, by simp⟩
      rintro d ⟨⟩ -
      refine ⟨time, hends, Int.le_trans hle ?_⟩
      exact Int.add_le_add_right (Int.le_add_of_nonneg_right (Int.natCast_nonneg lag')) _

theorem loop_cases (w : Countdown) (lag lag' : Nat) :
    w.loop lag lag' = w.waitFor lag lag' ∨
      w.loop lag lag' = { w with pc := .returned } ∧ w.Due := by
  unfold loop
  cases hremaining : w.timer.remaining w.now with
  | none => exact .inl rfl
  | some remaining =>
    dsimp only
    split
    · exact .inl rfl
    · next hzero =>
      refine .inr ⟨rfl, due_iff.2 ?_⟩
      rw [remaining_eq] at hremaining
      obtain ⟨time, hends, rfl⟩ := Option.map_eq_some_iff.1 hremaining
      exact ⟨time, hends, (remains time w.now).2.1.1 (Int.not_lt.1 hzero)⟩

theorem Timed.returned (h : w.Timed) : ({ w with pc := .returned } : Countdown).Timed :=
  ⟨h.written, nofun, nofun⟩

theorem timed_write (w : Countdown) (timer : Timer) : (w.write timer).Timed := by
  refine ⟨?_, nofun, nofun⟩
  rintro e ⟨⟩
  rfl

theorem Timed.loop (h : w.Timed) (lag lag' : Nat) : (w.loop lag lag').Timed := by
  rcases w.loop_cases lag lag' with heq | ⟨heq, -⟩
  · rw [heq]
    exact timed_waitFor w lag lag'
  · rw [heq]
    exact h.returned

theorem Timed.step (h : w.Timed) (hstep : w.step a = some w') : w'.Timed := by
  cases a with
  | setTimeout value => cases hstep; exact timed_write w _
  | setRemaining value => cases hstep; exact timed_write w _
  | reset => cases hstep; exact timed_write w _
  | advance time =>
    cases hstep
    refine ⟨h.written, h.deadline, fun hpc hwritten => ?_⟩
    obtain ⟨t, hends, hle⟩ := h.expired hpc hwritten
    exact ⟨t, hends, Int.le_trans hle (Int.le_add_of_nonneg_right (Int.natCast_nonneg time))⟩
  | call lag lag' =>
    simp only [Countdown.step] at hstep
    split at hstep
    · cases hstep
      exact h.loop lag lag'
    · cases hstep
  | expire =>
    simp only [Countdown.step] at hstep
    split at hstep
    · next d hpc =>
      split at hstep
      · next hpassed =>
        cases hstep
        refine ⟨h.written, nofun, fun _ hwritten => ?_⟩
        obtain ⟨t, hends, hle⟩ := h.deadline d hpc hwritten
        exact ⟨t, hends, Int.le_trans hle hpassed⟩
      · cases hstep
    · cases hstep
  | wake lag lag' =>
    simp only [Countdown.step] at hstep
    split at hstep
    · split at hstep
      · cases hstep
        have hcleared : ({ w with timer := w.timer.clearEvents } : Countdown).Timed :=
          ⟨h.written, h.deadline, h.expired⟩
        exact hcleared.loop lag lag'
      · cases hstep
    · cases hstep
  | timedOut =>
    simp only [Countdown.step] at hstep
    split at hstep
    · cases hstep
      exact h.returned
    · cases hstep

theorem init_timed (timer : Timer) (now : Time) : (init timer now).Timed :=
  ⟨nofun, nofun, nofun⟩

/-- `run` returns after it has looked, or from an expired wait. -/
theorem loop_due (h : (w.loop lag lag').pc = .returned) : (w.loop lag lag').Due := by
  rcases w.loop_cases lag lag' with heq | ⟨heq, hdue⟩
  · exfalso
    rw [heq] at h
    unfold waitFor at h
    dsimp only at h
    split at h
    · cases h
    · split at h <;> cases h
  · rw [heq]
    exact hdue

end

/-- **A timer returns only when it is due**, exactly if the last write of its wait, where one
comes before the expiry is delivered, made it end by then. -/
theorem returns_due {timer : Timer} {now : Time} {w w' : Countdown} {a : Action}
    (h : Reach step (fun _ _ => True) (init timer now) w) (hstep : w.step a = some w')
    (hrunning : w.pc ≠ .returned) (hreturned : w'.pc = .returned) : w'.Due ↔ w.Settled a := by
  have htimed : w.Timed := by
    refine h.invariant (init_timed timer now) ?_
    intro w a w' hw _ hstep
    exact hw.step hstep
  cases a with
  | setTimeout value => cases hstep; exact absurd hreturned hrunning
  | setRemaining value => cases hstep; exact absurd hreturned hrunning
  | reset => cases hstep; exact absurd hreturned hrunning
  | advance time => cases hstep; exact absurd hreturned hrunning
  | call lag lag' =>
    simp only [Countdown.step] at hstep
    split at hstep
    · cases hstep
      exact iff_of_true (loop_due hreturned) trivial
    · cases hstep
  | expire =>
    simp only [Countdown.step] at hstep
    split at hstep
    · split at hstep <;> cases hstep
      cases hreturned
    · cases hstep
  | wake lag lag' =>
    simp only [Countdown.step] at hstep
    split at hstep
    · split at hstep
      · cases hstep
        exact iff_of_true (loop_due hreturned) trivial
      · cases hstep
    · cases hstep
  | timedOut =>
    simp only [Countdown.step] at hstep
    split at hstep
    · next hpc =>
      cases hstep
      rw [due_iff]
      constructor
      · intro hdue e hwritten
        rw [htimed.written e hwritten]
        exact hdue
      · intro hsettled
        cases hwritten : w.written with
        | none => exact htimed.expired hpc hwritten
        | some e =>
          obtain rfl := htimed.written e hwritten
          exact hsettled _ hwritten
    · cases hstep

/-- The timer is made shorter after its wait has expired. -/
theorem returns_due_shortened :
    ∃ w w' : Countdown, w.written = some (some 5) ∧ w.step .timedOut = some w' ∧ w'.Due := by
  obtain ⟨w, hw, hpc, hwritten, hnow⟩ := Reach.exists_of_runIn step (fun _ _ => True)
    (init { timeout := some 10 } 0)
    [.call 0 0, .advance 10, .expire, .setTimeout (some 5)]
    (p := fun w => w.pc = .expired ∧ w.written = some (some 5) ∧ w.now = 10) (by decide +kernel)
  have hstep : w.step .timedOut = some { w with pc := .returned } := if_pos hpc
  have hdue := returns_due hw hstep (by simp [hpc]) rfl
  refine ⟨w, _, hwritten, hstep, hdue.2 ?_⟩
  intro e he
  rw [hwritten] at he
  cases he
  exact ⟨5, rfl, by simp [hnow]⟩

/-- The timer is suspended after its wait has expired, or reset just before, and ends all the same. -/
theorem returns_suspended :
    (∃ w : Countdown, Reach step (fun _ _ => True) (init { timeout := some 10 } 0) w ∧
      w.pc = .returned ∧ w.timer.timeout = none) ∧
    ∃ w : Countdown, Reach step (fun _ _ => True) (init { timeout := some 10 } 0) w ∧
      w.pc = .returned ∧ w.timer.remaining w.now = some 9 :=
  ⟨Reach.exists_of_runIn _ _ _
    [.call 0 0, .advance 10, .expire, .setTimeout none, .timedOut] (by decide +kernel),
  Reach.exists_of_runIn _ _ _
    [.call 0 0, .advance 9, .reset, .advance 1, .expire, .timedOut] (by decide +kernel)⟩

end Countdown

end Silkjam.Supervisor
