import Silkjam.Lib.Transition
import Silkjam.Supervisor.Loop

/-!
# The event loop

What happens around one supervisor, one segment between two awaits at a time: public calls by any
coroutine, events of the rest of the program being set and cleared, segments of the unit tasks, and
the steps of the supervise loop and its tasks, of which one call runs at a time and may be
cancelled.
-/

namespace Silkjam.Supervisor

open Transition

variable {U : Type} [DecidableEq U]

inductive Action (U : Type) where
  | addUnit (u : U) (restart stopped : Bool)
  | removeUnit (u : U)
  | startUnit (u : U)
  | stopUnit (u : U) (force : Bool)
  | setEvent (n : Nat)
  | clearEvent (n : Nat)
  | resume (t : TaskId) (o : Outcome U)
  | monitorStep
  | helperStep (e : EventRef U)
  | supervise (events : List (EventRef U)) (returnWhen : ReturnWhen)
  | wake (order : List TaskId)
  | leave
  /-- the coroutine awaiting the call is cancelled -/
  | cancel
  /-- the supervisor's `_stop` begins -/
  | stop

/-- A segment of task `t`. -/
def resume (s : Supervisor U) (t : TaskId) (o : Outcome U) : Option (Supervisor U) :=
  (s.tasks t).bind fun k => s.runSegment t k o

def step (s : Supervisor U) : Action U → Option (Supervisor U)
  | .addUnit u restart stopped => some (s.addUnit u restart stopped).1
  | .removeUnit u => some (s.removeUnitNowait u).1
  | .startUnit u => some (s.startUnitNowait u).1
  | .stopUnit u force => some (s.stopUnitNowait u force).1
  | .setEvent n => some (s.setEvent (.other n))
  | .clearEvent n => some (s.clearEvent (.other n))
  | .resume t o => s.resume t o
  | .monitorStep => s.monitorStep
  | .helperStep e => s.helperStep e
  | .supervise events rw =>
    match s.loop with
    | .idle => some (s.superviseUntil events rw)
    | _ => none
  | .wake order => s.wake order
  | .leave => s.leave
  | .cancel => s.cancelCall
  | .stop =>
    match s.loop with
    | .idle => some s.stop
    | _ => none

def init (U : Type) [DecidableEq U] : Supervisor U := {}

/-- Reachable from a new supervisor by steps that `ok` allows. -/
abbrev Reachable (ok : Supervisor U → Action U → Prop) (s : Supervisor U) : Prop :=
  Reach step ok (init U) s

def Loop.isIdle : Loop U → Bool
  | .idle => true
  | _ => false

theorem Loop.isIdle_iff {l : Loop U} : l.isIdle = true ↔ l = .idle := by
  cases l <;> simp [Loop.isIdle]

/-- The call raised. -/
def Loop.raised : Loop U → Bool
  | .leaving _ (some _) => true
  | _ => false

def Action.isRemove : Action U → Bool
  | .removeUnit _ => true
  | _ => false

/-- Runs in which no unit is removed. -/
def KeepsUnits (_ : Supervisor U) (a : Action U) : Prop :=
  a.isRemove = false

instance (s : Supervisor U) (a : Action U) : Decidable (KeepsUnits s a) :=
  inferInstanceAs (Decidable (_ = _))

end Silkjam.Supervisor
