import Mathlib.Tactic.Common

/-!
# Timers

The fields of a `Timer` and the functions that write them. Times are those of `time.perf_counter()`,
in nanoseconds; what is left of a timer is counted from its start time, so that both a reset and a
new remaining time move the start time.
-/

namespace Silkjam.Supervisor

/-- A point in time or a duration, in nanoseconds. -/
abbrev Time := Int

def seconds (n : Nat) : Time := n * 1000000000

/-- A `Timer`. It has a start time from its enter to its exit, or from the first write of
`remaining` on. The last two fields are the flags of its events. -/
structure Timer where
  timeout : Option Time
  startTime : Option Time := none
  timeoutChanged : Bool := false
  remainingChanged : Bool := false
  deriving DecidableEq

namespace Timer

def setTimeout (timer : Timer) (value : Option Time) : Timer :=
  { timer with timeoutChanged := true, timeout := value }

def setRemaining (timer : Timer) (now value : Time) : Timer :=
  match timer.timeout with
  | none => timer
  | some timeout =>
    { timer with remainingChanged := true, startTime := some (value - timeout + now) }

def reset (timer : Timer) (now : Time) : Timer :=
  match timer.timeout with
  | none => timer
  | some timeout => timer.setRemaining now timeout

/-- `_start` -/
def start (timer : Timer) (now : Time) : Timer :=
  { timer with startTime := some now }

/-- `_stop` -/
def stop (timer : Timer) : Timer :=
  { timer with startTime := none }

variable (timer : Timer)

@[simp] theorem setRemaining_timeout (now value : Time) :
    (timer.setRemaining now value).timeout = timer.timeout := by
  unfold setRemaining
  split <;> rfl

@[simp] theorem reset_timeout (now : Time) : (timer.reset now).timeout = timer.timeout := by
  unfold reset
  split
  · rfl
  · exact timer.setRemaining_timeout _ _

end Timer

end Silkjam.Supervisor
