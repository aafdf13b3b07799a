import Mathlib.Data.Finset.Basic
import Mathlib.Data.Finset.Card
import Mathlib.Data.List.Dedup
import Mathlib.Logic.Function.Basic

/-!
# The state of a `Supervisor`

The objects of `supervisor.py`. `U` stands for the identity of a unit. A `Supervisor.State` object
is named by the unit it was made for and a running number (`StateRef`), since `_run_unit` keeps the
object it looked up at its start, also when the unit is removed and added again meanwhile. Tasks are
numbered in the order of their creation.

Each unit task is suspended at one of the awaits of `_run_unit` (`Pc`), the supervise loop at one of
its own (`Loop`): between two awaits nothing else runs, so these are the states that other
coroutines can see. `trace` is a history of what happened, which no function of the program reads.
-/

namespace Silkjam

inductive Status where
  | ready | entering | running | exiting | stopped
  deriving DecidableEq, Repr

namespace Supervisor

/-- Internal commands used by the Supervisor -/
inductive Command where
  | start | stop
  deriving DecidableEq, Repr

/-- A background task, by the number of its `create_task`. -/
abbrev TaskId := Nat

/-- Identity of the `gen`-th `State` object made for `unit`. -/
structure StateRef (U : Type) where
  unit : U
  gen : Nat
  deriving DecidableEq

/-- An `asyncio.Event`: the two of each `State` object, and those of the rest of the program. -/
inductive EventRef (U : Type) where
  | doneEntering (st : StateRef U)
  | doneExiting (st : StateRef U)
  | other (n : Nat)
  deriving DecidableEq

/-- Exceptions. `runtimeError unit msg` has the text `f"{unit} {msg}"`. -/
inductive Exc (U : Type) where
  | cancelled
  | keyboardInterrupt
  | systemExit
  | assertionError
  | keyError
  | runtimeError (unit : U) (msg : String)
  | other (n : Nat)
  deriving DecidableEq

/-- What a unit's `run` may return and `State.result` hold. -/
inductive Val (U : Type) where
  | none
  | exc (e : Exc U)
  | other (n : Nat)
  deriving DecidableEq

/-- `Supervisor.State`, without the two events (see `EventRef`). -/
structure State (U : Type) where
  restart : Bool
  status : Status := .ready
  task : Option TaskId := none
  result : Val U := .none
  pendingStart : Bool := false
  pendingStop : Bool := false
  forcePendingStop : Bool := false
  deriving DecidableEq

/-- How a finished task ended. -/
inductive TaskResult (U : Type) where
  | returned (v : Val U)
  | raised (e : Exc U)
  deriving DecidableEq

/-- Where a task is in `_run_unit`: not begun, at one of its awaits, or finished. `st` is the object
bound to the local variable `state`. -/
inductive Pc (U : Type) where
  | created
  /-- `asyncio.sleep(0)` after the task cancelled itself before entering -/
  | enterSleep (st : StateRef U)
  /-- `self.stack.enter_async_context(unit)` -/
  | entering (st : StateRef U)
  /-- `asyncio.sleep(0)` after the task cancelled itself before running -/
  | runSleep (st : StateRef U)
  /-- `unit.run()` -/
  | running (st : StateRef U)
  /-- `unit.__aexit__(...)` -/
  | exiting (st : StateRef U)
  | finished (res : TaskResult U)
  deriving DecidableEq

/-- A task running `_run_unit(unit)`. `cancel` is set from a call of `task.cancel()` until the
`CancelledError` is thrown into the coroutine, which is when it next resumes. -/
structure UnitTask (U : Type) where
  unit : U
  pc : Pc U := .created
  cancel : Bool := false
  deriving DecidableEq

/-- The task awaiting `self._command_queue.get()`: not begun, waiting for an item, or done. -/
inductive Monitor (U : Type) where
  | fresh
  | blocked
  | got (item : Command × U)
  deriving DecidableEq

/-- A task awaiting `event.wait()`: not begun, waiting, woken by `event.set()`, or done. -/
inductive Helper where
  | fresh | waiting | notified | done
  deriving DecidableEq

inductive ReturnWhen where
  | firstEvent | firstUnit | firstEventOrUnit | allEvents | allUnits | allEventsAndUnits
  deriving DecidableEq

/-- The local variables of one call of `_supervise_until`. An entry of `doneUnits` carries the task
that completed besides its result; `helpers` is `pending_event_tasks`, each event with its task;
`waited` are the unit tasks handed to `asyncio.wait`. -/
structure Call (U : Type) [DecidableEq U] where
  returnWhen : ReturnWhen
  doneEvents : Finset (EventRef U) := ∅
  doneUnits : List (U × TaskId × Val U) := []
  pendingEvents : Finset (EventRef U)
  pendingUnits : Finset U
  monitor : Monitor U := .fresh
  helpers : List (EventRef U × Helper)
  waited : List TaskId := []

/-- Where the supervise loop is: no call in progress, in `asyncio.wait` with the lock held, or
leaving its task group, with the lock released and the cancelled helper tasks still awaited. -/
inductive Loop (U : Type) [DecidableEq U] where
  | idle
  | waiting (c : Call U)
  | leaving (c : Call U) (err : Option (Exc U))

/-- What the history records. -/
inductive Obs (U : Type) where
  /-- a command was put in the queue -/
  | queued (c : Command) (u : U)
  /-- a command was handled, `u` being in `_units` or not and its `state.task` being `task`, and
  raised `err` or nothing -/
  | handled (c : Command) (u : U) (registered : Bool) (task : Option TaskId) (err : Option (Exc U))
  /-- `task.cancel()` was called on the task of `u`, whose status was `status` -/
  | cancel (t : TaskId) (u : U) (status : Status)
  /-- task `t` called the unit's enter, run or exit -/
  | enter (t : TaskId) (u : U)
  | run (t : TaskId) (u : U)
  | exit (t : TaskId) (u : U)
  deriving DecidableEq

end Supervisor

open Supervisor

/-- A `Supervisor`. `units` lists the keys of `_units` in insertion order and `gen` says which
`State` object of a unit is the current one; `running` is `_running_unit_tasks`; `returns` are the
calls of `_supervise_until` that have returned, with the values they returned. -/
structure Supervisor (U : Type) [DecidableEq U] where
  units : List U := []
  gen : U → Nat := fun _ => 0
  heap : StateRef U → State U := fun _ => { restart := false }
  tasks : TaskId → Option (UnitTask U) := fun _ => none
  nextTask : TaskId := 0
  running : List (TaskId × U) := []
  queue : List (Command × U) := []
  events : EventRef U → Bool := fun _ => false
  loop : Loop U := .idle
  returns : List (Call U) := []
  trace : List (Obs U) := []

namespace Supervisor

variable {U : Type} [DecidableEq U]

/-! ### Reading the state -/

/-- The object `self._units[u]`, when `u` is in `_units`. -/
def ref (s : Supervisor U) (u : U) : StateRef U := ⟨u, s.gen u⟩

def state (s : Supervisor U) (u : U) : State U := s.heap (s.ref u)

/-- `self._lock.locked()`: the lock is held exactly while the loop is in `asyncio.wait`. -/
def locked (s : Supervisor U) : Bool :=
  match s.loop with
  | .waiting _ => true
  | _ => false

def Pc.isFinished : Pc U → Bool
  | .finished _ => true
  | _ => false

def Pc.result : Pc U → Option (TaskResult U)
  | .finished res => some res
  | _ => none

/-- How task `t` ended, if it has. -/
def taskResult (s : Supervisor U) (t : TaskId) : Option (TaskResult U) :=
  (s.tasks t).bind fun k => k.pc.result

/-! ### Writing it -/

def modify (s : Supervisor U) (r : StateRef U) (f : State U → State U) : Supervisor U :=
  { s with heap := Function.update s.heap r (f (s.heap r)) }

def modifyTask (s : Supervisor U) (t : TaskId) (f : UnitTask U → UnitTask U) : Supervisor U :=
  { s with tasks := Function.update s.tasks t ((s.tasks t).map f) }

def setPc (s : Supervisor U) (t : TaskId) (pc : Pc U) : Supervisor U :=
  s.modifyTask t fun k => { k with pc := pc }

/-- `task.cancel()`; a finished task ignores it. -/
def cancelTask (s : Supervisor U) (t : TaskId) : Supervisor U :=
  s.modifyTask t fun k => { k with cancel := k.cancel || !k.pc.isFinished }

/-- The `CancelledError`, if one is due, is thrown as the task resumes. -/
def clearCancel (s : Supervisor U) (t : TaskId) : Supervisor U :=
  s.modifyTask t fun k => { k with cancel := false }

def log (s : Supervisor U) (o : Obs U) : Supervisor U :=
  { s with trace := o :: s.trace }

/-- `self._command_queue.put_nowait((c, u))` -/
def put (s : Supervisor U) (c : Command) (u : U) : Supervisor U :=
  { s with queue := s.queue ++ [(c, u)] }.log (.queued c u)

def Call.notify (c : Call U) (e : EventRef U) : Call U :=
  { c with helpers := c.helpers.map fun h => if h = (e, .waiting) then (e, .notified) else h }

/-- `event.set()`, which wakes the tasks waiting for the event. -/
def setEvent (s : Supervisor U) (e : EventRef U) : Supervisor U :=
  { s with
    events := Function.update s.events e true
    loop := match s.loop with
      | .waiting c => .waiting (c.notify e)
      | l => l }

/-- `event.clear()` -/
def clearEvent (s : Supervisor U) (e : EventRef U) : Supervisor U :=
  { s with events := Function.update s.events e false }

end Supervisor

end Silkjam
