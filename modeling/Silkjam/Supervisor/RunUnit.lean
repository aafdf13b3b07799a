import Silkjam.Supervisor.Api

/-!
# `_run_unit`

The coroutine that takes a unit through one lifecycle, cut at its awaits: each function below runs
from one await to the next, `runSegment` picks the one at which the task is suspended. What the
unit's own code does at an await is an `Outcome`. A call of it that does not suspend at all is one
that is resumed before anything else happens.

Each of the three handlers of the source repeats `if isinstance(KeyboardInterrupt, SystemExit):
raise`. The test asks whether the class `KeyboardInterrupt` is an instance of `SystemExit`; it is
not, so no handler raises and the branch has no counterpart here.
-/

namespace Silkjam.Supervisor

variable {U : Type} [DecidableEq U]

/-- What an await of a unit's enter, run or exit gives: it ends, with the value of `run`, it raises,
or it swallows a cancellation and goes on waiting. -/
inductive Outcome (U : Type) where
  | ok (v : Val U)
  | raise (e : Exc U)
  | suspend

def startUnit (s : Supervisor U) (u : U) : Supervisor U :=
  let t := s.nextTask
  { s with
    tasks := Function.update s.tasks t (some { unit := u })
    nextTask := t + 1
    running := s.running ++ [(t, u)] }.modify (s.ref u) fun st => { st with task := some t }

def stopUnit (s : Supervisor U) (u : U) : Except (Exc U) (Supervisor U) :=
  if u ∉ s.units then .error .keyError
  else
    match (s.state u).task with
    | none => .error .assertionError
    | some t => .ok ((s.cancelTask t).log (.cancel t u (s.state u).status))

def finish (s : Supervisor U) (t : TaskId) (res : TaskResult U) : Supervisor U :=
  s.setPc t (.finished res)

/-- The `finally` block up to the await of the unit's exit. -/
def exitUnit (s : Supervisor U) (t : TaskId) (r : StateRef U) : Supervisor U :=
  (((s.setEvent (.doneEntering r)).modify r fun st =>
    { st with pendingStart := false, status := .exiting }).log (.exit t r.unit)).setPc t (.exiting r)

/-- Entering or running raised `e`. -/
def phaseFailed (s : Supervisor U) (t : TaskId) (r : StateRef U) (e : Exc U) : Supervisor U :=
  (s.modify r fun st => { st with result := .exc e }).exitUnit t r

def enterUnit (s : Supervisor U) (t : TaskId) (r : StateRef U) : Supervisor U :=
  (s.log (.enter t r.unit)).setPc t (.entering r)

def callRun (s : Supervisor U) (t : TaskId) (r : StateRef U) : Supervisor U :=
  (s.log (.run t r.unit)).setPc t (.running r)

/-- The assignments at the start of the coroutine. -/
def setEntering (s : Supervisor U) (r : StateRef U) : Supervisor U :=
  (((s.modify r fun st => { st with result := .none }).clearEvent (.doneEntering r)).clearEvent
    (.doneExiting r)).modify r fun st => { st with status := .entering }

/-- The first segment, from the start of the coroutine. -/
def beginUnit (s : Supervisor U) (t : TaskId) (u : U) : Supervisor U :=
  if u ∉ s.units then s.finish t (.raised .keyError)
  else
    let r := s.ref u
    let s := s.setEntering r
    if (s.heap r).pendingStop ∧ (s.heap r).forcePendingStop then
      match s.stopUnit u with
      | .error e => s.phaseFailed t r e
      | .ok s => s.setPc t (.enterSleep r)
    else s.enterUnit t r

def setRunning (s : Supervisor U) (r : StateRef U) : Supervisor U :=
  (s.setEvent (.doneEntering r)).modify r fun st =>
    { st with pendingStart := false, status := .running }

def unitEntered (s : Supervisor U) (t : TaskId) (r : StateRef U) : Supervisor U :=
  let s := s.setRunning r
  if (s.heap r).pendingStop then
    match s.stopUnit r.unit with
    | .error e => s.phaseFailed t r e
    | .ok s => s.setPc t (.runSleep r)
  else s.callRun t r

/-- The first assignments of the cleanup. -/
def setExited (s : Supervisor U) (r : StateRef U) : Supervisor U :=
  ((s.setEvent (.doneExiting r)).modify r fun st =>
    { st with
      status := if st.pendingStop || !st.restart then .stopped else .ready }).modify r fun st =>
    { st with pendingStop := false, forcePendingStop := false }

/-- The end of the cleanup, after the task's own entry in `_running_unit_tasks` was dealt with. -/
def cleanupDone (s : Supervisor U) (t : TaskId) (r : StateRef U) : Supervisor U :=
  ((s.modify r fun st => { st with task := none }).clearEvent (.doneEntering r)).finish t
    (.returned (s.heap r).result)

/-- The last segment, from the return of the unit's exit to the end of the coroutine. -/
def cleanup (s : Supervisor U) (t : TaskId) (r : StateRef U) : Supervisor U :=
  let s := s.setExited r
  if s.locked then s.cleanupDone t r
  else
    match (s.heap r).task with
    | none => s.finish t (.raised .assertionError)
    | some t' =>
      if t' ∈ s.running.map (·.1) then
        { s with running := s.running.filter fun e => e.1 ≠ t' }.cleanupDone t r
      else s.finish t (.raised .keyError)

/-- One segment of the task `t`, whose record is `k`. A task cancelled before its first segment ends
without running any of its coroutine. -/
def runSegment (s : Supervisor U) (t : TaskId) (k : UnitTask U) (o : Outcome U) :
    Option (Supervisor U) :=
  let s := s.clearCancel t
  match k.pc, o with
  | .created, _ =>
    if k.cancel then some (s.finish t (.raised .cancelled)) else some (s.beginUnit t k.unit)
  | .enterSleep r, _ =>
    if k.cancel then some (s.phaseFailed t r .cancelled) else some (s.enterUnit t r)
  | .entering r, .ok _ => some (s.unitEntered t r)
  | .entering r, .raise e => some (s.phaseFailed t r e)
  | .runSleep r, _ =>
    if k.cancel then some (s.phaseFailed t r .cancelled) else some (s.callRun t r)
  | .running r, .ok v => some ((s.modify r fun st => { st with result := v }).exitUnit t r)
  | .running r, .raise e => some (s.phaseFailed t r e)
  | .exiting r, .ok _ => some (s.cleanup t r)
  | .exiting r, .raise e => some ((s.modify r fun st => { st with result := .exc e }).cleanup t r)
  | .entering _, .suspend | .running _, .suspend | .exiting _, .suspend => some s
  | .finished _, _ => none

end Silkjam.Supervisor
