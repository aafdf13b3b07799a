import Silkjam.Supervisor.RunUnit

/-!
# `_supervise_until` and `_stop`

The supervise loop, cut at its awaits. One call starts (`superviseUntil`), is woken from
`asyncio.wait` any number of times (`wake`) and, when its return condition holds or something
raised, leaves its task group (`leave`). The tasks it creates take their own steps: `monitorStep` is
the one that waits for a command, `helperStep` one that waits for an event.

`asyncio.wait` takes at least two turns of the event loop, so every task has taken its first step
before the loop is woken; `Call.canWake` asks for that.
-/

namespace Silkjam.Supervisor

variable {U : Type} [DecidableEq U]

/-! ### Commands -/

/-- `self._stop_unit(unit)` called from the command handler. -/
def handleStopUnit (s : Supervisor U) (u : U) : Supervisor U × Option (Exc U) :=
  match s.stopUnit u with
  | .ok s => (s, none)
  | .error e => (s, some e)

/-- The body of the loop of `_handle_command_queue`, with the exception it raises. -/
def handleCommand (s : Supervisor U) (c : Command) (u : U) : Supervisor U × Option (Exc U) :=
  match c with
  | .start =>
    if u ∉ s.units then (s, some (.runtimeError u "has not been added or has been removed"))
    else if (s.state u).task ≠ none then (s, some (.runtimeError u "is already running"))
    else (s.startUnit u, none)
  | .stop =>
    if u ∉ s.units then (s, some (.runtimeError u "has not been added or has been removed"))
    else if (s.state u).status = .entering then
      if (s.state u).forcePendingStop then s.handleStopUnit u else (s, none)
    else if (s.state u).pendingStart then (s, none)
    else if (s.state u).task = none then (s, some (.runtimeError u "is not running"))
    else s.handleStopUnit u

def handleLogged (s : Supervisor U) (c : Command) (u : U) : Supervisor U × Option (Exc U) :=
  let (s', err) := s.handleCommand c u
  (s'.log (.handled c u (decide (u ∈ s.units)) (s.state u).task err), err)

/-- The loop of `_handle_command_queue` over the commands left to handle, the last ones of which are
still in the queue. -/
def drainQueue (allowed : List Command) :
    List (Command × U) → Supervisor U → Supervisor U × Option (Exc U)
  | [], s => (s, none)
  | (c, u) :: q, s =>
    let s := { s with queue := q }
    if c ∉ allowed then drainQueue allowed q s
    else
      match s.handleLogged c u with
      | (s, none) => drainQueue allowed q s
      | (s, some e) => (s, some e)

def handleCommandQueue (s : Supervisor U) (item : Option (Command × U) := none)
    (allowed : List Command := [.start, .stop]) : Supervisor U × Option (Exc U) :=
  drainQueue allowed (item.toList ++ s.queue) s

/-! ### The loop -/

/-- Start every unit that waits to be restarted. -/
def restartReady (s : Supervisor U) : Supervisor U :=
  s.units.foldl (fun s u =>
    if (s.state u).restart ∧ (s.state u).status = .ready ∧ ¬ (s.state u).pendingStart then
      (s.startUnitNowait u).1
    else s) s

/-- Take the lock and wait for one of the tasks. -/
def enterWait (s : Supervisor U) (c : Call U) : Supervisor U :=
  { s with loop := .waiting { c with waited := s.running.map (·.1) } }

/-- The unit tasks that `asyncio.wait` finds done. -/
def doneTasks (s : Supervisor U) (c : Call U) : List TaskId :=
  c.waited.filter fun t => (s.taskResult t).isSome

def Monitor.isGot : Monitor U → Bool
  | .got _ => true
  | _ => false

/-- `asyncio.wait` can return: some task is done and each has taken its first step. The order in
which the set `done` is gone through is `order`. -/
def Call.canWake (c : Call U) (s : Supervisor U) (order : List TaskId) : Prop :=
  c.monitor ≠ .fresh ∧ (∀ h ∈ c.helpers, h.2 ≠ .fresh) ∧ order.Perm (s.doneTasks c) ∧
    (c.monitor.isGot ∨ (∃ h ∈ c.helpers, h.2 = .done) ∨ order ≠ [])

instance (c : Call U) (s : Supervisor U) (order : List TaskId) : Decidable (c.canWake s order) :=
  inferInstanceAs (Decidable (_ ∧ _ ∧ _ ∧ _))

/-- The done events. -/
def Call.takeEvents (c : Call U) : Call U :=
  let done := ((c.helpers.filter fun h => h.2 = .done).map (·.1)).toFinset
  { c with
    doneEvents := c.doneEvents ∪ done
    pendingEvents := c.pendingEvents \ done
    helpers := c.helpers.filter fun h => h.2 ≠ .done }

/-- `done_units[unit] = result; pending_units.discard(unit)` -/
def Call.takeUnit (c : Call U) (t : TaskId) (u : U) (v : Val U) : Call U :=
  { c with
    doneUnits := (c.doneUnits.filter fun e => e.1 ≠ u) ++ [(u, t, v)]
    pendingUnits := c.pendingUnits.erase u }

/-- Forget the completed task `t` of `u`. -/
def closeTask (s : Supervisor U) (t : TaskId) (u : U) : Supervisor U :=
  let s := if u ∈ s.units then s.modify (s.ref u) fun st => { st with task := none } else s
  { s with running := s.running.filter fun e => e.1 ≠ t }

/-- The done units, up to the first whose `t.result()` raises. -/
def takeUnits :
    List TaskId → Supervisor U → Call U → Supervisor U × Call U × Option (Exc U)
  | [], s, c => (s, c, none)
  | t :: ts, s, c =>
    match s.running.find? (fun e => e.1 = t), s.taskResult t with
    | some (_, u), some (.returned v) => takeUnits ts (s.closeTask t u) (c.takeUnit t u v)
    | some _, some (.raised e) => (s, c, some e)
    | _, _ => takeUnits ts s c

/-- The pending events and units; the units of the tasks in `pending` are among those of
`_running_unit_tasks`, which are added in any case. -/
def Call.addPending (c : Call U) (s : Supervisor U) : Call U :=
  { c with
    pendingEvents := c.pendingEvents ∪ (c.helpers.map (·.1)).toFinset
    pendingUnits := c.pendingUnits ∪ (s.running.map (·.2)).toFinset }

def Call.ret (c : Call U) : Bool :=
  match c.returnWhen with
  | .firstEvent => 0 < c.doneEvents.card
  | .firstUnit => 0 < c.doneUnits.length
  | .firstEventOrUnit => 0 < c.doneEvents.card || 0 < c.doneUnits.length
  | .allEvents => c.pendingEvents.card = 0
  | .allUnits => c.pendingUnits.card = 0
  | .allEventsAndUnits => c.pendingEvents.card = 0 && c.pendingUnits.card = 0

/-- A call of `_supervise_until` begins and waits. -/
def superviseUntil (s : Supervisor U) (events : List (EventRef U))
    (returnWhen : ReturnWhen := .firstEventOrUnit) : Supervisor U :=
  s.restartReady.enterWait
    { returnWhen := returnWhen
      pendingEvents := events.toFinset
      pendingUnits := (s.running.map (·.2)).toFinset
      helpers := events.dedup.map fun e => (e, .fresh) }

/-- The command that the monitor task has taken from the queue is handled, with all others. -/
def wakeCommands (s : Supervisor U) (c : Call U) : Supervisor U × Option (Exc U) :=
  match c.monitor with
  | .got item =>
    { s with loop := .waiting { c with monitor := .fresh } }.handleCommandQueue (some item)
  | _ => (s, none)

/-- After the commands, the monitor task is a new one if the last was done. -/
def Call.renewMonitor (c : Call U) : Call U :=
  if c.monitor.isGot then { c with monitor := .fresh } else c

/-- One turn of the loop, from its being woken to the next wait or to its end. -/
def wakeUp (s : Supervisor U) (c : Call U) (order : List TaskId) : Supervisor U :=
  match s.wakeCommands c with
  | (s, some e) => { s with loop := .leaving c (some e) }
  | (s, none) =>
    match takeUnits order s c.renewMonitor.takeEvents with
    | (s, c, some e) => { s with loop := .leaving c (some e) }
    | (s, c, none) =>
      let c := c.addPending s
      if c.ret then { s with loop := .leaving c none } else s.restartReady.enterWait c

def wake (s : Supervisor U) (order : List TaskId) : Option (Supervisor U) :=
  match s.loop with
  | .waiting c => if c.canWake s order then some (s.wakeUp c order) else none
  | _ => none

/-- The call returns its sets, or raises. -/
def leave (s : Supervisor U) : Option (Supervisor U) :=
  match s.loop with
  | .leaving c none => some { s with loop := .idle, returns := s.returns ++ [c] }
  | .leaving _ (some _) => some { s with loop := .idle }
  | _ => none

/-- The coroutine that awaits the call is cancelled. A command that the monitor task has taken from
the queue and that was not handled yet is lost. -/
def cancelCall (s : Supervisor U) : Option (Supervisor U) :=
  match s.loop with
  | .waiting c => some { s with loop := .leaving c (some .cancelled) }
  | .leaving c err => some { s with loop := .leaving c (some (err.getD .cancelled)) }
  | .idle => none

/-! ### The tasks of the loop -/

/-- `await self._command_queue.get()` -/
def monitorStep (s : Supervisor U) : Option (Supervisor U) :=
  match s.loop with
  | .waiting c =>
    match c.monitor, s.queue with
    | .got _, _ => none
    | _, [] => some { s with loop := .waiting { c with monitor := .blocked } }
    | _, item :: q => some { s with queue := q, loop := .waiting { c with monitor := .got item } }
  | _ => none

/-- `await event.wait()`, from one state of the task to the next. -/
def Helper.step (isSet : Bool) : Helper → Option Helper
  | .fresh => some (if isSet then .done else .waiting)
  | .notified => some .done
  | .waiting | .done => none

def Call.setHelper (c : Call U) (e : EventRef U) (h : Helper) : Call U :=
  { c with helpers := c.helpers.map fun x => if x.1 = e then (e, h) else x }

def helperStep (s : Supervisor U) (e : EventRef U) : Option (Supervisor U) :=
  match s.loop with
  | .waiting c =>
    match c.helpers.find? fun h => h.1 = e with
    | some (_, h) => (h.step (s.events e)).map fun h' =>
        { s with loop := .waiting (c.setHelper e h') }
    | none => none
  | _ => none

/-! ### Stopping the supervisor -/

def stopAll (s : Supervisor U) : Supervisor U :=
  s.units.foldl (fun s u => (s.stopUnitNowait u true).1) s

/-- `_stop`, up to the first await of its supervise loop. -/
def stop (s : Supervisor U) : Supervisor U :=
  let s := s.stopAll
  if 0 < s.running.length ∨ s.queue ≠ [] then s.superviseUntil [] .allUnits else s

end Silkjam.Supervisor
