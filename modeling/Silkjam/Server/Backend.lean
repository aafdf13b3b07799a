import Silkjam.Config
import Silkjam.Supervisor.System
import Silkjam.Supervisor.Timer

/-!
# A backend

An `MCBackend` is a supervisor of three units, the sleep timer, the status checker and the backup
manager, and at the same time a unit of the orchestrator. Its task `supervise` waits in
`supervise_until` for a change of the number of players or for the end of a unit, and what it does
then, up to the next wait, is one segment. The number of players has three writers: forwarded logins
count up when they begin and down when they end, status polls overwrite it.

What a unit's own code does is an `Outcome`, so a timer may end whenever its task can resume.
`trace` is a history of the stops that `supervise` requested, which no function of the program
reads.
-/

namespace Silkjam.Server

open Supervisor Transition

inductive BackendUnit where
  | sleepTimer | statusChecker | backupManager
  deriving DecidableEq

/-- Where the task `supervise` of a run of the backend is: not begun, in `supervise_until`, or
ended. -/
inductive SuperviseTask where
  | created | supervising | finished
  deriving DecidableEq

inductive Obs where
  /-- `supervise` requested the stop of the server while the logins `sessions` were in progress -/
  | stopRequested (sessions : Finset Nat)
  deriving DecidableEq

/-- An `MCBackend`. `units` is the backend as a supervisor; `status` and `pendingStop` are what
`self.supervisor` has in the `State` of the backend itself; `players` is `_online_players`;
`sessions` are the forwarded logins that have begun and not ended. -/
structure MCBackend where
  listing : ServerListing
  units : Supervisor BackendUnit := {}
  status : Status := .stopped
  pendingStop : Bool := false
  sleepTimer : Timer
  statusChecker : Timer
  players : Int := 0
  superviseTask : SuperviseTask := .finished
  sessions : Finset Nat := ∅
  nextSession : Nat := 0
  now : Time := 0
  trace : List Obs := []

def onlinePlayerChange : EventRef BackendUnit := .other 0

/-- `MCStatusChecker.INTERVAL` -/
def INTERVAL : Time := seconds 1

namespace MCBackend

/-- `self.listing.sleep_properties.timeout` -/
def sleepTimeout (s : MCBackend) : Option Time :=
  s.listing.sleepProperties.timeout.map fun n => seconds n.val

def mcprocRunning (s : MCBackend) : Bool :=
  s.status = .running

/-- `_online_player_change.is_set()` -/
def changed (s : MCBackend) : Bool :=
  s.units.events onlinePlayerChange

/-! ### The number of players -/

def onlinePlayers (s : MCBackend) : Int :=
  if s.mcprocRunning then s.players else 0

def setOnlinePlayers (s : MCBackend) (value : Int) : MCBackend :=
  { s with players := value, units := s.units.setEvent onlinePlayerChange }

def incrOnlinePlayers (s : MCBackend) : MCBackend :=
  s.setOnlinePlayers (s.onlinePlayers + 1)

def decrOnlinePlayers (s : MCBackend) : MCBackend :=
  s.setOnlinePlayers (s.onlinePlayers - 1)

def updateStats (s : MCBackend) (online : Nat) (version : Version) : MCBackend :=
  let s := s.setOnlinePlayers online
  if s.listing.version ≠ version then { s with listing := { s.listing with version := version } }
  else s

/-! ### The units -/

/-- `self.start_unit_nowait(unit)` -/
def startUnitNowait (s : MCBackend) (u : BackendUnit) : MCBackend :=
  { s with units := (s.units.startUnitNowait u).1 }

/-- `self.is_stopped(unit)`, of a unit that was added -/
def isStopped (s : MCBackend) (u : BackendUnit) : Bool :=
  (s.units.state u).status = .stopped

/-- `self.status_checker.check_nowait()` -/
def checkNowait (s : MCBackend) : MCBackend :=
  { s with statusChecker := s.statusChecker.setRemaining s.now 0 }

/-- `_start` of a unit, as far as it writes a timer. -/
def unitStarted (s : MCBackend) : BackendUnit → MCBackend
  | .sleepTimer => { s with sleepTimer := s.sleepTimer.start s.now }
  | .statusChecker => { s with statusChecker := s.statusChecker.start s.now }.checkNowait
  | .backupManager => s

/-- `_stop` of a unit, as far as it writes a timer. -/
def unitStopped (s : MCBackend) : BackendUnit → MCBackend
  | .sleepTimer => { s with sleepTimer := s.sleepTimer.stop }
  | .statusChecker => { s with statusChecker := s.statusChecker.stop }
  | .backupManager => s

/-- What the code of a unit writes in a segment of its task that ends its enter or its exit. -/
def unitCode (s : MCBackend) (task : Option (UnitTask BackendUnit)) (o : Outcome BackendUnit) :
    MCBackend :=
  match task, o with
  | some ⟨u, .entering _, _⟩, .ok _ => s.unitStarted u
  | some ⟨u, .exiting _, _⟩, .ok _ => s.unitStopped u
  | _, _ => s

/-! ### `supervise` -/

/-- `self.supervisor.stop_unit_nowait(self)`, called while the backend is starting, running or
stopping -/
def stopUnitNowait (s : MCBackend) : MCBackend :=
  { s with pendingStop := true }

/-- The call in `supervise`. -/
def stopServer (s : MCBackend) : MCBackend :=
  { s.stopUnitNowait with trace := .stopRequested s.sessions :: s.trace }

/-- `self.sleep_timer.timeout = self.listing.sleep_properties.timeout; self.sleep_timer.reset()` -/
def armSleepTimer (s : MCBackend) : MCBackend :=
  { s with sleepTimer := (s.sleepTimer.setTimeout s.sleepTimeout).reset s.now }

/-- `self.sleep_timer.timeout = None` -/
def suspendSleepTimer (s : MCBackend) : MCBackend :=
  { s with sleepTimer := s.sleepTimer.setTimeout none }

def playersChanged (s : MCBackend) : MCBackend :=
  if s.onlinePlayers = 0 then
    if s.isStopped .sleepTimer then s.stopServer
    else if s.sleepTimer.timeout = none then s.armSleepTimer
    else s
  else
    let s := if s.isStopped .sleepTimer then s.startUnitNowait .sleepTimer else s
    if s.sleepTimer.timeout ≠ none then s.suspendSleepTimer else s

/-- `self._online_player_change.clear()` -/
def clearChange (s : MCBackend) : MCBackend :=
  { s with units := s.units.clearEvent onlinePlayerChange }

/-- `await self.supervise_until([self._online_player_change])`, up to its first wait -/
def superviseUntil (s : MCBackend) : MCBackend :=
  { s with
    units := s.units.superviseUntil [onlinePlayerChange]
    superviseTask := .supervising }

def doneUnits (c : Call BackendUnit) : List BackendUnit :=
  c.doneUnits.map Prod.fst

/-- The body of the loop after `supervise_until` returned what is in `c`, up to the next wait or to
the `RuntimeError` that ends the task. -/
def superviseBody (s : MCBackend) (c : Call BackendUnit) : MCBackend :=
  let s := if onlinePlayerChange ∈ c.doneEvents then s.playersChanged.clearChange else s
  let s := if .sleepTimer ∈ doneUnits c then s.checkNowait else s
  if .statusChecker ∈ doneUnits c then { s with superviseTask := .finished }
  else s.superviseUntil

/-- `supervise_until` returns or raises, and `supervise` goes on. -/
def superviseReturned (s : MCBackend) : Option MCBackend :=
  match s.units.loop, s.units.leave with
  | .leaving c none, some units => some ({ s with units := units }.superviseBody c)
  | .leaving _ (some _), some units => some { s with units := units, superviseTask := .finished }
  | _, _ => none

/-! ### The life of a backend -/

/-- The end of `_start`, after which the backend runs. -/
def entered (s : MCBackend) : MCBackend :=
  { (((s.startUnitNowait .sleepTimer).startUnitNowait .statusChecker).startUnitNowait
      .backupManager) with
    status := .running
    superviseTask := .created }

/-- The cleanup of the task that ran the backend. -/
def exited (s : MCBackend) : MCBackend :=
  { s with
    status := if s.pendingStop then .stopped else .ready
    pendingStop := false }

/-- The supervisor of the backend takes a step of its own. -/
def stepUnits (s : MCBackend) (a : Supervisor.Action BackendUnit) : Option MCBackend :=
  (s.units.step a).map fun units => { s with units := units }

/-- The unit `u` is added, as a stopped one. -/
def addUnit (s : MCBackend) (u : BackendUnit) (restart : Bool) : MCBackend :=
  { s with units := (s.units.addUnit u restart true).1 }

def init (listing : ServerListing) : MCBackend :=
  let s : MCBackend :=
    { listing := listing
      sleepTimer := { timeout := listing.sleepProperties.timeout.map fun n => seconds n.val }
      statusChecker := { timeout := some INTERVAL } }
  let s := ((s.addUnit .sleepTimer false).addUnit .statusChecker false).addUnit .backupManager true
  { s with units := s.units.setEvent onlinePlayerChange }

end MCBackend

/-! ### The backend as a system -/

inductive Action where
  /-- a forwarded login begins -/
  | beginSession
  /-- the forwarded login `session` ends -/
  | endSession (session : Nat)
  /-- a status poll -/
  | poll (online : Nat) (version : Version)
  /-- a segment of the task `t` of a unit -/
  | resume (t : TaskId) (o : Outcome BackendUnit)
  | monitorStep
  | helperStep (e : EventRef BackendUnit)
  | wake (order : List TaskId)
  /-- `supervise` begins -/
  | supervise
  /-- `supervise_until` returns to `supervise` -/
  | superviseReturned
  /-- `supervise` is cancelled -/
  | cancelSupervise
  /-- the backend begins to start -/
  | enter
  /-- it has started, and `run` begins -/
  | entered
  /-- starting it raised, or `run` is over: `_stop` begins -/
  | exit
  /-- the supervise loop of `_stop` is over -/
  | leave
  /-- it has stopped -/
  | exited
  /-- someone else requests the stop of the server -/
  | stopMcproc
  | advance (time : Nat)

namespace MCBackend

def step (s : MCBackend) : Action → Option MCBackend
  | .beginSession =>
    some { s.incrOnlinePlayers with
      sessions := insert s.nextSession s.sessions
      nextSession := s.nextSession + 1 }
  | .endSession session =>
    if session ∈ s.sessions then
      some { s.decrOnlinePlayers with sessions := s.sessions.erase session }
    else none
  | .poll online version => some (s.updateStats online version)
  | .resume t o => (s.stepUnits (.resume t o)).map fun s' => s'.unitCode (s.units.tasks t) o
  | .monitorStep => s.stepUnits .monitorStep
  | .helperStep e => s.stepUnits (.helperStep e)
  | .wake order => s.stepUnits (.wake order)
  | .supervise =>
    if s.status = .running ∧ s.superviseTask = .created then some s.superviseUntil else none
  | .superviseReturned => if s.superviseTask = .supervising then s.superviseReturned else none
  | .cancelSupervise => if s.superviseTask = .supervising then s.stepUnits .cancel else none
  | .enter =>
    match s.status with
    | .ready | .stopped => some { s with status := .entering }
    | _ => none
  | .entered => if s.status = .entering then some s.entered else none
  | .exit =>
    if s.status = .entering ∨ s.status = .running ∧ s.superviseTask ≠ .supervising then
      (s.stepUnits .stop).map fun s => { s with status := .exiting, superviseTask := .finished }
    else none
  | .leave => if s.status = .exiting then s.stepUnits .leave else none
  | .exited => if s.status = .exiting ∧ s.units.loop.isIdle then some s.exited else none
  | .stopMcproc =>
    match s.status with
    | .ready | .stopped => some { s with status := .stopped }
    | _ => some s.stopUnitNowait
  | .advance time => some { s with now := s.now + time }

end MCBackend

end Silkjam.Server
