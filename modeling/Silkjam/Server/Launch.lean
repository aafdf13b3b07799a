import Silkjam.Lib.Failing
import Silkjam.Orchestrator.Ports
import Silkjam.Server.Backend

/-!
# Starting and stopping a backend

`MCBackend._start` and `_stop`, run by the orchestrator's `_run_unit` through the `__aenter__` and
`__aexit__` of `BaseUnit`. `_start` acquires ports on an exit stack, rewrites the properties files,
creates the server's process and waits until the server is initialised; it may raise at every one of
these steps, and what it did before stays done. `_run_unit` then runs the whole of `_stop`.

The coroutines are cut at their awaits (`Code`). What files, processes and sockets answer is given
to the action that reads it (`Files`, `Teardown`). An attribute that is not set yet is `none`: only
`__init__` declares `server_proc`, `_start` sets it.
-/

namespace Silkjam.Server

open Supervisor Transition Orchestrator

/-! ### Exceptions

Exception objects are numbered: 0 is the `AttributeError` of reading `server_proc` before it is set,
1 an `AcquirePortError`, and those that the environment raises come after them. -/

def attributeError : Exc UnitId := .other 0

def acquirePortError : Exc UnitId := .other 1

/-- An exception of the environment. -/
def foreign : Exc UnitId → Exc UnitId
  | .other n => .other (n + 2)
  | e => e

theorem foreign_ne_attributeError (e : Exc UnitId) : foreign e ≠ attributeError := by
  cases e <;> simp [foreign, attributeError]

/-! ### What the environment answers -/

/-- `ServerProperties`, as far as `_start` reads or writes it. -/
structure ServerProperties where
  serverPort : Option Int
  rconPort : Option Int
  rconPassword : Option Text
  enableRcon : Bool

structure VoiceChatServerProperties where
  port : Int
  voiceHost : Option Text

/-- An `asyncio.subprocess.Process`. -/
structure Process where
  pid : Nat

/-- The files that `_start` reads and writes. `icon` and `voicechat` may not exist. -/
structure Files where
  icon : Except (Exc UnitId) (Option Text)
  load : Except (Exc UnitId) ServerProperties
  dump : Except (Exc UnitId) Unit
  /-- loading and dumping `voicechat-server.properties` -/
  voicechat : Option (Except (Exc UnitId) VoiceChatServerProperties × Except (Exc UnitId) Unit)

/-- How a wait for the end of the process ends. -/
inductive Wait where
  | exited | timedOut
  | raised (e : Exc UnitId)

/-- What `_stop` meets as it closes the process. -/
structure Teardown where
  /-- the process has exited already -/
  exited : Bool
  /-- sending `stop` on its standard input -/
  drain : Except (Exc UnitId) Unit
  /-- the waits after `stop`, SIGINT and SIGTERM -/
  stop : Wait
  sigint : Wait
  sigterm : Wait
  /-- logging the rest of its output -/
  logs : Except (Exc UnitId) Unit

def Wait.isRaised : Wait → Bool
  | .raised _ => true
  | _ => false

def Teardown.quiet (env : Teardown) : Bool :=
  env.drain.isOk && !env.stop.isRaised && !env.sigint.isRaised && !env.sigterm.isRaised &&
    env.logs.isOk

/-! ### The backend -/

/-- Where the code of the backend is: not started or after a start that failed, in `_start` waiting
for the process to be created or for the server to be initialised, started, or in `_stop` waiting
for its units or for the end of the process. -/
inductive Code where
  | idle | creating | initialising | started | stopping | closing
  deriving DecidableEq

/-- An `MCBackend`, as far as `_start` and `_stop` go, with the orchestrator and its ports. `units`
is the backend as a supervisor; `stack` are the contexts on `self.stack`, the last one first.
`own` and `raised` are histories that no function of the program reads: the contexts that the
backend has ever entered, and for each task of the orchestrator what `_start` raised in it. -/
structure Launch where
  id : Nat
  ports : Ports
  units : Supervisor BackendUnit
  started : Bool := false
  stack : Option (List Nat) := none
  serverProc : Option Process := none
  icon : Option Text := none
  properties : ServerProperties
  voicechatProperties : Option VoiceChatServerProperties := none
  voiceHost : Option Text
  code : Code := .idle
  own : List Nat := []
  raised : TaskId → Option (Exc UnitId) := fun _ => none

namespace Launch

def unit (w : Launch) : UnitId :=
  .backend w.id

def sup (w : Launch) : Supervisor UnitId :=
  w.ports.orchestrator.supervisor

def setSup (w : Launch) (s : Supervisor UnitId) : Launch :=
  { w with ports := { w.ports with orchestrator := { w.ports.orchestrator with supervisor := s } } }

def held (w : Launch) : List Nat :=
  w.stack.getD []

/-! ### `_start` -/

/-- `self.stack.enter_context(self.port_factory(protocol))` -/
def enterPort (protocol : PortProtocol) : EStateM (Exc UnitId) Launch Int := fun w =>
  match w.ports.orchestrator.acquirePort protocol with
  | .error _ => .error acquirePortError w
  | .ok (port, o) =>
    .ok port
      { w with
        ports := w.ports.hold o protocol port
        stack := w.stack.map (w.ports.nextContext :: ·)
        own := w.ports.nextContext :: w.own }

def answer {α : Type} (r : Except (Exc UnitId) α) : EStateM (Exc UnitId) Launch α :=
  match r with
  | .ok a => pure a
  | .error e => throw (foreign e)

def superStart (w : Launch) : Launch :=
  { w with stack := some [] }

def setProperties (properties : ServerProperties) (serverPort rconPort : Int) (w : Launch) :
    Launch :=
  { w with
    properties :=
      { serverPort := some serverPort
        rconPort := some rconPort
        enableRcon := true
        rconPassword :=
          match properties.rconPassword with
          | none | some [] => some "admin".toList
          | password => password } }

def setVoicechatProperties (properties : VoiceChatServerProperties) (voicePort : Int) (w : Launch) :
    Launch :=
  { w with
    voicechatProperties := some
      { port := voicePort
        voiceHost := w.voiceHost.orElse fun _ => properties.voiceHost } }

/-- `_start`, after `super()._start()` and up to the await of the process. -/
def prepare (files : Files) : EStateM (Exc UnitId) Launch Unit := do
  let icon ← answer files.icon
  modify fun w => { w with icon := icon }
  let serverPort ← enterPort .tcp
  let rconPort ← enterPort .tcp
  let properties ← answer files.load
  modify (setProperties properties serverPort rconPort)
  answer files.dump
  modify fun w => { w with voicechatProperties := none }
  match files.voicechat with
  | none => pure ()
  | some (load, dump) =>
    let voicePort ← enterPort .udp
    let properties ← answer load
    modify (setVoicechatProperties properties voicePort)
    answer dump

def start (files : Files) : EStateM (Exc UnitId) Launch Unit := do
  modify superStart
  prepare files

/-- The end of `_start`. -/
def startUnits (w : Launch) : Launch :=
  let units := (w.units.startUnitNowait .sleepTimer).1
  let units := (units.startUnitNowait .statusChecker).1
  { w with units := (units.startUnitNowait .backupManager).1 }

/-! ### `_stop` -/

/-- `await self.stack.__aexit__(*args); del self.stack` -/
def closeStack (w : Launch) : Launch :=
  { w with
    ports := w.held.foldl (fun s n => (s.step (.exit n)).getD s) w.ports
    stack := none }

/-- The waits for the end of the process, each after the signal that is sent if the one before timed
out. -/
def waitAll : List Wait → Except (Exc UnitId) Unit
  | [] | .exited :: _ => .ok ()
  | .timedOut :: waits => waitAll waits
  | .raised e :: _ => .error e

/-- `_stop`, after the stack was closed, with the process set. The `finally` block, which sends
SIGKILL, suppresses what it raises. -/
def closeProcess (env : Teardown) : Except (Exc UnitId) Unit := do
  if !env.exited then
    env.drain
    waitAll [env.stop, env.sigint, env.sigterm]
  env.logs

/-- The test that `MCOrchestrator.run` makes of an item of `done_units`, before it stops the
backend. -/
def portFailed (d : UnitId × TaskId × Val UnitId) : Bool :=
  match d with
  | (.backend _, _, .exc e) => e = acquirePortError
  | _ => false

/-! ### The backend as a unit -/

/-- Task `t` of the orchestrator awaits the backend's `__aenter__`. -/
def inEnter (w : Launch) (t : TaskId) : Bool :=
  match w.sup.tasks t with
  | some ⟨u, .entering _, _⟩ => u = w.unit
  | _ => false

/-- Task `t` of the orchestrator awaits the backend's `__aexit__`. -/
def inExit (w : Launch) (t : TaskId) : Bool :=
  match w.sup.tasks t with
  | some ⟨u, .exiting _, _⟩ => u = w.unit
  | _ => false

def stepSup (w : Launch) (a : Supervisor.Action UnitId) : Option Launch :=
  (w.sup.step a).map w.setSup

def startFailed (w : Launch) (t : TaskId) (e : Exc UnitId) : Option Launch :=
  { w with code := .idle, raised := Function.update w.raised t (some e) }.stepSup
    (.resume t (.raise e))

/-- `__aenter__` returns. -/
def entered (w : Launch) (t : TaskId) : Option Launch :=
  { w with code := .started }.stepSup (.resume t (.ok .none))

/-- `__aexit__` ends. -/
def ended (w : Launch) (t : TaskId) (o : Outcome UnitId) : Option Launch :=
  { w with code := .idle }.stepSup (.resume t o)

inductive Action where
  /-- the supervise loop of the orchestrator, or another unit of it -/
  | sup (a : Supervisor.Action UnitId)
  /-- another backend enters or exits a context of `acquire_port` -/
  | ports (a : PortAction)
  | reconfigure (config : Config) (proxies : Dict Text MCProxy)
  /-- the supervise loop of the backend, or a unit of it -/
  | units (a : Supervisor.Action BackendUnit)
  /-- `__aenter__`, up to the await of the process -/
  | enter (t : TaskId) (files : Files)
  | created (t : TaskId) (r : Except (Exc UnitId) Process)
  | initialised (t : TaskId) (r : Except (Exc UnitId) Unit)
  /-- `__aexit__`, up to the supervise loop of `Supervisor._stop` -/
  | exit (t : TaskId)
  /-- that loop is over -/
  | release (t : TaskId)
  /-- it raises, in the end `e` -/
  | unitsFailed (t : TaskId) (e : Exc UnitId)
  /-- the rest of `_stop` -/
  | closed (t : TaskId) (env : Teardown)

/-- The action is a segment of a task that awaits the code of the backend. -/
def Resumes (w : Launch) : Supervisor.Action UnitId → Prop
  | .resume t _ => w.inEnter t = true ∨ w.inExit t = true
  | _ => False

instance (w : Launch) : (a : Supervisor.Action UnitId) → Decidable (w.Resumes a)
  | .resume t _ => inferInstanceAs (Decidable (w.inEnter t = true ∨ w.inExit t = true))
  | .addUnit .. | .removeUnit _ | .startUnit _ | .stopUnit .. | .setEvent _ | .clearEvent _
  | .monitorStep | .helperStep _ | .supervise .. | .wake _ | .leave | .cancel | .stop =>
    inferInstanceAs (Decidable False)

/-- The action begins or ends the supervise loop of `_stop`. -/
def Reserved (w : Launch) : Supervisor.Action BackendUnit → Prop
  | .stop => True
  | .leave => w.code = .stopping ∧ w.units.loop.raised = true
  | _ => False

instance (w : Launch) : (a : Supervisor.Action BackendUnit) → Decidable (w.Reserved a)
  | .stop => inferInstanceAs (Decidable True)
  | .leave => inferInstanceAs (Decidable (w.code = .stopping ∧ w.units.loop.raised = true))
  | .addUnit .. | .removeUnit _ | .startUnit _ | .stopUnit .. | .setEvent _ | .clearEvent _
  | .resume .. | .monitorStep | .helperStep _ | .supervise .. | .wake _ | .cancel =>
    inferInstanceAs (Decidable False)

/-- The context that the action exits. -/
def exited : PortAction → Option Nat
  | .exit n => some n
  | .enter _ => none

def step (w : Launch) : Action → Option Launch
  | .sup a => if w.Resumes a then none else w.stepSup a
  | .ports a =>
    if ∃ n ∈ w.held, exited a = some n then none
    else (w.ports.step a).map fun ports => { w with ports := ports }
  | .reconfigure config proxies =>
    some { w with ports := { w.ports with
      orchestrator := { w.ports.orchestrator with config := config, proxies := proxies } } }
  | .units a =>
    if (w.code = .started ∨ w.code = .stopping ∧ w.units.loop.isIdle = false) ∧
        ¬ w.Reserved a then
      (w.units.step a).map fun units => { w with units := units }
    else none
  | .enter t files =>
    if w.inEnter t ∧ w.code = .idle then
      if w.started then w.entered t
      else
        match (start files).run { w with started := true } with
        | .ok () w => some { w with code := .creating }
        | .error e w => w.startFailed t e
    else none
  | .created t r =>
    if w.inEnter t ∧ w.code = .creating then
      match r with
      | .ok proc => some { w with serverProc := some proc, code := .initialising }
      | .error e => w.startFailed t (foreign e)
    else none
  | .initialised t r =>
    if w.inEnter t ∧ w.code = .initialising then
      match r with
      | .ok () => w.startUnits.entered t
      | .error e => w.startFailed t (foreign e)
    else none
  | .exit t =>
    if w.inExit t ∧ (w.code = .idle ∨ w.code = .started) then
      if w.started then some { w with started := false, units := w.units.stop, code := .stopping }
      else w.ended t (.ok .none)
    else none
  | .release t =>
    if w.inExit t ∧ w.code = .stopping ∧ w.units.loop.isIdle then
      match w.serverProc with
      | none => w.closeStack.ended t (.raise attributeError)
      | some _ => some { w.closeStack with code := .closing }
    else none
  | .unitsFailed t e =>
    if w.inExit t ∧ w.code = .stopping ∧ w.units.loop.raised then
      w.units.leave.bind fun units => { w with units := units }.ended t (.raise (foreign e))
    else none
  | .closed t env =>
    if w.inExit t ∧ w.code = .closing then
      match closeProcess env with
      | .ok () => w.ended t (.ok .none)
      | .error e => w.ended t (.raise (foreign e))
    else none

/-- A new backend, of an orchestrator that supervises nothing yet. -/
def init (id : Nat) (o : MCOrchestrator) (listing : ServerListing) (properties : ServerProperties)
    (voiceHost : Option Text) : Launch where
  id := id
  ports := .start { o with supervisor := {} }
  units := (MCBackend.init listing).units
  properties := properties
  voiceHost := voiceHost

end Launch

end Silkjam.Server
