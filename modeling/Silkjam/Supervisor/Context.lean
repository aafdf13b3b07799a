import Silkjam.Supervisor.StopWins

/-!
# The units and the stack of a supervisor

What `_run_unit` calls: the unit's `__aenter__`, through the `AsyncExitStack` of the supervisor, and
its `__aexit__`, of which `BaseUnit` is the part that decides whether `_start` and `_stop` are
called. Every enter that returns leaves the unit's `__aexit__` on the stack; the supervisor's own
exit calls what has come to be there, one by one, after its supervise loop.

A task calls the unit as it comes to the await of the unit's enter or exit, so the calls are read
off from where a segment began and where it ended. `calls` and `stopAccepted` are histories, which
no function of the program reads; a call is recorded with the number of the unit's lifecycle that
makes it, which is the number of STARTs queued for the unit so far, or with none if it is the stack
that makes it.
-/

namespace Silkjam.Supervisor

open Transition

/-! ### Units -/

inductive Hook where
  | start | stop
  deriving DecidableEq

structure HookCall where
  hook : Hook
  lifecycle : Option Nat
  deriving DecidableEq

/-- A `BaseUnit`; the last call comes first. -/
structure BaseUnit where
  started : Bool := false
  calls : List HookCall := []

/-- `__aenter__`, up to the end of `_start` -/
def BaseUnit.aenter (b : BaseUnit) (lifecycle : Option Nat) : BaseUnit :=
  if b.started then b else { started := true, calls := ⟨.start, lifecycle⟩ :: b.calls }

/-- `__aexit__`, up to the end of `_stop` -/
def BaseUnit.aexit (b : BaseUnit) (lifecycle : Option Nat) : BaseUnit :=
  if b.started then { started := false, calls := ⟨.stop, lifecycle⟩ :: b.calls } else b

variable {U : Type} [DecidableEq U]

/-- What a segment of the unit's task calls that leads from `pc` to `pc'`. Without a stack,
`self.stack` raises before the unit is entered. -/
def BaseUnit.segment (b : BaseUnit) (n : Nat) (stack : Bool) (pc pc' : Pc U) : BaseUnit :=
  match pc' with
  | .entering r => if pc ≠ .entering r ∧ stack then b.aenter (some n) else b
  | .exiting r => if pc ≠ .exiting r then b.aexit (some n) else b
  | _ => b

/-! ### The context of a supervisor -/

inductive Stopping where
  | no
  /-- in its supervise loop -/
  | supervising
  /-- in `stack.__aexit__(...)`, one of whose calls has raised or none -/
  | unwinding (stack : Nat) (raised : Bool)
  deriving DecidableEq

/-- A supervisor, which is a unit itself, and its surroundings. Its stacks are numbered. -/
structure Context (U : Type) [DecidableEq U] where
  sup : Supervisor U := {}
  /-- `_started` of the supervisor -/
  started : Bool := false
  stopping : Stopping := .no
  /-- `self.stack` -/
  stack : Option Nat := none
  nextStack : Nat := 0
  /-- the units whose `__aexit__` is on a stack, the last one first -/
  exits : Nat → List U := fun _ => []
  /-- the stack that a task enters its unit with -/
  entering : TaskId → Option Nat := fun _ => none
  units : U → BaseUnit := fun _ => {}
  /-- a stop of the unit was accepted since the last START was queued for it -/
  stopAccepted : U → Bool := fun _ => false

namespace Context

/-- `stack.enter_async_context(unit)` returns: the exit is pushed on the stack it was called of. -/
def push (c : Context U) (t : TaskId) (u : U) : Context U :=
  match c.entering t with
  | none => c
  | some n => { c with exits := Function.update c.exits n (u :: c.exits n) }

/-- The segment of task `t` that led from the record `k` to `k'`. -/
def segment (c : Context U) (t : TaskId) (k k' : UnitTask U) : Context U :=
  { c with
    entering := match k'.pc with
      | .entering r =>
        if k.pc ≠ .entering r then Function.update c.entering t c.stack else c.entering
      | _ => c.entering
    units := Function.update c.units k.unit
      ((c.units k.unit).segment (c.sup.queuedStarts k.unit) c.stack.isSome k.pc k'.pc) }

/-- Does the unit's enter return in this segment? -/
def returns (k : UnitTask U) : Outcome U → Bool
  | .ok _ => match k.pc with
    | .entering _ => true
    | _ => false
  | _ => false

def resumed (c : Context U) (s : Supervisor U) (t : TaskId) (o : Outcome U) : Context U :=
  match s.tasks t, c.sup.tasks t with
  | some k, some k' => (if returns k o then c.push t k.unit else c).segment t k k'
  | _, _ => c

/-- `_stop` comes to `self.stack.__aexit__(...)`. -/
def beginUnwind (c : Context U) : Context U :=
  { c with
    stopping := match c.stack with
      | none => .no
      | some n => .unwinding n false }

/-- The next exit on the stack is called, and `raises` if it calls a `_stop` that does. After the
last one comes `del self.stack`, unless one raised. -/
def unwind (c : Context U) (raises : Bool) : Option (Context U) :=
  match c.stopping with
  | .unwinding n raised =>
    match c.exits n with
    | [] => some { c with stopping := .no, stack := if raised then c.stack else none }
    | u :: exits =>
      some { c with
        stopping := .unwinding n (raised || (raises && (c.units u).started))
        exits := Function.update c.exits n exits
        units := Function.update c.units u ((c.units u).aexit none) }
  | _ => none

/-- The supervisor's `__aexit__` around its supervise loop; `raised` says whether the call that is
left raised. -/
def exit (c : Context U) (raised : Bool) : Action U → Context U
  | .stop =>
    if c.sup.loop.isIdle then { c with started := false }.beginUnwind
    else { c with started := false, stopping := .supervising }
  | .leave =>
    if c.stopping = .supervising then
      if raised then { c with stopping := .no } else c.beginUnwind
    else c
  | _ => c

/-- `stop_unit_nowait(u)` is called and returns `True`; `_stop` calls it for every unit. -/
def accepts (s : Supervisor U) (u : U) : Action U → Bool
  | .stopUnit w force => w = u && (s.stopUnitNowait u force).2
  | .stop => u ∈ s.units
  | _ => false

def recordStops (c : Context U) (s : Supervisor U) (a : Action U) : Context U :=
  { c with
    stopAccepted := fun u =>
      (c.stopAccepted u || accepts s u a) && c.sup.queuedStarts u == s.queuedStarts u }

/-- An enter that found no stack has raised. The supervisor exits once for each enter, and no call
of its loop runs beside its `_stop`. -/
def enabled (c : Context U) : Action U → Bool
  | .resume t o =>
    match (c.sup.tasks t).map UnitTask.pc, o with
    | some (.entering _), .ok _ | some (.entering _), .suspend => (c.entering t).isSome
    | _, _ => true
  | .supervise _ _ => c.stopping = .no
  | .stop => c.started && c.stopping = .no
  | _ => true

/-- The step `a` of the supervisor, which led to the state `s'`. -/
def after (c : Context U) (a : Action U) (s' : Supervisor U) : Context U :=
  let c' := { c with sup := s' }
  let c' := match a with
    | .resume t o => c'.resumed c.sup t o
    | _ => c'
  (c'.recordStops c.sup a).exit c.sup.loop.raised a

inductive Event (U : Type) where
  /-- the supervisor's `__aenter__` -/
  | enter
  | unwind (raises : Bool)
  | act (a : Action U)

def step (c : Context U) : Event U → Option (Context U)
  | .enter =>
    if c.started then none
    else some { c with
      started := true
      stack := some c.nextStack
      nextStack := c.nextStack + 1 }
  | .unwind raises => c.unwind raises
  | .act a => if c.enabled a then (Supervisor.step c.sup a).map (c.after a) else none

def init (U : Type) [DecidableEq U] : Context U := {}

/-! ### Units that stay -/

/-- `remove_unit_nowait(u)` is called and returns `True`. -/
def removes (u : U) (c : Context U) : Event U → Bool
  | .act (.removeUnit w) => w = u && (c.sup.removeUnitNowait u).2
  | _ => false

def Keeps (u : U) (c : Context U) (e : Event U) : Prop :=
  removes u c e = false

instance (u : U) (c : Context U) (e : Event U) : Decidable (Keeps u c e) :=
  inferInstanceAs (Decidable (_ = _))

abbrev Reachable (u : U) (c : Context U) : Prop :=
  Reach step (Keeps u) (init U) c

end Context

end Silkjam.Supervisor
