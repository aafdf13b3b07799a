import Silkjam.Supervisor.State

/-!
# The public calls of a `Supervisor`

`add_unit`, `remove_unit_nowait`, `start_unit_nowait` and `stop_unit_nowait`. None of them awaits,
so each is one function of the state, with the `bool` it returns.
-/

namespace Silkjam.Supervisor

variable {U : Type} [DecidableEq U]

/-- Queue a START for `u`, unless one is pending already. -/
def requestStart (s : Supervisor U) (u : U) : Supervisor U :=
  if (s.state u).pendingStart then s
  else (s.put .start u).modify (s.ref u) fun st => { st with pendingStart := true }

def startUnitNowait (s : Supervisor U) (u : U) : Supervisor U × Bool :=
  if u ∉ s.units ∨ (s.state u).pendingStop then (s, false)
  else
    match (s.state u).status with
    | .ready | .stopped =>
      ((s.requestStart u).modify (s.ref u) fun st => { st with status := .ready }, true)
    | .entering | .running => (s, true)
    | .exiting => (s, false)

/-- Queue a STOP for `u`, unless one is pending already. -/
def requestStop (s : Supervisor U) (u : U) (force : Bool) : Supervisor U :=
  if (s.state u).pendingStop then s
  else (s.put .stop u).modify (s.ref u) fun st =>
    { st with pendingStop := true, forcePendingStop := st.forcePendingStop || force }

def stopUnitNowait (s : Supervisor U) (u : U) (force : Bool := false) : Supervisor U × Bool :=
  if u ∉ s.units then (s, false)
  else
    match (s.state u).status with
    | .ready | .stopped =>
      if (s.state u).pendingStart then (s.requestStop u force, true)
      else (s.modify (s.ref u) fun st => { st with status := .stopped }, true)
    | .entering | .running => (s.requestStop u force, true)
    | .exiting => (s.modify (s.ref u) fun st => { st with pendingStop := true }, true)

/-- `self._units[u] = self.State(restart, status)`, with a new `State` object. -/
def insertUnit (s : Supervisor U) (u : U) (restart : Bool) (status : Status) : Supervisor U :=
  { s with
    units := s.units ++ [u]
    gen := Function.update s.gen u (s.gen u + 1)
    heap := Function.update s.heap ⟨u, s.gen u + 1⟩ { restart := restart, status := status } }

def addUnit (s : Supervisor U) (u : U) (restart : Bool := true) (stopped : Bool := false) :
    Supervisor U × Bool :=
  if u ∈ s.units then (s, false)
  else if !stopped then (((s.insertUnit u restart .ready).startUnitNowait u).1, true)
  else (s.insertUnit u restart .stopped, true)

def removeUnitNowait (s : Supervisor U) (u : U) : Supervisor U × Bool :=
  if u ∉ s.units ∨ (s.state u).task ≠ none ∨ (s.state u).pendingStart then (s, false)
  else ({ s with units := s.units.erase u }, true)

end Silkjam.Supervisor
