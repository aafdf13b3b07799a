import Mathlib.Data.List.Basic
import Silkjam.Lib.Transition

/-!
# Copying streams

A `Pump` is a task that writes some initial data to a sink, then copies a source to it in reads of
at most `size` elements, and when the source has ended ends the sink, if that is possible. It is cut
at its awaits, where it may fail or be cancelled. A `Relay` runs two pumps in opposite directions
until one of them fails or both are done; then it cancels what still runs. A pump that is done does
not stop the other one.
-/

namespace Transition

variable {α : Type*}

/-- Where a pump is: not begun, after a write, in a read, after it ended the sink, or over. -/
inductive PumpPc where
  | created | draining | reading | closing | done | failed | cancelled
  deriving DecidableEq

def PumpPc.isOver : PumpPc → Bool
  | .done | .failed | .cancelled => true
  | _ => false

/-- A pump. `pending` is the initial data that was not written; `buffer` has arrived and was not
read, and `ended` says that no more will arrive. `initial` and `arrived` are a history. -/
structure Pump (α : Type*) where
  pc : PumpPc := .created
  pending : List α
  buffer : List α
  ended : Bool := false
  written : List α := []
  canWriteEof : Bool
  eofWritten : Bool := false
  initial : List α
  arrived : List α

inductive PumpAction (α : Type*) where
  /-- data arrives at the source -/
  | arrive (data : List α)
  | arriveEof
  | begin
  | drained
  | read
  | closed
  /-- the await raises, or a write does -/
  | raised
  | cancel

def PumpAction.isDisturbance : PumpAction α → Bool
  | .raised | .cancel => true
  | _ => false

/-- What a source has sent, and whether it has ended. -/
structure Source (α : Type*) where
  data : List α := []
  ended : Bool := false

def Source.next (source : Source α) : PumpAction α → Source α
  | .arrive data => { source with data := source.data ++ data }
  | .arriveEof => { source with ended := true }
  | _ => source

namespace Pump

/-- A new pump, whose source has a buffer already. -/
def start (initial buffer : List α) (ended canWriteEof : Bool) : Pump α where
  pending := initial
  buffer := buffer
  ended := ended
  canWriteEof := canWriteEof
  initial := initial
  arrived := buffer

/-- The source, by the history of the pump. -/
def source (p : Pump α) : Source α where
  data := p.arrived
  ended := p.ended

def begin (p : Pump α) : Pump α :=
  { p with
    pc := if p.pending.isEmpty then .reading else .draining
    pending := []
    written := p.written ++ p.pending }

/-- The source has ended. -/
def finish (p : Pump α) : Pump α :=
  if p.canWriteEof then { p with pc := .closing, eofWritten := true } else { p with pc := .done }

/-- A read returns, and what it returns is written. -/
def read (size : Nat) (p : Pump α) : Option (Pump α) :=
  if p.buffer.isEmpty then if p.ended then some p.finish else none
  else some { p with
    pc := .draining
    buffer := p.buffer.drop size
    written := p.written ++ p.buffer.take size }

def step (size : Nat) (p : Pump α) : PumpAction α → Option (Pump α)
  | .arrive data =>
    if p.ended then none
    else some { p with buffer := p.buffer ++ data, arrived := p.arrived ++ data }
  | .arriveEof => some { p with ended := true }
  | .begin => if p.pc = .created then some p.begin else none
  | .drained => if p.pc = .draining then some { p with pc := .reading } else none
  | .read => if p.pc = .reading then p.read size else none
  | .closed => if p.pc = .closing then some { p with pc := .done } else none
  | .raised =>
    match p.pc with
    | .draining | .reading | .closing => some { p with pc := .failed }
    | _ => none
  | .cancel => if p.pc.isOver then none else some { p with pc := .cancelled }

/-- Has the initial data been written? -/
def HasBegun (p : Pump α) : Prop :=
  match p.pc with
  | .draining | .reading | .closing | .done | .failed => True
  | .created | .cancelled => False

/-- Nothing is lost, doubled or out of order, and the sink was ended only after everything. -/
structure Faithful (p : Pump α) : Prop where
  stream : p.written ++ (p.pending ++ p.buffer) = p.initial ++ p.arrived
  begun : p.HasBegun → p.pending = []
  eof : p.eofWritten = true → p.ended = true ∧ p.pending = [] ∧ p.buffer = []
  closing : p.pc = .closing → p.eofWritten = true
  done : p.pc = .done →
    p.ended = true ∧ p.buffer = [] ∧ (p.canWriteEof = true → p.eofWritten = true)

/-- What a step does. -/
inductive Stepped (size : Nat) (p : Pump α) : PumpAction α → Pump α → Prop where
  | arrive (data : List α) : p.ended = false →
      Stepped size p (.arrive data)
        { p with buffer := p.buffer ++ data, arrived := p.arrived ++ data }
  | arriveEof : Stepped size p .arriveEof { p with ended := true }
  | begin : p.pc = .created → Stepped size p .begin p.begin
  | drained : p.pc = .draining → Stepped size p .drained { p with pc := .reading }
  | finish : p.pc = .reading → p.buffer = [] → p.ended = true → Stepped size p .read p.finish
  | read : p.pc = .reading → p.buffer ≠ [] →
      Stepped size p .read
        { p with
          pc := .draining
          buffer := p.buffer.drop size
          written := p.written ++ p.buffer.take size }
  | closed : p.pc = .closing → Stepped size p .closed { p with pc := .done }
  | raised : p.HasBegun → p.pc.isOver = false → Stepped size p .raised { p with pc := .failed }
  | cancel : p.pc.isOver = false → Stepped size p .cancel { p with pc := .cancelled }

section
variable {size : Nat} {p p' : Pump α} {a : PumpAction α}

theorem step_stepped (hstep : p.step size a = some p') : Stepped size p a p' := by
  cases a <;> dsimp only [Pump.step] at hstep
  case arrive data =>
    split at hstep
    · cases hstep
    · next hended =>
      cases hstep
      exact .arrive data (Bool.eq_false_iff.2 hended)
  case arriveEof =>
    cases hstep
    exact .arriveEof
  case begin =>
    split at hstep
    · next hpc =>
      cases hstep
      exact .begin hpc
    · cases hstep
  case drained =>
    split at hstep
    · next hpc =>
      cases hstep
      exact .drained hpc
    · cases hstep
  case read =>
    unfold Pump.read at hstep
    split at hstep
    · next hpc =>
      split at hstep
      · next hbuffer =>
        split at hstep
        · next hended =>
          cases hstep
          exact .finish hpc (List.isEmpty_iff.1 hbuffer) hended
        · cases hstep
      · next hbuffer =>
        cases hstep
        exact .read hpc fun h => hbuffer (List.isEmpty_iff.2 h)
    · cases hstep
  case closed =>
    split at hstep
    · next hpc =>
      cases hstep
      exact .closed hpc
    · cases hstep
  case raised =>
    split at hstep
    case h_4 => cases hstep
    all_goals
      next hpc =>
      cases hstep
      refine .raised ?_ ?_
      · unfold HasBegun
        rw [hpc]
        trivial
      · rw [hpc]
        rfl
  case cancel =>
    split at hstep
    · cases hstep
    · next hpc =>
      cases hstep
      exact .cancel (Bool.eq_false_iff.2 hpc)

theorem start_faithful (initial buffer : List α) (ended canWriteEof : Bool) :
    (start initial buffer ended canWriteEof).Faithful where
  stream := rfl
  begun := nofun
  eof := nofun
  closing := nofun
  done := nofun

theorem Faithful.step (h : p.Faithful) (hstep : p.step size a = some p') : p'.Faithful := by
  cases step_stepped hstep with
  | arrive data hended =>
    refine ⟨?_, h.begun, ?_, h.closing, ?_⟩
    · dsimp only
      rw [← List.append_assoc, ← List.append_assoc, List.append_assoc p.written, h.stream,
        List.append_assoc]
    · intro heof
      rw [(h.eof heof).1] at hended
      cases hended
    · intro hpc
      rw [(h.done hpc).1] at hended
      cases hended
  | arriveEof =>
    exact ⟨h.stream, h.begun, fun heof => ⟨rfl, (h.eof heof).2⟩, h.closing,
      fun hpc => ⟨rfl, (h.done hpc).2⟩⟩
  | begin hpc =>
    refine ⟨?_, fun _ => rfl, ?_, ?_, ?_⟩
    · show p.written ++ p.pending ++ ([] ++ p.buffer) = p.initial ++ p.arrived
      rw [List.nil_append, List.append_assoc, h.stream]
    · intro heof
      exact ⟨(h.eof heof).1, rfl, (h.eof heof).2.2⟩
    · unfold Pump.begin
      dsimp only
      split <;> nofun
    · unfold Pump.begin
      dsimp only
      split <;> nofun
  | drained hpc =>
    refine ⟨h.stream, fun _ => h.begun ?_, h.eof, nofun, nofun⟩
    unfold HasBegun
    rw [hpc]
    trivial
  | finish hpc hbuffer hended =>
    have hbegun : p.pending = [] := by
      apply h.begun
      unfold HasBegun
      rw [hpc]
      trivial
    unfold Pump.finish
    split
    · exact ⟨h.stream, fun _ => hbegun, fun _ => ⟨hended, hbegun, hbuffer⟩, fun _ => rfl, nofun⟩
    · next hcan =>
      exact ⟨h.stream, fun _ => hbegun, h.eof, nofun,
        fun _ => ⟨hended, hbuffer, fun hcan' => absurd hcan' hcan⟩⟩
  | read hpc hbuffer =>
    have hbegun : p.pending = [] := by
      apply h.begun
      unfold HasBegun
      rw [hpc]
      trivial
    refine ⟨?_, fun _ => hbegun, fun heof => absurd (h.eof heof).2.2 hbuffer, nofun, nofun⟩
    have hstream := h.stream
    rw [hbegun, List.nil_append] at hstream
    dsimp only
    rw [hbegun, List.nil_append, List.append_assoc, List.take_append_drop, hstream]
  | closed hpc =>
    have heof := h.closing hpc
    have hbegun : p.pending = [] := (h.eof heof).2.1
    exact ⟨h.stream, fun _ => hbegun, h.eof, nofun, fun _ => ⟨(h.eof heof).1, (h.eof heof).2.2,
      fun _ => heof⟩⟩
  | raised hbegun hpc => exact ⟨h.stream, fun _ => h.begun hbegun, h.eof, nofun, nofun⟩
  | cancel hpc => exact ⟨h.stream, nofun, h.eof, nofun, nofun⟩

theorem step_initial (hstep : p.step size a = some p') :
    p'.initial = p.initial ∧ p'.canWriteEof = p.canWriteEof := by
  cases step_stepped hstep with
  | finish =>
    unfold Pump.finish
    split <;> exact ⟨rfl, rfl⟩
  | _ => exact ⟨rfl, rfl⟩

theorem step_source (hstep : p.step size a = some p') : p'.source = p.source.next a := by
  cases step_stepped hstep with
  | finish =>
    unfold Pump.finish
    split <;> rfl
  | _ => rfl

theorem over_step (hover : p.pc.isOver = true) (hstep : p.step size a = some p') :
    p'.pc = p.pc ∧ p'.written = p.written ∧ p'.eofWritten = p.eofWritten := by
  cases step_stepped hstep with
  | arrive | arriveEof => exact ⟨rfl, rfl, rfl⟩
  | begin hpc | drained hpc | finish hpc _ _ | read hpc _ | closed hpc =>
    rw [hpc] at hover
    cases hover
  | raised _ hpc | cancel hpc =>
    rw [hpc] at hover
    cases hover

theorem undisturbed_step (h : p.pc ≠ .failed ∧ p.pc ≠ .cancelled) (ha : a.isDisturbance = false)
    (hstep : p.step size a = some p') : p'.pc ≠ .failed ∧ p'.pc ≠ .cancelled := by
  cases step_stepped hstep with
  | arrive | arriveEof => exact h
  | begin hpc =>
    unfold Pump.begin
    dsimp only
    split <;> exact ⟨nofun, nofun⟩
  | finish hpc _ _ =>
    unfold Pump.finish
    split <;> exact ⟨nofun, nofun⟩
  | drained | read | closed => exact ⟨nofun, nofun⟩
  | raised | cancel => cases ha

theorem Faithful.written_prefix (h : p.Faithful) : p.written <+: p.initial ++ p.arrived :=
  ⟨_, h.stream⟩

/-- **A pump that is done has copied everything.** -/
theorem Faithful.written_eq (h : p.Faithful) (hpc : p.pc = .done) :
    p.ended = true ∧ p.written = p.initial ++ p.arrived ∧
      (p.canWriteEof = true → p.eofWritten = true) := by
  obtain ⟨hended, hbuffer, heof⟩ := h.done hpc
  have hbegun : p.pending = [] := by
    apply h.begun
    unfold HasBegun
    rw [hpc]
    trivial
  have hstream := h.stream
  rw [hbegun, hbuffer, List.append_nil, List.append_nil] at hstream
  exact ⟨hended, hstream, heof⟩

/-- The sink was ended after everything that will ever arrive. -/
theorem Faithful.written_eq_of_eof (h : p.Faithful) (heof : p.eofWritten = true) :
    p.ended = true ∧ p.written = p.initial ++ p.arrived := by
  obtain ⟨hended, hbegun, hbuffer⟩ := h.eof heof
  have hstream := h.stream
  rw [hbegun, hbuffer, List.append_nil, List.append_nil] at hstream
  exact ⟨hended, hstream⟩

end

end Pump

/-! ### Two directions -/

/-- Two pumps in opposite directions; `left` says that the relay does not wait for them any more. -/
structure Relay (α : Type*) where
  up : Pump α
  down : Pump α
  left : Bool := false

inductive RelayAction (α : Type*) where
  | up (a : PumpAction α)
  | down (a : PumpAction α)
  /-- one pump has failed, or both are done -/
  | returned
  /-- the relay is cancelled -/
  | cancel

def RelayAction.isDisturbance : RelayAction α → Bool
  | .up a | .down a => a.isDisturbance
  | .returned => false
  | .cancel => true

namespace Relay

def isOver (r : Relay α) : Bool :=
  r.up.pc.isOver && r.down.pc.isOver

/-- `FIRST_EXCEPTION` -/
def isReady (r : Relay α) : Bool :=
  r.up.pc = .failed || r.down.pc = .failed || r.isOver

def cancelPump (p : Pump α) : Pump α :=
  if p.pc.isOver then p else { p with pc := .cancelled }

/-- What still runs is cancelled. -/
def leave (r : Relay α) : Relay α where
  up := cancelPump r.up
  down := cancelPump r.down
  left := true

def step (size : Nat) (r : Relay α) : RelayAction α → Option (Relay α)
  | .up a => (r.up.step size a).map fun p => { r with up := p }
  | .down a => (r.down.step size a).map fun p => { r with down := p }
  | .returned => if !r.left && r.isReady then some r.leave else none
  | .cancel => if r.left then none else some r.leave

def start (up down : Pump α) : Relay α where
  up := up
  down := down

/-- Both pumps are faithful, and none runs any more when the relay was left. -/
structure Faithful (r : Relay α) : Prop where
  up : r.up.Faithful
  down : r.down.Faithful
  left : r.left = true → r.isOver = true

section
variable {size : Nat} {r r' : Relay α} {a : RelayAction α} {p p' : Pump α}

theorem faithful_cancelPump (h : p.Faithful) : (cancelPump p).Faithful := by
  unfold cancelPump
  split
  · exact h
  · exact ⟨h.stream, nofun, h.eof, nofun, nofun⟩

theorem isOver_cancelPump : (cancelPump p).pc.isOver = true := by
  unfold cancelPump
  split
  · assumption
  · rfl

theorem isOver_leave : r.leave.isOver = true := by
  unfold isOver leave
  rw [isOver_cancelPump, isOver_cancelPump]
  rfl

theorem leave_faithful (h : r.Faithful) : r.leave.Faithful :=
  ⟨faithful_cancelPump h.up, faithful_cancelPump h.down, fun _ => isOver_leave⟩

theorem isOver_step {b : PumpAction α} (hover : p.pc.isOver = true)
    (hstep : p.step size b = some p') : p'.pc.isOver = true := by
  rw [(Pump.over_step hover hstep).1]
  exact hover

theorem Faithful.step (h : r.Faithful) (hstep : r.step size a = some r') : r'.Faithful := by
  cases a <;> dsimp only [Relay.step] at hstep
  case up a =>
    obtain ⟨p, hp, rfl⟩ := Option.map_eq_some_iff.1 hstep
    refine ⟨h.up.step hp, h.down, fun hleft => ?_⟩
    obtain ⟨hup, hdown⟩ := Bool.and_eq_true_iff.1 (h.left hleft)
    exact Bool.and_eq_true_iff.2 ⟨isOver_step hup hp, hdown⟩
  case down a =>
    obtain ⟨p, hp, rfl⟩ := Option.map_eq_some_iff.1 hstep
    refine ⟨h.up, h.down.step hp, fun hleft => ?_⟩
    obtain ⟨hup, hdown⟩ := Bool.and_eq_true_iff.1 (h.left hleft)
    exact Bool.and_eq_true_iff.2 ⟨hup, isOver_step hdown hp⟩
  case returned =>
    split at hstep
    · cases hstep
      exact leave_faithful h
    · cases hstep
  case cancel =>
    split at hstep
    · cases hstep
    · cases hstep
      exact leave_faithful h

/-- What the two pumps begin with, and whether they can end their sinks, is the same. -/
structure SameEnds (r r' : Relay α) : Prop where
  up : r'.up.initial = r.up.initial ∧ r'.up.canWriteEof = r.up.canWriteEof
  down : r'.down.initial = r.down.initial ∧ r'.down.canWriteEof = r.down.canWriteEof

theorem cancelPump_initial :
    (cancelPump p).initial = p.initial ∧ (cancelPump p).canWriteEof = p.canWriteEof := by
  unfold cancelPump
  split <;> exact ⟨rfl, rfl⟩

theorem step_sameEnds (hstep : r.step size a = some r') : r.SameEnds r' := by
  cases a <;> dsimp only [Relay.step] at hstep
  case up a =>
    obtain ⟨p, hp, rfl⟩ := Option.map_eq_some_iff.1 hstep
    exact ⟨Pump.step_initial hp, rfl, rfl⟩
  case down a =>
    obtain ⟨p, hp, rfl⟩ := Option.map_eq_some_iff.1 hstep
    exact ⟨⟨rfl, rfl⟩, Pump.step_initial hp⟩
  case returned =>
    split at hstep
    · cases hstep
      exact ⟨cancelPump_initial, cancelPump_initial⟩
    · cases hstep
  case cancel =>
    split at hstep
    · cases hstep
    · cases hstep
      exact ⟨cancelPump_initial, cancelPump_initial⟩

theorem cancelPump_source : (cancelPump p).source = p.source := by
  unfold cancelPump
  split <;> rfl

theorem step_sources (hstep : r.step size a = some r') :
    match a with
    | .up b => r'.up.source = r.up.source.next b ∧ r'.down.source = r.down.source
    | .down b => r'.up.source = r.up.source ∧ r'.down.source = r.down.source.next b
    | .returned | .cancel => r'.up.source = r.up.source ∧ r'.down.source = r.down.source := by
  cases a <;> dsimp only [Relay.step] at hstep
  case up b =>
    obtain ⟨p, hp, rfl⟩ := Option.map_eq_some_iff.1 hstep
    exact ⟨Pump.step_source hp, rfl⟩
  case down b =>
    obtain ⟨p, hp, rfl⟩ := Option.map_eq_some_iff.1 hstep
    exact ⟨rfl, Pump.step_source hp⟩
  case returned =>
    split at hstep
    · cases hstep
      exact ⟨cancelPump_source, cancelPump_source⟩
    · cases hstep
  case cancel =>
    split at hstep
    · cases hstep
    · cases hstep
      exact ⟨cancelPump_source, cancelPump_source⟩

theorem left_step (hstep : r.step size a = some r') :
    match a with
    | .up _ | .down _ => r'.left = r.left
    | .returned | .cancel => r'.left = true := by
  cases a <;> dsimp only [Relay.step] at hstep
  case up a =>
    obtain ⟨p, -, rfl⟩ := Option.map_eq_some_iff.1 hstep
    rfl
  case down a =>
    obtain ⟨p, -, rfl⟩ := Option.map_eq_some_iff.1 hstep
    rfl
  case returned =>
    split at hstep
    · cases hstep
      rfl
    · cases hstep
  case cancel =>
    split at hstep
    · cases hstep
    · cases hstep
      rfl

/-- No pump has failed or was cancelled. -/
structure Undisturbed (r : Relay α) : Prop where
  up : r.up.pc ≠ .failed ∧ r.up.pc ≠ .cancelled
  down : r.down.pc ≠ .failed ∧ r.down.pc ≠ .cancelled

theorem cancelPump_of_isOver (h : p.pc.isOver = true) : cancelPump p = p :=
  if_pos h

theorem Undisturbed.step (h : r.Undisturbed) (ha : a.isDisturbance = false)
    (hstep : r.step size a = some r') : r'.Undisturbed := by
  cases a <;> dsimp only [Relay.step] at hstep
  case up a =>
    obtain ⟨p, hp, rfl⟩ := Option.map_eq_some_iff.1 hstep
    exact ⟨Pump.undisturbed_step h.up ha hp, h.down⟩
  case down a =>
    obtain ⟨p, hp, rfl⟩ := Option.map_eq_some_iff.1 hstep
    exact ⟨h.up, Pump.undisturbed_step h.down ha hp⟩
  case returned =>
    split at hstep
    · next hready =>
      cases hstep
      -- neither has failed, so both are over and nothing is cancelled
      have hover : r.up.pc.isOver = true ∧ r.down.pc.isOver = true := by
        have hready := (Bool.and_eq_true_iff.1 hready).2
        unfold isReady at hready
        rw [decide_eq_false h.up.1, decide_eq_false h.down.1] at hready
        exact Bool.and_eq_true_iff.1 hready
      unfold leave
      rw [cancelPump_of_isOver hover.1, cancelPump_of_isOver hover.2]
      exact ⟨h.up, h.down⟩
    · cases hstep
  case cancel => cases ha

theorem done_of_isOver {pc : PumpPc} (h : pc ≠ .failed ∧ pc ≠ .cancelled)
    (hover : pc.isOver = true) : pc = .done := by
  cases pc with
  | done => rfl
  | failed => exact absurd rfl h.1
  | cancelled => exact absurd rfl h.2
  | _ => cases hover

/-- **A relay that was left undisturbed has copied everything, both ways.** -/
theorem Undisturbed.done (h : r.Undisturbed) (hr : r.Faithful) (hleft : r.left = true) :
    r.up.pc = .done ∧ r.down.pc = .done := by
  obtain ⟨hup, hdown⟩ := Bool.and_eq_true_iff.1 (hr.left hleft)
  exact ⟨done_of_isOver h.up hup, done_of_isOver h.down hdown⟩

end

end Relay

end Transition
