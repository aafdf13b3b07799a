import Mathlib.Data.List.Chain
import Silkjam.Lib.Transition
import Silkjam.Supervisor.Timer

/-!
# Closing the server process

`_stop` of a backend first stops the units of the backend. Then it asks the server process to stop,
sends SIGINT when it has not exited in time, then SIGTERM, and at last SIGKILL, which it also sends
when one of its awaits is interrupted by an exception or a cancellation. `Closing` is `_stop` cut at
its awaits, with a clock; the process may exit at any time.

The wait for the process may time out although the process has just exited. A signal that is sent
then reaches nothing, or sending it raises `ProcessLookupError`.
-/

namespace Silkjam.Server

open Supervisor Transition

/-- The command `stop` on the standard input of the process, and the signals. -/
inductive Signal where
  | stop | sigint | sigterm | sigkill
  deriving DecidableEq

/-- All of them, in order. -/
def LADDER : List Signal :=
  [.stop, .sigint, .sigterm, .sigkill]

/-- What is sent after the wait for the process has timed out, before another wait. -/
def Signal.next : Signal → Option Signal
  | .stop => some .sigint
  | .sigint => some .sigterm
  | .sigterm | .sigkill => none

/-- How many signals there are up to this one. -/
def Signal.rank : Signal → Nat
  | .stop => 1
  | .sigint => 2
  | .sigterm => 3
  | .sigkill => 4

/-- `stop_timeout`, `sigint_timeout` and `sigterm_timeout`, in seconds -/
structure StopTimeouts where
  stop : Nat := 90
  sigint : Nat := 90
  sigterm : Nat := 90

/-- How long `_stop` waits after a signal. -/
def StopTimeouts.wait (timeouts : StopTimeouts) : Signal → Int
  | .stop => seconds timeouts.stop
  | .sigint => seconds timeouts.sigint
  | .sigterm => seconds timeouts.sigterm
  | .sigkill => 0

/-- How long after `stop` the wait after a signal ends, but for the time of `drain`. -/
def StopTimeouts.total (timeouts : StopTimeouts) : Signal → Int
  | .stop => timeouts.wait .stop
  | .sigint => timeouts.wait .stop + timeouts.wait .sigint
  | .sigterm | .sigkill => timeouts.wait .stop + timeouts.wait .sigint + timeouts.wait .sigterm

/-- Where `_stop` is: stopping the units, or after that failed; sending `stop`; waiting for the
process; logging the rest of its output; or over. -/
inductive ClosePc where
  | units
  | unitsFailed
  | draining
  | waiting (signal : Signal) (deadline : Int)
  | logging
  | closed
  deriving DecidableEq

/-- `_stop` of a backend whose process was created. `exit` is the return code of the process, and
when it exited; `sent` are the signals that reached it, with the times, and `interrupted` says that
an await raised before the process was closed. -/
structure Closing where
  timeouts : StopTimeouts
  now : Int
  pc : ClosePc := .units
  exit : Option (Int × Int) := none
  sent : List (Signal × Int) := []
  interrupted : Bool := false

inductive CloseAction where
  | advance (time : Nat)
  /-- the process exits -/
  | exit (code : Int)
  | unitsStopped
  | unitsFailed
  | drained
  /-- the wait for the process is over -/
  | exited
  | timedOut (lookupFails : Bool)
  /-- the await of `drain` or of the process raises, or is cancelled -/
  | raised
  | logged

namespace Closing

/-- `self.server_proc.returncode` -/
def returncode (w : Closing) : Option Int :=
  w.exit.map Prod.fst

def send (w : Closing) (signal : Signal) : Closing :=
  if w.returncode = none then { w with sent := w.sent ++ [(signal, w.now)] } else w

/-- The `finally` block, and what follows. -/
def finish (w : Closing) : Closing :=
  { w.send .sigkill with pc := .logging }

/-- The `finally` block, after an exception. -/
def interrupt (w : Closing) : Closing :=
  { w.send .sigkill with pc := .closed, interrupted := true }

/-- The units have stopped. -/
def close (w : Closing) : Closing :=
  if w.returncode = none then { w.send .stop with pc := .draining } else w.finish

def wait (w : Closing) (signal : Signal) : Closing :=
  { w with pc := .waiting signal (w.now + w.timeouts.wait signal) }

/-- The wait after `signal` timed out. -/
def escalate (w : Closing) (signal : Signal) (lookupFails : Bool) : Closing :=
  match signal.next with
  | some next =>
    if w.returncode ≠ none ∧ lookupFails then w.interrupt else (w.send next).wait next
  | none => w.finish

def step (w : Closing) : CloseAction → Option Closing
  | .advance time => some { w with now := w.now + time }
  | .exit code =>
    if w.returncode = none then some { w with exit := some (code, w.now) } else none
  | .unitsStopped => if w.pc = .units then some w.close else none
  | .unitsFailed => if w.pc = .units then some { w with pc := .unitsFailed } else none
  | .drained => if w.pc = .draining then some (w.wait .stop) else none
  | .exited =>
    match w.pc with
    | .waiting _ _ => if w.returncode = none then none else some w.finish
    | _ => none
  | .timedOut lookupFails =>
    match w.pc with
    | .waiting signal deadline =>
      if deadline ≤ w.now then some (w.escalate signal lookupFails) else none
    | _ => none
  | .raised =>
    match w.pc with
    | .draining | .waiting _ _ => some w.interrupt
    | _ => none
  | .logged => if w.pc = .logging then some { w with pc := .closed } else none

def init (timeouts : StopTimeouts) (exit : Option (Int × Int)) (now : Int) : Closing where
  timeouts := timeouts
  now := now
  exit := exit

/-- When the await of `_stop` ends, if `drain` takes at most as long. -/
def limit (drain : Nat) (w : Closing) : Option Int :=
  match w.pc with
  | .draining => w.sent.head?.map fun first => first.2 + drain
  | .waiting _ deadline => some deadline
  | _ => none

/-- No await goes on for longer than its limit. -/
def Prompt (drain : Nat) (w : Closing) : CloseAction → Prop
  | .advance time => ∀ limit ∈ w.limit drain, w.now + time ≤ limit
  | _ => True

instance (drain : Nat) (w : Closing) (a : CloseAction) : Decidable (w.Prompt drain a) := by
  unfold Prompt
  split <;> infer_instance

/-- The signals that reached the process. -/
def signals (w : Closing) : List Signal :=
  w.sent.map Prod.fst

/-- The process has exited, or was killed. -/
def Gone (w : Closing) : Prop :=
  w.returncode ≠ none ∨ .sigkill ∈ w.signals

/-! ### The signals -/

/-- The first `k` signals were sent, or fewer of them if the process has exited. -/
def Sent (k : Nat) (w : Closing) : Prop :=
  ∃ n ≤ k, w.signals = LADDER.take n ∧ (w.returncode = none → n = k)

/-- The signals that were sent in the order of `LADDER`, none left out but before a SIGKILL. -/
def InOrder (w : Closing) : Prop :=
  ∃ n, w.signals = LADDER.take n ∨
    w.interrupted = true ∧ w.signals = (LADDER.take 3).take n ++ [.sigkill]

def Escalates (w : Closing) : Prop :=
  match w.pc with
  | .units | .unitsFailed => w.sent = [] ∧ w.interrupted = false
  | .draining => w.Sent 1 ∧ w.interrupted = false
  | .waiting signal _ => w.Sent signal.rank ∧ signal.rank ≤ 3 ∧ w.interrupted = false
  | .logging => w.Gone ∧ w.InOrder ∧ w.interrupted = false
  | .closed => w.Gone ∧ w.InOrder

/-- What a step does. -/
inductive Stepped (w : Closing) : CloseAction → Closing → Prop where
  | advance (time : Nat) : Stepped w (.advance time) { w with now := w.now + time }
  | exit (code : Int) : w.returncode = none →
      Stepped w (.exit code) { w with exit := some (code, w.now) }
  | unitsStopped : w.pc = .units → Stepped w .unitsStopped w.close
  | unitsFailed : w.pc = .units → Stepped w .unitsFailed { w with pc := .unitsFailed }
  | drained : w.pc = .draining → Stepped w .drained (w.wait .stop)
  | exited {signal : Signal} {deadline : Int} : w.pc = .waiting signal deadline →
      w.returncode ≠ none → Stepped w .exited w.finish
  | timedOut {signal : Signal} {deadline : Int} (lookupFails : Bool) :
      w.pc = .waiting signal deadline → deadline ≤ w.now →
      Stepped w (.timedOut lookupFails) (w.escalate signal lookupFails)
  | drainRaised : w.pc = .draining → Stepped w .raised w.interrupt
  | waitRaised {signal : Signal} {deadline : Int} : w.pc = .waiting signal deadline →
      Stepped w .raised w.interrupt
  | logged : w.pc = .logging → Stepped w .logged { w with pc := .closed }

section
variable {w w' : Closing} {a : CloseAction} {k : Nat} {signal : Signal}

theorem step_stepped (hstep : w.step a = some w') : Stepped w a w' := by
  cases a <;> dsimp only [Closing.step] at hstep
  case advance time =>
    cases hstep
    exact .advance time
  case exit code =>
    split at hstep
    · next hcode =>
      cases hstep
      exact .exit code hcode
    · cases hstep
  case unitsStopped =>
    split at hstep
    · next hpc =>
      cases hstep
      exact .unitsStopped hpc
    · cases hstep
  case unitsFailed =>
    split at hstep
    · next hpc =>
      cases hstep
      exact .unitsFailed hpc
    · cases hstep
  case drained =>
    split at hstep
    · next hpc =>
      cases hstep
      exact .drained hpc
    · cases hstep
  case exited =>
    split at hstep
    · next hpc =>
      split at hstep
      · cases hstep
      · next hcode =>
        cases hstep
        exact .exited hpc hcode
    · cases hstep
  case timedOut lookupFails =>
    split at hstep
    · next hpc =>
      split at hstep
      · next hdeadline =>
        cases hstep
        exact .timedOut lookupFails hpc hdeadline
      · cases hstep
    · cases hstep
  case raised =>
    split at hstep
    · next hpc =>
      cases hstep
      exact .drainRaised hpc
    · next hpc =>
      cases hstep
      exact .waitRaised hpc
    · cases hstep
  case logged =>
    split at hstep
    · next hpc =>
      cases hstep
      exact .logged hpc
    · cases hstep

theorem send_of_some (h : w.returncode ≠ none) : w.send signal = w :=
  if_neg h

theorem send_of_none (h : w.returncode = none) :
    w.send signal = { w with sent := w.sent ++ [(signal, w.now)] } :=
  if_pos h

theorem returncode_send : (w.send signal).returncode = w.returncode := by
  unfold send
  split <;> rfl

theorem signals_send_of_none (h : w.returncode = none) :
    (w.send signal).signals = w.signals ++ [signal] := by
  rw [send_of_none h]
  simp [signals]

theorem gone_finish : w.finish.Gone := by
  by_cases h : w.returncode = none
  · have hsignals : w.finish.signals = w.signals ++ [.sigkill] := signals_send_of_none h
    right
    rw [hsignals]
    simp
  · left
    show (w.send .sigkill).returncode ≠ none
    rwa [returncode_send]

theorem Sent.finish (h : w.Sent 3) : w.finish.InOrder := by
  obtain ⟨n, hn, hsignals, hall⟩ := h
  by_cases hcode : w.returncode = none
  · obtain rfl := hall hcode
    have hkill : w.finish.signals = w.signals ++ [.sigkill] := signals_send_of_none hcode
    refine ⟨4, .inl ?_⟩
    rw [hkill, hsignals]
    rfl
  · have hsame : w.finish.signals = w.signals := by
      show (w.send .sigkill).signals = w.signals
      rw [send_of_some hcode]
    exact ⟨n, .inl (hsame.trans hsignals)⟩

theorem Sent.finish_of_some (h : w.Sent k) (hcode : w.returncode ≠ none) : w.finish.InOrder := by
  obtain ⟨n, -, hsignals, -⟩ := h
  have hsame : w.finish.signals = w.signals := by
    show (w.send .sigkill).signals = w.signals
    rw [send_of_some hcode]
  exact ⟨n, .inl (hsame.trans hsignals)⟩

theorem Sent.interrupt (h : w.Sent k) (hk : k ≤ 3) : w.interrupt.InOrder := by
  obtain ⟨n, hn, hsignals, -⟩ := h
  by_cases hcode : w.returncode = none
  · have hkill : w.interrupt.signals = w.signals ++ [.sigkill] := signals_send_of_none hcode
    refine ⟨n, .inr ⟨rfl, ?_⟩⟩
    rw [hkill, hsignals, List.take_take, Nat.min_eq_left (Nat.le_trans hn hk)]
  · have hsame : w.interrupt.signals = w.signals := by
      show (w.send .sigkill).signals = w.signals
      rw [send_of_some hcode]
    exact ⟨n, .inl (hsame.trans hsignals)⟩

theorem Sent.next {next : Signal} (h : w.Sent signal.rank) (hnext : signal.next = some next) :
    (w.send next).Sent next.rank ∧ next.rank ≤ 3 := by
  obtain ⟨n, hn, hsignals, hall⟩ := h
  have hrank : next.rank = signal.rank + 1 ∧ next.rank ≤ 3 ∧
      LADDER.take signal.rank ++ [next] = LADDER.take next.rank := by
    cases signal <;> cases hnext <;> decide
  refine ⟨?_, hrank.2.1⟩
  by_cases hcode : w.returncode = none
  · obtain rfl := hall hcode
    refine ⟨next.rank, Nat.le_refl _, ?_, fun _ => rfl⟩
    rw [signals_send_of_none hcode, hsignals]
    exact hrank.2.2
  · rw [send_of_some hcode]
    exact ⟨n, by omega, hsignals, fun h => absurd h hcode⟩

theorem Sent.exit (h : w.Sent k) (exit : Int × Int) :
    ({ w with exit := some exit } : Closing).Sent k := by
  obtain ⟨n, hn, hsignals, -⟩ := h
  exact ⟨n, hn, hsignals, nofun⟩

theorem Escalates.exit (h : w.Escalates) (exit : Int × Int) :
    ({ w with exit := some exit } : Closing).Escalates := by
  have hgone : ({ w with exit := some exit } : Closing).Gone := .inl nofun
  unfold Escalates at h ⊢
  dsimp only
  split at h
  · exact h
  · exact h
  · exact ⟨h.1.exit exit, h.2⟩
  · exact ⟨h.1.exit exit, h.2⟩
  · exact ⟨hgone, h.2⟩
  · exact ⟨hgone, h.2⟩

theorem escalates_finish (h : w.finish.InOrder) (hinterrupted : w.interrupted = false) :
    w.finish.Escalates := by
  have hsame : w.finish.interrupted = w.interrupted := by
    show (w.send .sigkill).interrupted = w.interrupted
    unfold send
    split <;> rfl
  exact ⟨gone_finish, h, hsame.trans hinterrupted⟩

theorem escalates_interrupt (h : w.interrupt.InOrder) : w.interrupt.Escalates :=
  ⟨gone_finish, h⟩

theorem escalates_close (hsent : w.sent = []) (hinterrupted : w.interrupted = false) :
    w.close.Escalates := by
  have hsignals : w.signals = [] := congrArg (List.map Prod.fst) hsent
  unfold close
  split
  · next hcode =>
    have hstop : (w.send .stop).signals = [.stop] := by
      rw [signals_send_of_none hcode, hsignals]
      rfl
    refine ⟨⟨1, Nat.le_refl _, hstop, fun _ => rfl⟩, ?_⟩
    rw [send_of_none hcode]
    exact hinterrupted
  · next hcode =>
    have hzero : w.Sent 0 := ⟨0, Nat.le_refl _, hsignals, fun h => absurd h hcode⟩
    exact escalates_finish (hzero.finish_of_some hcode) hinterrupted

theorem escalates_escalate {deadline : Int} {lookupFails : Bool} (h : w.Escalates)
    (hpc : w.pc = .waiting signal deadline) : (w.escalate signal lookupFails).Escalates := by
  unfold Escalates at h
  rw [hpc] at h
  obtain ⟨hsent, hrank, hinterrupted⟩ := h
  unfold escalate
  cases hnext : signal.next with
  | none =>
    have hthree : signal.rank = 3 := by
      cases signal <;> cases hnext
      · rfl
      · exact absurd hrank (by decide)
    exact escalates_finish (hthree ▸ hsent).finish hinterrupted
  | some next =>
    dsimp only
    split
    · exact escalates_interrupt (hsent.interrupt hrank)
    · obtain ⟨hsent', hrank'⟩ := hsent.next hnext
      refine ⟨hsent', hrank', ?_⟩
      show (w.send next).interrupted = false
      unfold send
      split <;> exact hinterrupted

/-- **A step keeps to the order.** -/
theorem Escalates.step (h : w.Escalates) (hstep : w.step a = some w') : w'.Escalates := by
  cases step_stepped hstep with
  | advance time => exact h
  | exit code hcode => exact h.exit _
  | unitsStopped hpc =>
    unfold Escalates at h
    rw [hpc] at h
    exact escalates_close h.1 h.2
  | unitsFailed hpc =>
    unfold Escalates at h ⊢
    rwa [hpc] at h
  | drained hpc =>
    unfold Escalates at h
    rw [hpc] at h
    exact ⟨h.1, by decide, h.2⟩
  | exited hpc hcode =>
    unfold Escalates at h
    rw [hpc] at h
    exact escalates_finish (h.1.finish_of_some hcode) h.2.2
  | timedOut lookupFails hpc hdeadline => exact escalates_escalate h hpc
  | drainRaised hpc =>
    unfold Escalates at h
    rw [hpc] at h
    exact escalates_interrupt (h.1.interrupt (by decide))
  | waitRaised hpc =>
    unfold Escalates at h
    rw [hpc] at h
    exact escalates_interrupt (h.1.interrupt h.2.1)
  | logged hpc =>
    unfold Escalates at h
    rw [hpc] at h
    exact ⟨h.1, h.2.1⟩

/-! ### The times -/

/-- The later signal came after the wait for the earlier one, unless `_stop` was interrupted. -/
def Waited (w : Closing) (earlier later : Signal × Int) : Prop :=
  w.interrupted = true ∧ later.1 = .sigkill ∨ earlier.2 + w.timeouts.wait earlier.1 ≤ later.2

/-- The signals were sent one wait after the other, and none to a process that had exited. -/
structure Timed (w : Closing) : Prop where
  now : ∀ x ∈ w.sent, x.2 ≤ w.now
  exit : ∀ exit ∈ w.exit, ∀ x ∈ w.sent, x.2 ≤ exit.2
  chain : w.sent.IsChain w.Waited
  deadline : ∀ signal deadline, w.pc = .waiting signal deadline → w.returncode = none →
    ∀ x ∈ w.sent.getLast?, x.2 + w.timeouts.wait x.1 ≤ deadline

theorem exit_eq_none (h : w.returncode = none) : w.exit = none :=
  Option.map_eq_none_iff.1 h

theorem Timed.send (h : w.Timed) (hwaited : ∀ x ∈ w.sent.getLast?, w.Waited x (signal, w.now))
    {pc : ClosePc}
    (hpc : ∀ s deadline, pc = .waiting s deadline → w.now + w.timeouts.wait signal ≤ deadline) :
    ({ w.send signal with pc := pc } : Closing).Timed := by
  unfold Closing.send
  split
  · next hcode =>
    constructor
    · intro x hx
      obtain hx | hx := List.mem_append.1 hx
      · exact h.now x hx
      · exact Int.le_of_eq (congrArg Prod.snd (List.mem_singleton.1 hx))
    · dsimp only
      rw [exit_eq_none hcode]
      nofun
    · refine List.isChain_append.2 ⟨h.chain, .singleton _, ?_⟩
      rintro x hx y ⟨⟩
      exact hwaited x hx
    · intro s deadline hwaiting _ x hx
      dsimp only at hx hwaiting
      rw [List.getLast?_concat] at hx
      cases hx
      exact hpc s deadline hwaiting
  · next hcode =>
    exact ⟨h.now, h.exit, h.chain, fun s deadline _ hnone => absurd hnone hcode⟩

theorem Timed.interrupting (h : w.Timed) : ({ w with interrupted := true } : Closing).Timed where
  now := h.now
  exit := h.exit
  chain := h.chain.imp fun _ _ hwaited => hwaited.imp (fun hkill => ⟨rfl, hkill.2⟩) id
  deadline := h.deadline

theorem Timed.interrupt (h : w.Timed) : w.interrupt.Timed := by
  have hsame : w.interrupt =
      { ({ w with interrupted := true } : Closing).send .sigkill with pc := .closed } := by
    unfold Closing.interrupt Closing.send returncode
    dsimp only
    split <;> rfl
  rw [hsame]
  exact h.interrupting.send (fun _ _ => .inl ⟨rfl, rfl⟩) nofun

theorem timed_close (h : w.Timed) (hsent : w.sent = []) : w.close.Timed := by
  have hfirst : ∀ signal : Signal, ∀ x ∈ w.sent.getLast?, w.Waited x (signal, w.now) := by
    rw [hsent]
    nofun
  unfold close
  split
  · exact h.send (hfirst _) nofun
  · exact h.send (hfirst _) nofun

theorem timed_finish (h : w.Timed) (hcode : w.returncode ≠ none) : w.finish.Timed := by
  unfold finish
  rw [send_of_some hcode]
  exact ⟨h.now, h.exit, h.chain, nofun⟩

theorem timed_escalate {deadline : Int} {lookupFails : Bool} (h : w.Timed)
    (hpc : w.pc = .waiting signal deadline) (hdeadline : deadline ≤ w.now) :
    (w.escalate signal lookupFails).Timed := by
  by_cases hcode : w.returncode = none
  · have hwaited : ∀ next : Signal, ∀ x ∈ w.sent.getLast?, w.Waited x (next, w.now) :=
      fun next x hx => .inr (Int.le_trans (h.deadline _ _ hpc hcode x hx) hdeadline)
    unfold escalate
    split
    · next next hnext =>
      rw [if_neg fun hlookup => hlookup.1 hcode]
      have htime : (w.send next).now = w.now ∧ (w.send next).timeouts = w.timeouts := by
        unfold Closing.send
        split <;> exact ⟨rfl, rfl⟩
      refine h.send (hwaited _) ?_
      rintro s deadline' ⟨⟩
      exact Int.le_of_eq (by rw [htime.1, htime.2])
    · exact h.send (hwaited _) nofun
  · unfold escalate
    split
    · next next hnext =>
      split
      · exact h.interrupt
      · rw [send_of_some hcode]
        exact ⟨h.now, h.exit, h.chain, fun s d _ hnone => absurd hnone hcode⟩
    · exact timed_finish h hcode

theorem Timed.step (h : w.Timed) (he : w.Escalates) (hstep : w.step a = some w') : w'.Timed := by
  cases step_stepped hstep with
  | advance time =>
    refine ⟨?_, h.exit, h.chain, h.deadline⟩
    intro x hx
    exact Int.le_trans (h.now x hx) (Int.le_add_of_nonneg_right (Int.natCast_nonneg _))
  | exit code hcode =>
    refine ⟨h.now, ?_, h.chain, nofun⟩
    rintro exit ⟨⟩ x hx
    exact h.now x hx
  | unitsStopped hpc =>
    unfold Escalates at he
    rw [hpc] at he
    exact timed_close h he.1
  | unitsFailed hpc => exact ⟨h.now, h.exit, h.chain, nofun⟩
  | drained hpc =>
    unfold Escalates at he
    rw [hpc] at he
    obtain ⟨⟨n, -, hsignals, hall⟩, -⟩ := he
    refine ⟨h.now, h.exit, h.chain, ?_⟩
    rintro s deadline ⟨⟩ hcode x hx
    obtain rfl := hall hcode
    -- only `stop` was sent
    have hstop : x.1 = .stop := by
      have hmem : x.1 ∈ w.signals := List.mem_map_of_mem (List.mem_of_getLast? hx)
      rw [hsignals] at hmem
      exact List.mem_singleton.1 hmem
    rw [hstop]
    exact Int.add_le_add_right (h.now x (List.mem_of_getLast? hx)) _
  | exited hpc hcode => exact timed_finish h hcode
  | timedOut lookupFails hpc hdeadline => exact timed_escalate h hpc hdeadline
  | drainRaised hpc => exact h.interrupt
  | waitRaised hpc => exact h.interrupt
  | logged hpc => exact ⟨h.now, h.exit, h.chain, nofun⟩

/-! ### Prompt runs -/

theorem wait_nonneg (timeouts : StopTimeouts) (signal : Signal) : 0 ≤ timeouts.wait signal := by
  cases signal with
  | sigkill => exact Int.le_refl _
  | _ => exact Int.mul_nonneg (Int.natCast_nonneg _) (by decide)

theorem total_le (timeouts : StopTimeouts) (signal : Signal) :
    timeouts.total signal ≤ timeouts.total .sigkill := by
  have hint := wait_nonneg timeouts .sigint
  have hterm := wait_nonneg timeouts .sigterm
  unfold StopTimeouts.total
  cases signal <;> dsimp only <;> omega

theorem total_next (timeouts : StopTimeouts) {next : Signal} (hnext : signal.next = some next) :
    timeouts.total next = timeouts.total signal + timeouts.wait next := by
  cases signal <;> cases hnext <;> rfl

theorem wait_le_total (timeouts : StopTimeouts) (signal : Signal) :
    timeouts.wait signal ≤ timeouts.total signal := by
  have hstop := wait_nonneg timeouts .stop
  have hint := wait_nonneg timeouts .sigint
  have hterm := wait_nonneg timeouts .sigterm
  unfold StopTimeouts.total
  cases signal with
  | sigkill =>
    show 0 ≤ timeouts.wait .stop + timeouts.wait .sigint + timeouts.wait .sigterm
    omega
  | _ => dsimp only; omega

theorem total_nonneg (timeouts : StopTimeouts) : 0 ≤ timeouts.total .sigkill :=
  wait_le_total timeouts .sigkill

/-- Every wait ends in time, counted from the first signal. -/
structure InTime (drain : Nat) (w : Closing) : Prop where
  limit : ∀ limit ∈ w.limit drain, w.now ≤ limit
  deadline : ∀ signal deadline, w.pc = .waiting signal deadline →
    ∀ first ∈ w.sent.head?, deadline ≤ first.2 + drain + w.timeouts.total signal
  sent : ∀ first ∈ w.sent.head?, ∀ x ∈ w.sent, x.2 ≤ first.2 + drain + w.timeouts.total .sigkill

variable {drain : Nat}

theorem InTime.now_of_draining (h : w.InTime drain) (hpc : w.pc = .draining) :
    ∀ first ∈ w.sent.head?, w.now ≤ first.2 + drain := by
  have hlimit := h.limit
  unfold Closing.limit at hlimit
  rw [hpc] at hlimit
  intro first hfirst
  exact hlimit _ (Option.mem_map_of_mem _ hfirst)

theorem InTime.now_of_waiting {deadline : Int} (h : w.InTime drain)
    (hpc : w.pc = .waiting signal deadline) :
    w.now ≤ deadline ∧
      ∀ first ∈ w.sent.head?, w.now ≤ first.2 + drain + w.timeouts.total signal := by
  have hlimit := h.limit
  unfold Closing.limit at hlimit
  rw [hpc] at hlimit
  have hnow := hlimit _ rfl
  exact ⟨hnow, fun first hfirst => Int.le_trans hnow (h.deadline _ _ hpc first hfirst)⟩

theorem head_send (hcode : w.returncode = none) :
    ∀ first ∈ (w.send signal).sent.head?,
      first ∈ w.sent.head? ∨ w.sent = [] ∧ first = (signal, w.now) := by
  rw [send_of_none hcode]
  dsimp only
  intro first hfirst
  cases hsent : w.sent with
  | nil =>
    rw [hsent] at hfirst
    cases hfirst
    exact .inr ⟨rfl, rfl⟩
  | cons x l =>
    rw [hsent] at hfirst
    exact .inl hfirst

theorem sent_send (h : w.InTime drain)
    (hnow : ∀ first ∈ w.sent.head?, w.now ≤ first.2 + drain + w.timeouts.total .sigkill) :
    ∀ first ∈ (w.send signal).sent.head?, ∀ x ∈ (w.send signal).sent,
      x.2 ≤ first.2 + drain + w.timeouts.total .sigkill := by
  intro first hfirst x hx
  by_cases hcode : w.returncode = none
  · have hmem : x ∈ w.sent ++ [(signal, w.now)] := by
      rwa [send_of_none hcode] at hx
    obtain hsame | ⟨hnil, hnew⟩ := head_send hcode first hfirst
    · obtain hx | hx := List.mem_append.1 hmem
      · exact h.sent first hsame x hx
      · rw [List.mem_singleton.1 hx]
        exact hnow first hsame
    · rw [hnil] at hmem
      have htotal := total_nonneg w.timeouts
      rw [List.mem_singleton.1 hmem, hnew]
      omega
  · rw [send_of_some hcode] at hfirst hx
    exact h.sent first hfirst x hx

theorem timeouts_send : (w.send signal).timeouts = w.timeouts := by
  unfold Closing.send
  split <;> rfl

theorem now_send : (w.send signal).now = w.now := by
  unfold Closing.send
  split <;> rfl

theorem InTime.finish (h : w.InTime drain)
    (hnow : ∀ first ∈ w.sent.head?, w.now ≤ first.2 + drain + w.timeouts.total .sigkill) :
    w.finish.InTime drain := by
  refine ⟨nofun, nofun, ?_⟩
  show ∀ first ∈ (w.send .sigkill).sent.head?, ∀ x ∈ (w.send .sigkill).sent,
    x.2 ≤ first.2 + drain + (w.send .sigkill).timeouts.total .sigkill
  rw [timeouts_send]
  exact sent_send h hnow

theorem InTime.interrupt (h : w.InTime drain)
    (hnow : ∀ first ∈ w.sent.head?, w.now ≤ first.2 + drain + w.timeouts.total .sigkill) :
    w.interrupt.InTime drain :=
  ⟨nofun, nofun, (h.finish hnow).sent⟩

theorem intime_close (h : w.InTime drain) (hsent : w.sent = []) : w.close.InTime drain := by
  have hnow : ∀ first ∈ w.sent.head?, w.now ≤ first.2 + drain + w.timeouts.total .sigkill := by
    rw [hsent]
    nofun
  unfold close
  split
  · next hcode =>
    rw [send_of_none hcode, hsent]
    refine ⟨?_, nofun, ?_⟩
    · rintro limit ⟨⟩
      exact Int.le_add_of_nonneg_right (Int.natCast_nonneg _)
    · rintro first ⟨⟩ x hx
      rw [List.mem_singleton.1 hx]
      have htotal := total_nonneg w.timeouts
      dsimp only
      omega
  · exact h.finish hnow

theorem intime_escalate {deadline : Int} {lookupFails : Bool} (h : w.InTime drain)
    (hpc : w.pc = .waiting signal deadline) : (w.escalate signal lookupFails).InTime drain := by
  obtain ⟨-, hfirst⟩ := h.now_of_waiting hpc
  have hnow : ∀ first ∈ w.sent.head?, w.now ≤ first.2 + drain + w.timeouts.total .sigkill := by
    intro first hmem
    have := hfirst first hmem
    have := total_le w.timeouts signal
    omega
  unfold escalate
  cases hnext : signal.next with
  | none => exact h.finish hnow
  | some next =>
    dsimp only
    split
    · exact h.interrupt hnow
    · refine ⟨?_, ?_, ?_⟩
      · rintro limit ⟨⟩
        exact Int.le_add_of_nonneg_right (wait_nonneg _ _)
      · rintro s d ⟨⟩ first hmem
        show (w.send next).now + (w.send next).timeouts.wait next ≤
          first.2 + drain + (w.send next).timeouts.total next
        rw [now_send, timeouts_send]
        have htotal := total_next w.timeouts hnext
        by_cases hcode : w.returncode = none
        · obtain hsame | ⟨-, rfl⟩ := head_send hcode first hmem
          · have := hfirst first hsame
            omega
          · have := wait_le_total w.timeouts next
            dsimp only
            omega
        · have hsame : first ∈ w.sent.head? := by
            show first ∈ w.sent.head?
            rwa [← (send_of_some hcode : w.send next = w)]
          have := hfirst first hsame
          omega
      · show ∀ first ∈ (w.send next).sent.head?, ∀ x ∈ (w.send next).sent,
          x.2 ≤ first.2 + drain + (w.send next).timeouts.total .sigkill
        rw [timeouts_send]
        exact sent_send h hnow

theorem InTime.step (h : w.InTime drain) (he : w.Escalates) (hprompt : w.Prompt drain a)
    (hstep : w.step a = some w') : w'.InTime drain := by
  cases step_stepped hstep with
  | advance time => exact ⟨hprompt, h.deadline, h.sent⟩
  | exit code hcode => exact ⟨h.limit, h.deadline, h.sent⟩
  | unitsStopped hpc =>
    unfold Escalates at he
    rw [hpc] at he
    exact intime_close h he.1
  | unitsFailed hpc => exact ⟨nofun, nofun, h.sent⟩
  | drained hpc =>
    refine ⟨?_, ?_, h.sent⟩
    · rintro limit ⟨⟩
      exact Int.le_add_of_nonneg_right (wait_nonneg _ _)
    · rintro s d ⟨⟩ first hfirst
      exact Int.add_le_add_right (h.now_of_draining hpc first hfirst) _
  | exited hpc hcode =>
    refine h.finish fun first hfirst => ?_
    exact Int.le_trans ((h.now_of_waiting hpc).2 first hfirst)
      (Int.add_le_add_left (total_le _ _) _)
  | timedOut lookupFails hpc hdeadline => exact intime_escalate h hpc
  | drainRaised hpc =>
    refine h.interrupt fun first hfirst => ?_
    have := h.now_of_draining hpc first hfirst
    have := total_nonneg w.timeouts
    omega
  | waitRaised hpc =>
    refine h.interrupt fun first hfirst => ?_
    exact Int.le_trans ((h.now_of_waiting hpc).2 first hfirst)
      (Int.add_le_add_left (total_le _ _) _)
  | logged hpc => exact ⟨nofun, nofun, h.sent⟩

end

/-- **`_stop` closes the process**: once it has gone past its awaits the process has exited or was
sent SIGKILL, in any run. The signals were sent in order, each after the wait for the one before
(but for a SIGKILL after an exception), none after the exit, and in a prompt run the last comes
within the time of `drain` and the three timeouts. If stopping the units fails none is sent. -/
theorem process_closed (timeouts : StopTimeouts) (exit : Option (Int × Int)) (now : Int) :
    (∀ w, Reach step (fun _ _ => True) (init timeouts exit now) w →
      (w.pc = .logging ∨ w.pc = .closed → w.Gone ∧ w.InOrder) ∧
      (w.pc = .unitsFailed → w.sent = []) ∧
      w.sent.IsChain w.Waited ∧
      ∀ exit ∈ w.exit, ∀ x ∈ w.sent, x.2 ≤ exit.2) ∧
    ∀ (drain : Nat) (w : Closing), Reach step (Prompt drain) (init timeouts exit now) w →
      ∀ first ∈ w.sent.head?,
        (∀ x ∈ w.sent, x.2 ≤ first.2 + drain + w.timeouts.total .sigkill) ∧
        (w.limit drain ≠ none → w.now ≤ first.2 + drain + w.timeouts.total .sigkill) := by
  have hescalates : ∀ w, Reach step (fun _ _ => True) (init timeouts exit now) w → w.Escalates :=
    fun w hrun => hrun.invariant ⟨rfl, rfl⟩ fun _ _ _ h _ hstep => h.step hstep
  constructor
  · intro w hrun
    have htimed : w.Timed := hrun.invariant_of hescalates ⟨nofun, nofun, .nil, nofun⟩
      fun _ _ _ he h _ hstep => h.step he hstep
    have he := hescalates w hrun
    unfold Escalates at he
    refine ⟨?_, ?_, htimed.chain, htimed.exit⟩
    · rintro (hpc | hpc) <;> rw [hpc] at he
      · exact ⟨he.1, he.2.1⟩
      · exact he
    · intro hpc
      rw [hpc] at he
      exact he.1
  · intro drain w hrun first hfirst
    have htime : w.InTime drain := hrun.invariant_of
      (fun w hrun => hescalates w (hrun.mono fun _ _ _ => trivial)) ⟨nofun, nofun, nofun⟩
      fun _ _ _ he h hprompt hstep => h.step he hprompt hstep
    refine ⟨htime.sent first hfirst, fun hlimit => ?_⟩
    unfold limit at hlimit
    split at hlimit
    · next hpc =>
      have := htime.now_of_draining hpc first hfirst
      have := total_nonneg w.timeouts
      omega
    · next signal _ hpc =>
      have := (htime.now_of_waiting hpc).2 first hfirst
      have := total_le w.timeouts signal
      omega
    · exact absurd rfl hlimit

/-- A process that ignores everything is killed 272 seconds after `stop`. -/
theorem process_closed_killed :
    ∃ w, Reach step (Prompt 2000000000) (init {} none 0) w ∧ w.pc = .closed ∧
      w.sent = [(.stop, 0), (.sigint, seconds 92), (.sigterm, seconds 182), (.sigkill, seconds 272)] ∧
      w.Gone ∧ w.InOrder ∧ w.sent.IsChain w.Waited ∧
      ∀ x ∈ w.sent, x.2 ≤ 0 + 2000000000 + w.timeouts.total .sigkill := by
  obtain ⟨w, hrun, hpc, hsent⟩ := Reach.exists_of_runIn step (Prompt 2000000000) (init {} none 0)
    [.unitsStopped, .advance 2000000000, .drained, .advance 90000000000, .timedOut false,
      .advance 90000000000, .timedOut false, .advance 90000000000, .timedOut false, .logged]
    (p := fun w => w.pc = .closed ∧ w.sent =
      [(.stop, 0), (.sigint, seconds 92), (.sigterm, seconds 182), (.sigkill, seconds 272)])
    (by decide +kernel)
  obtain ⟨hall, hprompt⟩ := process_closed {} none 0
  obtain ⟨hgone, -, hchain, -⟩ := hall w (hrun.mono fun _ _ _ => trivial)
  obtain ⟨hgone, horder⟩ := hgone (.inr hpc)
  exact ⟨w, hrun, hpc, hsent, hgone, horder, hchain, (hprompt 2000000000 w hrun (.stop, 0)
    (by rw [hsent]; rfl)).1⟩

end Closing

end Silkjam.Server
