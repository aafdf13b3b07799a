import Silkjam.Lib.Transition
import Silkjam.Server.Steps

/-!
# The sleep timer follows the number of players

While `supervise` waits and no change of the number of players is pending, the sleep timer is
suspended if there are players, and armed if there are none, unless the stop of the server was
requested (`sleep_timer_follows`). Every write of the number sets the event, and only `supervise`
clears it, in the segment in which it has just acted on the latest number; so it does not matter
where in between the writes land.
-/

namespace Silkjam.Server

open Transition

namespace MCBackend

/-- The sleep timer is as the latest number of players asks for. -/
def TimerFollows (s : MCBackend) : Prop :=
  s.players ≠ 0 ∧ s.sleepTimer.timeout = none ∨
    s.players = 0 ∧ (s.sleepTimer.timeout ≠ none ∨ s.pendingStop = true)

/-- Runs in which the backend is not started again, so that they hold one run of `supervise`. -/
def SameRun (_ : MCBackend) (a : Action) : Prop :=
  match a with
  | .entered => False
  | _ => True

instance (s : MCBackend) (a : Action) : Decidable (s.SameRun a) := by
  unfold SameRun
  split <;> infer_instance

/-- As long as `supervise` has not ended, a change is pending or the timer follows the number. -/
structure Follows (s : MCBackend) : Prop where
  timeout : s.sleepTimeout ≠ none
  running : s.superviseTask ≠ .finished → s.status = .running
  follows : s.superviseTask ≠ .finished → s.changed = true ∨ s.TimerFollows

section
variable {s s' : MCBackend}

theorem SameServer.follows (h : SameServer s s') (hfollows : s.changed = true ∨ s.TimerFollows) :
    s'.changed = true ∨ s'.TimerFollows := by
  unfold TimerFollows
  rw [h.changed, h.players, h.timeout, h.pendingStop]
  exact hfollows

/-- A turn of `supervise`: where it cleared the event, the timer follows the number it read. -/
theorem Supervised.follows (h : Supervised s s') (htimeout : s.sleepTimeout ≠ none)
    (hrunning : s.status = .running) (hfollows : s.changed = true ∨ s.TimerFollows) :
    s'.changed = true ∨ s'.TimerFollows := by
  have honline := onlinePlayers_eq hrunning
  unfold TimerFollows
  rw [h.players, ← honline]
  obtain ⟨hchanged, htimer, hstop, -⟩ | ⟨-, hzero, hstop, -⟩ | ⟨-, -, -, hzero, hnonzero⟩ := h.cases
  · -- the event was not among those that ended the wait
    rw [hchanged, htimer, hstop, honline]
    exact hfollows
  · exact .inr (.inr ⟨hzero, .inr hstop⟩)
  · by_cases hplayers : s.onlinePlayers = 0
    · exact .inr (.inr ⟨hplayers, .inl (hzero hplayers htimeout)⟩)
    · exact .inr (.inl ⟨hplayers, hnonzero hplayers⟩)

theorem Follows.step {a : Action} (hf : Follows s) (hok : s.SameRun a)
    (hstep : s.step a = some s') : Follows s' := by
  refine ⟨?_, live_step hf.running hstep, ?_⟩
  · have htimeout : s'.sleepTimeout = s.sleepTimeout := by
      cases step_effect hstep with
      | units h | stopMcproc h | supervise _ _ h => exact h.sleepTimeout
      | beginSession h | endSession _ h | poll h => exact h.sleepTimeout
      | turn _ h => exact h.sleepTimeout
      | off h | entered h | exit h => exact h.sleepTimeout
    rw [htimeout]
    exact hf.timeout
  · intro hlive
    cases step_effect hstep with
    | units h => exact h.follows (hf.follows (h.superviseTask ▸ hlive))
    | beginSession h | endSession _ h | poll h => exact .inl h.changed
    | supervise _ htask h =>
      refine h.follows (hf.follows ?_)
      rw [htask]
      nofun
    | turn htask h =>
      have hlive : s.superviseTask ≠ .finished := by
        rw [htask]
        nofun
      exact h.follows hf.timeout (hf.running hlive) (hf.follows hlive)
    | off _ hstatus _ htask => exact absurd (hf.running (htask ▸ hlive)) hstatus
    | entered => exact hok.elim
    | exit _ htask => exact absurd htask hlive
    | stopMcproc h =>
      apply h.follows
      exact (hf.follows (h.superviseTask ▸ hlive)).imp_right fun hfollows =>
        hfollows.imp_right fun hzero => ⟨hzero.1, .inr rfl⟩

end

/-- **The sleep timer follows the number of players.** Let the sleep timeout be configured, and let
the event be set, or the timer be as the number of players asks for, when `supervise` begins in a
running backend, or at any time later. From then on, whenever `supervise` waits and the event is
clear, the latest number is nonzero and the timer is suspended, or it is zero and the timer is armed
or the stop of the server was requested. -/
theorem sleep_timer_follows {s₀ s : MCBackend} (htimeout : s₀.sleepTimeout ≠ none)
    (hstatus : s₀.status = .running) (hbegin : s₀.changed = true ∨ s₀.TimerFollows)
    (h : Reach step SameRun s₀ s) (hwaits : s.superviseTask = .supervising)
    (hclear : s.changed = false) :
    s.players ≠ 0 ∧ s.sleepTimer.timeout = none ∨
      s.players = 0 ∧ (s.sleepTimer.timeout ≠ none ∨ s.pendingStop = true) := by
  have hf : Follows s := by
    apply h.invariant ⟨htimeout, fun _ => hstatus, fun _ => hbegin⟩
    intro s a s' hf hok hstep
    exact hf.step hok hstep
  have hlive : s.superviseTask ≠ .finished := by
    rw [hwaits]
    nofun
  obtain hchanged | hfollows := hf.follows hlive
  · rw [hclear] at hchanged
    cases hchanged
  · exact hfollows

theorem sleep_timer_follows_login :
    ∃ s : MCBackend, s.players = 1 ∧ s.changed = false ∧
      (s.players ≠ 0 ∧ s.sleepTimer.timeout = none ∨
        s.players = 0 ∧ (s.sleepTimer.timeout ≠ none ∨ s.pendingStop = true)) := by
  -- a login begins while `supervise_until` is still returning because of the event set at first
  let s₀ : MCBackend :=
    (init { sleepProperties := { timeout := some ⟨60, Nat.succ_pos 59⟩ }, enabled := true }).entered
  obtain ⟨s, hs, hplayers, hclear, htask⟩ := Reach.exists_of_runIn step SameRun s₀
    [.supervise, .monitorStep, .helperStep onlinePlayerChange, .wake [], .beginSession,
      .superviseReturned]
    (p := fun s => s.players = 1 ∧ s.changed = false ∧ s.superviseTask = .supervising)
    (by decide +kernel)
  have htimeout : s₀.sleepTimeout ≠ none := Option.some_ne_none _
  exact ⟨s, hplayers, hclear, sleep_timer_follows htimeout rfl (.inl rfl) hs htask hclear⟩

end MCBackend

end Silkjam.Server
