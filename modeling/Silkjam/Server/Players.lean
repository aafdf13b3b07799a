import Silkjam.Lib.Transition
import Silkjam.Server.Steps

/-!
# Sleep under connected players

`supervise` requests the stop of the server when the number of players is zero and the sleep timer
has ended. A status poll sets the number to what the server reports, and the server does not count a
player whose login is still in progress; so the stop may be requested under such a player
(`sleeps_under_login`). It is not, in runs in which no poll reports less than the logins in progress
and those begin and end while the server is running (`no_sleep_under_player`): the number then is
never below theirs.
-/

namespace Silkjam.Server

open Transition

namespace MCBackend

/-- No poll reports less than the number of logins in progress; and while the server is not running,
whose number of players then counts as zero, no login ends, nor begins besides another. -/
def CountsSessions (s : MCBackend) : Action → Prop
  | .beginSession => s.status = .running ∨ s.sessions = ∅
  | .endSession _ => s.status = .running
  | .poll online _ => s.sessions.card ≤ online
  | _ => True

instance (s : MCBackend) (a : Action) : Decidable (s.CountsSessions a) := by
  unfold CountsSessions
  split <;> infer_instance

/-- The number of players is at least that of the logins in progress, and no stop was requested
under one. -/
structure Counted (s : MCBackend) : Prop where
  running : s.superviseTask ≠ .finished → s.status = .running
  fresh : ∀ session ∈ s.sessions, session < s.nextSession
  count : (s.sessions.card : Int) ≤ s.players
  trace : ∀ sessions, .stopRequested sessions ∈ s.trace → sessions = ∅

theorem Counted.init (listing : ServerListing) : Counted (init listing) :=
  ⟨nofun, nofun, le_refl 0, nofun⟩

section
variable {s s' : MCBackend}

theorem Counted.of_same (hc : Counted s) (h : SameCount s s')
    (hrunning : s'.superviseTask ≠ .finished → s'.status = .running) : Counted s' := by
  refine ⟨hrunning, ?_, ?_, ?_⟩
  · rw [h.sessions, h.nextSession]
    exact hc.fresh
  · rw [h.sessions, h.players]
    exact hc.count
  · rw [h.trace]
    exact hc.trace

theorem Counted.card_le_online (hc : Counted s) (h : s.status = .running ∨ s.sessions = ∅) :
    (s.sessions.card : Int) ≤ s.onlinePlayers := by
  by_cases hrunning : s.status = .running
  · rw [onlinePlayers_eq hrunning]
    exact hc.count
  · have hempty := h.resolve_left hrunning
    have honline := onlinePlayers_eq_zero hrunning
    rw [hempty, honline]
    exact le_refl 0

theorem Counted.of_supervised (hc : Counted s) (htask : s.superviseTask = .supervising)
    (h : Supervised s s') (hrunning : s'.superviseTask ≠ .finished → s'.status = .running) :
    Counted s' := by
  refine ⟨hrunning, ?_, ?_, ?_⟩
  · rw [h.sessions, h.nextSession]
    exact hc.fresh
  · rw [h.sessions, h.players]
    exact hc.count
  · obtain ⟨-, -, -, htrace⟩ | ⟨-, hzero, -, htrace⟩ | ⟨-, -, htrace, -⟩ := h.cases
    · rw [htrace]
      exact hc.trace
    · have hstatus : s.status = .running := by
        apply hc.running
        rw [htask]
        nofun
      have hcard := hc.card_le_online (.inl hstatus)
      have hempty : s.sessions = ∅ := by
        rw [← Finset.card_eq_zero]
        omega
      intro sessions hmem
      rw [htrace] at hmem
      obtain heq | hmem := List.mem_cons.1 hmem
      · cases heq
        exact hempty
      · exact hc.trace sessions hmem
    · rw [htrace]
      exact hc.trace

theorem Counted.step {a : Action} (hc : Counted s) (hok : s.CountsSessions a)
    (hstep : s.step a = some s') : Counted s' := by
  have hrunning := live_step hc.running hstep
  cases step_effect hstep with
  | units h | stopMcproc h | supervise _ _ h =>
    exact hc.of_same ⟨h.sleepTimeout, h.players, h.sessions, h.nextSession, h.trace⟩ hrunning
  | off h | entered h | exit h => exact hc.of_same h hrunning
  | turn htask h => exact hc.of_supervised htask h hrunning
  | beginSession h hsessions hnext =>
    have honline := hc.card_le_online hok
    have hnew : s.nextSession ∉ s.sessions := fun hmem => (hc.fresh _ hmem).ne rfl
    refine ⟨hrunning, ?_, ?_, ?_⟩
    · intro session hmem
      rw [hsessions, Finset.mem_insert] at hmem
      rw [hnext]
      obtain rfl | hmem := hmem
      · exact Nat.lt_succ_self _
      · exact Nat.lt_succ_of_lt (hc.fresh session hmem)
    · rw [hsessions, h.players, Finset.card_insert_of_notMem hnew]
      push_cast
      omega
    · rw [h.trace]
      exact hc.trace
  | endSession hmem h hsessions hnext =>
    have honline := hc.card_le_online (.inl hok)
    have hcard := Finset.card_erase_add_one hmem
    refine ⟨hrunning, ?_, ?_, ?_⟩
    · intro session hin
      rw [hsessions] at hin
      rw [hnext]
      exact hc.fresh session (Finset.mem_of_mem_erase hin)
    · rw [hsessions, h.players]
      omega
    · rw [h.trace]
      exact hc.trace
  | poll h hsessions hnext =>
    refine ⟨hrunning, ?_, ?_, ?_⟩
    · rw [hsessions, hnext]
      exact hc.fresh
    · rw [hsessions, h.players]
      exact Int.ofNat_le.2 hok
    · rw [h.trace]
      exact hc.trace

end

/-- **No sleep under a connected player**, in every run in which polls count the logins in progress:
`supervise` requests the stop of the server only while there is none. -/
theorem no_sleep_under_player {listing : ServerListing} {s : MCBackend}
    (h : Reach step CountsSessions (init listing) s) (sessions : Finset Nat)
    (hstop : .stopRequested sessions ∈ s.trace) : sessions = ∅ := by
  have hc : Counted s := by
    apply h.invariant (.init listing)
    intro s a s' hc hok hstep
    exact hc.step hok hstep
  exact hc.trace sessions hstop

theorem no_sleep_under_player_empty :
    ∃ s : MCBackend, s.trace = [.stopRequested ∅] ∧ (∅ : Finset Nat) = ∅ ∧ 0 < s.nextSession := by
  -- a login begins and ends, the timer ends, and a poll reports no players
  obtain ⟨s, hs, htrace, hnext⟩ := Reach.exists_of_runIn step CountsSessions
    (init { sleepProperties := { timeout := some ⟨60, Nat.succ_pos 59⟩ }, enabled := true })
    ([.enter, .entered, .supervise, .monitorStep, .helperStep onlinePlayerChange, .wake [],
      .superviseReturned, .resume 0 .suspend, .resume 0 (.ok .none), .beginSession, .endSession 0,
      .monitorStep, .helperStep onlinePlayerChange, .wake [], .superviseReturned,
      .advance 60000000000, .resume 0 (.ok .none), .resume 0 (.ok .none), .monitorStep,
      .helperStep onlinePlayerChange, .wake [0], .superviseReturned,
      .poll 0 UNKNOWN_VERSION, .monitorStep, .helperStep onlinePlayerChange, .wake [],
      .superviseReturned])
    (p := fun s => s.trace = [.stopRequested ∅] ∧ 0 < s.nextSession) (by decide +kernel)
  refine ⟨s, htrace, no_sleep_under_player hs ∅ ?_, hnext⟩
  rw [htrace]
  exact List.mem_singleton_self _

/-- A login takes longer than the sleep timeout, and the polls meanwhile report no players. -/
theorem sleeps_under_login :
    ¬ ∀ (listing : ServerListing) (s : MCBackend),
      Reach step (fun _ _ => True) (init listing) s →
        ∀ sessions, .stopRequested sessions ∈ s.trace → sessions = ∅ := by
  intro h
  obtain ⟨s, hs, htrace⟩ := Reach.exists_of_runIn step (fun _ _ => True)
    (init { sleepProperties := { timeout := some ⟨60, Nat.succ_pos 59⟩ }, enabled := true })
    -- the units and `supervise` start
    ([.enter, .entered, .supervise, .monitorStep, .helperStep onlinePlayerChange, .wake [],
      .superviseReturned, .resume 0 .suspend, .resume 1 .suspend, .resume 2 .suspend,
      .resume 0 (.ok .none), .resume 1 (.ok .none), .resume 2 (.ok .none), .monitorStep,
      .helperStep onlinePlayerChange,
      -- the login begins, and the timer is suspended
      .beginSession, .helperStep onlinePlayerChange, .wake [], .superviseReturned, .monitorStep,
      .helperStep onlinePlayerChange,
      -- a poll reports no players, and the timer is armed
      .poll 0 UNKNOWN_VERSION, .helperStep onlinePlayerChange, .wake [], .superviseReturned,
      .monitorStep, .helperStep onlinePlayerChange,
      -- it ends, and so does its unit, which requests a poll
      .advance 60000000000, .resume 0 (.ok .none), .resume 0 (.ok .none), .wake [0],
      .superviseReturned, .monitorStep, .helperStep onlinePlayerChange,
      .poll 0 UNKNOWN_VERSION, .helperStep onlinePlayerChange, .wake [], .superviseReturned])
    (p := fun s => .stopRequested {0} ∈ s.trace) (by decide +kernel)
  exact absurd (h _ s hs {0} htrace) (by decide)

end MCBackend

end Silkjam.Server
