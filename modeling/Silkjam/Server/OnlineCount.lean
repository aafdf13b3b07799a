import Silkjam.Lib.Transition
import Silkjam.Server.Steps

/-!
# The number of online players

A forwarded login counts `_online_players` up and later down again, and a status poll overwrites it
with what the server reports, which does not count the logins in progress. `Tally` is the backend
with a history of what was last reported and of the logins since. The number is what they add up to,
so it falls below zero as soon as more logins have ended than were reported or have begun, and
whenever one ends while the server is not running, whose players then count as zero.
-/

namespace Silkjam.Server

open Transition

/-- The backend, with what the latest poll reported and the logins that have begun and ended since.
A login that begins while the server is not running counts up from zero. -/
structure Tally where
  backend : MCBackend
  reported : Nat := 0
  begun : Nat := 0
  ended : Nat := 0

namespace Tally

def record (w : Tally) : Action → Tally
  | .poll online _ => { w with reported := online, begun := 0, ended := 0 }
  | .beginSession =>
    if w.backend.status = .running then { w with begun := w.begun + 1 }
    else { w with reported := 0, begun := 1, ended := 0 }
  | .endSession _ => { w with ended := w.ended + 1 }
  | _ => w

def step (w : Tally) (a : Action) : Option Tally :=
  (w.backend.step a).map fun s => { w.record a with backend := s }

/-- A login ends only while the server is running, and while fewer have ended since the latest poll
than it reported and have begun. -/
def Covers (w : Tally) : Action → Prop
  | .endSession _ => w.backend.status = .running ∧ w.ended < w.reported + w.begun
  | _ => True

instance (w : Tally) : (a : Action) → Decidable (w.Covers a)
  | .endSession _ =>
    inferInstanceAs (Decidable (w.backend.status = .running ∧ w.ended < w.reported + w.begun))
  | .beginSession | .poll .. | .resume .. | .monitorStep | .helperStep _ | .wake _ | .supervise
  | .superviseReturned | .cancelSupervise | .enter | .entered | .exit | .leave | .exited
  | .stopMcproc | .advance _ => inferInstanceAs (Decidable True)

/-- The number of players is what the history adds up to. -/
structure Exact (w : Tally) : Prop where
  count : w.backend.players = w.reported + w.begun - w.ended
  nonneg : 0 ≤ w.backend.players

section
variable {w w' : Tally} {a : Action}

/-- Nothing else writes the number. -/
theorem players_of_other {s s' : MCBackend} (hstep : s.step a = some s')
    (hbegin : a ≠ .beginSession) (hend : ∀ session, a ≠ .endSession session)
    (hpoll : ∀ online version, a ≠ .poll online version) : s'.players = s.players := by
  cases MCBackend.step_effect hstep with
  | units h | supervise _ _ h | turn _ h | off h | entered h | exit h | stopMcproc h =>
    exact h.players
  | beginSession => exact absurd rfl hbegin
  | endSession => exact absurd rfl (hend _)
  | poll => exact absurd rfl (hpoll _ _)

theorem record_of_other (hbegin : a ≠ .beginSession) (hend : ∀ session, a ≠ .endSession session)
    (hpoll : ∀ online version, a ≠ .poll online version) : w.record a = w := by
  unfold record
  split
  · exact absurd rfl (hpoll _ _)
  · exact absurd rfl hbegin
  · exact absurd rfl (hend _)
  · rfl

/-- **One step**: the number stays what the history adds up to, unless a login ends that is not
covered, which leaves a negative number. -/
theorem Exact.step (h : w.Exact) (hstep : w.step a = some w') :
    (w.Covers a → w'.Exact) ∧ (¬ w.Covers a → w'.backend.players < 0) := by
  obtain ⟨hcount, hnonneg⟩ := h
  obtain ⟨s', hs', rfl⟩ := Option.map_eq_some_iff.1 hstep
  have hother (hbegin : a ≠ .beginSession) (hend : ∀ session, a ≠ .endSession session)
      (hpoll : ∀ online version, a ≠ .poll online version) :
      ({ w.record a with backend := s' } : Tally).Exact := by
    rw [record_of_other hbegin hend hpoll]
    have hplayers : s'.players = w.backend.players := players_of_other hs' hbegin hend hpoll
    refine ⟨?_, ?_⟩
    · show s'.players = w.reported + w.begun - w.ended
      omega
    · show 0 ≤ s'.players
      omega
  cases a with
  | beginSession =>
    cases hs'
    refine ⟨fun _ => ?_, fun hno => absurd trivial hno⟩
    have hplayers : (w.backend.incrOnlinePlayers).players = w.backend.onlinePlayers + 1 := rfl
    by_cases hrunning : w.backend.status = .running
    · rw [MCBackend.onlinePlayers_eq hrunning] at hplayers
      simp only [record, if_pos hrunning]
      refine ⟨?_, ?_⟩
      · show (w.backend.incrOnlinePlayers).players = w.reported + (w.begun + 1 : Nat) - w.ended
        omega
      · show 0 ≤ (w.backend.incrOnlinePlayers).players
        omega
    · have honline := MCBackend.onlinePlayers_eq_zero hrunning
      simp only [record, if_neg hrunning]
      refine ⟨?_, ?_⟩
      · show (w.backend.incrOnlinePlayers).players = (0 : Nat) + (1 : Nat) - (0 : Nat)
        omega
      · show 0 ≤ (w.backend.incrOnlinePlayers).players
        omega
  | endSession session =>
    simp only [MCBackend.step] at hs'
    split at hs'
    · cases hs'
      have hplayers : (w.backend.decrOnlinePlayers).players = w.backend.onlinePlayers - 1 := rfl
      constructor
      · rintro ⟨hrunning, hcovered⟩
        rw [MCBackend.onlinePlayers_eq hrunning] at hplayers
        refine ⟨?_, ?_⟩
        · show (w.backend.decrOnlinePlayers).players = w.reported + w.begun - (w.ended + 1 : Nat)
          omega
        · show 0 ≤ (w.backend.decrOnlinePlayers).players
          omega
      · intro hno
        show (w.backend.decrOnlinePlayers).players < 0
        by_cases hrunning : w.backend.status = .running
        · rw [MCBackend.onlinePlayers_eq hrunning] at hplayers
          have huncovered : ¬ w.ended < w.reported + w.begun := fun h => hno ⟨hrunning, h⟩
          omega
        · have honline := MCBackend.onlinePlayers_eq_zero hrunning
          omega
    · cases hs'
  | poll online version =>
    cases hs'
    refine ⟨fun _ => ⟨?_, ?_⟩, fun hno => absurd trivial hno⟩
    · show (w.backend.updateStats online version).players = online + (0 : Nat) - (0 : Nat)
      rw [(w.backend.updateStats_written online version).players]
      omega
    · show 0 ≤ (w.backend.updateStats online version).players
      rw [(w.backend.updateStats_written online version).players]
      omega
  | resume | monitorStep | helperStep | wake | supervise | superviseReturned | cancelSupervise
  | enter | entered | exit | leave | exited | stopMcproc | advance =>
    exact ⟨fun _ => hother nofun nofun nofun, fun hno => absurd trivial hno⟩

end

/-- **The number of online players is never negative** in the runs in which every login that ends is
covered, and one that is not leaves a negative number. -/
theorem online_players_nonneg {listing : ServerListing} {w : Tally}
    (h : Reach step Covers { backend := .init listing } w) :
    0 ≤ w.backend.players ∧
      ∀ a w', w.step a = some w' → (0 ≤ w'.backend.players ↔ w.Covers a) := by
  have hexact : w.Exact := by
    refine h.invariant ⟨rfl, le_refl 0⟩ ?_
    intro w a w' hw hok hstep
    exact (hw.step hstep).1 hok
  refine ⟨hexact.nonneg, ?_⟩
  intro a w' hstep
  obtain ⟨hcovered, hnegative⟩ := hexact.step hstep
  constructor
  · intro hnonneg
    by_contra hno
    have hneg := hnegative hno
    omega
  · intro hok
    exact (hcovered hok).nonneg

/-- A poll during the login reports it, and the login ends. -/
theorem online_players_nonneg_counted :
    ∃ w w' : Tally,
      Reach step Covers { backend := .init { enabled := true } } w ∧
      w.backend.sessions = {0} ∧ w.reported = 1 ∧ w.step (.endSession 0) = some w' ∧
      0 ≤ w'.backend.players := by
  obtain ⟨w, hw, hsessions, hreported, hcovers⟩ := Reach.exists_of_runIn step Covers
    { backend := .init { enabled := true } }
    [.enter, .entered, .beginSession, .poll 1 UNKNOWN_VERSION]
    (p := fun w => w.backend.sessions = {0} ∧ w.reported = 1 ∧ w.Covers (.endSession 0))
    (by decide +kernel)
  have hin : 0 ∈ w.backend.sessions := by
    rw [hsessions]
    exact Finset.mem_singleton_self 0
  have hstep : w.step (.endSession 0) = some _ :=
    Option.map_eq_some_iff.2 ⟨_, if_pos hin, rfl⟩
  exact ⟨w, _, hw, hsessions, hreported, hstep, ((online_players_nonneg hw).2 _ _ hstep).2 hcovers⟩

/-- The login has begun when a poll reports no players, and it ends before the next. -/
theorem online_players_negative :
    ∃ w : Tally, Reach step (fun _ _ => True) { backend := .init { enabled := true } } w ∧
      w.backend.players = -1 ∧ w.backend.onlinePlayers = -1 :=
  Reach.exists_of_runIn _ _ _
    [.enter, .entered, .beginSession, .poll 0 UNKNOWN_VERSION, .endSession 0]
    (by decide +kernel)

end Tally

end Silkjam.Server
