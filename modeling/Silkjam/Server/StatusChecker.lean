import Silkjam.Lib.Transition
import Silkjam.Server.Backend
import Silkjam.Supervisor.Countdown

/-!
# The status checker

`MCStatusChecker.run` polls the server as its timer ends. A poll that fails is repeated after a
while, without another wait of the timer, which has ended already; when more than `MAX_RETRIES`
polls in a row have failed, `run` raises. An answer starts the timer anew and is handed to a
callback; if that raises, so does `run`.

`run` is cut at its awaits. `polls` is a history of the polls that ended, the latest first, with the
time and how they ended; no function of the program reads it. Time may pass at any await; in a
`Prompt` run it passes by no end of a wait, and a poll takes at most `took`.
-/

namespace Silkjam.Server

open Supervisor Transition

def MAX_RETRIES : Nat := 3

def RETRY_INTERVAL : Int := seconds 10

/-- Where `run` is: in the wait of the timer, in a poll, between a poll that failed and the next, or
over: it raised what the last poll or the callback raised, or was cancelled. -/
inductive PollPc where
  | waiting
  | polling (started : Int)
  | sleeping (wake : Int)
  | unresponsive
  | callbackRaised
  | cancelled
  deriving DecidableEq

def PollPc.isOver : PollPc → Bool
  | .unresponsive | .callbackRaised | .cancelled => true
  | _ => false

/-- `run` raised, and was not cancelled. -/
def PollPc.raised : PollPc → Bool
  | .unresponsive | .callbackRaised => true
  | _ => false

/-- How a poll ends: if with an answer, the callback raises or not. -/
inductive PollEnd where
  | failed
  | answered (raises : Bool)
  deriving DecidableEq

structure MCStatusChecker where
  timer : Timer
  now : Int
  retryCount : Nat := 0
  pc : PollPc := .waiting
  /-- when the last answer came, or `run` began -/
  answered : Int
  polls : List (Int × PollEnd) := []
  deriving DecidableEq

inductive PollAction where
  | advance (time : Nat)
  | checkNowait
  /-- the timer's wait is over -/
  | timerDone
  /-- the poll fails -/
  | failed
  /-- the server answers, and the callback raises or not -/
  | stats (raises : Bool)
  | woken
  | cancel

namespace MCStatusChecker

/-- The checker as its unit has entered and `run` begins. -/
def init (now : Int) : MCStatusChecker where
  timer := (({ timeout := some INTERVAL } : Timer).start now).setRemaining now 0
  now := now
  answered := now

/-- `except Exception` -/
def failed (w : MCStatusChecker) : MCStatusChecker :=
  let retryCount := w.retryCount + 1
  { w with
    retryCount := retryCount
    pc := if retryCount > MAX_RETRIES then .unresponsive else .sleeping (w.now + RETRY_INTERVAL)
    polls := (w.now, .failed) :: w.polls }

/-- `else` -/
def succeeded (w : MCStatusChecker) (raises : Bool) : MCStatusChecker :=
  { w with
    retryCount := 0
    timer := w.timer.reset w.now
    pc := if raises then .callbackRaised else .waiting
    answered := w.now
    polls := (w.now, .answered raises) :: w.polls }

def step (w : MCStatusChecker) : PollAction → Option MCStatusChecker
  | .advance time => some { w with now := w.now + time }
  | .checkNowait => some { w with timer := w.timer.setRemaining w.now 0 }
  | .timerDone =>
    if w.pc = .waiting ∧ w.timer.remaining w.now = some 0 then
      some { w with pc := .polling w.now }
    else none
  | .failed =>
    match w.pc with
    | .polling _ => some w.failed
    | _ => none
  | .stats raises =>
    match w.pc with
    | .polling _ => some (w.succeeded raises)
    | _ => none
  | .woken =>
    match w.pc with
    | .sleeping wake => if wake ≤ w.now then some { w with pc := .waiting } else none
    | _ => none
  | .cancel => if w.pc.isOver then none else some { w with pc := .cancelled }

/-- The time at which the await of `run` is over at the latest, if a poll takes at most `took`. -/
def limit (took : Nat) (w : MCStatusChecker) : Option Int :=
  match w.pc with
  | .waiting => w.timer.ends
  | .polling started => some (started + took)
  | .sleeping wake => some wake
  | .unresponsive | .callbackRaised | .cancelled => none

/-- Time does not pass by the end of an await. -/
def Prompt (took : Nat) (w : MCStatusChecker) : PollAction → Prop
  | .advance time => time = 0 ∨ ∀ limit ∈ w.limit took, w.now + time ≤ limit
  | _ => True

instance (took : Nat) (w : MCStatusChecker) (a : PollAction) : Decidable (w.Prompt took a) := by
  unfold Prompt
  split <;> infer_instance

/-- The polls that have failed since the last answer. -/
def streak (w : MCStatusChecker) : List (Int × PollEnd) :=
  w.polls.takeWhile fun poll => poll.2 = .failed

/-- The callback raised at the last answer. -/
def CallbackRaised (w : MCStatusChecker) : Prop :=
  ∃ poll ∈ w.polls.head?, poll.2 = .answered true

/-- A poll that comes after these is a retry interval later. -/
def Spaced (w : MCStatusChecker) (time : Int) : Prop :=
  match w.pc with
  | .sleeping wake => time ≤ w.now ∧ time + RETRY_INTERVAL ≤ wake
  | .waiting | .polling _ => time + RETRY_INTERVAL ≤ w.now
  | .unresponsive | .callbackRaised | .cancelled => time ≤ w.now

/-- The polls that failed were counted, each a retry interval after the one before, and `run` has
raised if they were too many, or the callback raised. -/
structure Counts (w : MCStatusChecker) : Prop where
  retryCount : w.streak.length = w.retryCount
  atMost : w.retryCount ≤ MAX_RETRIES + 1
  unresponsive : w.pc = .unresponsive ↔ MAX_RETRIES < w.retryCount
  called : w.pc = .callbackRaised ↔ w.CallbackRaised
  apart : w.streak.Pairwise fun poll earlier => earlier.1 + RETRY_INTERVAL ≤ poll.1
  spaced : ∀ poll ∈ w.streak, w.Spaced poll.1

/-- What a step does. -/
inductive Stepped (w : MCStatusChecker) : PollAction → MCStatusChecker → Prop where
  | advance (time : Nat) : Stepped w (.advance time) { w with now := w.now + time }
  | checkNowait : Stepped w .checkNowait { w with timer := w.timer.setRemaining w.now 0 }
  | timerDone : w.pc = .waiting → w.timer.remaining w.now = some 0 →
      Stepped w .timerDone { w with pc := .polling w.now }
  | failed {started : Int} : w.pc = .polling started → Stepped w .failed w.failed
  | stats {started : Int} {raises : Bool} : w.pc = .polling started →
      Stepped w (.stats raises) (w.succeeded raises)
  | woken {wake : Int} : w.pc = .sleeping wake → wake ≤ w.now →
      Stepped w .woken { w with pc := .waiting }
  | cancel : w.pc.isOver = false → Stepped w .cancel { w with pc := .cancelled }

/-- When the next poll begins at the latest, if every poll since the last answer has failed. -/
def deadline (took : Nat) (w : MCStatusChecker) : Int :=
  w.answered + INTERVAL + w.retryCount * (RETRY_INTERVAL + took)

/-- Where the await of `run` is over in time. -/
def InTime (took : Nat) (w : MCStatusChecker) (ends : Int) : Prop :=
  match w.pc with
  | .waiting => w.now ≤ w.deadline took ∧ ends ≤ w.deadline took
  | .polling started =>
    started ≤ w.deadline took ∧ w.now ≤ started + took ∧ ends ≤ w.deadline took + took
  | .sleeping wake => wake ≤ w.deadline took ∧ w.now ≤ wake ∧ ends ≤ w.deadline took
  | .unresponsive => ∀ poll ∈ w.polls.head?, poll.1 ≤ w.answered + seconds 31 + 4 * took
  | .callbackRaised | .cancelled => True

/-- The timer is not suspended, and ends in time. -/
def Watches (took : Nat) (w : MCStatusChecker) : Prop :=
  w.timer.timeout = some INTERVAL ∧ ∃ ends ∈ w.timer.ends, w.InTime took ends

section
variable {w w' : MCStatusChecker} {a : PollAction} {took : Nat} {raises : Bool}

theorem step_stepped (hstep : w.step a = some w') : Stepped w a w' := by
  cases a <;> dsimp only [MCStatusChecker.step] at hstep
  case advance time =>
    cases hstep
    exact .advance time
  case checkNowait =>
    cases hstep
    exact .checkNowait
  case timerDone =>
    split at hstep
    · next hdone =>
      cases hstep
      exact .timerDone hdone.1 hdone.2
    · cases hstep
  case failed =>
    cases hpc : w.pc <;> rw [hpc] at hstep <;> cases hstep
    exact .failed hpc
  case stats raises =>
    cases hpc : w.pc <;> rw [hpc] at hstep <;> cases hstep
    exact .stats hpc
  case woken =>
    cases hpc : w.pc with
    | sleeping wake =>
      rw [hpc] at hstep
      dsimp only at hstep
      split at hstep
      · next hwake =>
        cases hstep
        exact .woken hpc hwake
      · cases hstep
    | _ =>
      rw [hpc] at hstep
      cases hstep
  case cancel =>
    split at hstep
    · cases hstep
    · next hover =>
      cases hstep
      exact .cancel (Bool.eq_false_iff.2 hover)

theorem streak_failed : w.failed.streak = (w.now, .failed) :: w.streak :=
  rfl

theorem streak_succeeded : (w.succeeded raises).streak = [] :=
  rfl

/-! ### Polls that fail -/

theorem Counts.congr (h : w.Counts) (hpolls : w'.polls = w.polls)
    (hretry : w'.retryCount = w.retryCount)
    (hpc : w'.pc = .unresponsive ↔ w.pc = .unresponsive)
    (hcalled : w'.pc = .callbackRaised ↔ w.pc = .callbackRaised)
    (hspaced : ∀ time, w.Spaced time → w'.Spaced time) : w'.Counts := by
  have hstreak : w'.streak = w.streak := by
    unfold streak
    rw [hpolls]
  constructor
  · rw [hstreak, hretry]
    exact h.retryCount
  · rw [hretry]
    exact h.atMost
  · rw [hpc, hretry]
    exact h.unresponsive
  · unfold CallbackRaised
    rw [hcalled, hpolls]
    exact h.called
  · rw [hstreak]
    exact h.apart
  · intro poll hmem
    rw [hstreak] at hmem
    exact hspaced _ (h.spaced poll hmem)

theorem retry_interval_pos : 0 < RETRY_INTERVAL := by
  decide

theorem Spaced.le {time : Int} (h : w.Spaced time) : time ≤ w.now := by
  have := retry_interval_pos
  unfold Spaced at h
  split at h
  all_goals omega

theorem Counts.failed {started : Int} (h : w.Counts) (hpc : w.pc = .polling started) :
    w.failed.Counts := by
  have hspaced (poll : Int × PollEnd) (hmem : poll ∈ w.streak) :
      poll.1 + RETRY_INTERVAL ≤ w.now := by
    have := h.spaced poll hmem
    unfold Spaced at this
    rwa [hpc] at this
  have := retry_interval_pos
  constructor
  · rw [streak_failed, List.length_cons, h.retryCount]
    rfl
  · have hfew : ¬ MAX_RETRIES < w.retryCount := by
      rw [← h.unresponsive, hpc]
      nofun
    exact Nat.succ_le_succ (Nat.le_of_not_lt hfew)
  · unfold MCStatusChecker.failed
    dsimp only
    split
    · next hmany => simpa using hmany
    · next hfew => simpa using hfew
  · unfold CallbackRaised MCStatusChecker.failed
    dsimp only
    split <;> simp
  · rw [streak_failed, List.pairwise_cons]
    exact ⟨hspaced, h.apart⟩
  · rw [streak_failed]
    intro poll hmem
    have hle : poll.1 ≤ w.now := by
      obtain rfl | hmem := List.mem_cons.1 hmem
      · exact le_rfl
      · have := hspaced poll hmem
        omega
    unfold Spaced MCStatusChecker.failed
    dsimp only
    split
    · next heq =>
      split at heq
      · cases heq
      · cases heq
        exact ⟨hle, by omega⟩
    · next heq => split at heq <;> cases heq
    · next heq => split at heq <;> cases heq
    · exact hle
    · exact hle
    · exact hle

theorem Counts.succeeded : (w.succeeded raises).Counts where
  retryCount := rfl
  atMost := Nat.zero_le _
  unresponsive := by
    unfold MCStatusChecker.succeeded
    cases raises <;> simp
  called := by
    unfold CallbackRaised MCStatusChecker.succeeded
    cases raises <;> simp
  apart := by
    rw [streak_succeeded]
    exact .nil
  spaced := by
    rw [streak_succeeded]
    nofun

theorem Counts.step (h : w.Counts) (hstep : w.step a = some w') : w'.Counts := by
  cases step_stepped hstep with
  | advance time =>
    refine h.congr rfl rfl Iff.rfl Iff.rfl ?_
    intro earlier hspaced
    unfold Spaced at hspaced ⊢
    dsimp only
    split
    all_goals
      next hpc =>
      rw [hpc] at hspaced
      dsimp only at hspaced
      omega
  | checkNowait => exact h.congr rfl rfl Iff.rfl Iff.rfl fun _ hspaced => hspaced
  | timerDone hpc =>
    refine h.congr rfl rfl (by simp [hpc]) (by simp [hpc]) ?_
    intro earlier hspaced
    unfold Spaced at hspaced ⊢
    rwa [hpc] at hspaced
  | failed hpc => exact h.failed hpc
  | stats hpc => exact Counts.succeeded
  | woken hpc hwake =>
    refine h.congr rfl rfl (by simp [hpc]) (by simp [hpc]) ?_
    intro earlier hspaced
    unfold Spaced at hspaced ⊢
    rw [hpc] at hspaced
    exact hspaced.2.trans hwake
  | cancel hover =>
    have hnot {pc : PollPc} (hpc : pc.isOver = true) : w.pc ≠ pc := by
      rintro rfl
      rw [hpc] at hover
      cases hover
    refine h.congr rfl rfl ?_ ?_ fun _ hspaced => hspaced.le
    · exact iff_of_false nofun (hnot rfl)
    · exact iff_of_false nofun (hnot rfl)

/-! ### The watch -/

theorem ends_setRemaining {timer : Timer} (h : timer.timeout = some INTERVAL) (now value : Int) :
    (timer.setRemaining now value).ends = some (now + value) := by
  have hends (interval : Int) : value - interval + now + interval = now + value := by omega
  unfold Timer.setRemaining
  rw [h]
  exact congrArg some (hends INTERVAL)

theorem ends_reset {timer : Timer} (h : timer.timeout = some INTERVAL) (now : Int) :
    (timer.reset now).ends = some (now + INTERVAL) := by
  unfold Timer.reset
  rw [h]
  exact ends_setRemaining h now INTERVAL

theorem deadline_failed : w.failed.deadline took = w.deadline took + (RETRY_INTERVAL + took) := by
  unfold deadline
  show w.answered + INTERVAL + (w.retryCount + 1 : Nat) * (RETRY_INTERVAL + took) = _
  rw [Int.natCast_succ, Int.add_mul, Int.one_mul, ← Int.add_assoc]

theorem deadline_succeeded : (w.succeeded raises).deadline took = w.now + INTERVAL := by
  unfold deadline
  show w.now + INTERVAL + (0 : Nat) * (RETRY_INTERVAL + took) = _
  rw [Int.natCast_zero, Int.zero_mul, Int.add_zero]

theorem Watches.failed {started ends : Int} (h : w.InTime took ends) (hc : w.Counts)
    (hpc : w.pc = .polling started) : w.failed.InTime took ends := by
  unfold InTime at h
  rw [hpc] at h
  obtain ⟨hstarted, hnow, hends⟩ := h
  have hretry := retry_interval_pos
  by_cases hmany : w.retryCount + 1 > MAX_RETRIES
  · have hfew : ¬ MAX_RETRIES < w.retryCount := by
      rw [← hc.unresponsive, hpc]
      nofun
    have hall : w.retryCount = MAX_RETRIES := by omega
    have hdeadline : w.deadline took = w.answered + seconds 31 + 3 * took := by
      unfold deadline
      rw [hall]
      unfold INTERVAL MAX_RETRIES RETRY_INTERVAL seconds
      omega
    have hunresponsive : w.failed.pc = .unresponsive := if_pos hmany
    unfold InTime
    rw [hunresponsive]
    rintro poll ⟨⟩
    show w.now ≤ w.answered + seconds 31 + 4 * took
    omega
  · have hsleeping : w.failed.pc = .sleeping (w.now + RETRY_INTERVAL) := if_neg hmany
    have hdeadline : w.failed.deadline took = w.deadline took + (RETRY_INTERVAL + took) :=
      deadline_failed
    have hsame : w.failed.now = w.now := rfl
    unfold InTime
    rw [hsleeping, hdeadline, hsame]
    dsimp only
    omega

theorem Watches.advance {time : Nat} {ends : Int} (h : w.InTime took ends) (hends : ends ∈ w.timer.ends)
    (hprompt : w.Prompt took (.advance time)) :
    ({ w with now := w.now + time } : MCStatusChecker).InTime took ends := by
  have hdeadline : ({ w with now := w.now + time } : MCStatusChecker).deadline took = w.deadline took :=
    rfl
  unfold Prompt limit at hprompt
  unfold InTime at h ⊢
  rw [hdeadline]
  dsimp only
  cases hpc : w.pc with
  | waiting =>
    rw [hpc] at h hprompt
    obtain rfl | hlimit := hprompt
    · simpa using h
    · exact ⟨(hlimit ends hends).trans h.2, h.2⟩
  | polling started =>
    rw [hpc] at h hprompt
    obtain rfl | hlimit := hprompt
    · simpa using h
    · exact ⟨h.1, hlimit _ rfl, h.2.2⟩
  | sleeping wake =>
    rw [hpc] at h hprompt
    obtain rfl | hlimit := hprompt
    · simpa using h
    · exact ⟨h.1, hlimit _ rfl, h.2.2⟩
  | unresponsive =>
    rw [hpc] at h
    exact h
  | callbackRaised | cancelled => trivial

theorem Watches.checkNowait {ends : Int} (h : w.InTime took ends) (timer : Timer) :
    ({ w with timer := timer } : MCStatusChecker).InTime took w.now := by
  have hdeadline : ({ w with timer := timer } : MCStatusChecker).deadline took = w.deadline took :=
    rfl
  unfold InTime at h ⊢
  rw [hdeadline]
  dsimp only
  cases hpc : w.pc with
  | waiting =>
    rw [hpc] at h
    exact ⟨h.1, h.1⟩
  | polling started =>
    rw [hpc] at h
    exact ⟨h.1, h.2.1, h.2.1.trans (Int.add_le_add_right h.1 _)⟩
  | sleeping wake =>
    rw [hpc] at h
    exact ⟨h.1, h.2.1, h.2.1.trans h.1⟩
  | unresponsive =>
    rw [hpc] at h
    exact h
  | callbackRaised | cancelled => trivial

theorem Watches.step (h : w.Watches took) (hc : w.Counts) (hprompt : w.Prompt took a)
    (hstep : w.step a = some w') : w'.Watches took := by
  obtain ⟨htimeout, ends, hends, hin⟩ := h
  cases step_stepped hstep with
  | advance time => exact ⟨htimeout, ends, hends, Watches.advance hin hends hprompt⟩
  | checkNowait =>
    have hnow : (w.timer.setRemaining w.now 0).ends = some w.now := by
      rw [ends_setRemaining htimeout, Int.add_zero]
    exact ⟨(Timer.setRemaining_timeout ..).trans htimeout, w.now, hnow, Watches.checkNowait hin _⟩
  | timerDone hpc hdue =>
    refine ⟨htimeout, ends, hends, ?_⟩
    unfold InTime at hin ⊢
    rw [hpc] at hin
    exact ⟨hin.1, Int.le_add_of_nonneg_right (Int.natCast_nonneg _),
      hin.2.trans (Int.le_add_of_nonneg_right (Int.natCast_nonneg _))⟩
  | failed hpc => exact ⟨htimeout, ends, hends, Watches.failed hin hc hpc⟩
  | @stats started raises hpc =>
    have hafter : (w.timer.reset w.now).ends = some (w.now + INTERVAL) := ends_reset htimeout _
    refine ⟨(Timer.reset_timeout ..).trans htimeout, w.now + INTERVAL, hafter, ?_⟩
    have hdeadline : (w.succeeded raises).deadline took = w.now + INTERVAL := deadline_succeeded
    have hinterval : (0 : Int) ≤ INTERVAL := by decide
    unfold InTime
    rw [hdeadline]
    cases raises with
    | true => trivial
    | false => exact ⟨Int.le_add_of_nonneg_right hinterval, le_rfl⟩
  | woken hpc hwake =>
    refine ⟨htimeout, ends, hends, ?_⟩
    unfold InTime at hin ⊢
    rw [hpc] at hin
    exact ⟨hin.2.1.trans hin.1, hin.2.2⟩
  | cancel hover => exact ⟨htimeout, ends, hends, trivial⟩

theorem init_counts (now : Int) : (init now).Counts where
  retryCount := rfl
  atMost := Nat.zero_le _
  unresponsive := ⟨nofun, nofun⟩
  called := ⟨nofun, nofun⟩
  apart := .nil
  spaced := nofun

theorem init_watches (now : Int) : (init now).Watches took := by
  have hends : (init now).timer.ends = some now := by
    have hends : ((({ timeout := some INTERVAL } : Timer).start now).setRemaining now 0).ends =
        some (now + 0) := ends_setRemaining rfl now 0
    rwa [Int.add_zero] at hends
  refine ⟨Timer.setRemaining_timeout .., now, hends, ?_⟩
  have hinterval : (0 : Int) ≤ INTERVAL := by decide
  have hdeadline : (init now).deadline took = now + INTERVAL := by
    unfold deadline
    show now + INTERVAL + (0 : Nat) * (RETRY_INTERVAL + took) = _
    rw [Int.natCast_zero, Int.zero_mul, Int.add_zero]
  unfold InTime
  rw [hdeadline]
  exact ⟨Int.le_add_of_nonneg_right hinterval, Int.le_add_of_nonneg_right hinterval⟩

/-- While `run` goes on, the last answer is not old. -/
theorem Watches.now_le (h : w.Watches took) (hc : w.Counts) (hover : w.pc.isOver = false) :
    w.now ≤ w.answered + seconds 31 + 4 * took := by
  obtain ⟨-, ends, -, hin⟩ := h
  have hfew : ¬ MAX_RETRIES < w.retryCount := by
    rw [← hc.unresponsive]
    intro hpc
    rw [hpc] at hover
    cases hover
  have hdeadline : w.deadline took ≤ w.answered + seconds 31 + 3 * took := by
    have hretries : (w.retryCount : Int) * (RETRY_INTERVAL + took) ≤ 3 * (RETRY_INTERVAL + took) := by
      have hpos := retry_interval_pos
      have hle : (w.retryCount : Int) ≤ 3 := by
        unfold MAX_RETRIES at hfew
        omega
      exact Int.mul_le_mul_of_nonneg_right hle (by omega)
    unfold deadline
    unfold INTERVAL RETRY_INTERVAL seconds at *
    omega
  unfold InTime at hin
  cases hpc : w.pc with
  | waiting =>
    rw [hpc] at hin
    have hnow := hin.1
    omega
  | polling started =>
    rw [hpc] at hin
    obtain ⟨hstarted, hnow, -⟩ := hin
    omega
  | sleeping wake =>
    rw [hpc] at hin
    obtain ⟨hwake, hnow, -⟩ := hin
    omega
  | unresponsive | callbackRaised | cancelled =>
    rw [hpc] at hover
    cases hover

end

/-- **The status checker** raises just when four polls in a row have failed, which takes thirty
seconds, or the callback raised at an answer; and if polls take at most `took`, it goes on for no
longer than 31 seconds and the time of four polls without an answer, whenever further checks are
requested. -/
theorem status_checker_watches (now : Int) :
    (∀ w, Reach step (fun _ _ => True) (init now) w →
      (w.pc.raised = true ↔ MAX_RETRIES < w.streak.length ∨ w.CallbackRaised) ∧
        (w.pc = .unresponsive ↔ MAX_RETRIES < w.streak.length) ∧
        w.streak.length ≤ MAX_RETRIES + 1 ∧
        w.streak.Pairwise fun poll earlier => earlier.1 + RETRY_INTERVAL ≤ poll.1) ∧
    ∀ (took : Nat) (w : MCStatusChecker), Reach step (Prompt took) (init now) w →
      (w.pc.isOver = false → w.now ≤ w.answered + seconds 31 + 4 * took) ∧
      (w.pc = .unresponsive →
        ∀ poll ∈ w.polls.head?, poll.1 ≤ w.answered + seconds 31 + 4 * took) := by
  have hcounts : ∀ w, Reach step (fun _ _ => True) (init now) w → w.Counts := fun w hrun =>
    hrun.invariant (init_counts now) fun _ _ _ h _ hstep => h.step hstep
  constructor
  · intro w hrun
    have h := hcounts w hrun
    have hraised : w.pc.raised = true ↔ w.pc = .unresponsive ∨ w.pc = .callbackRaised := by
      cases w.pc <;> simp [PollPc.raised]
    rw [hraised, h.retryCount, h.unresponsive, h.called]
    exact ⟨Iff.rfl, Iff.rfl, h.atMost, h.apart⟩
  · intro took w hrun
    have hall : ∀ w, Reach step (Prompt took) (init now) w → w.Counts := fun w hrun =>
      hcounts w (hrun.mono fun _ _ _ => trivial)
    have h : w.Watches took := hrun.invariant_of hall (init_watches now)
      fun _ _ _ hc h hprompt hstep => h.step hc hprompt hstep
    refine ⟨h.now_le (hall w hrun), ?_⟩
    intro hpc
    obtain ⟨-, ends, -, hin⟩ := h
    unfold InTime at hin
    rwa [hpc] at hin

/-- A poll that fails after a second, and the wait for the next. -/
def failedPoll : List PollAction :=
  [.timerDone, .advance 1000000000, .failed, .advance 10000000000, .woken]

/-- A server that does not answer is reported after 34 seconds. -/
theorem status_checker_watches_silent :
    ∃ w, Reach step (Prompt 1000000000) (init 0) w ∧ w.pc = .unresponsive ∧ w.now = seconds 34 ∧
      w.streak.length = MAX_RETRIES + 1 ∧
      ∀ poll ∈ w.polls.head?, poll.1 ≤ w.answered + seconds 31 + 4 * 1000000000 := by
  obtain ⟨w, hrun, hpc, hnow⟩ := Reach.exists_of_runIn step (Prompt 1000000000) (init 0)
    (failedPoll ++ failedPoll ++ failedPoll ++ [.timerDone, .advance 1000000000, .failed])
    (p := fun w => w.pc = .unresponsive ∧ w.now = seconds 34) (by decide +kernel)
  obtain ⟨hall, hprompt⟩ := status_checker_watches 0
  obtain ⟨-, hover, hatMost, -⟩ := hall w (hrun.mono fun _ _ _ => trivial)
  exact ⟨w, hrun, hpc, hnow, Nat.le_antisymm hatMost (hover.1 hpc),
    (hprompt 1000000000 w hrun).2 hpc⟩

end MCStatusChecker

end Silkjam.Server
