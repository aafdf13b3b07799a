import Silkjam.Backup.Directory
import Mathlib.Data.List.Induction

/-!
# Histories of the backup directory

Attempts to make an archive, each with its runs of tar and perhaps a crash of the program at one of
its awaits, and scans of the directory by `load_backups_list`. An archive gets its name by a rename
after the run of tar that succeeded, so a crash leaves a partial file or nothing. The files of the
directory are then known from the history (`mem_history`): the archives committed, and the partial
files of the crashes since the last scan. What a scan lists and deletes follows
(`backups_committed`).
-/

namespace Silkjam.Backup

/-- The awaits of one turn of the loop of `create_world_archive`. -/
inductive Stage where
  /-- `asyncio.create_subprocess_exec(...)` -/
  | spawn
  /-- `proc.communicate()` -/
  | communicate
  /-- `asyncio.sleep(retry_interval)` -/
  | sleep
  deriving DecidableEq

/-- An await of an attempt: the run of tar it belongs to, and which one of its turn it is. -/
structure Await where
  run : Nat
  stage : Stage
  deriving DecidableEq

/-- The await comes before the outcome of run `k` is known. -/
def Await.before (p : Await) (k : Nat) : Prop :=
  p.run < k ∨ p.run = k ∧ p.stage ≠ .sleep

/-- `runTar` in a program that crashes at an await, if it gets there: then there is no ending. -/
def runTarUntil (crash : Option Await) (tar : Nat → TarRun) (k : Nat) : Nat → Option Ending
  | 0 => some .runtimeError
  | retries + 1 =>
    if crash = some ⟨k, .spawn⟩ ∨ crash = some ⟨k, .communicate⟩ then none
    else
      match tar k with
      | .exited returncode stderr =>
        if returncode ≠ 0 then some .runtimeError
        else if 0 < stderr.length then
          if crash = some ⟨k, .sleep⟩ then none else runTarUntil crash tar (k + 1) retries
        else some .completed
      | .raised => some .raised
      | .cancelled => some .cancelled

/-- `create_world_archive` in a program that may crash. -/
def createWorldArchiveUntil (crash : Option Await) (dir : Dir) (name : Name) (tar : Nat → TarRun)
    (maxRetries : Nat) : Dir × Option Ending :=
  let tmp := name ++ part
  let dir := dir.write tmp
  match runTarUntil crash tar 0 maxRetries with
  | none => (dir, none)
  | some .completed => ((dir.unlink tmp).write name, some .completed)
  | some err => (dir.unlink tmp, some err)

/-- An attempt to make the archive for `ticks` ticks of play time. -/
structure ArchiveAttempt where
  now : DateTime
  ticks : Nat
  tar : Nat → TarRun
  crash : Option Await := none
  maxRetries : Nat := 3

namespace ArchiveAttempt

def name (a : ArchiveAttempt) : Name :=
  backupName a.now a.ticks

def tmp (a : ArchiveAttempt) : Name :=
  a.name ++ part

/-- How the attempt ends, if the program does not crash during it. -/
def ending (a : ArchiveAttempt) : Option Ending :=
  runTarUntil a.crash a.tar 0 a.maxRetries

/-- One of the runs of tar allowed is observed to end with return code 0 and nothing in stderr, and
those before it ended with return code 0 and something in stderr. -/
def Commits (a : ArchiveAttempt) : Prop :=
  ∃ k < a.maxRetries, (∀ p, a.crash = some p → ¬ p.before k) ∧ a.tar k = .exited 0 [] ∧
    ∀ i < k, ∃ stderr, a.tar i = .exited 0 stderr ∧ stderr ≠ []

end ArchiveAttempt

inductive Event where
  | attempt (a : ArchiveAttempt)
  | scan

def Event.perform (D : Decimals) (dir : Dir) : Event → Dir
  | .attempt a => (createWorldArchiveUntil a.crash dir a.name a.tar a.maxRetries).1
  | .scan => (loadBackupsList D dir).2

/-- The directory after the events `es`, which begin with an empty one. -/
def history (D : Decimals) (es : List Event) : Dir :=
  es.foldl (Event.perform D) ⟨[], List.nodup_nil⟩

/-- `p` is an archive that some attempt committed. -/
def Committed (es : List Event) (p : Name) : Prop :=
  ∃ a, .attempt a ∈ es ∧ a.Commits ∧ p = a.name

/-- `p` is the partial file of an attempt that crashed, after which there was no scan and no attempt
for the same archive that did not crash. -/
def Leftover (es : List Event) (p : Name) : Prop :=
  ∃ es₁ a es₂, es = es₁ ++ .attempt a :: es₂ ∧ a.ending = none ∧ p = a.tmp ∧ .scan ∉ es₂ ∧
    ∀ b, .attempt b ∈ es₂ → b.name = a.name → b.ending = none

/-! ### One attempt -/

section
variable {D : Decimals} {crash : Option Await} {tar : Nat → TarRun} {a : ArchiveAttempt}
  {es : List Event} {dir : Dir} {p : Name}

theorem runTarUntil_none (tar : Nat → TarRun) (k retries : Nat) :
    runTarUntil none tar k retries = some (runTar tar k retries) := by
  induction retries generalizing k with
  | zero => rfl
  | succ retries ih =>
    rw [runTarUntil, if_neg (by simp), runTar]
    cases tar k with
    | exited returncode stderr =>
      dsimp only
      split
      · rfl
      split
      · rw [if_neg (by simp), ih]
      · rfl
    | raised => rfl
    | cancelled => rfl

theorem createWorldArchiveUntil_none (dir : Dir) (name : Name) (tar : Nat → TarRun)
    (maxRetries : Nat) :
    createWorldArchiveUntil none dir name tar maxRetries =
      (createWorldArchive dir name tar maxRetries).map id some := by
  unfold createWorldArchiveUntil createWorldArchive
  dsimp only
  rw [runTarUntil_none]
  cases runTar tar 0 maxRetries <;> rfl

/-- The loop from run `k` on succeeds with its run `k + j`. -/
def Succeeds (crash : Option Await) (tar : Nat → TarRun) (k j : Nat) : Prop :=
  (∀ p, crash = some p → k ≤ p.run → ¬ p.before (k + j)) ∧ tar (k + j) = .exited 0 [] ∧
    ∀ i < j, ∃ stderr, tar (k + i) = .exited 0 stderr ∧ stderr ≠ []

theorem succeeds_zero (k : Nat) : Succeeds crash tar k 0 ↔
    ¬ (crash = some ⟨k, .spawn⟩ ∨ crash = some ⟨k, .communicate⟩) ∧ tar k = .exited 0 [] := by
  unfold Succeeds
  refine and_congr ?_ (and_iff_left nofun)
  constructor
  · rintro h (hcrash | hcrash)
    · exact h _ hcrash (Nat.le_refl k) (.inr ⟨rfl, nofun⟩)
    · exact h _ hcrash (Nat.le_refl k) (.inr ⟨rfl, nofun⟩)
  · intro h p hp hrun hbefore
    obtain ⟨run, stage⟩ := p
    obtain hlt | ⟨rfl, hstage⟩ := hbefore
    · exact absurd hlt (Nat.not_lt.2 hrun)
    · cases stage with
      | spawn => exact h (.inl hp)
      | communicate => exact h (.inr hp)
      | sleep => exact hstage rfl

/-- With a later run, if the program does not crash in this one and goes on. -/
theorem succeeds_succ (k j : Nat) : Succeeds crash tar k (j + 1) ↔
    (∀ stage, crash ≠ some ⟨k, stage⟩) ∧
      (∃ stderr, tar k = .exited 0 stderr ∧ stderr ≠ []) ∧ Succeeds crash tar (k + 1) j := by
  have hcomm (i : Nat) : k + (i + 1) = k + 1 + i := by omega
  have hruns : (∀ i < j + 1, ∃ stderr, tar (k + i) = .exited 0 stderr ∧ stderr ≠ []) ↔
      (∃ stderr, tar k = .exited 0 stderr ∧ stderr ≠ []) ∧
        ∀ i < j, ∃ stderr, tar (k + 1 + i) = .exited 0 stderr ∧ stderr ≠ [] := by
    rw [Nat.forall_lt_succ_left]
    exact and_congr Iff.rfl (forall₂_congr fun i _ => by rw [hcomm i])
  unfold Succeeds
  rw [hruns, hcomm j]
  constructor
  · rintro ⟨hbefore, hok, hfirst, hretry⟩
    refine ⟨?_, hfirst, ?_, hok, hretry⟩
    · intro stage hcrash
      exact hbefore _ hcrash (Nat.le_refl k) (.inl (by dsimp only; omega))
    · intro p hp hrun
      exact hbefore p hp (by omega)
  · rintro ⟨hcrash, hfirst, hbefore, hok, hretry⟩
    refine ⟨?_, hok, hfirst, hretry⟩
    intro p hp hrun
    obtain hrun | rfl := Nat.lt_or_eq_of_le hrun
    · exact hbefore p hp hrun
    · exact absurd hp (hcrash p.stage)

theorem runTarUntil_completed_iff (k retries : Nat) :
    runTarUntil crash tar k retries = some .completed ↔
      ∃ j < retries, Succeeds crash tar k j := by
  induction retries generalizing k with
  | zero => exact iff_of_false nofun nofun
  | succ retries ih =>
    have hlater : (∃ j < retries, Succeeds crash tar k (j + 1)) ↔
        (∀ stage, crash ≠ some ⟨k, stage⟩) ∧
          (∃ stderr, tar k = .exited 0 stderr ∧ stderr ≠ []) ∧
          runTarUntil crash tar (k + 1) retries = some .completed := by
      rw [ih]
      constructor
      · rintro ⟨j, hj, h⟩
        obtain ⟨hspared, hfirst, h⟩ := (succeeds_succ k j).1 h
        exact ⟨hspared, hfirst, j, hj, h⟩
      · rintro ⟨hspared, hfirst, j, hj, h⟩
        exact ⟨j, hj, (succeeds_succ k j).2 ⟨hspared, hfirst, h⟩⟩
    rw [runTarUntil, Nat.exists_lt_succ_left, succeeds_zero, hlater]
    by_cases hcrash : crash = some ⟨k, .spawn⟩ ∨ crash = some ⟨k, .communicate⟩
    · rw [if_pos hcrash]
      apply iff_of_false nofun
      rintro (⟨h, -⟩ | ⟨h, -⟩)
      · exact h hcrash
      · exact hcrash.elim (h _) (h _)
    rw [if_neg hcrash]
    cases hk : tar k with
    | raised | cancelled => simp
    | exited returncode stderr =>
      dsimp only
      split
      · next hcode => simp [hcode]
      next hcode =>
      obtain rfl : returncode = 0 := not_not.1 hcode
      split
      · next hstderr =>
        have hne : stderr ≠ [] := List.length_pos_iff.1 hstderr
        split
        · next hsleep =>
          apply iff_of_false nofun
          rintro (⟨-, h⟩ | ⟨h, -⟩)
          · simp [hne] at h
          · exact h _ hsleep
        next hsleep =>
        have hspared : ∀ stage, crash ≠ some ⟨k, stage⟩ := by
          intro stage h
          cases stage with
          | spawn => exact hcrash (.inl h)
          | communicate => exact hcrash (.inr h)
          | sleep => exact hsleep h
        simp [hne, hspared]
      · next hstderr =>
        obtain rfl : stderr = [] := by simpa using hstderr
        exact iff_of_true rfl (.inl ⟨hcrash, rfl⟩)

/-- When every run of tar ends, the loop succeeds or raises `RuntimeError`. -/
theorem runTarUntil_exited (htar : ∀ k, ∃ returncode stderr, tar k = .exited returncode stderr)
    (k retries : Nat) {e : Ending} (h : runTarUntil crash tar k retries = some e) :
    e = .completed ∨ e = .runtimeError := by
  induction retries generalizing k with
  | zero =>
    cases h
    exact .inr rfl
  | succ retries ih =>
    obtain ⟨returncode, stderr, hk⟩ := htar k
    rw [runTarUntil, hk] at h
    dsimp only at h
    split at h
    · cases h
    split at h
    · cases h
      exact .inr rfl
    split at h
    · split at h
      · cases h
      · exact ih (k + 1) h
    · cases h
      exact .inl rfl

theorem ArchiveAttempt.commits_iff : a.Commits ↔ a.ending = some .completed := by
  unfold Commits ending
  rw [runTarUntil_completed_iff]
  unfold Succeeds
  simp only [Nat.zero_add, Nat.zero_le, true_implies]

/-- **The files after an attempt.** -/
theorem mem_attempt : p ∈ ((Event.attempt a).perform D dir).files ↔
    p ∈ dir.files ∧ (p = a.tmp → a.ending = none) ∨ a.ending = none ∧ p = a.tmp ∨
      a.Commits ∧ p = a.name := by
  have hmem : p ∈ ((dir.write a.tmp).unlink a.tmp).files ↔ p ∈ dir.files ∧ p ≠ a.tmp := by
    rw [Dir.unlink, (dir.write a.tmp).nodup.mem_erase_iff, Dir.write, List.mem_insert_iff]
    constructor
    · rintro ⟨hne, h⟩
      exact ⟨h.resolve_left hne, hne⟩
    · rintro ⟨h, hne⟩
      exact ⟨hne, .inr h⟩
  rw [ArchiveAttempt.commits_iff]
  unfold Event.perform createWorldArchiveUntil
  dsimp only
  rw [← ArchiveAttempt.tmp, ← ArchiveAttempt.ending]
  cases hend : a.ending with
  | none =>
    dsimp only
    rw [Dir.write, List.mem_insert_iff]
    simp [or_comm]
  | some e =>
    cases e with
    | completed =>
      dsimp only
      rw [Dir.write, List.mem_insert_iff, hmem]
      simp [or_comm]
    | runtimeError | raised | cancelled =>
      dsimp only
      rw [hmem]
      simp

/-! ### The files of the directory -/

theorem committed_concat (es : List Event) (e : Event) :
    Committed (es ++ [e]) p ↔
      Committed es p ∨ ∃ a, e = .attempt a ∧ a.Commits ∧ p = a.name := by
  unfold Committed
  constructor
  · rintro ⟨a, ha, h⟩
    rcases List.mem_append.1 ha with ha | ha
    · exact .inl ⟨a, ha, h⟩
    · exact .inr ⟨a, (List.mem_singleton.1 ha).symm, h⟩
  · rintro (⟨a, ha, h⟩ | ⟨a, rfl, h⟩)
    · exact ⟨a, List.mem_append_left _ ha, h⟩
    · exact ⟨a, by simp, h⟩

theorem leftover_scan : ¬ Leftover (es ++ [.scan]) p := by
  rintro ⟨es₁, a, es₂, heq, -, -, hscan, -⟩
  rcases List.eq_nil_or_concat es₂ with rfl | ⟨es₂', e, rfl⟩
  · have := List.append_inj_right' heq rfl
    simp at this
  · rw [List.concat_eq_append] at heq hscan
    rw [← List.cons_append, ← List.append_assoc] at heq
    have := List.append_inj_right' heq rfl
    simp only [List.cons.injEq, and_true] at this
    subst this
    simp at hscan

theorem leftover_attempt : Leftover (es ++ [.attempt a]) p ↔
    a.ending = none ∧ p = a.tmp ∨ Leftover es p ∧ (p = a.tmp → a.ending = none) := by
  constructor
  · rintro ⟨es₁, b, es₂, heq, hcrash, rfl, hscan, hlater⟩
    rcases List.eq_nil_or_concat es₂ with rfl | ⟨es₂', e, rfl⟩
    · have := List.append_inj_right' heq rfl
      simp only [List.cons.injEq, Event.attempt.injEq, and_true] at this
      subst this
      exact .inl ⟨hcrash, rfl⟩
    · rw [List.concat_eq_append] at heq hscan hlater
      rw [← List.cons_append, ← List.append_assoc] at heq
      obtain ⟨rfl, he⟩ := List.append_inj' heq rfl
      simp only [List.cons.injEq, and_true] at he
      subst he
      refine .inr ⟨⟨es₁, b, es₂', rfl, hcrash, rfl, fun h => hscan (by simp [h]),
        fun c hc => hlater c (by simp [hc])⟩, fun htmp => ?_⟩
      exact hlater a (by simp) (List.append_cancel_right htmp).symm
  · rintro (⟨hcrash, rfl⟩ | ⟨⟨es₁, b, es₂, rfl, hcrash, rfl, hscan, hlater⟩, hsame⟩)
    · exact ⟨es, a, [], rfl, hcrash, rfl, by simp, by simp⟩
    · refine ⟨es₁, b, es₂ ++ [.attempt a], by simp, hcrash, rfl, by simp [hscan], ?_⟩
      intro c hc hname
      rcases List.mem_append.1 hc with hc | hc
      · exact hlater c hc hname
      · simp only [List.mem_singleton, Event.attempt.injEq] at hc
        subst hc
        exact hsame (by rw [ArchiveAttempt.tmp, ArchiveAttempt.tmp, hname])

theorem isPartial_tmp (D : Decimals) (a : ArchiveAttempt) : isPartial D a.tmp = true := by
  have hdrop : a.tmp.rdrop part.length = a.name := by
    unfold ArchiveAttempt.tmp List.rdrop
    rw [List.length_append, Nat.add_sub_cancel]
    exact List.take_left
  have hsuffix : part <:+ a.tmp := List.suffix_append _ _
  unfold isPartial
  rw [hdrop, ArchiveAttempt.name, backupTicks_backupName, decide_eq_true hsuffix]
  rfl

theorem not_isPartial_name (D : Decimals) (a : ArchiveAttempt) : isPartial D a.name = false := by
  unfold isPartial
  rw [Bool.and_eq_false_iff, decide_eq_false_iff_not]
  refine .inl ?_
  rintro ⟨stem, hstem⟩
  have hticks := backupTicks_backupName D a.now a.ticks
  rw [show backupName a.now a.ticks = stem ++ part from hstem.symm, backupTicks_part] at hticks
  cases hticks

theorem name_ne_tmp (D : Decimals) (a b : ArchiveAttempt) : b.name ≠ a.tmp := by
  intro heq
  have hpartial := not_isPartial_name D b
  rw [heq, isPartial_tmp] at hpartial
  cases hpartial

/-- **The files of the directory** are the archives committed and the partial files left over. -/
theorem mem_history (D : Decimals) (es : List Event) (p : Name) :
    p ∈ (history D es).files ↔ Committed es p ∨ Leftover es p := by
  induction es using List.reverseRecOn generalizing p with
  | nil =>
    apply iff_of_false List.not_mem_nil
    rintro (⟨a, ha, -⟩ | ⟨es₁, a, es₂, heq, -⟩)
    · cases ha
    · simp at heq
  | append_singleton es e ih =>
    have hperform : history D (es ++ [e]) = e.perform D (history D es) := by simp [history]
    rw [hperform, committed_concat]
    cases e with
    | scan =>
      rw [Event.perform, loadBackupsList]
      simp only [List.mem_filter, ih, reduceCtorEq, false_and, exists_false, or_false,
        leftover_scan]
      constructor
      · rintro ⟨h | ⟨es₁, a, es₂, -, -, rfl, -⟩, hpartial⟩
        · exact h
        · simp [isPartial_tmp] at hpartial
      · rintro ⟨a, ha, hcommits, rfl⟩
        exact ⟨.inl ⟨a, ha, hcommits, rfl⟩, by simp [not_isPartial_name]⟩
    | attempt a =>
      rw [mem_attempt, leftover_attempt, ih]
      -- an archive that was committed is not the partial file of this attempt
      have hname : Committed es p → p ≠ a.tmp := by
        rintro ⟨b, -, -, rfl⟩
        exact name_ne_tmp D a b
      simp only [Event.attempt.injEq, eq_comm (a := a), exists_eq_left]
      constructor
      · rintro (⟨hcommitted | hleftover, htmp⟩ | hcrash | hcommits)
        · exact .inl (.inl hcommitted)
        · exact .inr (.inr ⟨hleftover, htmp⟩)
        · exact .inr (.inl hcrash)
        · exact .inl (.inr hcommits)
      · rintro ((hcommitted | hcommits) | hcrash | ⟨hleftover, htmp⟩)
        · exact .inl ⟨.inl hcommitted, fun htmp => absurd htmp (hname hcommitted)⟩
        · exact .inr (.inr hcommits)
        · exact .inr (.inl hcrash)
        · exact .inl ⟨.inr hleftover, htmp⟩

/-- **Only committed archives are ever counted as backups.** After any history of attempts, crashes
and scans, `load_backups_list` lists the archives committed, each once, with its ticks and in their
order, and deletes the partial files left over and nothing else. An attempt that does not crash
leaves no partial file of its own and no new one, and, when its runs of tar end, raises
`RuntimeError` just when it committed nothing. -/
theorem backups_committed (D : Decimals) (es : List Event) :
    (∀ ts p, (ts, p) ∈ (loadBackupsList D (history D es)).1 ↔
      ∃ a, .attempt a ∈ es ∧ a.Commits ∧ ts = a.ticks ∧ p = a.name) ∧
    (loadBackupsList D (history D es)).1.Nodup ∧
    (loadBackupsList D (history D es)).1.Pairwise (fun a b => a.1 ≤ b.1) ∧
    (∀ p, p ∈ (loadBackupsList D (history D es)).2.files ↔
      p ∈ (history D es).files ∧ ¬ Leftover es p) ∧
    (∀ p, Leftover es p → p ∈ (history D es).files) ∧
    ∀ a e, a.ending = some e →
      a.tmp ∉ (history D (es ++ [.attempt a])).files ∧
      (∀ p, Leftover (es ++ [.attempt a]) p → Leftover es p) ∧
      ((∀ k, ∃ returncode stderr, a.tar k = .exited returncode stderr) →
        (e = .runtimeError ↔ ¬ a.Commits)) := by
  refine ⟨fun ts p => ?_, nodup_loadBackupsList, ?_, fun p => ?_, fun p hp => ?_,
    fun a e hend => ⟨?_, fun p => ?_, fun htar => ?_⟩⟩
  · rw [mem_loadBackupsList, mem_history]
    constructor
    · rintro ⟨⟨a, ha, hcommits, rfl⟩ | ⟨es₁, a, es₂, -, -, rfl, -⟩, hticks⟩
      · refine ⟨a, ha, hcommits, ?_, rfl⟩
        rw [ArchiveAttempt.name, backupTicks_backupName] at hticks
        exact (Option.some.inj hticks).symm
      · rw [ArchiveAttempt.tmp, backupTicks_part] at hticks
        cases hticks
    · rintro ⟨a, ha, hcommits, rfl, rfl⟩
      exact ⟨.inl ⟨a, ha, hcommits, rfl⟩, backupTicks_backupName D a.now a.ticks⟩
  · refine sorted_loadBackupsList.imp fun hle => ?_
    unfold pairLe at hle
    omega
  · have h := mem_history D (es ++ [.scan]) p
    rw [show history D (es ++ [.scan]) = (loadBackupsList D (history D es)).2 by
      simp [history, Event.perform], committed_concat] at h
    simp only [leftover_scan, reduceCtorEq, false_and, exists_false, or_false] at h
    rw [h, mem_history]
    refine ⟨fun hc => ⟨.inl hc, ?_⟩, fun hc => hc.1.resolve_right hc.2⟩
    rintro ⟨es₁, b, es₂, -, -, rfl, -⟩
    obtain ⟨a, -, -, heq⟩ := hc
    exact name_ne_tmp D b a heq.symm
  · exact (mem_history D es p).2 (.inr hp)
  · rw [mem_history, committed_concat, leftover_attempt]
    rintro ((⟨b, -, -, heq⟩ | ⟨b, -, -, heq⟩) | ⟨hnone, -⟩ | ⟨-, hnone⟩)
    · exact name_ne_tmp D a b heq.symm
    · exact name_ne_tmp D a b heq.symm
    · rw [hend] at hnone
      cases hnone
    · rw [hend] at hnone
      cases hnone rfl
  · rw [leftover_attempt]
    rintro (⟨hnone, -⟩ | ⟨h, -⟩)
    · rw [hend] at hnone
      cases hnone
    · exact h
  · rw [ArchiveAttempt.commits_iff, hend]
    rcases runTarUntil_exited htar 0 a.maxRetries hend with rfl | rfl <;> simp

end

end Silkjam.Backup
