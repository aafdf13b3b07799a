import Silkjam.Backup.Directory
import Silkjam.Backup.Strategies
import Silkjam.Lib.Transition

/-!
# The backup manager

One check of `MCBackupManager.run`, from the end of the timer's wait to the next. It reads the list
of backups, makes a new one if one is due, and then deletes those that are stale among the ones in
the list, of which it keeps `max_backups - 1`: one slot is for the new backup, whether it was made
or not. A check that starts with all slots full therefore keeps its backups just when it makes a new
one or does not get to the deletion (`backups_kept`); with one slot, a check that finds no backup
due deletes the only one (`only_backup_deleted`).
-/

namespace Silkjam.Backup

open Transition

def TICKS_PER_SECOND : Nat := 20

def TICKS_PER_MINUTE : Nat := TICKS_PER_SECOND * 60

def MIN_INTERVAL : Int := 60

/-- The properties of a manager: its interval, in minutes, is not `None`. -/
structure BackupProperties where
  interval : Nat
  interval_pos : 0 < interval
  maxBackups : Nat

def BackupProperties.tickInterval (p : BackupProperties) : Int :=
  p.interval * TICKS_PER_MINUTE

theorem BackupProperties.tickInterval_pos (p : BackupProperties) : 0 < p.tickInterval := by
  have := p.interval_pos
  unfold tickInterval TICKS_PER_MINUTE TICKS_PER_SECOND
  omega

/-- How an attempt goes. -/
structure Attempt where
  /-- up to the archive: connecting, turning autosave off, `say` and `save-all` -/
  before : Ending
  tar : Nat → TarRun
  /-- after the archive: `say`, turning autosave on and disconnecting -/
  after : Ending

/-- What a check finds: the play time in level.dat, unless reading it raises, and the date. -/
structure Check where
  playTime : Option Int
  now : DateTime
  attempt : Attempt

/-- What a check does to the timer. -/
inductive TimerSetting where
  | reset
  | remaining (seconds : Int)
  | suspended
  deriving DecidableEq

/-- The state after a check; `run` ends if something raised. -/
structure Checked where
  dir : Dir
  timer : Option TimerSetting
  goesOn : Bool

/-- `save_and_backup`, which swallows every exception; the flag says that it was cancelled. -/
def saveAndBackup (dir : Dir) (name : Name) (attempt : Attempt) : Dir × Bool :=
  match attempt.before with
  | .completed =>
    match createWorldArchive dir name attempt.tar with
    | (dir, .cancelled) => (dir, true)
    | (dir, _) => (dir, attempt.after = .cancelled)
  | .cancelled => (dir, true)
  | _ => (dir, false)

/-- The stale backups, by play time. -/
def staleBackups (A : Arith) (p : BackupProperties) (backups : List (Nat × Name))
    (totalTicks : Int) : Option (Finset (Nat × Name)) :=
  getStaleBackups A backups totalTicks p.maxBackups p.tickInterval 2 fun b => b.1

def removeStaleBackups (A : Arith) (p : BackupProperties) (dir : Dir) (backups : List (Nat × Name))
    (totalTicks : Int) : Option Dir :=
  (staleBackups A p backups totalTicks).map fun stale => dir.unlinkAll (stale.image Prod.snd)

/-- The end of a check. -/
def removeStale (A : Arith) (p : BackupProperties) (dir : Dir) (backups : List (Nat × Name))
    (totalTicks : Int) (timer : TimerSetting) : Checked :=
  match removeStaleBackups A p dir backups totalTicks with
  | some dir => ⟨dir, some timer, true⟩
  | none => ⟨dir, some timer, false⟩

def due (p : BackupProperties) (backups : List (Nat × Name)) (totalTicks : Int) : Bool :=
  match backups.getLast? with
  | none => true
  | some last => 0 < (totalTicks - last.1).fdiv p.tickInterval

/-- Time until the next backup. -/
def remainingTime (p : BackupProperties) (backups : List (Nat × Name)) (totalTicks : Int) : Int :=
  match backups.getLast? with
  | none => MIN_INTERVAL
  | some last => max MIN_INTERVAL ((p.tickInterval - (totalTicks - last.1)).fdiv 20)

/-- One turn of the loop of `run`, after the wait. -/
def check (A : Arith) (D : Decimals) (p : BackupProperties) (e : Check) (dir : Dir) : Checked :=
  let (backups, dir) := loadBackupsList D dir
  match e.playTime with
  | none => ⟨dir, none, false⟩
  | some totalTicks =>
    if 0 < p.maxBackups then
      if due p backups totalTicks then
        match saveAndBackup dir (backupName e.now totalTicks) e.attempt with
        | (dir, true) => ⟨dir, none, false⟩
        | (dir, false) => removeStale A p dir backups totalTicks .reset
      else
        removeStale A p dir backups totalTicks
          (.remaining (remainingTime p backups totalTicks))
    else removeStale A p dir backups totalTicks .suspended

def Dir.count (D : Decimals) (dir : Dir) : Nat :=
  (dir.complete D).card

/-- An attempt that makes its archive. -/
def Attempt.creates (attempt : Attempt) : Prop :=
  attempt.before = .completed ∧ runTar attempt.tar 0 3 = .completed

instance (attempt : Attempt) : Decidable attempt.creates :=
  inferInstanceAs (Decidable (_ ∧ _))

/-- An attempt that is cancelled. -/
def Attempt.isCancelled (attempt : Attempt) : Prop :=
  attempt.before = .cancelled ∨ attempt.before = .completed ∧
    (runTar attempt.tar 0 3 = .cancelled ∨ attempt.after = .cancelled)

instance (attempt : Attempt) : Decidable attempt.isCancelled :=
  inferInstanceAs (Decidable (_ ∨ _))

/-- The check begins with a free slot, or makes a new backup, or ends before the deletion because
level.dat cannot be read or the attempt is cancelled. -/
def Spares (D : Decimals) (p : BackupProperties) (dir : Dir) (e : Check) : Prop :=
  dir.count D < p.maxBackups ∨ ∀ totalTicks, e.playTime = some totalTicks →
    due p (loadBackupsList D dir).1 totalTicks = true ∧
      (e.attempt.creates ∨ e.attempt.isCancelled)

instance (D : Decimals) (p : BackupProperties) (dir : Dir) (e : Check) :
    Decidable (Spares D p dir e) :=
  match h : e.playTime with
  | none => .isTrue (.inr fun _ h' => by rw [h] at h'; cases h')
  | some totalTicks => decidable_of_iff (dir.count D < p.maxBackups ∨
      due p (loadBackupsList D dir).1 totalTicks = true ∧
        (e.attempt.creates ∨ e.attempt.isCancelled)) (by
    unfold Spares
    rw [h]
    simp)

/-- The floating point numbers of the check, if it comes to them, do not overflow. -/
def Computes (A : Arith) (D : Decimals) (p : BackupProperties) (dir : Dir) (e : Check) : Prop :=
  ∀ totalTicks, e.playTime = some totalTicks →
    (staleBackups A p (loadBackupsList D dir).1 totalTicks).isSome

theorem computes_exact {D : Decimals} {p : BackupProperties} (hmax : 0 < p.maxBackups) (dir : Dir)
    (e : Check) : Computes .exact D p dir e := by
  intro totalTicks _
  obtain ⟨stale, hstale⟩ := getStaleBackups_exact (loadBackupsList D dir).1 totalTicks hmax
    p.tickInterval_pos fun b => (b.1 : Int)
  exact Option.isSome_iff_exists.2 ⟨stale, hstale⟩

/-! ### One check -/

section
variable {A : Arith} {D : Decimals} {p : BackupProperties} {dir : Dir} {e : Check}

theorem backupName_notMem {totalTicks : Int} (now : DateTime)
    (hdue : due p (loadBackupsList D dir).1 totalTicks = true) :
    backupName now totalTicks ∉ dir.complete D := by
  intro hmem
  have hts := backupTicks_backupName D now totalTicks
  have hlist := mem_loadBackupsList.2 ⟨(mem_complete.1 hmem).1, hts⟩
  unfold due at hdue
  split at hdue
  · next hnone =>
    rw [List.getLast?_eq_none_iff.1 hnone] at hlist
    cases hlist
  · next last hlast =>
    have hle := le_getLast hlast _ hlist
    have hpos := p.tickInterval_pos
    have hsteps : 0 < (totalTicks - last.1).fdiv p.tickInterval := by simpa using hdue
    rw [← Int.add_one_le_iff, Int.zero_add,
      Int.fdiv_eq_ediv_of_nonneg _ hpos.le, Int.le_ediv_iff_mul_le hpos] at hsteps
    dsimp only at hle
    omega

theorem count_saveAndBackup (dir : Dir) {name : Name} (attempt : Attempt)
    (hname : (backupTicks D name).isSome) :
    (saveAndBackup dir name attempt).1.complete D =
        (if attempt.creates then insert name (dir.complete D) else dir.complete D) ∧
      ((saveAndBackup dir name attempt).2 = true ↔ attempt.isCancelled) := by
  have harchive := complete_createWorldArchive dir attempt.tar 3 hname
  have hending : (createWorldArchive dir name attempt.tar 3).2 = runTar attempt.tar 0 3 := by
    unfold createWorldArchive
    dsimp only
    split
    · next h => exact h.symm
    · rfl
  obtain ⟨before, tar, after⟩ := attempt
  unfold saveAndBackup
  dsimp only at harchive hending ⊢
  cases before with
  | completed =>
    have hcreates : Attempt.creates ⟨.completed, tar, after⟩ ↔ runTar tar 0 3 = .completed :=
      and_iff_right rfl
    have hcancelled : Attempt.isCancelled ⟨.completed, tar, after⟩ ↔
        runTar tar 0 3 = .cancelled ∨ after = .cancelled := by
      simp [Attempt.isCancelled]
    rw [← hending] at harchive hcreates hcancelled
    simp only [hcreates, hcancelled]
    generalize createWorldArchive dir name tar 3 = r at harchive ⊢
    obtain ⟨dir', ending⟩ := r
    cases ending <;> simpa using harchive
  | _ => simp [Attempt.creates, Attempt.isCancelled]

theorem count_removeStaleBackups {dir' dir'' : Dir} {totalTicks : Int} (hmax : 0 < p.maxBackups)
    (hsub : dir.complete D ⊆ dir'.complete D)
    (h : removeStaleBackups A p dir' (loadBackupsList D dir).1 totalTicks = some dir'') :
    dir''.count D = dir'.count D - (dir.count D + 1 - p.maxBackups) := by
  unfold removeStaleBackups staleBackups at h
  obtain ⟨stale, hstale, rfl⟩ := Option.map_eq_some_iff.1 h
  obtain ⟨hlisted, hcard⟩ := getStaleBackups_card hmax nodup_loadBackupsList hstale
  have himage : stale.image Prod.snd ⊆ dir.complete D := by
    rw [← image_loadBackupsList]
    exact Finset.image_subset_image hlisted
  have hinj : (stale.image Prod.snd).card = stale.card := by
    apply Finset.card_image_of_injOn
    intro a ha b hb hab
    exact snd_injOn_loadBackupsList (List.mem_toFinset.1 (hlisted ha))
      (List.mem_toFinset.1 (hlisted hb)) hab
  unfold Dir.count
  rw [complete_unlinkAll, Finset.card_sdiff_of_subset (himage.trans hsub), hinj, hcard, numStale,
    length_loadBackupsList]

/-- The end of a check keeps the backups that were not listed, and all but the stale ones of those
that were. -/
theorem count_removeStale {dir' : Dir} (totalTicks : Int) (timer : TimerSetting)
    (hmax : 0 < p.maxBackups) (hsub : dir.complete D ⊆ dir'.complete D) :
    (removeStale A p dir' (loadBackupsList D dir).1 totalTicks timer).dir.count D =
        dir'.count D - (dir.count D + 1 - p.maxBackups) ∨
      (removeStale A p dir' (loadBackupsList D dir).1 totalTicks timer).dir.count D =
        dir'.count D := by
  unfold removeStale
  split
  · next h => exact .inl (count_removeStaleBackups hmax hsub h)
  · exact .inr rfl

theorem count_removeStale_of_isSome {dir' : Dir} {totalTicks : Int} (timer : TimerSetting)
    (hmax : 0 < p.maxBackups) (hsub : dir.complete D ⊆ dir'.complete D)
    (hA : (staleBackups A p (loadBackupsList D dir).1 totalTicks).isSome) :
    (removeStale A p dir' (loadBackupsList D dir).1 totalTicks timer).dir.count D =
      dir'.count D - (dir.count D + 1 - p.maxBackups) := by
  obtain ⟨stale, hstale⟩ := Option.isSome_iff_exists.1 hA
  have hsome : removeStaleBackups A p dir' (loadBackupsList D dir).1 totalTicks =
      some (dir'.unlinkAll (stale.image Prod.snd)) := by
    unfold removeStaleBackups
    rw [hstale]
    rfl
  have hcount := count_removeStaleBackups hmax hsub hsome
  unfold removeStale
  rw [hsome]
  exact hcount

/-- A check that reads the play time: it adds the new archive, if a backup is due and the attempt
makes it, and then deletes the stale ones of the listed backups, unless the attempt is cancelled. -/
theorem check_spec {totalTicks : Int} (hmax : 0 < p.maxBackups)
    (hplay : e.playTime = some totalTicks) :
    ∃ dir', dir.complete D ⊆ dir'.complete D ∧
      dir'.count D = dir.count D +
        (if due p (loadBackupsList D dir).1 totalTicks = true ∧ e.attempt.creates then 1 else 0) ∧
      ((due p (loadBackupsList D dir).1 totalTicks = true ∧ e.attempt.isCancelled) ∧
          (check A D p e dir).dir = dir' ∨
        ¬ (due p (loadBackupsList D dir).1 totalTicks = true ∧ e.attempt.isCancelled) ∧
          ∃ timer, check A D p e dir =
            removeStale A p dir' (loadBackupsList D dir).1 totalTicks timer) := by
  have hload : (loadBackupsList D dir).2.complete D = dir.complete D := complete_loadBackupsList
  unfold check
  dsimp only
  rw [hplay]
  dsimp only
  rw [if_pos hmax]
  by_cases hdue : due p (loadBackupsList D dir).1 totalTicks = true
  · simp only [hdue, true_and]
    rw [if_pos trivial]
    have hname : (backupTicks D (backupName e.now totalTicks)).isSome := by
      rw [backupTicks_backupName]
      rfl
    obtain ⟨hcomplete, hcancelled⟩ := count_saveAndBackup (loadBackupsList D dir).2 e.attempt hname
    generalize saveAndBackup (loadBackupsList D dir).2 (backupName e.now totalTicks) e.attempt = r
      at hcomplete hcancelled
    obtain ⟨dir', cancelled⟩ := r
    dsimp only at hcomplete hcancelled
    rw [hload] at hcomplete
    refine ⟨dir', ?_, ?_, ?_⟩
    · rw [hcomplete]
      split
      · exact Finset.subset_insert _ _
      · exact Finset.Subset.refl _
    · unfold Dir.count
      rw [hcomplete]
      split
      · exact Finset.card_insert_of_notMem (backupName_notMem e.now hdue)
      · rfl
    · cases cancelled with
      | true => exact .inl ⟨hcancelled.1 rfl, rfl⟩
      | false => exact .inr ⟨fun h => absurd (hcancelled.2 h) (by decide), _, rfl⟩
  · refine ⟨(loadBackupsList D dir).2, hload.ge, ?_, .inr ⟨fun h => hdue h.1, ?_⟩⟩
    · rw [if_neg fun h => hdue h.1]
      exact congrArg Finset.card hload
    · rw [if_neg hdue]
      exact ⟨_, rfl⟩

/-- **A check that spares the backups** keeps as many as there are slots, with any arithmetic. -/
theorem count_check_of_spares (hmax : 0 < p.maxBackups) (h : Spares D p dir e) :
    min (dir.count D) p.maxBackups ≤ (check A D p e dir).dir.count D := by
  cases hplay : e.playTime with
  | none =>
    have hcount : (loadBackupsList D dir).2.count D = dir.count D :=
      congrArg Finset.card complete_loadBackupsList
    unfold check
    dsimp only
    rw [hplay]
    dsimp only
    omega
  | some totalTicks =>
    obtain ⟨dir', hsub, hcount, ⟨-, hend⟩ | ⟨hgoesOn, timer, hend⟩⟩ :=
      check_spec (A := A) (D := D) hmax hplay
    · rw [hend]
      omega
    · have hremoved := count_removeStale (A := A) totalTicks timer hmax hsub
      rw [hend]
      rcases h with hfree | h
      · split at hcount <;> omega
      · obtain ⟨hdue, hends⟩ := h totalTicks hplay
        have hcreates := hends.resolve_right fun hcancelled => hgoesOn ⟨hdue, hcancelled⟩
        rw [if_pos ⟨hdue, hcreates⟩] at hcount
        omega

theorem count_check_of_not_spares (hmax : 0 < p.maxBackups) (hA : Computes A D p dir e)
    (h : ¬ Spares D p dir e) :
    (check A D p e dir).dir.count D < min (dir.count D) p.maxBackups := by
  unfold Spares at h
  rw [not_or, not_lt] at h
  obtain ⟨hfull, h⟩ := h
  obtain ⟨totalTicks, hplay, hnot⟩ : ∃ totalTicks, e.playTime = some totalTicks ∧
      ¬ (due p (loadBackupsList D dir).1 totalTicks = true ∧
        (e.attempt.creates ∨ e.attempt.isCancelled)) := by
    by_contra hno
    exact h fun totalTicks hplay => by_contra fun hnot => hno ⟨totalTicks, hplay, hnot⟩
  obtain ⟨dir', hsub, hcount, ⟨⟨hdue, hcancelled⟩, -⟩ | ⟨-, timer, hend⟩⟩ :=
    check_spec (A := A) (D := D) hmax hplay
  · exact absurd ⟨hdue, .inr hcancelled⟩ hnot
  · have hremoved := count_removeStale_of_isSome timer hmax hsub (hA totalTicks hplay)
    rw [if_neg fun h => hnot ⟨h.1, .inl h.2⟩] at hcount
    rw [hend]
    omega

end

/-! ### Histories of checks -/

/-- One check after another, with a restart of the manager where one raises. -/
def step (A : Arith) (D : Decimals) (p : BackupProperties) (dir : Dir) (e : Check) : Option Dir :=
  some (check A D p e dir).dir

/-- **Backups are kept** by the checks that spare them and by no others: a check leaves at least as
many complete backups as there were, up to `max_backups`, just when it spares them, unless it ends
in an overflow; and so does any history of checks that spare them, whatever the floating point
numbers. -/
theorem backups_kept (D : Decimals) (p : BackupProperties) (hmax : 0 < p.maxBackups) :
    (∀ A dir e, Computes A D p dir e →
      (min (dir.count D) p.maxBackups ≤ (check A D p e dir).dir.count D ↔ Spares D p dir e)) ∧
    ∀ A dir dir', Reach (step A D p) (Spares D p) dir dir' →
      min (dir.count D) p.maxBackups ≤ dir'.count D := by
  refine ⟨fun A dir e hA => ⟨?_, count_check_of_spares hmax⟩, ?_⟩
  · intro h
    by_contra hno
    exact absurd h (not_le.2 (count_check_of_not_spares hmax hA hno))
  · intro A dir dir' hrun
    refine hrun.invariant (P := fun dir' => min (dir.count D) p.maxBackups ≤ dir'.count D)
      (Nat.min_le_left _ _) ?_
    intro s e s' hkept hok hstep
    cases hstep
    have hcheck := count_check_of_spares (A := A) hmax hok
    omega

/-- A directory with one complete backup, made after 5 ticks. -/
def oneBackup : Dir where
  files := [['a', '_', '5'] ++ tarGz]
  nodup := List.nodup_singleton _

def hourly : BackupProperties where
  interval := 60
  interval_pos := by decide
  maxBackups := 1

/-- A check at which the attempt succeeds. -/
def goodCheck (totalTicks : Int) : Check where
  playTime := some totalTicks
  now := ⟨2025, 1, 2, 3, 4, 5⟩
  attempt := ⟨.completed, fun _ => .exited 0 [], .completed⟩

theorem backups_kept_hourly :
    (∃ dir, Reach (step .exact asciiDecimals hourly) (Spares asciiDecimals hourly) oneBackup dir ∧
      1 ≤ dir.count asciiDecimals) ∧
    (min (oneBackup.count asciiDecimals) hourly.maxBackups ≤
        (check .exact asciiDecimals hourly (goodCheck 72005) oneBackup).dir.count asciiDecimals ↔
      Spares asciiDecimals hourly oneBackup (goodCheck 72005)) := by
  obtain ⟨dir, hrun, -⟩ := Reach.exists_of_runIn (step .exact asciiDecimals hourly)
    (Spares asciiDecimals hourly) oneBackup [goodCheck 72005, goodCheck 150000]
    (p := fun dir => dir.files.length = 1) (by decide +kernel)
  have hkept := backups_kept asciiDecimals hourly (by decide)
  have hone : min (oneBackup.count asciiDecimals) hourly.maxBackups = 1 := by decide +kernel
  exact ⟨⟨dir, hrun, hone ▸ hkept.2 .exact oneBackup dir hrun⟩,
    hkept.1 .exact oneBackup (goodCheck 72005) (computes_exact (by decide) _ _)⟩

/-- With one slot, a check that finds no backup due deletes the only backup. -/
theorem only_backup_deleted :
    oneBackup.count asciiDecimals = 1 ∧
      (check .exact asciiDecimals hourly (goodCheck 72004) oneBackup).dir.count asciiDecimals = 0 ∧
      ¬ min (oneBackup.count asciiDecimals) hourly.maxBackups ≤
        (check .exact asciiDecimals hourly (goodCheck 72004) oneBackup).dir.count asciiDecimals := by
  decide +kernel

end Silkjam.Backup
