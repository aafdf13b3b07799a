import Silkjam.Backup.Manager

/-!
# When backups are made

A check at which no backup is due sets the timer to the time until one is, and a check that tries to
make one starts the timer anew, however the attempt went. `Schedule` is the manager over its whole
life, with the play time of the world as its clock: `run` ends when a check raises, and the manager
is then started again, which schedules a check at once.

The play time read from level.dat may run ahead of the timer: the game saves it from time to time
only, and goes on while a check is made. With `slack` ticks for that, the backups are never later
than one interval and a minute, and one interval more for each check that was to make one and did
not (`backups_on_time`). A backup is made when a check leaves its archive in the directory, as every
check does at which one is due and the attempt goes well. Deleting backups makes the next one only
sooner.
-/

namespace Silkjam.Backup

open Transition

/-- The timeout of the timer, in seconds. -/
def BackupProperties.timeout (p : BackupProperties) : Int :=
  max MIN_INTERVAL (p.interval * 60)

/-- What remains of the timer, in seconds. -/
def TimerSetting.seconds (p : BackupProperties) : TimerSetting → Option Int
  | .reset => some p.timeout
  | .remaining seconds => some seconds
  | .suspended => none

/-- A check at a play time, which can be read from level.dat or not. -/
structure Turn where
  ticks : Int
  readable : Bool
  now : DateTime
  attempt : Attempt

def Turn.check (e : Turn) : Check where
  playTime := if e.readable then some e.ticks else none
  now := e.now
  attempt := e.attempt

/-- The manager between two checks. -/
structure Schedule where
  dir : Dir
  /-- the play time at the last check, or when the manager was first started -/
  played : Int
  /-- the play time at which the timer ends, at 20 ticks per second, if it is not suspended -/
  ends : Option Int
  /-- the play time of the last backup that was made -/
  made : Option Int := none
  /-- the checks since then at which level.dat could not be read or the due backup was not made -/
  missed : Nat := 0

namespace Schedule

/-- The check finds that a backup is due. -/
def Due (D : Decimals) (p : BackupProperties) (w : Schedule) (e : Turn) : Prop :=
  e.readable = true ∧ due p (loadBackupsList D w.dir).1 e.ticks = true

instance (D : Decimals) (p : BackupProperties) (w : Schedule) (e : Turn) :
    Decidable (w.Due D p e) :=
  inferInstanceAs (Decidable (_ ∧ _))

/-- The check leaves a complete backup of its play time that was not there. -/
def Makes (A : Arith) (D : Decimals) (p : BackupProperties) (w : Schedule) (e : Turn) : Prop :=
  backupName e.now e.ticks ∉ w.dir.complete D ∧
    backupName e.now e.ticks ∈ (Backup.check A D p e.check w.dir).dir.complete D

instance (A : Arith) (D : Decimals) (p : BackupProperties) (w : Schedule) (e : Turn) :
    Decidable (w.Makes A D p e) :=
  inferInstanceAs (Decidable (_ ∧ _))

/-- When the timer ends after a check. If the check raised, the manager is started again. -/
def endsAfter (p : BackupProperties) (ticks : Int) (checked : Checked) : Option Int :=
  if checked.goesOn then
    (checked.timer.bind (·.seconds p)).map fun seconds => ticks + TICKS_PER_SECOND * seconds
  else some ticks

/-- A check, once the timer has ended. -/
def step (A : Arith) (D : Decimals) (p : BackupProperties) (w : Schedule) (e : Turn) :
    Option Schedule :=
  match w.ends with
  | none => none
  | some _ =>
    let checked := Backup.check A D p e.check w.dir
    let makes := w.Makes A D p e
    let misses := e.readable = false ∨ w.Due D p e ∧ ¬ w.Makes A D p e
    some
      { dir := checked.dir
        played := e.ticks
        ends := endsAfter p e.ticks checked
        made := if makes then some e.ticks else w.made
        missed := if makes then 0 else if misses then w.missed + 1 else w.missed }

/-- The play time goes on, and by no more than 20 ticks per second and the slack. -/
def Timely (slack : Nat) (w : Schedule) (e : Turn) : Prop :=
  w.played ≤ e.ticks ∧ ∀ time ∈ w.ends, e.ticks ≤ time + slack

instance (slack : Nat) (w : Schedule) (e : Turn) : Decidable (w.Timely slack e) :=
  inferInstanceAs (Decidable (_ ∧ _))

/-- The backups that there are were made before the play time `time`. -/
def Before (D : Decimals) (dir : Dir) (time : Int) : Prop :=
  ∀ b ∈ (loadBackupsList D dir).1, (b.1 : Int) ≤ time

instance (D : Decimals) (dir : Dir) (time : Int) : Decidable (Before D dir time) :=
  inferInstanceAs (Decidable (∀ b ∈ (loadBackupsList D dir).1, (b.1 : Int) ≤ time))

/-- The manager is started for the first time. -/
structure Starts (D : Decimals) (w : Schedule) : Prop where
  played : 0 ≤ w.played
  before : Before D w.dir w.played
  ends : w.ends = some w.played
  made : w.made = none

/-- The timer ends in time for the backup after the last one that was made. -/
structure OnTime (D : Decimals) (p : BackupProperties) (slack : Nat) (w : Schedule) : Prop where
  played : 0 ≤ w.played
  before : Before D w.dir (w.made.getD w.played)
  made : ∀ made ∈ w.made, made ≤ w.played
  ends : ∃ time, w.ends = some time ∧ ∀ made ∈ w.made,
    time < made + p.tickInterval + TICKS_PER_MINUTE + w.missed * (p.tickInterval + slack)

section
variable {A : Arith} {D : Decimals} {p : BackupProperties} {slack : Nat} {w w' : Schedule} {e : Turn}
  {dir dir' : Dir} {totalTicks : Int}

/-! ### One check -/

theorem before_iff {time : Int} : Before D dir time ↔
    ∀ name ∈ dir.complete D, ∀ ticks ∈ backupTicks D name, (ticks : Int) ≤ time := by
  constructor
  · intro h name hname ticks hticks
    exact h (ticks, name) (mem_loadBackupsList.2 ⟨(mem_complete.1 hname).1, hticks⟩)
  · rintro h ⟨ticks, name⟩ hb
    obtain ⟨hfile, hticks⟩ := mem_loadBackupsList.1 hb
    exact h name (mem_complete.2 ⟨hfile, by rw [hticks]; rfl⟩) ticks hticks

theorem complete_removeStale (backups : List (Nat × Name)) (timer : TimerSetting) :
    (removeStale A p dir backups totalTicks timer).dir.complete D ⊆ dir.complete D := by
  unfold removeStale removeStaleBackups
  cases staleBackups A p backups totalTicks with
  | none => exact Finset.Subset.refl _
  | some stale =>
    dsimp only [Option.map_some]
    rw [complete_unlinkAll]
    exact Finset.sdiff_subset

theorem complete_check (hmax : 0 < p.maxBackups) :
    (Backup.check A D p e.check w.dir).dir.complete D ⊆
      if w.Due D p e ∧ e.attempt.creates then insert (backupName e.now e.ticks) (w.dir.complete D)
      else w.dir.complete D := by
  have hload : (loadBackupsList D w.dir).2.complete D = w.dir.complete D := complete_loadBackupsList
  unfold Backup.check Turn.check
  dsimp only
  by_cases hdue : w.Due D p e
  · have hname : (backupTicks D (backupName e.now e.ticks)).isSome := by
      rw [backupTicks_backupName]
      rfl
    have hsave := (count_saveAndBackup (loadBackupsList D w.dir).2 e.attempt hname).1
    rw [hload] at hsave
    rw [hdue.1, if_pos rfl]
    dsimp only
    rw [if_pos hmax, if_pos hdue.2]
    simp only [hdue, true_and]
    rw [← hsave]
    generalize saveAndBackup (loadBackupsList D w.dir).2 (backupName e.now e.ticks) e.attempt = r
    obtain ⟨dir', cancelled⟩ := r
    cases cancelled with
    | true => exact Finset.Subset.refl _
    | false => exact complete_removeStale _ _
  · have hnone : ¬ (w.Due D p e ∧ e.attempt.creates) := fun h => hdue h.1
    rw [if_neg hnone, ← hload]
    cases hreadable : e.readable with
    | false => exact Finset.Subset.refl _
    | true =>
      rw [if_pos rfl]
      dsimp only
      rw [if_pos hmax, if_neg fun h => hdue ⟨hreadable, h⟩]
      exact complete_removeStale _ _

theorem mem_removeStale {name : Name} (hmax : 0 < p.maxBackups) (timer : TimerSetting)
    (hname : name ∈ dir'.complete D) (hnew : name ∉ dir.complete D) :
    name ∈ (removeStale A p dir' (loadBackupsList D dir).1 totalTicks timer).dir.complete D := by
  unfold removeStale removeStaleBackups
  cases hstale : staleBackups A p (loadBackupsList D dir).1 totalTicks with
  | none => exact hname
  | some stale =>
    obtain ⟨hlisted, -⟩ := getStaleBackups_card hmax nodup_loadBackupsList hstale
    dsimp only [Option.map_some]
    rw [complete_unlinkAll, Finset.mem_sdiff]
    refine ⟨hname, fun hmem => hnew ?_⟩
    rw [← image_loadBackupsList]
    exact Finset.image_subset_image hlisted hmem

/-- **A check makes the backup** that is due when the attempt goes well, and no other. -/
theorem makes_iff (hmax : 0 < p.maxBackups) :
    w.Makes A D p e ↔ w.Due D p e ∧ e.attempt.creates := by
  have hcomplete := complete_check (A := A) (D := D) (e := e) (w := w) hmax
  constructor
  · rintro ⟨hnew, hmem⟩
    by_contra hnot
    rw [if_neg hnot] at hcomplete
    exact hnew (hcomplete hmem)
  · rintro ⟨hdue, hcreates⟩
    have hnew : backupName e.now e.ticks ∉ w.dir.complete D := backupName_notMem e.now hdue.2
    refine ⟨hnew, ?_⟩
    have hname : (backupTicks D (backupName e.now e.ticks)).isSome := by
      rw [backupTicks_backupName]
      rfl
    have hsave := (count_saveAndBackup (loadBackupsList D w.dir).2 e.attempt hname).1
    rw [if_pos hcreates] at hsave
    have hmem : backupName e.now e.ticks ∈ (saveAndBackup (loadBackupsList D w.dir).2
        (backupName e.now e.ticks) e.attempt).1.complete D := by
      rw [hsave]
      exact Finset.mem_insert_self _ _
    unfold Backup.check Turn.check
    dsimp only
    rw [hdue.1, if_pos rfl]
    dsimp only
    rw [if_pos hmax, if_pos hdue.2]
    generalize saveAndBackup (loadBackupsList D w.dir).2 (backupName e.now e.ticks) e.attempt = r
      at hmem
    obtain ⟨dir', cancelled⟩ := r
    cases cancelled with
    | true => exact hmem
    | false => exact mem_removeStale hmax _ hmem hnew

theorem timer_check (hmax : 0 < p.maxBackups)
    (hgoes : (Backup.check A D p e.check dir).goesOn = true) :
    e.readable = true ∧ (Backup.check A D p e.check dir).timer =
      some (if due p (loadBackupsList D dir).1 e.ticks = true then .reset
        else .remaining (remainingTime p (loadBackupsList D dir).1 e.ticks)) := by
  have hstale (dir' : Dir) (timer : TimerSetting) :
      (removeStale A p dir' (loadBackupsList D dir).1 e.ticks timer).timer = some timer := by
    unfold removeStale
    cases removeStaleBackups A p dir' (loadBackupsList D dir).1 e.ticks <;> rfl
  unfold Backup.check Turn.check at hgoes ⊢
  dsimp only at hgoes ⊢
  cases hreadable : e.readable with
  | false =>
    rw [hreadable] at hgoes
    simp at hgoes
  | true =>
    rw [hreadable] at hgoes
    simp only [if_true] at hgoes ⊢
    rw [if_pos hmax] at hgoes ⊢
    refine ⟨trivial, ?_⟩
    by_cases hdue : due p (loadBackupsList D dir).1 e.ticks = true
    · rw [if_pos hdue] at hgoes
      rw [if_pos hdue, if_pos hdue]
      generalize saveAndBackup (loadBackupsList D dir).2 (backupName e.now e.ticks) e.attempt = r
        at hgoes ⊢
      obtain ⟨dir', cancelled⟩ := r
      cases cancelled with
      | true => cases hgoes
      | false => exact hstale _ _
    · rw [if_neg hdue, if_neg hdue]
      exact hstale _ _

theorem due_of_tickInterval_le {backups : List (Nat × Name)}
    (h : ∀ last ∈ backups.getLast?, p.tickInterval ≤ totalTicks - last.1) :
    due p backups totalTicks = true := by
  have hpos := p.tickInterval_pos
  unfold due
  cases hlast : backups.getLast? with
  | none => rfl
  | some last =>
    have hle := h last hlast
    dsimp only
    rw [decide_eq_true_eq, Int.fdiv_eq_ediv_of_nonneg _ hpos.le, ← Int.add_one_le_iff,
      Int.le_ediv_iff_mul_le hpos]
    omega

/-- A backup that is not due: the timer is set to the time until it is, or to a minute. -/
theorem remainingTime_le (hnot : due p (loadBackupsList D dir).1 totalTicks ≠ true) {time : Int}
    (hbefore : Before D dir time) :
    totalTicks < time + p.tickInterval ∧
      totalTicks + TICKS_PER_SECOND * remainingTime p (loadBackupsList D dir).1 totalTicks <
        time + p.tickInterval + TICKS_PER_MINUTE := by
  cases hlast : (loadBackupsList D dir).1.getLast? with
  | none =>
    refine absurd (due_of_tickInterval_le ?_) hnot
    rw [hlast]
    nofun
  | some last =>
    have hle := hbefore last (List.mem_of_getLast? hlast)
    have helapsed : totalTicks - last.1 < p.tickInterval := by
      by_contra hlong
      refine hnot (due_of_tickInterval_le ?_)
      rw [hlast]
      rintro last' ⟨⟩
      exact not_lt.1 hlong
    unfold remainingTime MIN_INTERVAL TICKS_PER_MINUTE TICKS_PER_SECOND
    rw [hlast]
    dsimp only
    rw [Int.fdiv_eq_ediv_of_nonneg _ (by decide)]
    omega

theorem tickInterval_eq (p : BackupProperties) : TICKS_PER_SECOND * p.timeout = p.tickInterval := by
  have hpos := p.interval_pos
  unfold BackupProperties.timeout BackupProperties.tickInterval MIN_INTERVAL TICKS_PER_MINUTE
    TICKS_PER_SECOND
  omega

theorem endsAfter_check (hmax : 0 < p.maxBackups) :
    endsAfter p e.ticks (Backup.check A D p e.check w.dir) = some e.ticks ∨
    w.Due D p e ∧
      endsAfter p e.ticks (Backup.check A D p e.check w.dir) = some (e.ticks + p.tickInterval) ∨
    (e.readable = true ∧ due p (loadBackupsList D w.dir).1 e.ticks ≠ true) ∧
      endsAfter p e.ticks (Backup.check A D p e.check w.dir) =
        some (e.ticks + TICKS_PER_SECOND * remainingTime p (loadBackupsList D w.dir).1 e.ticks) := by
  unfold endsAfter
  by_cases hgoes : (Backup.check A D p e.check w.dir).goesOn = true
  · obtain ⟨hreadable, htimer⟩ := timer_check hmax hgoes
    rw [if_pos hgoes, htimer]
    by_cases hdue : due p (loadBackupsList D w.dir).1 e.ticks = true
    · refine .inr (.inl ⟨⟨hreadable, hdue⟩, ?_⟩)
      rw [if_pos hdue, ← tickInterval_eq]
      rfl
    · refine .inr (.inr ⟨⟨hreadable, hdue⟩, ?_⟩)
      rw [if_neg hdue]
      rfl
  · rw [if_neg hgoes]
    exact .inl rfl

/-! ### From check to check -/

theorem Before.mono {time time' : Int} (h : Before D dir time) (hle : time ≤ time')
    (hsub : dir'.complete D ⊆ dir.complete D) : Before D dir' time' := by
  rw [before_iff] at h ⊢
  intro name hname ticks hticks
  exact (h name (hsub hname) ticks hticks).trans hle

theorem Before.insert {now : DateTime} (h : Before D dir totalTicks) (hnonneg : 0 ≤ totalTicks)
    (hsub : dir'.complete D ⊆ insert (backupName now totalTicks) (dir.complete D)) :
    Before D dir' totalTicks := by
  rw [before_iff] at h ⊢
  intro name hname ticks hticks
  obtain rfl | hold := Finset.mem_insert.1 (hsub hname)
  · rw [backupTicks_backupName] at hticks
    cases hticks
    exact (Int.natAbs_of_nonneg hnonneg).le
  · exact h name hold ticks hticks

/-- **What a check does**: it makes the backup that is due, or misses it, or finds that none is. -/
theorem step_cases (hmax : 0 < p.maxBackups) (hstep : w.step A D p e = some w') :
    w'.played = e.ticks ∧
    (w'.made = some e.ticks ∧ w'.missed = 0 ∧
        w'.dir.complete D ⊆ insert (backupName e.now e.ticks) (w.dir.complete D) ∧
        (w'.ends = some e.ticks ∨ w'.ends = some (e.ticks + p.tickInterval)) ∨
      w'.made = w.made ∧ w'.dir.complete D ⊆ w.dir.complete D ∧
        (w'.missed = w.missed + 1 ∧
            (w'.ends = some e.ticks ∨ w'.ends = some (e.ticks + p.tickInterval)) ∨
          w'.missed = w.missed ∧ due p (loadBackupsList D w.dir).1 e.ticks ≠ true ∧
            (w'.ends = some e.ticks ∨ w'.ends = some
              (e.ticks + TICKS_PER_SECOND * remainingTime p (loadBackupsList D w.dir).1 e.ticks)))) := by
  have hcomplete := complete_check (A := A) (D := D) (e := e) (w := w) hmax
  have hafter := endsAfter_check (A := A) (D := D) (e := e) (w := w) hmax
  unfold Schedule.step at hstep
  cases hends : w.ends with
  | none =>
    rw [hends] at hstep
    cases hstep
  | some time =>
    rw [hends] at hstep
    cases hstep
    dsimp only
    refine ⟨rfl, ?_⟩
    by_cases hmakes : w.Makes A D p e
    · obtain ⟨hdue, hcreates⟩ := (makes_iff hmax).1 hmakes
      rw [if_pos ⟨hdue, hcreates⟩] at hcomplete
      rw [if_pos hmakes, if_pos hmakes]
      refine .inl ⟨rfl, rfl, hcomplete, ?_⟩
      obtain hnow | ⟨-, hlater⟩ | ⟨⟨-, hnot⟩, -⟩ := hafter
      · exact .inl hnow
      · exact .inr hlater
      · exact absurd hdue.2 hnot
    · rw [if_neg fun h => hmakes ((makes_iff hmax).2 h)] at hcomplete
      rw [if_neg hmakes, if_neg hmakes]
      refine .inr ⟨rfl, hcomplete, ?_⟩
      by_cases hmisses : e.readable = false ∨ w.Due D p e ∧ ¬ w.Makes A D p e
      · rw [if_pos hmisses]
        refine .inl ⟨rfl, ?_⟩
        obtain hnow | ⟨-, hlater⟩ | ⟨⟨hreadable, hnot⟩, -⟩ := hafter
        · exact .inl hnow
        · exact .inr hlater
        · obtain hunreadable | ⟨hdue, -⟩ := hmisses
          · exact absurd (hreadable.symm.trans hunreadable) (by decide)
          · exact absurd hdue.2 hnot
      · rw [if_neg hmisses]
        have hreadable : e.readable = true := by
          by_contra hunreadable
          exact hmisses (.inl (Bool.eq_false_iff.2 hunreadable))
        have hnot : due p (loadBackupsList D w.dir).1 e.ticks ≠ true := by
          intro hdue
          exact hmisses (.inr ⟨⟨hreadable, hdue⟩, hmakes⟩)
        refine .inr ⟨rfl, hnot, ?_⟩
        obtain hnow | ⟨hdue, -⟩ | ⟨-, hlater⟩ := hafter
        · exact .inl hnow
        · exact absurd hdue.2 hnot
        · exact .inr hlater

/-- **A check keeps the time**: the timer that it leaves ends in time for the next backup. -/
theorem OnTime.step (h : OnTime D p slack w) (hmax : 0 < p.maxBackups) (htimely : w.Timely slack e)
    (hstep : w.step A D p e = some w') : OnTime D p slack w' := by
  obtain ⟨time, hends, hmade⟩ := h.ends
  have hlate := htimely.2 time hends
  have hinterval := p.tickInterval_pos
  have hminute : (TICKS_PER_MINUTE : Int) = 1200 := rfl
  have hrecent : w.made.getD w.played ≤ e.ticks := by
    cases hw : w.made with
    | none => exact htimely.1
    | some made => exact (h.made made hw).trans htimely.1
  obtain ⟨hplayed, ⟨hw, hmissed, hdir, hends'⟩ | ⟨hw, hdir, hcases⟩⟩ := step_cases hmax hstep
  · constructor
    · rw [hplayed]
      exact h.played.trans htimely.1
    · rw [hw]
      exact (h.before.mono hrecent (Finset.Subset.refl _)).insert (h.played.trans htimely.1) hdir
    · rw [hw, hplayed]
      rintro made ⟨⟩
      exact le_rfl
    · rw [hw, hmissed]
      obtain hends' | hends' := hends'
      all_goals
        refine ⟨_, hends', ?_⟩
        rintro made ⟨⟩
        omega
  · constructor
    · rw [hplayed]
      exact h.played.trans htimely.1
    · rw [hw]
      refine h.before.mono ?_ hdir
      cases w.made with
      | none => exact hplayed ▸ htimely.1
      | some made => exact le_rfl
    · rw [hw, hplayed]
      exact fun made hmem => (h.made made hmem).trans htimely.1
    · rw [hw]
      obtain ⟨hmissed, hends'⟩ | ⟨hmissed, hnot, hends'⟩ := hcases
      · -- a missed check costs one interval and the slack
        have hmore : (w'.missed : Int) * (p.tickInterval + slack) =
            w.missed * (p.tickInterval + slack) + (p.tickInterval + slack) := by
          rw [hmissed, Int.natCast_add, Int.add_mul, Int.natCast_one, Int.one_mul]
        rw [hmore]
        obtain hends' | hends' := hends'
        all_goals
          refine ⟨_, hends', ?_⟩
          intro made hmem
          have := hmade made hmem
          omega
      · -- the backup that is not due is one after the last of the list
        have hmore : 0 ≤ (w.missed : Int) * (p.tickInterval + slack) :=
          Int.mul_nonneg (by omega) (by omega)
        rw [hmissed]
        obtain hends' | hends' := hends'
        all_goals
          refine ⟨_, hends', ?_⟩
          intro made hmem
          have hbefore := h.before
          rw [Option.mem_def.1 hmem, Option.getD_some] at hbefore
          obtain ⟨helapsed, hremaining⟩ := remainingTime_le hnot hbefore
          omega

end

end Schedule

end Silkjam.Backup
