import Silkjam.Backup.Manager

/-!
# Autosave during a backup

`save_and_backup` turns the autosave of the server off, saves and archives the world inside the
block of `autosave_off`, and turns autosave on again after the block. The last step comes after a
`yield` without a `finally`, so an exception in the block skips it, and autosave stays off
(`autosave_left_off`). An attempt leaves the setting as it was just when it was off, was never
turned off, or the block ends without an exception and `save-on` is run (`autosave_restored`).
-/

namespace Silkjam.Backup.Autosave

/-- What the response to `save-off` contains. -/
inductive Reply where
  /-- "Automatic saving is now disabled" -/
  | nowDisabled
  /-- "Saving is already turned off" -/
  | alreadyOff
  | other
  deriving DecidableEq

inductive SaveOff where
  /-- the server runs the command and says what it did -/
  | answered
  /-- the server gives some other response, and `ran` the command or not -/
  | other (ran : Bool)
  /-- an exception, before or after the server `ran` the command -/
  | raised (ran : Bool)
  | cancelled (ran : Bool)
  deriving DecidableEq

/-- How awaiting the response to `save-all` ends; `success` says that it contains
"Saved the game". -/
inductive SaveAll where
  | answered (success : Bool)
  | raised
  | cancelled
  deriving DecidableEq

/-- How the awaits of one `save_and_backup` end, each if it is come to; a `runtimeError` of an await
other than the archive is one of the exceptions that it may raise. -/
structure Awaits where
  /-- entering the client -/
  connect : Ending
  saveOff : SaveOff
  /-- `say Backing up world` -/
  announce : Ending
  saveAll : SaveAll
  archive : Ending
  /-- `say` of the result -/
  report : Ending
  /-- `save-on`, and whether the server ran it -/
  saveOn : Ending
  saveOnRan : Bool
  /-- leaving the client -/
  disconnect : Ending

/-- `save-off` on a server whose autosave setting is `autosave`: what it answers, and the setting
afterwards. -/
def serverSaveOff (autosave : Bool) : Reply × Bool :=
  (if autosave then .nowDisabled else .alreadyOff, false)

namespace Awaits

def commandSaveOff (w : Awaits) (autosave : Bool) : Except Ending Reply × Bool :=
  match w.saveOff with
  | .answered => ((serverSaveOff autosave).map .ok id)
  | .other ran => (.ok .other, if ran then (serverSaveOff autosave).2 else autosave)
  | .raised ran => (.error .raised, if ran then (serverSaveOff autosave).2 else autosave)
  | .cancelled ran => (.error .cancelled, if ran then (serverSaveOff autosave).2 else autosave)

/-- The block of `save_and_backup`, with autosave off. -/
def block (w : Awaits) : Ending :=
  match w.announce with
  | .completed =>
    match w.saveAll with
    | .answered false => .runtimeError
    | .answered true =>
      match w.archive with
      | .completed | .runtimeError => w.report
      | err => err
    | .raised => .raised
    | .cancelled => .cancelled
  | err => err

def autosaveOff (w : Awaits) (autosave : Bool) : Ending × Bool :=
  match w.commandSaveOff autosave with
  | (.error err, autosave) => (err, autosave)
  | (.ok .other, autosave) => (.runtimeError, autosave)
  | (.ok reply, autosave) =>
    let prevAutosaveOn := decide (reply = .nowDisabled)
    match w.block with
    | .completed =>
      if prevAutosaveOn then (w.saveOn, w.saveOnRan || autosave) else (.completed, autosave)
    -- the exception is raised at the `yield`
    | err => (err, autosave)

/-- `autosave_off` without a client, which it makes. -/
def withClient (w : Awaits) (autosave : Bool) : Ending × Bool :=
  match w.connect with
  | .completed =>
    let (err, autosave) := w.autosaveOff autosave
    (if w.disconnect = .completed then err else w.disconnect, autosave)
  | err => (err, autosave)

/-- `save_and_backup`; the flag says that it was cancelled. -/
def saveAndBackup (w : Awaits) (autosave : Bool) : Bool × Bool :=
  (decide ((w.withClient autosave).1 = .cancelled), (w.withClient autosave).2)

/-- The server runs `save-off`, if the attempt gets that far. -/
def TurnsOff (w : Awaits) : Prop :=
  w.connect = .completed ∧ ¬ (w.saveOff = .other false ∨ w.saveOff = .raised false ∨
    w.saveOff = .cancelled false)

def BlockEnds (w : Awaits) : Prop :=
  w.announce = .completed ∧ w.saveAll = .answered true ∧
    (w.archive = .completed ∨ w.archive = .runtimeError) ∧ w.report = .completed

/-- Autosave was off, or is not turned off, or is turned off and on again. -/
def Restores (w : Awaits) (autosave : Bool) : Prop :=
  autosave = false ∨ ¬ w.TurnsOff ∨ w.saveOff = .answered ∧ w.BlockEnds ∧ w.saveOnRan = true

theorem block_completed_iff (w : Awaits) : w.block = .completed ↔ w.BlockEnds := by
  unfold block BlockEnds
  cases w.announce with
  | completed =>
    cases w.saveAll with
    | answered success =>
      cases success with
      | false => simp
      | true => cases w.archive <;> simp
    | raised | cancelled => simp
  | runtimeError | raised | cancelled => simp

theorem autosaveOff_setting (w : Awaits) (autosave : Bool) :
    (w.autosaveOff autosave).2 = autosave ↔
      autosave = false ∨ (w.saveOff = .other false ∨ w.saveOff = .raised false ∨
        w.saveOff = .cancelled false) ∨
      w.saveOff = .answered ∧ w.BlockEnds ∧ w.saveOnRan = true := by
  rw [← block_completed_iff]
  unfold autosaveOff commandSaveOff serverSaveOff
  cases w.saveOff with
  | answered =>
    cases autosave with
    | false => cases w.block <;> simp
    | true => cases w.block <;> simp
  | other ran | raised ran | cancelled ran => cases ran <;> cases autosave <;> simp

/-- **One attempt** leaves the setting as it was just when it restores it. -/
theorem saveAndBackup_setting (w : Awaits) (autosave : Bool) :
    (w.saveAndBackup autosave).2 = autosave ↔ w.Restores autosave := by
  unfold saveAndBackup Restores TurnsOff
  by_cases hconnect : w.connect = .completed
  · have hclient : (w.withClient autosave).2 = (w.autosaveOff autosave).2 := by
      unfold withClient
      rw [hconnect]
    rw [hclient, autosaveOff_setting]
    simp only [hconnect, true_and, not_not]
  · have hclient : (w.withClient autosave).2 = autosave := by
      unfold withClient
      split
      · next h => exact absurd h hconnect
      · rfl
    simp [hclient, hconnect]

end Awaits

def settingAfter (attempts : List Awaits) (autosave : Bool) (n : Nat) : Bool :=
  (attempts.take n).foldl (fun autosave w => (w.saveAndBackup autosave).2) autosave

theorem settingAfter_succ {attempts : List Awaits} {n : Nat} {w : Awaits} (autosave : Bool)
    (h : attempts[n]? = some w) :
    settingAfter attempts autosave (n + 1) =
      (w.saveAndBackup (settingAfter attempts autosave n)).2 := by
  unfold settingAfter
  rw [List.take_add_one, h, List.foldl_append]
  rfl

/-- **Autosave is left as it was** by each of a sequence of attempts just when each of them, with
the setting it finds, restores it. In particular autosave is on throughout, if it was on at first,
just when each attempt restores it from on. -/
theorem autosave_restored (attempts : List Awaits) (autosave : Bool) :
    ((∀ n w, attempts[n]? = some w →
        settingAfter attempts autosave (n + 1) = settingAfter attempts autosave n) ↔
      ∀ n (w : Awaits), attempts[n]? = some w → w.Restores (settingAfter attempts autosave n)) ∧
    ((∀ n ≤ attempts.length, settingAfter attempts true n = true) ↔
      ∀ w ∈ attempts, Awaits.Restores w true) := by
  constructor
  · apply forall₃_congr
    intro n w hw
    rw [settingAfter_succ autosave hw]
    exact w.saveAndBackup_setting _
  constructor
  · intro hon w hw
    obtain ⟨n, hn, rfl⟩ := List.mem_iff_getElem.1 hw
    have hsucc := settingAfter_succ true (List.getElem?_eq_getElem hn)
    rw [hon n hn.le, hon (n + 1) hn] at hsucc
    exact (Awaits.saveAndBackup_setting _ true).1 hsucc.symm
  · intro hrestores n
    induction n with
    | zero => exact fun _ => rfl
    | succ n ih =>
      intro hn
      rw [settingAfter_succ true (List.getElem?_eq_getElem hn), ih (by omega)]
      exact (Awaits.saveAndBackup_setting _ true).2 (hrestores _ (List.getElem_mem hn))

/-- An attempt in which every await ends as it should, but for what the server says to
`save-all`. -/
def saveAllFails : Awaits where
  connect := .completed
  saveOff := .answered
  announce := .completed
  saveAll := .answered false
  archive := .completed
  report := .completed
  saveOn := .completed
  saveOnRan := true
  disconnect := .completed

/-- The server answers every command, and `save-all` without success: autosave stays off, also after
the next attempt, which meets no failure. -/
theorem autosave_left_off :
    settingAfter [saveAllFails] true 1 = false ∧
      settingAfter [saveAllFails, { saveAllFails with saveAll := .answered true }] true 2 = false := by
  decide

/-! ### The attempt of the backup manager -/

namespace Awaits

def before (w : Awaits) : Ending :=
  match w.connect with
  | .completed =>
    match w.saveOff with
    | .answered =>
      match w.announce with
      | .completed =>
        match w.saveAll with
        | .answered success => if success then .completed else .runtimeError
        | .raised => .raised
        | .cancelled => .cancelled
      | err => err
    | .other _ => .runtimeError
    | .raised _ => .raised
    | .cancelled _ => .cancelled
  | err => err

/-- The attempt after the archive, if it did not raise or raised `RuntimeError`. -/
def after (w : Awaits) (autosave : Bool) : Ending :=
  match w.archive with
  | .completed | .runtimeError =>
    match w.report with
    | .completed => if autosave then w.saveOn else .completed
    | err => err
  | _ => .completed

/-- The attempt as the backup manager sees it, when the client closes its connection. -/
def attempt (w : Awaits) (autosave : Bool) (tar : Nat → TarRun) : Attempt where
  before := w.before
  tar := tar
  after := w.after autosave

theorem withClient_ending (w : Awaits) (autosave : Bool) (hdisconnect : w.disconnect = .completed) :
    (w.withClient autosave).1 =
      if w.before ≠ .completed then w.before
      else if w.archive = .completed ∨ w.archive = .runtimeError then w.after autosave
      else w.archive := by
  unfold withClient before
  cases w.connect with
  | completed =>
    dsimp only
    rw [hdisconnect, if_pos rfl]
    unfold autosaveOff commandSaveOff serverSaveOff
    cases w.saveOff with
    | answered =>
      dsimp only
      unfold block after
      cases w.announce with
      | completed =>
        dsimp only
        cases w.saveAll with
        | answered success =>
          cases success with
          | false => cases autosave <;> rfl
          | true =>
            dsimp only
            cases w.archive <;> cases w.report <;> cases autosave <;> rfl
        | raised => cases autosave <;> rfl
        | cancelled => cases autosave <;> rfl
      | runtimeError | raised | cancelled => cases autosave <;> rfl
    | other ran => rfl
    | raised ran => rfl
    | cancelled ran => rfl
  | runtimeError => rfl
  | raised => rfl
  | cancelled => rfl

/-- The backup manager is cancelled in the same attempts. -/
theorem saveAndBackup_attempt (w : Awaits) (autosave : Bool) {tar : Nat → TarRun}
    (harchive : w.archive = runTar tar 0 3) (hdisconnect : w.disconnect = .completed) (dir : Dir)
    (name : Name) :
    (Backup.saveAndBackup dir name (w.attempt autosave tar)).2 = (w.saveAndBackup autosave).1 := by
  have hending : (createWorldArchive dir name tar).2 = w.archive := by
    rw [harchive]
    unfold createWorldArchive
    dsimp only
    split
    · next h => exact h.symm
    · rfl
  unfold Backup.saveAndBackup attempt saveAndBackup
  rw [w.withClient_ending autosave hdisconnect]
  dsimp only
  generalize createWorldArchive dir name tar = r at hending
  obtain ⟨dir', e⟩ := r
  dsimp only at hending
  subst hending
  cases w.before with
  | completed =>
    unfold after
    cases w.archive <;> simp
  | runtimeError | raised | cancelled => simp

end Awaits

end Silkjam.Backup.Autosave
