import Mathlib.Data.Finset.Card
import Mathlib.Data.Char
import Mathlib.Data.List.DropRight
import Mathlib.Data.List.Lex
import Mathlib.Data.List.Sort
import Silkjam.Lib.Decimal

/-!
# The backup directory

The regular files of the backup directory, by name. A complete backup is one whose name ends in the
play time at which it was made and `.tar.gz`; `backupTicks` reads that play time as the regular
expression of the source does. A name built for a new backup is read back as its play time
(`backupTicks_backupName`).
-/

namespace Silkjam.Backup

open Decimal

abbrev Name := List Char

/-- The characters that `\d` matches, with the digits that `int` reads for them. -/
structure Decimals where
  value : Char → Option Nat
  digit : ∀ k < 10, value (Nat.digitChar k) = some k
  underscore : value '_' = none
  hyphen : value '-' = none

def Decimals.isDigit (D : Decimals) (c : Char) : Bool :=
  (D.value c).isSome

/-- `int(digits)` -/
def Decimals.toInt (D : Decimals) (digits : Name) : Nat :=
  digits.foldl (fun n c => 10 * n + (D.value c).getD 0) 0

/-- The ten digits of ASCII. -/
def asciiDecimals : Decimals where
  value c := if c.isDigit then some (c.toNat - '0'.toNat) else none
  digit := by decide
  underscore := by decide
  hyphen := by decide

def tarGz : Name := ['.', 't', 'a', 'r', '.', 'g', 'z']

def part : Name := ['.', 'p', 'a', 'r', 't']

/-- `BACKUP_REGEX.fullmatch(name)`, with the play time `int(m.group(1))`: the digits before
`.tar.gz` are as many as possible, since what comes before them is matched lazily. -/
def backupTicks (D : Decimals) (name : Name) : Option Nat :=
  if tarGz <:+ name then
    let stem := name.rdrop tarGz.length
    let digits := stem.rtakeWhile D.isDigit
    if digits = [] ∨ '\n' ∈ stem.rdropWhile D.isDigit then none else some (D.toInt digits)
  else none

/-- `PARTIAL_BACKUP_REGEX.fullmatch(name)` -/
def isPartial (D : Decimals) (name : Name) : Bool :=
  decide (part <:+ name) && (backupTicks D (name.rdrop part.length)).isSome

/-! ### Files -/

structure Dir where
  files : List Name
  nodup : files.Nodup

namespace Dir

def write (dir : Dir) (name : Name) : Dir where
  files := dir.files.insert name
  nodup := dir.nodup.insert

/-- `unlink(missing_ok=True)` -/
def unlink (dir : Dir) (name : Name) : Dir where
  files := dir.files.erase name
  nodup := dir.nodup.erase name

def unlinkAll (dir : Dir) (names : Finset Name) : Dir where
  files := dir.files.filter (· ∉ names)
  nodup := dir.nodup.filter _

/-- The complete backups. -/
def complete (D : Decimals) (dir : Dir) : Finset Name :=
  (dir.files.filter fun p => (backupTicks D p).isSome).toFinset

end Dir

/-- The order of pairs of play time and path. -/
def pairLe (a b : Nat × Name) : Prop :=
  a.1 < b.1 ∨ a.1 = b.1 ∧ a.2 ≤ b.2

instance (a b : Nat × Name) : Decidable (pairLe a b) :=
  inferInstanceAs (Decidable (_ ∨ _))

/-- The complete backups in order, and the directory without the partial ones. -/
def loadBackupsList (D : Decimals) (dir : Dir) : List (Nat × Name) × Dir :=
  ((dir.files.filterMap fun p => (backupTicks D p).map (·, p)).insertionSort pairLe,
    { files := dir.files.filter fun p => !isPartial D p
      nodup := dir.nodup.filter _ })

/-! ### New archives -/

structure DateTime where
  year : Nat
  month : Nat
  day : Nat
  hour : Nat
  minute : Nat
  second : Nat

def pad2 (n : Nat) : Name :=
  if n < 10 then '0' :: Nat.toDigits 10 n else Nat.toDigits 10 n

/-- `strftime(DATE_FMT)` -/
def DateTime.format (now : DateTime) : Name :=
  Nat.toDigits 10 now.year ++ '-' :: pad2 now.month ++ '-' :: pad2 now.day ++ '_' :: pad2 now.hour ++
    ':' :: pad2 now.minute ++ ':' :: pad2 now.second

def backupName (now : DateTime) (totalTicks : Int) : Name :=
  ['w', 'o', 'r', 'l', 'd', '_'] ++ now.format ++ '_' :: intStr totalTicks ++ tarGz

/-- How a step of a backup attempt ends. -/
inductive Ending where
  | completed
  | runtimeError
  /-- any other exception -/
  | raised
  | cancelled
  deriving DecidableEq

/-- How a run of tar ends, from its being started to its output being read. -/
inductive TarRun where
  | exited (returncode : Int) (stderr : Name)
  | raised
  | cancelled

/-- The retries that are left, the next of which is run `k` of tar. -/
def runTar (tar : Nat → TarRun) (k : Nat) : Nat → Ending
  | 0 => .runtimeError
  | retries + 1 =>
    match tar k with
    | .exited returncode stderr =>
      if returncode ≠ 0 then .runtimeError
      else if 0 < stderr.length then runTar tar (k + 1) retries
      else .completed
    | .raised => .raised
    | .cancelled => .cancelled

def createWorldArchive (dir : Dir) (name : Name) (tar : Nat → TarRun) (maxRetries : Nat := 3) :
    Dir × Ending :=
  let tmp := name ++ part
  let dir := dir.write tmp
  match runTar tar 0 maxRetries with
  | .completed => ((dir.unlink tmp).write name, .completed)
  | err => (dir.unlink tmp, err)

/-! ### Names -/

section
variable {D : Decimals} {dir : Dir} {name p : Name}

theorem backupTicks_part (D : Decimals) (name : Name) : backupTicks D (name ++ part) = none := by
  unfold backupTicks
  rw [if_neg]
  intro hsuffix
  have hlast := hsuffix.getLast (by decide)
  simp [part, tarGz] at hlast

theorem toDigits_isDigit (D : Decimals) (n : Nat) : ∀ c ∈ Nat.toDigits 10 n, D.isDigit c := by
  have hdigit (k : Nat) (hk : k < 10) : D.isDigit (Nat.digitChar k) := by
    unfold Decimals.isDigit
    rw [D.digit k hk]
    rfl
  induction n using Nat.strong_induction_on with
  | _ n ih =>
    rw [Nat.toDigits_eq_if (by decide)]
    split
    · next hn =>
      intro c hc
      rw [List.mem_singleton.1 hc]
      exact hdigit n hn
    · next hn =>
      intro c hc
      rcases List.mem_append.1 hc with hc | hc
      · exact ih (n / 10) (by omega) c hc
      · rw [List.mem_singleton.1 hc]
        exact hdigit (n % 10) (by omega)

theorem toInt_toDigits (D : Decimals) (n : Nat) : D.toInt (Nat.toDigits 10 n) = n := by
  induction n using Nat.strong_induction_on with
  | _ n ih =>
    rw [Nat.toDigits_eq_if (by decide)]
    split
    · next hn => simp [Decimals.toInt, D.digit n hn]
    · next hn =>
      have hdiv := ih (n / 10) (by omega)
      unfold Decimals.toInt at hdiv ⊢
      rw [List.foldl_append, hdiv]
      simp only [List.foldl_cons, List.foldl_nil, D.digit (n % 10) (by omega), Option.getD_some]
      omega

theorem newline_notMem_toDigits (n : Nat) : '\n' ∉ Nat.toDigits 10 n := by
  intro hmem
  have hdigit := Nat.isDigit_of_mem_toDigits (by decide) (by decide) hmem
  simp at hdigit

theorem newline_notMem_format (now : DateTime) : '\n' ∉ now.format := by
  have hpad (n : Nat) : '\n' ∉ pad2 n := by
    unfold pad2
    split
    · simp [newline_notMem_toDigits]
    · exact newline_notMem_toDigits n
  simp [DateTime.format, hpad, newline_notMem_toDigits]

theorem backupTicks_of_digits (stem : Name) {digits : Name} {c : Char} (hdigits : ∀ c ∈ digits, D.isDigit c)
    (hne : digits ≠ []) (hc : D.isDigit c = false) (hstem : '\n' ∉ stem ++ [c]) :
    backupTicks D (stem ++ [c] ++ digits ++ tarGz) = some (D.toInt digits) := by
  have hdrop : (stem ++ [c] ++ digits ++ tarGz).rdrop tarGz.length = stem ++ [c] ++ digits := by
    unfold List.rdrop
    rw [List.length_append, Nat.add_sub_cancel]
    exact List.take_left
  have hrev : ∀ x ∈ digits.reverse, D.isDigit x = true := fun x hx => hdigits x (List.mem_reverse.1 hx)
  have htake : (stem ++ [c] ++ digits).rtakeWhile D.isDigit = digits := by
    unfold List.rtakeWhile
    rw [List.reverse_append, List.takeWhile_append_of_pos hrev, List.reverse_concat,
      List.takeWhile_cons_of_neg (by simp [hc])]
    simp
  have hrest : (stem ++ [c] ++ digits).rdropWhile D.isDigit = stem ++ [c] := by
    unfold List.rdropWhile
    rw [List.reverse_append, List.dropWhile_append_of_pos hrev, List.reverse_concat,
      List.dropWhile_cons_of_neg (by simp [hc])]
    simp
  unfold backupTicks
  rw [if_pos (List.suffix_append _ _)]
  dsimp only
  rw [hdrop, htake, hrest, if_neg (by simp [hne, hstem])]

theorem backupTicks_backupName (D : Decimals) (now : DateTime) (totalTicks : Int) :
    backupTicks D (backupName now totalTicks) = some totalTicks.natAbs := by
  have hdigits := toDigits_isDigit D totalTicks.natAbs
  have hnl := newline_notMem_format now
  have hnotDigit (c : Char) (h : D.value c = none) : D.isDigit c = false := by
    unfold Decimals.isDigit
    rw [h]
    rfl
  unfold backupName intStr
  split
  · have h := backupTicks_of_digits (['w', 'o', 'r', 'l', 'd', '_'] ++ now.format ++ ['_'])
      hdigits Nat.toDigits_ne_nil (hnotDigit '-' D.hyphen) (by simp [hnl])
    rw [toInt_toDigits] at h
    simpa using h
  · have h := backupTicks_of_digits (['w', 'o', 'r', 'l', 'd', '_'] ++ now.format)
      hdigits Nat.toDigits_ne_nil (hnotDigit '_' D.underscore) (by simp [hnl])
    rw [toInt_toDigits] at h
    simpa using h

/-! ### Complete backups -/

theorem mem_complete : p ∈ dir.complete D ↔ p ∈ dir.files ∧ (backupTicks D p).isSome := by
  unfold Dir.complete
  rw [List.mem_toFinset, List.mem_filter]

theorem complete_write_of_some (h : (backupTicks D name).isSome) :
    (dir.write name).complete D = insert name (dir.complete D) := by
  ext p
  rw [mem_complete, Finset.mem_insert, mem_complete, Dir.write, List.mem_insert_iff]
  constructor
  · rintro ⟨hp | hp, hs⟩
    · exact .inl hp
    · exact .inr ⟨hp, hs⟩
  · rintro (rfl | ⟨hp, hs⟩)
    · exact ⟨.inl rfl, h⟩
    · exact ⟨.inr hp, hs⟩

theorem complete_write_of_none (h : backupTicks D name = none) :
    (dir.write name).complete D = dir.complete D := by
  ext p
  rw [mem_complete, mem_complete, Dir.write, List.mem_insert_iff]
  constructor
  · rintro ⟨rfl | hp, hs⟩
    · rw [h] at hs
      cases hs
    · exact ⟨hp, hs⟩
  · rintro ⟨hp, hs⟩
    exact ⟨.inr hp, hs⟩

theorem complete_unlink_of_none (h : backupTicks D name = none) :
    (dir.unlink name).complete D = dir.complete D := by
  ext p
  rw [mem_complete, mem_complete, Dir.unlink, dir.nodup.mem_erase_iff]
  constructor
  · rintro ⟨⟨-, hp⟩, hs⟩
    exact ⟨hp, hs⟩
  · rintro ⟨hp, hs⟩
    refine ⟨⟨?_, hp⟩, hs⟩
    rintro rfl
    rw [h] at hs
    cases hs

theorem complete_unlinkAll (names : Finset Name) :
    (dir.unlinkAll names).complete D = dir.complete D \ names := by
  ext p
  rw [mem_complete, Finset.mem_sdiff, mem_complete, Dir.unlinkAll, List.mem_filter,
    decide_eq_true_eq]
  tauto

theorem complete_loadBackupsList : (loadBackupsList D dir).2.complete D = dir.complete D := by
  ext p
  rw [mem_complete, mem_complete, loadBackupsList, List.mem_filter]
  constructor
  · rintro ⟨⟨hp, -⟩, hs⟩
    exact ⟨hp, hs⟩
  · rintro ⟨hp, hs⟩
    refine ⟨⟨hp, ?_⟩, hs⟩
    -- a complete backup does not end in `.part`
    rw [Bool.not_eq_true', isPartial, Bool.and_eq_false_iff, decide_eq_false_iff_not]
    refine .inl ?_
    rintro ⟨stem, rfl⟩
    rw [backupTicks_part] at hs
    cases hs

theorem mem_loadBackupsList {ts : Nat} :
    (ts, p) ∈ (loadBackupsList D dir).1 ↔ p ∈ dir.files ∧ backupTicks D p = some ts := by
  unfold loadBackupsList
  rw [(List.perm_insertionSort ..).mem_iff, List.mem_filterMap]
  constructor
  · rintro ⟨q, hq, hmap⟩
    obtain ⟨ts', hts, heq⟩ := Option.map_eq_some_iff.1 hmap
    cases heq
    exact ⟨hq, hts⟩
  · rintro ⟨hp, hts⟩
    exact ⟨p, hp, by rw [hts]; rfl⟩

theorem nodup_loadBackupsList : (loadBackupsList D dir).1.Nodup := by
  unfold loadBackupsList
  rw [(List.perm_insertionSort ..).nodup_iff]
  apply dir.nodup.filterMap
  intro p q b hp hq
  obtain ⟨ts, -, rfl⟩ := Option.map_eq_some_iff.1 hp
  obtain ⟨ts', -, heq⟩ := Option.map_eq_some_iff.1 hq
  exact (Prod.ext_iff.1 heq).2.symm

/-- The list names every complete backup, each once. -/
theorem image_loadBackupsList :
    (loadBackupsList D dir).1.toFinset.image Prod.snd = dir.complete D := by
  ext p
  rw [Finset.mem_image, mem_complete]
  constructor
  · rintro ⟨⟨ts, q⟩, hmem, rfl⟩
    obtain ⟨hq, hts⟩ := mem_loadBackupsList.1 (List.mem_toFinset.1 hmem)
    exact ⟨hq, by rw [hts]; rfl⟩
  · rintro ⟨hp, hs⟩
    obtain ⟨ts, hts⟩ := Option.isSome_iff_exists.1 hs
    exact ⟨(ts, p), List.mem_toFinset.2 (mem_loadBackupsList.2 ⟨hp, hts⟩), rfl⟩

theorem snd_injOn_loadBackupsList {a b : Nat × Name} (ha : a ∈ (loadBackupsList D dir).1)
    (hb : b ∈ (loadBackupsList D dir).1) (h : a.2 = b.2) : a = b := by
  have hta := (mem_loadBackupsList.1 ha).2
  have htb := (mem_loadBackupsList.1 hb).2
  rw [h, htb] at hta
  exact Prod.ext (Option.some.inj hta).symm h

theorem length_loadBackupsList :
    (loadBackupsList D dir).1.length = (dir.complete D).card := by
  rw [← image_loadBackupsList, Finset.card_image_of_injOn, List.toFinset_card_of_nodup
    nodup_loadBackupsList]
  intro a ha b hb h
  exact snd_injOn_loadBackupsList (List.mem_toFinset.1 ha) (List.mem_toFinset.1 hb) h

theorem sorted_loadBackupsList : (loadBackupsList D dir).1.Pairwise pairLe := by
  have htotal : Std.Total pairLe := by
    refine ⟨?_⟩
    intro a b
    unfold pairLe
    rcases Nat.lt_trichotomy a.1 b.1 with h | h | h
    · exact .inl (.inl h)
    · exact (le_total a.2 b.2).imp (fun h' => .inr ⟨h, h'⟩) fun h' => .inr ⟨h.symm, h'⟩
    · exact .inr (.inl h)
  have htrans : IsTrans (Nat × Name) pairLe := by
    refine ⟨?_⟩
    intro a b c hab hbc
    unfold pairLe at hab hbc ⊢
    rcases hab with hab | ⟨hab, hab'⟩ <;> rcases hbc with hbc | ⟨hbc, hbc'⟩
    · exact .inl (hab.trans hbc)
    · exact .inl (hbc ▸ hab)
    · exact .inl (hab ▸ hbc)
    · exact .inr ⟨hab.trans hbc, hab'.trans hbc'⟩
  exact List.pairwise_insertionSort _ _

theorem le_getLast {last : Nat × Name} (hlast : (loadBackupsList D dir).1.getLast? = some last) :
    ∀ b ∈ (loadBackupsList D dir).1, b.1 ≤ last.1 := by
  have hsorted := @sorted_loadBackupsList D dir
  obtain ⟨init, hinit⟩ := List.getLast?_eq_some_iff.1 hlast
  rw [hinit] at hsorted ⊢
  intro b hb
  rcases List.mem_append.1 hb with hb | hb
  · have hle := (List.pairwise_append.1 hsorted).2.2 b hb last (by simp)
    unfold pairLe at hle
    omega
  · rw [List.mem_singleton.1 hb]

variable (dir) in
/-- An attempt adds its archive, if it is completed, and changes no other backup. -/
theorem complete_createWorldArchive (tar : Nat → TarRun) (maxRetries : Nat)
    (hname : (backupTicks D name).isSome) :
    (createWorldArchive dir name tar maxRetries).1.complete D =
      if runTar tar 0 maxRetries = .completed then insert name (dir.complete D)
      else dir.complete D := by
  have hpart := backupTicks_part D name
  have htmp : ((dir.write (name ++ part)).unlink (name ++ part)).complete D = dir.complete D := by
    rw [complete_unlink_of_none hpart, complete_write_of_none hpart]
  unfold createWorldArchive
  dsimp only
  split
  · next h => rw [if_pos h, complete_write_of_some hname, htmp]
  · next h => rw [if_neg h, htmp]

end

end Silkjam.Backup
