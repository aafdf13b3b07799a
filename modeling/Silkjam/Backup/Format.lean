import Silkjam.Backup.Strategies
import Silkjam.Lib.Slice

/-!
# Bins and the base

`format_backups` writes how many backups there are of each age, in bins of `base ** j` cells, as
`get_stale_backups` counts them. Cutoff, bins and cells are computed from `base`, but the number of
the bin always from the logarithm to base 2. The two agree with base 2, where nothing is indexed
outside its bin; with another base they agree for the age 1, and with base 3 for the age 3 as well,
and for no other age (`base_honoured_iff`).
-/

namespace Silkjam.Backup

open Slice

/-- What `format_backups` raises. -/
inductive FormatError where
  /-- from the floating point numbers -/
  | arithmetic
  | index
  /-- from `int("*")` -/
  | value
  deriving DecidableEq

/-- The next character of a cell: `_`, then the digits from 1 on, then `*`. -/
def nextMark (c : Char) : Except FormatError Char :=
  if c = '_' then .ok '1'
  else if c = '9' then .ok '*'
  else if c.isDigit then .ok (Nat.digitChar (c.toNat - '0'.toNat + 1))
  else .error .value

section
variable {T : Type} (A : Arith) (t d : Int) (base : Nat) (key : T → Int)

/-- The bin `j` of a backup, and `k = i - base ** j`. -/
def cell (backup : T) : Option (Nat × Int) := do
  let x ← A.toNearest (t - timestamp t key backup) d
  let j ← A.floorLog (x.fdiv d)
  return (j, x.fdiv d - (base : Int) ^ j)

/-- One turn of the loop of `format_backups`, over the bins and `num_out_of_bounds`. -/
def markBackup (bins : List (List Char) × Nat) (backup : T) :
    Except FormatError (List (List Char) × Nat) :=
  match cell A t d base key backup with
  | none => .error .arithmetic
  | some (j, k) =>
    match bins.1[j]? with
    | none => .ok (bins.1, bins.2 + 1)
    | some bin =>
      match index? bin k with
      | none => .error .index
      | some c => do
        let c ← nextMark c
        return (bins.1.set j (slice bin 0 k ++ [c] ++ sliceFrom bin (k + 1)), bins.2)

/-- `["_" * (base**i) for i in range(n)]` -/
def emptyBins (n : Nat) : List (List Char) :=
  (List.range n).map fun i => List.replicate (base ^ i) '_'

/-- The text of the bins. -/
def renderBins (bins : List (List Char) × Nat) : List Char :=
  ['['] ++ List.intercalate ['|'] bins.1 ++
    (if bins.2 = 0 then ['|', '.', '.', '.', '_', ']']
    else if bins.2 ≤ 9 then ['|', '.', '.', '.'] ++ Nat.toDigits 10 bins.2 ++ [']']
    else ['|', '.', '.', '.', '*', ']'])

def formatBackups (backups : List T) (t : Int) (n : Nat) (d : Int) (base : Nat) (key : T → Int) :
    Except FormatError (List Char) := do
  let bins ← backups.foldlM (markBackup A t d base key) (emptyBins base n, 0)
  return renderBins bins

end

/-! ### Bins that keep their widths -/

section
variable {T : Type} {A : Arith} {t d : Int} {n base : Nat} {key : T → Int} {j : Nat} {k : Int}

/-- `n` bins, of `base ** i` cells each. -/
def Widths (base n : Nat) (bins : List (List Char)) : Prop :=
  bins.map List.length = (List.range n).map (base ^ ·)

theorem widths_emptyBins (base n : Nat) : Widths base n (emptyBins base n) := by
  unfold Widths emptyBins
  rw [List.map_map]
  apply List.map_congr_left
  intro i _
  exact List.length_replicate

theorem Widths.length_eq {bins : List (List Char)} (h : Widths base n bins) : bins.length = n := by
  simpa using congrArg List.length h

theorem Widths.length_getElem {bins : List (List Char)} (h : Widths base n bins) {bin : List Char}
    (hj : bins[j]? = some bin) : bin.length = base ^ j := by
  have hlt : j < n := h.length_eq ▸ (List.getElem?_eq_some_iff.1 hj).1
  have hmap : (bins.map List.length)[j]? = some bin.length := by
    rw [List.getElem?_map, hj, Option.map_some]
  rw [h, List.getElem?_map, List.getElem?_range hlt, Option.map_some, Option.some_inj] at hmap
  exact hmap.symm

theorem nextMark_ne_index (c : Char) : nextMark c ≠ .error .index := by
  unfold nextMark
  split_ifs <;> nofun

theorem Widths.set {bins : List (List Char)} (h : Widths base n bins) {bin bin' : List Char}
    (hj : bins[j]? = some bin) (hlen : bin'.length = bin.length) :
    Widths base n (bins.set j bin') := by
  obtain ⟨hlt, rfl⟩ := List.getElem?_eq_some_iff.1 hj
  unfold Widths
  rw [List.map_set, hlen, ← List.getElem_map List.length, List.set_getElem_self]
  · exact h
  · rwa [List.length_map]

theorem markBackup_spec {bins : List (List Char) × Nat} {b : T} (h : Widths base n bins.1)
    (hcell : ∀ j k, cell A t d base key b = some (j, k) → j < n → 0 ≤ k ∧ k < (base : Int) ^ j) :
    markBackup A t d base key bins b ≠ .error .index ∧
      ∀ bins', markBackup A t d base key bins b = .ok bins' → Widths base n bins'.1 := by
  unfold markBackup
  split
  · exact ⟨nofun, nofun⟩
  · next j k hc =>
    split
    · refine ⟨nofun, ?_⟩
      intro bins' heq
      cases heq
      exact h
    · next bin hj =>
      have hlt : j < n := h.length_eq ▸ (List.getElem?_eq_some_iff.1 hj).1
      obtain ⟨hlow, hhigh⟩ := hcell j k hc hlt
      obtain ⟨k, rfl⟩ := Int.eq_ofNat_of_zero_le hlow
      have hk : k < bin.length := by
        rw [h.length_getElem hj]
        exact_mod_cast hhigh
      rw [index?_natCast, List.getElem?_eq_getElem hk]
      dsimp only
      cases hmark : nextMark bin[k] with
      | error e =>
        refine ⟨?_, nofun⟩
        intro heq
        cases heq
        exact nextMark_ne_index _ hmark
      | ok c =>
        refine ⟨nofun, ?_⟩
        intro bins' heq
        cases heq
        exact h.set hj (length_slice_replace hk c)

/-- If all cells are in their bins, nothing is indexed outside. -/
theorem foldlM_markBackup_ne_index (backups : List T) {bins : List (List Char) × Nat}
    (h : Widths base n bins.1)
    (hcell : ∀ b ∈ backups, ∀ j k, cell A t d base key b = some (j, k) → j < n →
      0 ≤ k ∧ k < (base : Int) ^ j) :
    backups.foldlM (markBackup A t d base key) bins ≠ .error .index := by
  induction backups generalizing bins with
  | nil => nofun
  | cons b backups ih =>
    obtain ⟨hne, hok⟩ := markBackup_spec h (hcell b (by simp))
    rw [List.foldlM_cons]
    cases hmark : markBackup A t d base key bins b with
    | error e =>
      intro heq
      cases heq
      exact hne hmark
    | ok bins' => exact ih (hok bins' hmark) fun x hx => hcell x (by simp [hx])

theorem formatBackups_ne_index {backups : List T}
    (hcell : ∀ b ∈ backups, ∀ j k, cell A t d base key b = some (j, k) → j < n →
      0 ≤ k ∧ k < (base : Int) ^ j) :
    formatBackups A backups t n d base key ≠ .error .index := by
  have hempty : Widths base n (emptyBins base n, 0).1 := widths_emptyBins base n
  have hfold := foldlM_markBackup_ne_index backups hempty hcell
  unfold formatBackups
  cases hrun : backups.foldlM (markBackup A t d base key) (emptyBins base n, 0) with
  | error e =>
    intro heq
    cases heq
    exact hfold hrun
  | ok bins => nofun

end

/-! ### Where the base is honoured -/

section
variable {T : Type} [DecidableEq T] {t d : Int} {n base : Nat} {key : T → Int}

/-- The two functions on a list of backups, with exact arithmetic: each backup in the window is in
the bin of its age, and nothing is indexed outside the bins or outside the width of one. -/
structure BaseHonoured (backups : List T) (t : Int) (n : Nat) (d : Int) (base : Nat)
    (key : T → Int) : Prop where
  binned : ∀ b ∈ backups, t - timestamp t key b < ((base : Int) ^ n - 1) * d →
    ∃ j < n, binIndex .exact t d key b = some j ∧
      (base : Int) ^ j ≤ age t d key b ∧ age t d key b < (base : Int) ^ (j + 1)
  stale : ∃ stale, getStaleBackups .exact backups t n d base key = some stale
  cells : ∀ b ∈ backups, ∀ j k, cell .exact t d base key b = some (j, k) → j < n →
    0 ≤ k ∧ k < (base : Int) ^ j
  format : formatBackups .exact backups t n d base key ≠ .error .index

/-- The ages that are in the right bin. -/
def AgeHonoured (base : Nat) (age : Int) : Prop :=
  base = 2 ∨ age = 1 ∨ base = 3 ∧ age = 3

theorem two_pow_succ_lt {j : Nat} (hj : 2 ≤ j) : 2 ^ (j + 1) < 3 ^ j := by
  induction j, hj using Nat.le_induction with
  | base => decide
  | succ j hj ih =>
    rw [Nat.pow_succ, Nat.pow_succ 3]
    omega

/-- The bin of an age by its logarithm to base 2, against the powers of another base. -/
theorem ageHonoured_of_pow_le {a j : Nat} (hbase : 2 ≤ base) (ha : 0 < a) (hlt : a < 2 ^ (j + 1))
    (hle : base ^ j ≤ a) : AgeHonoured base a := by
  unfold AgeHonoured
  obtain rfl | hthree : base = 2 ∨ 3 ≤ base := by omega
  · exact .inl rfl
  · by_cases hj : 2 ≤ j
    · have hpow : 3 ^ j ≤ base ^ j := Nat.pow_le_pow_left hthree j
      have := two_pow_succ_lt hj
      omega
    · obtain rfl | rfl : j = 0 ∨ j = 1 := by omega
      · omega
      · rw [Nat.pow_one] at hle
        omega

theorem pow_le_of_ageHonoured {a : Nat} (hbase : 2 ≤ base) (ha : 0 < a)
    (h : AgeHonoured base a) :
    base ^ Nat.log 2 a ≤ a ∧ a < base ^ (Nat.log 2 a + 1) ∧ a < 2 * base ^ Nat.log 2 a := by
  have hlow : 2 ^ Nat.log 2 a ≤ a := Nat.pow_log_le_self 2 ha.ne'
  have hhigh : a < 2 ^ (Nat.log 2 a + 1) := Nat.lt_pow_succ_log_self (by decide) a
  obtain rfl | hone | ⟨rfl, hthree⟩ := h
  · refine ⟨hlow, hhigh, ?_⟩
    rw [Nat.pow_succ] at hhigh
    omega
  · obtain rfl : a = 1 := by exact_mod_cast hone
    rw [Nat.log_one_right, Nat.pow_zero, Nat.zero_add, Nat.pow_one]
    omega
  · obtain rfl : a = 3 := by exact_mod_cast hthree
    have hlog : Nat.log 2 3 = 1 := (Nat.log_eq_iff (by decide)).2 (by decide)
    rw [hlog]
    decide

omit [DecidableEq T] in
variable (t key base) in
theorem exists_age (hd : 0 < d) (b : T) : ∃ a : Nat, 0 < a ∧ age t d key b = a ∧
    binIndex .exact t d key b = some (Nat.log 2 a) ∧
    cell .exact t d base key b = some (Nat.log 2 a, (a : Int) - (base : Int) ^ Nat.log 2 a) := by
  have hpos := age_pos t key hd b
  obtain ⟨a, ha⟩ := Int.eq_ofNat_of_zero_le hpos.le
  have hbin : binIndex .exact t d key b = some (Nat.log 2 (age t d key b).toNat) :=
    binIndex_exact hd b
  rw [ha, Int.toNat_natCast] at hbin
  refine ⟨a, by omega, ha, hbin, ?_⟩
  have hfdiv : ((t - timestamp t key b).fdiv d + 1) * d = (a : Int) * d := congrArg (· * d) ha
  have hlog : Arith.exact.floorLog a = some (Nat.log 2 a) := if_pos (ha ▸ hpos)
  have hnearest : Arith.exact.toNearest (t - timestamp t key b) d = some ((a : Int) * d) :=
    hfdiv ▸ if_neg hd.ne'
  unfold cell
  rw [hnearest]
  dsimp only [Option.bind_eq_bind, Option.bind_some]
  rw [Int.mul_fdiv_cancel _ hd.ne', hlog]
  rfl

/-- **The base is honoured** just where the bins, which are always those of base 2, are those of the
base as well: for the ages 1, with base 3 also 3, and with base 2 all. -/
theorem base_honoured_iff (backups : List T) (t : Int) {n : Nat} (hn : 0 < n) {d : Int} (hd : 0 < d)
    {base : Nat} (hbase : 2 ≤ base) (key : T → Int) :
    BaseHonoured backups t n d base key ↔
      ∀ b ∈ backups, t - timestamp t key b < ((base : Int) ^ n - 1) * d →
        AgeHonoured base (age t d key b) := by
  constructor
  · intro h b hb hwindow
    obtain ⟨j, -, hj, hlow, -⟩ := h.binned b hb hwindow
    obtain ⟨a, ha, hage, hbin, -⟩ := exists_age t base key hd b
    obtain rfl : Nat.log 2 a = j := by simpa [hbin] using hj
    rw [hage] at hlow ⊢
    exact ageHonoured_of_pow_le hbase ha (Nat.lt_pow_succ_log_self (by decide) a)
      (by exact_mod_cast hlow)
  · intro h
    have hlog : ∀ b ∈ backups, t - timestamp t key b < ((base : Int) ^ n - 1) * d →
        ∀ a : Nat, 0 < a → age t d key b = a → Nat.log 2 a < n := by
      intro b hb hwindow a ha hage
      obtain ⟨hlow, -⟩ := pow_le_of_ageHonoured hbase ha (hage ▸ h b hb hwindow)
      have hlt : (a : Int) < (base : Int) ^ n := hage ▸ (age_lt_iff hd b _).2 hwindow
      exact (Nat.pow_lt_pow_iff_right hbase).1 (hlow.trans_lt (by exact_mod_cast hlt))
    have hcells : ∀ b ∈ backups, ∀ j k, cell .exact t d base key b = some (j, k) → j < n →
        0 ≤ k ∧ k < (base : Int) ^ j := by
      intro b hb j k hcell hj
      obtain ⟨a, ha, hage, -, hcell'⟩ := exists_age t base key hd b
      rw [hcell', Option.some_inj, Prod.mk.injEq] at hcell
      obtain ⟨rfl, rfl⟩ := hcell
      -- a backup outside the window is out of bounds
      have hwindow : t - timestamp t key b < ((base : Int) ^ n - 1) * d := by
        have hlt : a < base ^ n := calc
          a < 2 ^ n := Nat.lt_pow_of_log_lt (by decide) hj
          _ ≤ base ^ n := Nat.pow_le_pow_left hbase n
        rw [← age_lt_iff hd, hage]
        exact_mod_cast hlt
      obtain ⟨hlow, -, hwidth⟩ := pow_le_of_ageHonoured hbase ha (hage ▸ h b hb hwindow)
      zify at hlow hwidth
      omega
    constructor
    · intro b hb hwindow
      obtain ⟨a, ha, hage, hbin, -⟩ := exists_age t base key hd b
      obtain ⟨hlow, hhigh, -⟩ := pow_le_of_ageHonoured hbase ha (hage ▸ h b hb hwindow)
      rw [hage]
      exact ⟨Nat.log 2 a, hlog b hb hwindow a ha hage, hbin, by exact_mod_cast hlow,
        by exact_mod_cast hhigh⟩
    · apply getStaleBackups_of_bins hn hd
      intro b hb hin
      obtain ⟨a, ha, hage, -⟩ := exists_age t base key hd b
      rw [hage]
      exact hlog b hb (lt_of_exactCutoff_le hd hin) a ha hage
    · exact hcells
    · exact formatBackups_ne_index hcells

/-- With base 3 and one bin, a backup that is two steps old is in the window, but in bin 1, which
`get_stale_backups` does not have; with two bins `format_backups` marks it outside its width. -/
theorem base_three_not_honoured :
    getStaleBackups .exact [0] 1 1 1 3 id = none ∧
      cell .exact 1 1 3 id 0 = some (1, -1) ∧
      formatBackups .exact [0] 1 2 1 3 id = .ok "[_|__1___|..._]".toList ∧
      ¬ BaseHonoured [0] 1 1 1 3 id := by
  have hnone : getStaleBackups .exact [0] 1 1 1 3 id = none := by decide +kernel
  refine ⟨hnone, by decide +kernel, by decide +kernel, ?_⟩
  intro h
  obtain ⟨stale, hstale⟩ := h.stale
  rw [hnone] at hstale
  cases hstale

/-- With base 3, backups that are one and three steps old. -/
theorem base_honoured_three :
    BaseHonoured [0, 2] 2 2 1 3 id ↔
      ∀ b ∈ [0, 2], 2 - timestamp 2 id b < (((3 : Nat) : Int) ^ 2 - 1) * 1 →
        AgeHonoured 3 (age 2 1 id b) :=
  base_honoured_iff [0, 2] 2 (by decide) (by decide) (by decide) id

end

end Silkjam.Backup
