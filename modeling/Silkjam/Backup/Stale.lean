import Silkjam.Backup.Strategies

/-!
# What is deleted, and what is kept

With exact arithmetic and base 2 a call of `get_stale_backups` deletes exactly as many backups as
leave room for a new one (`exactly_enough_deleted`), and these are the right ones
(`right_ones_deleted`): the oldest past the cutoff before any other; then the newest of each bin,
from younger bins to older ones, so that a bin is thinned only when no younger one can spare a
backup, and none but the youngest loses its oldest backup. Both follow from what is deleted as a set
(`getStaleBackups_eq`).
-/

namespace Silkjam.Backup

section
variable {T : Type} [DecidableEq T] {t d : Int} {n : Nat} {key : T → Int}

/-- The backups in the window. -/
abbrev window (t d : Int) (n : Nat) (key : T → Int) (backups : List T) : List T :=
  inWindow t (exactCutoff t d n 2) key backups

/-- The backups before the cutoff. -/
abbrev beforeCutoff (t d : Int) (n : Nat) (key : T → Int) (backups : List T) : List T :=
  past t (exactCutoff t d n 2) key backups

/-- The backups in the window whose age is at least `2 ^ j` and less than `2 ^ (j + 1)`. -/
def binned (t d : Int) (n : Nat) (key : T → Int) (backups : List T) (j : Nat) : List T :=
  (window t d n key backups).filter fun b => 2 ^ j ≤ age t d key b ∧ age t d key b < 2 ^ (j + 1)

/-- The backups of a list that are not deleted. -/
def kept (backups : List T) (stale : Finset T) : List T :=
  backups.filter (· ∉ stale)

/-! ### How many -/

theorem length_kept {backups : List T} {stale : Finset T} (hnodup : backups.Nodup)
    (hsub : stale ⊆ backups.toFinset) :
    (kept backups stale).length + stale.card = backups.length := by
  have hstale : (backups.filter (· ∈ stale)).toFinset = stale := by
    ext b
    have := @hsub b
    simp only [List.mem_toFinset] at this
    simpa using this
  have hcard : stale.card = (backups.filter (· ∈ stale)).length := by
    rw [← List.toFinset_card_of_nodup (hnodup.filter _), hstale]
  have hsplit := List.length_eq_length_filter_add (l := backups) fun b => b ∈ stale
  unfold kept
  simp only [decide_not] at hsplit ⊢
  omega

omit [DecidableEq T] in
theorem binIndex_lt (hd : 0 < d) {backups : List T} {b : T} (hb : b ∈ window t d n key backups) :
    ∃ j < n, binIndex .exact t d key b = some j := by
  have hcutoff : exactCutoff t d n 2 ≤ timestamp t key b := by
    simpa using (List.mem_filter.1 hb).2
  exact ⟨_, log_age_lt hd hcutoff, binIndex_exact hd b⟩

/-- **Exactly enough backups are deleted**: the call does not fail, what it deletes are backups, and
after a new one is added there are `n` of them, or all if there are fewer. -/
theorem exactly_enough_deleted (backups : List T) (hnodup : backups.Nodup) (key : T → Int) (t : Int)
    {n : Nat} (hn : 0 < n) {d : Int} (hd : 0 < d) :
    (∀ b ∈ window t d n key backups, ∃ j < n, binIndex .exact t d key b = some j) ∧
      ∃ stale, getStaleBackups .exact backups t n d 2 key = some stale ∧
        stale ⊆ backups.toFinset ∧ stale.card = backups.length + 1 - n ∧
        (kept backups stale).length + 1 = min (backups.length + 1) n := by
  refine ⟨fun b hb => binIndex_lt hd hb, ?_⟩
  obtain ⟨stale, hstale⟩ := getStaleBackups_exact backups t hn hd key
  obtain ⟨hsub, hcard⟩ := getStaleBackups_card hn hnodup hstale
  have hkept := length_kept hnodup hsub
  refine ⟨stale, hstale, hsub, hcard, ?_⟩
  unfold numStale at hcard
  omega

/-! ### Which ones -/

/-- What is deleted from a list of backups, and what is kept. -/
structure DeletesRight (t d : Int) (n : Nat) (key : T → Int) (backups : List T)
    (stale : Finset T) : Prop where
  /-- none in the window is deleted as long as one before the cutoff is kept -/
  past_first : ∀ x ∈ beforeCutoff t d n key backups, x ∉ stale →
    ∀ y ∈ window t d n key backups, y ∉ stale
  /-- the oldest before the cutoff are deleted -/
  past_oldest : ∀ x ∈ beforeCutoff t d n key backups, x ∈ stale →
    ∀ y ∈ beforeCutoff t d n key backups, y ∉ stale → key x ≤ key y
  /-- the newest of each bin are deleted -/
  newest : ∀ j, ∀ x ∈ binned t d n key backups j, x ∈ stale →
    ∀ y ∈ binned t d n key backups j, y ∉ stale → key y ≤ key x
  /-- each bin but the first keeps its oldest -/
  keeps_oldest : ∀ j, 0 < j → binned t d n key backups j ≠ [] →
    ∃ x ∈ binned t d n key backups j, x ∉ stale ∧ ∀ y ∈ binned t d n key backups j, key x ≤ key y
  /-- when one is deleted from a bin, each younger bin keeps at most one, and the first none -/
  younger_thinned : ∀ j, ∀ x ∈ binned t d n key backups j, x ∈ stale → ∀ i < j,
    (kept (binned t d n key backups i) stale).length ≤ if i = 0 then 0 else 1

/-- The backups to delete, in terms of those before the cutoff, from the oldest, and those in the
window, from the newest. -/
structure Deletion (key : T → Int) (bin : T → Nat) (before window : List T) (m : Nat)
    (stale : Finset T) : Prop where
  before_sorted : before.Pairwise fun x y => key x ≤ key y
  window_sorted : window.Pairwise fun x y => key y ≤ key x
  bin_sorted : window.Pairwise fun x y => bin x ≤ bin y
  nodup : window.Nodup
  disjoint : ∀ x ∈ before, x ∉ window
  eq : stale = (before.take m).toFinset ∪ (Thinning.thin bin (m - before.length) window
    fun j => window.countP (bin · = j) + if 0 = j then 1 else 0).toFinset

namespace Deletion

variable {bin : T → Nat} {before window : List T} {m : Nat} {stale : Finset T} {x y : T} {i j : Nat}

/-- What is taken from the bins. -/
abbrev thinned (bin : T → Nat) (before window : List T) (m : Nat) : List T :=
  Thinning.thin bin (m - before.length) window fun j =>
    window.countP (bin · = j) + if 0 = j then 1 else 0

theorem mem_before (h : Deletion key bin before window m stale) (hx : x ∈ before) :
    x ∈ stale ↔ x ∈ before.take m := by
  rw [h.eq, Finset.mem_union, List.mem_toFinset, List.mem_toFinset, or_iff_left]
  intro hthin
  exact h.disjoint x hx ((Thinning.thin_sublist _ _ _ _).subset hthin)

theorem mem_window (h : Deletion key bin before window m stale) (hx : x ∈ window) :
    x ∈ stale ↔ x ∈ thinned bin before window m := by
  rw [h.eq, Finset.mem_union, List.mem_toFinset, List.mem_toFinset, or_iff_right]
  intro htake
  exact h.disjoint x (List.mem_of_mem_take htake) hx

theorem mem_bin (h : Deletion key bin before window m stale)
    (hx : x ∈ window.filter (bin · = j)) :
    x ∈ stale ↔ x ∈ (thinned bin before window m).filter (bin · = j) := by
  rw [List.mem_filter] at hx ⊢
  rw [h.mem_window hx.1, and_iff_left hx.2]

/-- If one before the cutoff is kept, nothing is taken from the bins. -/
theorem past_first (h : Deletion key bin before window m stale) (hx : x ∈ before)
    (hxs : x ∉ stale) (hy : y ∈ window) : y ∉ stale := by
  rw [h.mem_before hx] at hxs
  have hlt : m < before.length := by
    by_contra hle
    rw [List.take_of_length_le (not_lt.1 hle)] at hxs
    exact hxs hx
  have hzero : m - before.length = 0 := by omega
  rw [h.mem_window hy, thinned, hzero, Thinning.thin_zero]
  exact List.not_mem_nil

theorem past_oldest (h : Deletion key bin before window m stale) (hx : x ∈ before)
    (hxs : x ∈ stale) (hy : y ∈ before) (hys : y ∉ stale) : key x ≤ key y := by
  rw [h.mem_before hx] at hxs
  rw [h.mem_before hy] at hys
  exact (List.take_prefix m before).rel_of_notMem h.before_sorted hxs hy hys

theorem newest (h : Deletion key bin before window m stale)
    (hx : x ∈ window.filter (bin · = j)) (hxs : x ∈ stale)
    (hy : y ∈ window.filter (bin · = j)) (hys : y ∉ stale) : key y ≤ key x := by
  rw [h.mem_bin hx] at hxs
  rw [h.mem_bin hy] at hys
  exact (Thinning.filter_thin_prefix bin _ window _ j).rel_of_notMem (h.window_sorted.filter _)
    hxs hy hys

/-- A bin but the first counts just its backups, of which the last cannot be spared. -/
theorem keeps_oldest (h : Deletion key bin before window m stale) (hj : 0 < j)
    (hne : window.filter (bin · = j) ≠ []) :
    ∃ x ∈ window.filter (bin · = j), x ∉ stale ∧
      ∀ y ∈ window.filter (bin · = j), key x ≤ key y := by
  have hspare : (thinned bin before window m).countP (bin · = j) ≤ _ :=
    Thinning.countP_thin_le_spare bin _ window _ j
  have hpos := List.length_pos_iff.2 hne
  have hlt : ((thinned bin before window m).filter (bin · = j)).length <
      (window.filter (bin · = j)).length := by
    dsimp only [Thinning.spare] at hspare
    rw [if_neg hj.ne] at hspare
    rw [← List.countP_eq_length_filter] at hpos ⊢
    rw [← List.countP_eq_length_filter]
    omega
  obtain ⟨x, hx, hxp, hlast⟩ := (Thinning.filter_thin_prefix bin _ window _ j).exists_last
    (h.window_sorted.filter _) (h.nodup.filter _) hlt
  refine ⟨x, hx, fun hxs => hxp ((h.mem_bin hx).1 hxs), ?_⟩
  intro y hy
  obtain rfl | hle := hlast y hy
  · exact le_rfl
  · exact hle

omit [DecidableEq T] in
theorem length_filter_of_prefix {l p : List T} {r : T → Bool} (h : p <+: l)
    (hp : ∀ x ∈ p, r x = false) : (l.filter r).length + p.length ≤ l.length := by
  obtain ⟨q, rfl⟩ := h
  have hnone : p.filter r = [] := List.filter_eq_nil_iff.2 fun x hx => by simp [hp x hx]
  rw [List.filter_append, hnone, List.nil_append, List.length_append]
  have := List.length_filter_le r q
  omega

/-- When one is taken from a bin, each younger bin has spared all it can. -/
theorem younger_thinned (h : Deletion key bin before window m stale)
    (hx : x ∈ window.filter (bin · = j)) (hxs : x ∈ stale) (hi : i < j) :
    (kept (window.filter (bin · = i)) stale).length ≤ if i = 0 then 0 else 1 := by
  have hbin : bin x = j := by simpa using (List.mem_filter.1 hx).2
  rw [h.mem_bin hx] at hxs
  have hspare : (thinned bin before window m).countP (bin · = i) = _ :=
    Thinning.countP_thin_of_later bin h.bin_sorted (List.mem_of_mem_filter hxs) (hbin ▸ hi)
  have hkept : (kept (window.filter (bin · = i)) stale).length +
      ((thinned bin before window m).filter (bin · = i)).length ≤
        (window.filter (bin · = i)).length := by
    apply length_filter_of_prefix (Thinning.filter_thin_prefix bin _ window _ i)
    intro y hy
    have hy' := (Thinning.filter_thin_prefix bin _ window _ i).subset hy
    simpa using (h.mem_bin hy').2 hy
  dsimp only [Thinning.spare] at hspare
  rw [← List.countP_eq_length_filter, ← List.countP_eq_length_filter] at hkept
  by_cases hzero : i = 0
  · rw [if_pos hzero]
    rw [if_pos hzero.symm] at hspare
    omega
  · rw [if_neg hzero]
    rw [if_neg (Ne.symm hzero)] at hspare
    omega

end Deletion

omit [DecidableEq T] in
theorem bin_eq_iff (hd : 0 < d) (b : T) (j : Nat) :
    bin .exact t d key b = j ↔ 2 ^ j ≤ age t d key b ∧ age t d key b < 2 ^ (j + 1) := by
  have hpos := age_pos t key hd b
  have hbin : bin .exact t d key b = Nat.log 2 (age t d key b).toNat := by
    simp [bin, binIndex_exact hd b]
  rw [hbin, Nat.log_eq_iff (.inr ⟨by omega, by omega⟩)]
  zify
  rw [Int.toNat_of_nonneg hpos.le]

omit [DecidableEq T] in
theorem binned_eq (hd : 0 < d) (backups : List T) (j : Nat) :
    binned t d n key backups j =
      (window t d n key backups).filter (bin .exact t d key · = j) := by
  apply List.filter_congr
  intro b _
  exact decide_eq_decide.2 (bin_eq_iff hd b j).symm

omit [DecidableEq T] in
theorem bin_mono (hd : 0 < d) {x y : T} (h : key y ≤ key x) :
    bin .exact t d key x ≤ bin .exact t d key y := by
  have hage : age t d key x ≤ age t d key y := by
    have hts : timestamp t key y ≤ timestamp t key x := min_le_min_right t h
    unfold age
    rw [Int.fdiv_eq_ediv_of_nonneg _ hd.le, Int.fdiv_eq_ediv_of_nonneg _ hd.le]
    exact Int.add_le_add_right (Int.ediv_le_ediv hd (sub_le_sub_left hts t)) 1
  simp only [bin, binIndex_exact hd, Option.getD_some]
  exact Nat.log_mono_right (Int.toNat_le_toNat hage)

/-- What is deleted, with exact arithmetic: the lists of the source are sorted, from the oldest
before the cutoff, and from the newest in the window. -/
theorem getStaleBackups_deletion (backups : List T) (hnodup : backups.Nodup) (key : T → Int)
    (t : Int) (hn : 0 < n) (hd : 0 < d) :
    ∃ stale, getStaleBackups .exact backups t n d 2 key = some stale ∧
      Deletion key (bin .exact t d key) (beforeCutoff t d n key (sortedBy key backups))
        (window t d n key (sortedBy key backups)).reverse (numStale backups n) stale := by
  obtain ⟨stale, hstale⟩ := getStaleBackups_exact backups t hn hd key
  obtain ⟨cutoff, hcutoff, -, heq⟩ := getStaleBackups_eq hn hnodup hstale
  rw [toNearest_exactCutoff t n 2 hd, Option.some_inj] at hcutoff
  subst hcutoff
  have hsorted := sortedBy_sorted key backups
  have hwindow : (window t d n key (sortedBy key backups)).reverse.Pairwise
      fun x y => key y ≤ key x := List.pairwise_reverse.2 (hsorted.filter _)
  refine ⟨stale, hstale, ?_⟩
  constructor
  · exact hsorted.filter _
  · exact hwindow
  · exact hwindow.imp fun hle => bin_mono hd hle
  · exact List.nodup_reverse.2 (((sortedBy_perm key backups).nodup_iff.2 hnodup).filter _)
  · intro x hx hx'
    exact not_inWindow_of_past hx (List.mem_reverse.1 hx')
  · simp only [List.countP_reverse]
    exact heq

/-- **The right backups are deleted**: the oldest before the cutoff first, and then the newest of
each bin, from the younger bins first, each of which but the first keeps its oldest. -/
theorem right_ones_deleted (backups : List T) (hnodup : backups.Nodup) (key : T → Int) (t : Int)
    {n : Nat} (hn : 0 < n) {d : Int} (hd : 0 < d) :
    ∃ stale, getStaleBackups .exact backups t n d 2 key = some stale ∧
      DeletesRight t d n key backups stale := by
  obtain ⟨stale, hstale, h⟩ := getStaleBackups_deletion backups hnodup key t hn hd
  have hperm := (sortedBy_perm key backups).symm
  have hbefore (b : T) : b ∈ beforeCutoff t d n key backups ↔
      b ∈ beforeCutoff t d n key (sortedBy key backups) := (hperm.filter _).mem_iff
  have hwindow : (window t d n key backups).Perm
      (window t d n key (sortedBy key backups)).reverse :=
    (hperm.filter _).trans (List.reverse_perm _).symm
  have hbinned (j : Nat) : (binned t d n key backups j).Perm
      ((window t d n key (sortedBy key backups)).reverse.filter (bin .exact t d key · = j)) := by
    rw [binned_eq hd]
    exact hwindow.filter _
  refine ⟨stale, hstale, ?_⟩
  constructor
  · intro x hx hxs y hy
    exact h.past_first ((hbefore x).1 hx) hxs (hwindow.mem_iff.1 hy)
  · intro x hx hxs y hy hys
    exact h.past_oldest ((hbefore x).1 hx) hxs ((hbefore y).1 hy) hys
  · intro j x hx hxs y hy hys
    exact h.newest ((hbinned j).mem_iff.1 hx) hxs ((hbinned j).mem_iff.1 hy) hys
  · intro j hj hne
    have hne' : (window t d n key (sortedBy key backups)).reverse.filter
        (bin .exact t d key · = j) ≠ [] := fun hnil => hne ((hnil ▸ hbinned j).eq_nil)
    obtain ⟨x, hx, hxs, holdest⟩ := h.keeps_oldest hj hne'
    exact ⟨x, (hbinned j).mem_iff.2 hx, hxs, fun y hy => holdest y ((hbinned j).mem_iff.1 hy)⟩
  · intro j x hx hxs i hi
    rw [kept, ((hbinned i).filter _).length_eq]
    exact h.younger_thinned ((hbinned j).mem_iff.1 hx) hxs hi

end

/-! ### An example -/

/-- Fifteen backups, one second apart, of which the last was made after the time they are thinned
at. -/
theorem exactly_enough_deleted_fifteen :
    ∃ stale, getStaleBackups .exact ((List.range 15).map Int.ofNat) 13 4 1 2 id = some stale ∧
      stale.card = 12 := by
  obtain ⟨-, stale, hstale, -, hcard, -⟩ := exactly_enough_deleted ((List.range 15).map Int.ofNat)
    (by decide) id 13 (n := 4) (by decide) (d := 1) (by decide)
  exact ⟨stale, hstale, hcard⟩

theorem right_ones_deleted_fifteen :
    ∃ stale, getStaleBackups .exact ((List.range 15).map Int.ofNat) 13 4 1 2 id = some stale ∧
      DeletesRight 13 1 4 id ((List.range 15).map Int.ofNat) stale :=
  right_ones_deleted ((List.range 15).map Int.ofNat) (by decide) id 13 (n := 4) (by decide) (d := 1)
    (by decide)

end Silkjam.Backup
