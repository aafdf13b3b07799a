import Silkjam.Lib.Thinning
import Mathlib.Data.Finset.Card
import Mathlib.Data.List.Sort
import Mathlib.Data.Nat.Log
import Mathlib.Tactic.Zify

/-!
# Which backups are stale

`get_stale_backups` keeps at most `n - 1` of the backups, so that there is room for a new one. It
deletes those past a cutoff first, oldest to newest; then it thins the bins of exponentially growing
age, of which it keeps at least one backup each. The bin of age 0 counts the new backup as well.

The source computes with floating point numbers in two places, which are the parameters `Arith`;
`Arith.exact` is the exact arithmetic that they approximate. With any `Arith` the call deletes the
right number if it does not raise (`getStaleBackups_card`), and with the exact one it does not raise
(`getStaleBackups_exact`).
-/

namespace Silkjam.Backup

/-- What the source computes in floating point; `none` when it raises. -/
structure Arith where
  /-- `to_nearest`, which is `math.floor(x / d + 1) * d` -/
  toNearest : Int → Int → Option Int
  /-- `math.floor(math.log(i, 2))` -/
  floorLog : Int → Option Nat

def Arith.exact : Arith where
  toNearest x d := if d = 0 then none else some ((x.fdiv d + 1) * d)
  floorLog i := if 0 < i then some (Nat.log 2 i.toNat) else none

/-- `sorted(backups, key=key)`, which is stable. -/
def sortedBy {T : Type} (key : T → Int) (backups : List T) : List T :=
  backups.insertionSort fun a b => key a ≤ key b

section
variable {T : Type} [DecidableEq T] (A : Arith) (t d : Int) (key : T → Int)

/-- `ts = min(key(backup), t)` -/
def timestamp (backup : T) : Int :=
  min (key backup) t

/-- `i = to_nearest(t - ts, d) // d; j = math.floor(math.log(i, 2))` -/
def binIndex (backup : T) : Option Nat := do
  let x ← A.toNearest (t - timestamp t key backup) d
  A.floorLog (x.fdiv d)

/-- Delete from the backups past the cutoff; the flag says that this was enough. -/
def deletePast (cutoff : Int) (numStale : Nat) : List T → Finset T → Finset T × Bool
  | [], stale => (stale, false)
  | backup :: backups, stale =>
    if stale.card < numStale then
      if timestamp t key backup < cutoff then
        deletePast cutoff numStale backups (insert backup stale)
      else (stale, false)
    else (stale, true)

/-- `counts[j] += 1` for every backup that is not past the cutoff. -/
def countBins (cutoff : Int) : List T → List Nat → Option (List Nat)
  | [], counts => some counts
  | backup :: backups, counts =>
    if cutoff ≤ timestamp t key backup then do
      let j ← binIndex A t d key backup
      if j < counts.length then countBins cutoff backups (counts.modify j (· + 1)) else none
    else countBins cutoff backups counts

/-- Delete from the bins, which keep one backup each. -/
def deleteBinned (cutoff : Int) (numStale : Nat) :
    List T → Finset T → List Nat → Option (Finset T)
  | [], stale, _ => some stale
  | backup :: backups, stale, counts =>
    if stale.card < numStale then do
      let j ← binIndex A t d key backup
      if cutoff ≤ timestamp t key backup then
        let c ← counts[j]?
        if 1 < c then
          deleteBinned cutoff numStale backups (insert backup stale) (counts.set j (c - 1))
        else deleteBinned cutoff numStale backups stale counts
      else deleteBinned cutoff numStale backups stale counts
    else some stale

/-- `num_stale`, the number of backups to delete. -/
def numStale (backups : List T) (n : Nat) : Nat :=
  backups.length + 1 - n

/-- The two loops over the bins. -/
def thinBins (backups : List T) (n : Nat) (cutoff : Int) (stale : Finset T) :
    Option (Finset T) := do
  let counts ← countBins A t d key cutoff backups (1 :: List.replicate (n - 1) 0)
  deleteBinned A t d key cutoff (numStale backups n) backups.reverse stale counts

def getStaleBackups (backups : List T) (t : Int) (n : Nat) (d : Int) (base : Nat) (key : T → Int) :
    Option (Finset T) := do
  let backups := sortedBy key backups
  let cutoff ← A.toNearest (t - ((base : Int) ^ n - 1) * d) d
  if numStale backups n = 0 then some ∅
  else
    match deletePast t key cutoff (numStale backups n) backups ∅ with
    | (stale, true) => some stale
    | (stale, false) => thinBins A t d key backups n cutoff stale

end

/-! ### Backups past the cutoff -/

section
variable {T : Type} {A : Arith} {t d cutoff : Int} {key : T → Int} {m : Nat}

theorem sortedBy_perm (key : T → Int) (backups : List T) : (sortedBy key backups).Perm backups :=
  List.perm_insertionSort _ backups

theorem sortedBy_sorted (key : T → Int) (backups : List T) :
    (sortedBy key backups).Pairwise fun a b => key a ≤ key b := by
  have : Std.Total fun a b : T => key a ≤ key b := ⟨fun a b => le_total (key a) (key b)⟩
  have : IsTrans T fun a b => key a ≤ key b := ⟨fun _ _ _ => le_trans⟩
  exact List.pairwise_insertionSort _ backups

variable [DecidableEq T]

theorem insert_union_toFinset (b : T) (stale : Finset T) (backups : List T) :
    insert b stale ∪ backups.toFinset = stale ∪ (b :: backups).toFinset := by
  rw [List.toFinset_cons, Finset.insert_union, Finset.union_insert]

/-- The backups past the cutoff. -/
def past (t cutoff : Int) (key : T → Int) (backups : List T) : List T :=
  backups.filter fun b => timestamp t key b < cutoff

omit [DecidableEq T] in
theorem past_eq_nil {b : T} {backups : List T} (hsorted : ∀ x ∈ backups, key b ≤ key x)
    (hb : ¬ timestamp t key b < cutoff) : past t cutoff key (b :: backups) = [] := by
  unfold past
  rw [List.filter_eq_nil_iff]
  intro x hx
  obtain rfl | hx := List.mem_cons.1 hx
  · simpa using hb
  · have hle : timestamp t key b ≤ timestamp t key x := min_le_min_right t (hsorted x hx)
    simpa using (not_lt.1 hb).trans hle

variable (t cutoff m) in
/-- In a sorted list the loop deletes the first of the backups past the cutoff, as many as are to be
deleted; it ends early only if there are enough of them. -/
theorem deletePast_spec (backups : List T) (stale : Finset T)
    (hsorted : backups.Pairwise fun a b => key a ≤ key b) (hnodup : backups.Nodup)
    (hnew : ∀ b ∈ backups, b ∉ stale) (hcard : stale.card ≤ m) :
    (deletePast t key cutoff m backups stale).1 =
        stale ∪ ((past t cutoff key backups).take (m - stale.card)).toFinset ∧
      ((deletePast t key cutoff m backups stale).2 = true →
        m ≤ stale.card + (past t cutoff key backups).length) ∧
      ((deletePast t key cutoff m backups stale).2 = false →
        stale.card + (past t cutoff key backups).length ≤ m) := by
  induction backups generalizing stale with
  | nil => simp [deletePast, past, hcard]
  | cons b backups ih =>
    rw [List.pairwise_cons] at hsorted
    rw [List.nodup_cons] at hnodup
    unfold deletePast
    by_cases hm : stale.card < m
    · rw [if_pos hm]
      by_cases hpast : timestamp t key b < cutoff
      · have hfilter : past t cutoff key (b :: backups) = b :: past t cutoff key backups :=
          List.filter_cons_of_pos (by simpa using hpast)
        have hb : b ∉ stale := hnew b (by simp)
        have hnew' : ∀ x ∈ backups, x ∉ insert b stale := by
          intro x hx hmem
          obtain rfl | hmem := Finset.mem_insert.1 hmem
          · exact hnodup.1 hx
          · exact hnew x (by simp [hx]) hmem
        have hcard' : (insert b stale).card = stale.card + 1 := Finset.card_insert_of_notMem hb
        have hrest : m - stale.card = (m - (insert b stale).card) + 1 := by omega
        obtain ⟨heq, htrue, hfalse⟩ :=
          ih (insert b stale) hsorted.2 hnodup.2 hnew' (by omega)
        rw [if_pos hpast, hfilter, List.length_cons, hrest, List.take_succ_cons]
        refine ⟨?_, ?_, ?_⟩
        · rw [heq, insert_union_toFinset]
        · intro h
          have := htrue h
          omega
        · intro h
          have := hfalse h
          omega
      · -- the backups after this one are not past the cutoff either
        rw [if_neg hpast, past_eq_nil hsorted.1 hpast]
        exact ⟨by simp, nofun, fun _ => hcard⟩
    · rw [if_neg hm]
      have hzero : m - stale.card = 0 := by omega
      rw [hzero, List.take_zero]
      exact ⟨by simp, fun _ => by omega, nofun⟩

end

/-! ### The bins -/

section
variable {T : Type} [DecidableEq T] {A : Arith} {t d cutoff : Int} {key : T → Int} {m : Nat}

/-- The backups that are not past the cutoff. -/
def inWindow (t cutoff : Int) (key : T → Int) (backups : List T) : List T :=
  backups.filter fun b => cutoff ≤ timestamp t key b

/-- The bin of a backup, if it was computed. -/
def bin (A : Arith) (t d : Int) (key : T → Int) (b : T) : Nat :=
  (binIndex A t d key b).getD 0

/-- `counts` as a function of the bin. -/
def countOf (counts : List Nat) (j : Nat) : Nat :=
  counts.getD j 0

theorem countOf_modify {counts : List Nat} {j : Nat} (hj : j < counts.length) :
    countOf (counts.modify j (· + 1)) = fun i => countOf counts i + if j = i then 1 else 0 := by
  funext i
  unfold countOf
  rw [List.getD_eq_getElem?_getD, List.getD_eq_getElem?_getD, List.getElem?_modify]
  by_cases hi : j = i
  · subst hi
    simp [List.getElem?_eq_getElem hj]
  · cases h : counts[i]? <;> simp [hi]

theorem countOf_set {counts : List Nat} {j : Nat} (hj : j < counts.length) (c : Nat) :
    countOf (counts.set j c) = Function.update (countOf counts) j c := by
  funext i
  unfold countOf
  by_cases hi : i = j
  · subst hi
    simp [hj]
  · rw [Function.update_of_ne hi, List.getD_eq_getElem?_getD, List.getD_eq_getElem?_getD,
      List.getElem?_set_ne (Ne.symm hi)]

omit [DecidableEq T] in
theorem countBins_spec (backups : List T) {counts counts' : List Nat}
    (h : countBins A t d key cutoff backups counts = some counts') :
    counts'.length = counts.length ∧
      (∀ b ∈ inWindow t cutoff key backups, bin A t d key b < counts.length) ∧
      ∀ j, countOf counts' j =
        (inWindow t cutoff key backups).countP (bin A t d key · = j) + countOf counts j := by
  induction backups generalizing counts with
  | nil =>
    cases h
    simp [inWindow]
  | cons b backups ih =>
    unfold countBins at h
    by_cases hin : cutoff ≤ timestamp t key b
    · rw [if_pos hin, Option.bind_eq_bind, Option.bind_eq_some_iff] at h
      obtain ⟨j, hj, h⟩ := h
      have hbin : bin A t d key b = j := by simp [bin, hj]
      split at h
      · next hlt =>
        obtain ⟨hlen, hbins, hcount⟩ := ih h
        rw [List.length_modify] at hlen hbins
        have hwindow : inWindow t cutoff key (b :: backups) = b :: inWindow t cutoff key backups :=
          List.filter_cons_of_pos (by simpa using hin)
        rw [hwindow]
        refine ⟨hlen, ?_, ?_⟩
        · intro x hx
          rcases List.mem_cons.1 hx with rfl | hx
          · rw [hbin]; exact hlt
          · exact hbins x hx
        · intro i
          rw [hcount i, countOf_modify hlt, List.countP_cons, hbin]
          simp only [decide_eq_true_eq]
          omega
      · cases h
    · rw [if_neg hin] at h
      have hwindow : inWindow t cutoff key (b :: backups) = inWindow t cutoff key backups :=
        List.filter_cons_of_neg (by simpa using hin)
      rw [hwindow]
      exact ih h

theorem deleteBinned_spec (backups : List T) {stale stale' : Finset T} {counts : List Nat}
    (hnodup : backups.Nodup) (hnew : ∀ b ∈ inWindow t cutoff key backups, b ∉ stale)
    (hcard : stale.card ≤ m)
    (h : deleteBinned A t d key cutoff m backups stale counts = some stale') :
    stale' = stale ∪ (Thinning.thin (bin A t d key) (m - stale.card)
      (inWindow t cutoff key backups) (countOf counts)).toFinset := by
  induction backups generalizing stale counts with
  | nil =>
    cases h
    simp [inWindow, Thinning.thin]
  | cons b backups ih =>
    rw [List.nodup_cons] at hnodup
    unfold deleteBinned at h
    by_cases hm : stale.card < m
    · rw [if_pos hm, Option.bind_eq_bind, Option.bind_eq_some_iff] at h
      obtain ⟨j, hj, h⟩ := h
      have hbin : bin A t d key b = j := by simp [bin, hj]
      by_cases hin : cutoff ≤ timestamp t key b
      · rw [if_pos hin, Option.bind_eq_some_iff] at h
        obtain ⟨c, hc, h⟩ := h
        have hlt : j < counts.length := (List.getElem?_eq_some_iff.1 hc).1
        have hcount : countOf counts j = c := by
          unfold countOf
          rw [List.getD_eq_getElem?_getD, hc, Option.getD_some]
        have hwindow : inWindow t cutoff key (b :: backups) = b :: inWindow t cutoff key backups :=
          List.filter_cons_of_pos (by simpa using hin)
        rw [hwindow] at hnew ⊢
        by_cases hspare : 1 < c
        · rw [if_pos hspare] at h
          have hb : b ∉ stale := hnew b (by simp)
          have hnew' : ∀ x ∈ inWindow t cutoff key backups, x ∉ insert b stale := by
            intro x hx hmem
            rcases Finset.mem_insert.1 hmem with rfl | hmem
            · exact hnodup.1 (List.mem_of_mem_filter hx)
            · exact hnew x (by simp [hx]) hmem
          have hcard' : (insert b stale).card = stale.card + 1 := Finset.card_insert_of_notMem hb
          have hrest : m - stale.card = (m - (insert b stale).card) + 1 := by omega
          rw [ih hnodup.2 hnew' (by omega) h, hrest,
            Thinning.thin_cons_of_spare _ _ _ (by rw [hbin, hcount]; exact hspare), hbin, hcount,
            countOf_set hlt, insert_union_toFinset]
        · rw [if_neg hspare] at h
          rw [Thinning.thin_cons_of_last _ _ _ (by rw [hbin, hcount]; exact hspare)]
          exact ih hnodup.2 (fun x hx => hnew x (by simp [hx])) hcard h
      · rw [if_neg hin] at h
        have hwindow : inWindow t cutoff key (b :: backups) = inWindow t cutoff key backups :=
          List.filter_cons_of_neg (by simpa using hin)
        rw [hwindow] at hnew ⊢
        exact ih hnodup.2 hnew hcard h
    · rw [if_neg hm] at h
      obtain rfl : stale = stale' := by simpa using h
      have hzero : m - stale.card = 0 := by omega
      rw [hzero, Thinning.thin_zero]
      simp

/-! ### How many are deleted -/

theorem countOf_initial (n j : Nat) :
    countOf (1 :: List.replicate (n - 1) 0) j = if 0 = j then 1 else 0 := by
  unfold countOf
  cases j with
  | zero => rfl
  | succ j =>
    rw [List.getD_cons_succ, List.getD_eq_getElem?_getD, List.getElem?_replicate]
    split <;> rfl

omit [DecidableEq T] in
theorem inWindow_reverse (backups : List T) :
    inWindow t cutoff key backups.reverse = (inWindow t cutoff key backups).reverse :=
  List.filter_reverse

omit [DecidableEq T] in
variable (t cutoff key) in
theorem length_past_add_inWindow (backups : List T) :
    (past t cutoff key backups).length + (inWindow t cutoff key backups).length =
      backups.length := by
  have h := List.length_eq_length_filter_add (l := backups) fun b => timestamp t key b < cutoff
  rw [h, past, inWindow]
  congr 2
  apply List.filter_congr
  intro b _
  rw [← decide_not]
  exact decide_eq_decide.2 not_lt.symm

omit [DecidableEq T] in
theorem not_inWindow_of_past {backups backups' : List T} {b : T}
    (hpast : b ∈ past t cutoff key backups) : b ∉ inWindow t cutoff key backups' := by
  intro hwindow
  rw [past, List.mem_filter, decide_eq_true_eq] at hpast
  rw [inWindow, List.mem_filter, decide_eq_true_eq] at hwindow
  exact absurd hpast.2 (not_lt.2 hwindow.2)

/-- `counts` before anything is deleted from the bins. -/
def binCounts (A : Arith) (t d : Int) (key : T → Int) (window : List T) (j : Nat) : Nat :=
  window.countP (bin A t d key · = j) + if 0 = j then 1 else 0

/-- The two loops delete from the bins what `thin` takes. -/
theorem thinBins_spec {backups : List T} {n : Nat} {past stale : Finset T} (hn : 0 < n)
    (hnodup : backups.Nodup) (hnew : ∀ b ∈ inWindow t cutoff key backups, b ∉ past)
    (hcard : past.card ≤ numStale backups n)
    (h : thinBins A t d key backups n cutoff past = some stale) :
    (∀ b ∈ inWindow t cutoff key backups, bin A t d key b < n) ∧
      stale = past ∪ (Thinning.thin (bin A t d key) (numStale backups n - past.card)
        (inWindow t cutoff key backups).reverse
        (binCounts A t d key (inWindow t cutoff key backups))).toFinset := by
  unfold thinBins at h
  rw [Option.bind_eq_bind, Option.bind_eq_some_iff] at h
  obtain ⟨counts, hcounts, h⟩ := h
  obtain ⟨-, hbins, hcount⟩ := countBins_spec backups hcounts
  have hlen : (1 :: List.replicate (n - 1) 0).length = n := by
    rw [List.length_cons, List.length_replicate]
    omega
  have hcount' : countOf counts = binCounts A t d key (inWindow t cutoff key backups) := by
    funext j
    rw [hcount j, countOf_initial]
    rfl
  rw [hlen] at hbins
  refine ⟨hbins, ?_⟩
  rw [deleteBinned_spec backups.reverse (List.nodup_reverse.2 hnodup) ?_ hcard h,
    inWindow_reverse, hcount']
  intro b hb
  rw [inWindow_reverse, List.mem_reverse] at hb
  exact hnew b hb

/-- **What is deleted**: the oldest of the backups past the cutoff, and from the bins what `thin`
takes when more are to be deleted. -/
theorem getStaleBackups_eq {backups : List T} {n base : Nat} {stale : Finset T} (hn : 0 < n)
    (hnodup : backups.Nodup) (h : getStaleBackups A backups t n d base key = some stale) :
    ∃ cutoff, A.toNearest (t - ((base : Int) ^ n - 1) * d) d = some cutoff ∧
      ((past t cutoff key (sortedBy key backups)).length < numStale backups n →
        ∀ b ∈ inWindow t cutoff key (sortedBy key backups), bin A t d key b < n) ∧
      stale = ((past t cutoff key (sortedBy key backups)).take (numStale backups n)).toFinset ∪
        (Thinning.thin (bin A t d key)
          (numStale backups n - (past t cutoff key (sortedBy key backups)).length)
          (inWindow t cutoff key (sortedBy key backups)).reverse
          (binCounts A t d key (inWindow t cutoff key (sortedBy key backups)))).toFinset := by
  have hperm := sortedBy_perm key backups
  have hnodup' : (sortedBy key backups).Nodup := hperm.nodup_iff.2 hnodup
  have hnum : numStale (sortedBy key backups) n = numStale backups n := by
    unfold numStale
    rw [hperm.length_eq]
  unfold getStaleBackups at h
  rw [Option.bind_eq_bind, Option.bind_eq_some_iff] at h
  obtain ⟨cutoff, hcutoff, h⟩ := h
  refine ⟨cutoff, hcutoff, ?_⟩
  rw [hnum] at h
  split at h
  · next hzero =>
    cases h
    rw [hzero]
    exact ⟨fun h => absurd h (Nat.not_lt_zero _), by simp⟩
  · obtain ⟨heq, htrue, hfalse⟩ := deletePast_spec t cutoff (numStale backups n)
      (sortedBy key backups) ∅ (sortedBy_sorted key backups) hnodup' (by simp) (Nat.zero_le _)
    rw [Finset.card_empty, Nat.zero_add] at htrue hfalse
    rw [Finset.card_empty, Nat.sub_zero, Finset.empty_union] at heq
    split at h
    · next hdelete =>
      cases h
      rw [hdelete] at heq htrue
      have hle := htrue rfl
      rw [Nat.sub_eq_zero_of_le hle, Thinning.thin_zero, List.toFinset_nil, Finset.union_empty]
      exact ⟨fun hlt => absurd hle (Nat.not_le.2 hlt), heq⟩
    · next deleted hdelete =>
      rw [hdelete] at heq hfalse
      have hle := hfalse rfl
      dsimp only at heq
      rw [List.take_of_length_le hle] at heq ⊢
      have hcard : deleted.card = (past t cutoff key (sortedBy key backups)).length := by
        exact heq ▸ List.toFinset_card_of_nodup (hnodup'.filter _)
      have hnew : ∀ b ∈ inWindow t cutoff key (sortedBy key backups), b ∉ deleted := by
        intro b hb hmem
        rw [heq, List.mem_toFinset] at hmem
        exact not_inWindow_of_past hmem hb
      obtain ⟨hbins, hstale⟩ := thinBins_spec hn hnodup' hnew (by rw [hcard, hnum]; exact hle) h
      rw [hcard, hnum] at hstale
      exact ⟨fun _ => hbins, heq ▸ hstale⟩

omit [DecidableEq T] in
/-- As many are taken from the bins as are still to be deleted: they can spare all but `n - 1` of
the backups in the window. -/
theorem length_thin_binCounts {window : List T} {n k : Nat} (hn : 0 < n)
    (hbins : 0 < k → ∀ b ∈ window, bin A t d key b < n) (hk : 0 < k → k + n ≤ window.length + 1) :
    (Thinning.thin (bin A t d key) k window.reverse (binCounts A t d key window)).length = k := by
  obtain rfl | hpos := Nat.eq_zero_or_pos k
  · rw [Thinning.thin_zero, List.length_nil]
  · have hbins' : ∀ b ∈ window.reverse, bin A t d key b ∈ Finset.range n := by
      intro b hb
      exact Finset.mem_range.2 (hbins hpos b (List.mem_reverse.1 hb))
    have hcounted : ∀ j ∈ Finset.range n, binCounts A t d key window j =
        window.reverse.countP (bin A t d key · = j) + if 0 = j then 1 else 0 := by
      intro j _
      rw [List.countP_reverse]
      rfl
    have hspare := Thinning.le_sum_spare (bin A t d key) hbins' (Finset.mem_range.2 hn) hcounted
    have hk := hk hpos
    rw [List.length_reverse, Finset.card_range] at hspare
    rw [Thinning.length_thin (bin A t d key) k window.reverse _ hbins']
    omega

/-- **The right number of backups is deleted**, with any arithmetic, if nothing raises. -/
theorem getStaleBackups_card {backups : List T} {n base : Nat} {stale : Finset T} (hn : 0 < n)
    (hnodup : backups.Nodup) (h : getStaleBackups A backups t n d base key = some stale) :
    stale ⊆ backups.toFinset ∧ stale.card = numStale backups n := by
  obtain ⟨cutoff, -, hbins, rfl⟩ := getStaleBackups_eq hn hnodup h
  have hperm := sortedBy_perm key backups
  have hnodup' : (sortedBy key backups).Nodup := hperm.nodup_iff.2 hnodup
  have htotal := length_past_add_inWindow t cutoff key (sortedBy key backups)
  rw [hperm.length_eq] at htotal
  have hlength := length_thin_binCounts (k := numStale backups n -
      (past t cutoff key (sortedBy key backups)).length) hn (fun hpos => hbins (by omega))
    (by unfold numStale; omega)
  have hpast : (past t cutoff key (sortedBy key backups)).Nodup := hnodup'.filter _
  have hthin : (Thinning.thin (bin A t d key)
      (numStale backups n - (past t cutoff key (sortedBy key backups)).length)
      (inWindow t cutoff key (sortedBy key backups)).reverse
      (binCounts A t d key (inWindow t cutoff key (sortedBy key backups)))).Sublist
        (inWindow t cutoff key (sortedBy key backups)).reverse := Thinning.thin_sublist _ _ _ _
  have hwindow : (inWindow t cutoff key (sortedBy key backups)).reverse.Nodup :=
    List.nodup_reverse.2 (hnodup'.filter _)
  constructor
  · intro b hb
    rw [Finset.mem_union, List.mem_toFinset, List.mem_toFinset] at hb
    rw [List.mem_toFinset, ← hperm.mem_iff]
    obtain hb | hb := hb
    · exact List.mem_of_mem_filter (List.mem_of_mem_take hb)
    · exact List.mem_of_mem_filter (List.mem_reverse.1 (hthin.subset hb))
  · rw [Finset.card_union_of_disjoint, List.toFinset_card_of_nodup (hpast.sublist
      (List.take_sublist _ _)), List.toFinset_card_of_nodup (hwindow.sublist hthin), hlength,
      List.length_take]
    · omega
    · rw [Finset.disjoint_left]
      intro b hb hb'
      rw [List.mem_toFinset] at hb hb'
      exact not_inWindow_of_past (List.mem_of_mem_take hb) (List.mem_reverse.1 (hthin.subset hb'))

/-! ### Exact arithmetic -/

omit [DecidableEq T] in
theorem countBins_total {backups : List T} {counts : List Nat}
    (h : ∀ b ∈ inWindow t cutoff key backups, ∃ j < counts.length,
      binIndex A t d key b = some j) :
    ∃ counts', countBins A t d key cutoff backups counts = some counts' := by
  induction backups generalizing counts with
  | nil => exact ⟨counts, rfl⟩
  | cons b backups ih =>
    unfold countBins
    by_cases hin : cutoff ≤ timestamp t key b
    · have hwindow : inWindow t cutoff key (b :: backups) = b :: inWindow t cutoff key backups :=
        List.filter_cons_of_pos (by simpa using hin)
      rw [hwindow] at h
      obtain ⟨j, hlt, hj⟩ := h b (by simp)
      rw [if_pos hin, hj]
      dsimp only [Option.bind_eq_bind, Option.bind_some]
      rw [if_pos hlt]
      apply ih
      intro x hx
      rw [List.length_modify]
      exact h x (by simp [hx])
    · have hwindow : inWindow t cutoff key (b :: backups) = inWindow t cutoff key backups :=
        List.filter_cons_of_neg (by simpa using hin)
      rw [if_neg hin]
      exact ih (hwindow ▸ h)

theorem deleteBinned_total {backups : List T} {stale : Finset T} {counts : List Nat}
    (h : ∀ b ∈ backups, ∃ j, binIndex A t d key b = some j ∧
      (cutoff ≤ timestamp t key b → j < counts.length)) :
    ∃ stale', deleteBinned A t d key cutoff m backups stale counts = some stale' := by
  induction backups generalizing stale counts with
  | nil => exact ⟨stale, rfl⟩
  | cons b backups ih =>
    unfold deleteBinned
    split
    · obtain ⟨j, hj, hlt⟩ := h b (by simp)
      rw [hj]
      dsimp only [Option.bind_eq_bind, Option.bind_some]
      split
      · next hin =>
        rw [List.getElem?_eq_getElem (hlt hin)]
        dsimp only [Option.bind_some]
        split
        · apply ih
          intro x hx
          rw [List.length_set]
          exact h x (by simp [hx])
        · exact ih fun x hx => h x (by simp [hx])
      · exact ih fun x hx => h x (by simp [hx])
    · exact ⟨stale, rfl⟩

/-- The age of a backup in steps of `d`, counted from 1. -/
def age (t d : Int) (key : T → Int) (b : T) : Int :=
  (t - timestamp t key b).fdiv d + 1

omit [DecidableEq T] in
variable (t key) in
theorem age_pos (hd : 0 < d) (b : T) : 0 < age t d key b := by
  have hnonneg : 0 ≤ t - timestamp t key b := sub_nonneg.2 (min_le_right _ _)
  have := Int.fdiv_nonneg hnonneg hd.le
  unfold age
  omega

omit [DecidableEq T] in
theorem binIndex_exact (hd : 0 < d) (b : T) :
    binIndex .exact t d key b = some (Nat.log 2 (age t d key b).toNat) := by
  unfold binIndex Arith.exact
  dsimp only
  rw [if_neg hd.ne', Option.bind_eq_bind, Option.bind_some, Int.mul_fdiv_cancel _ hd.ne']
  exact if_pos (age_pos t key hd b)

/-- The cutoff. -/
def exactCutoff (t d : Int) (n base : Nat) : Int :=
  ((t - ((base : Int) ^ n - 1) * d).fdiv d + 1) * d

theorem toNearest_exactCutoff (t : Int) (n base : Nat) (hd : 0 < d) :
    Arith.exact.toNearest (t - ((base : Int) ^ n - 1) * d) d = some (exactCutoff t d n base) :=
  if_neg hd.ne'

theorem exactCutoff_eq (t : Int) (n base : Nat) (hd : 0 < d) :
    exactCutoff t d n base = (t.fdiv d + 1) * d - ((base : Int) ^ n - 1) * d := by
  have hcutoff : (t - ((base : Int) ^ n - 1) * d).fdiv d = t.fdiv d - ((base : Int) ^ n - 1) := by
    rw [Int.fdiv_eq_ediv_of_nonneg _ hd.le, Int.fdiv_eq_ediv_of_nonneg _ hd.le, Int.sub_eq_add_neg,
      ← Int.neg_mul, Int.add_mul_ediv_right _ _ hd.ne']
    rfl
  unfold exactCutoff
  rw [hcutoff, ← Int.sub_mul]
  congr 1
  omega

omit [DecidableEq T] in
/-- A backup in the window was made less than `(base ** n - 1) * d` ago. -/
theorem lt_of_exactCutoff_le {n base : Nat} (hd : 0 < d) {b : T}
    (h : exactCutoff t d n base ≤ timestamp t key b) :
    t - timestamp t key b < ((base : Int) ^ n - 1) * d := by
  have hmod : t < (t.fdiv d + 1) * d := by
    rw [Int.fdiv_eq_ediv_of_nonneg _ hd.le]
    exact Int.lt_ediv_add_one_mul_self t hd
  rw [exactCutoff_eq t n base hd] at h
  omega

omit [DecidableEq T] in
theorem age_lt_iff (hd : 0 < d) (b : T) (i : Int) :
    age t d key b < i ↔ t - timestamp t key b < (i - 1) * d := by
  unfold age
  rw [Int.fdiv_eq_ediv_of_nonneg _ hd.le, ← Int.lt_sub_right_iff_add_lt,
    Int.ediv_lt_iff_lt_mul hd]

/-- With exact arithmetic nothing raises if the bins of the backups in the window are there. -/
theorem getStaleBackups_of_bins {backups : List T} {n base : Nat} (hn : 0 < n) (hd : 0 < d)
    (hbins : ∀ b ∈ backups, exactCutoff t d n base ≤ timestamp t key b →
      Nat.log 2 (age t d key b).toNat < n) :
    ∃ stale, getStaleBackups .exact backups t n d base key = some stale := by
  have hbins' : ∀ b ∈ sortedBy key backups, exactCutoff t d n base ≤ timestamp t key b →
      Nat.log 2 (age t d key b).toNat < n := by
    intro b hb
    exact hbins b ((sortedBy_perm key backups).mem_iff.1 hb)
  unfold getStaleBackups
  rw [toNearest_exactCutoff t n base hd]
  dsimp only [Option.bind_eq_bind, Option.bind_some]
  split
  · exact ⟨∅, rfl⟩
  · split
    · exact ⟨_, rfl⟩
    · unfold thinBins
      have hlen : (1 :: List.replicate (n - 1) 0).length = n := by
        rw [List.length_cons, List.length_replicate]
        omega
      have hbinned : ∀ b ∈ inWindow t (exactCutoff t d n base) key (sortedBy key backups),
          ∃ j < (1 :: List.replicate (n - 1) 0).length, binIndex .exact t d key b = some j := by
        intro b hb
        have hwindow : exactCutoff t d n base ≤ timestamp t key b := by
          simpa using (List.mem_filter.1 hb).2
        rw [hlen]
        exact ⟨_, hbins' b (List.mem_of_mem_filter hb) hwindow, binIndex_exact hd b⟩
      obtain ⟨counts, hcounts⟩ := countBins_total hbinned
      have hcounts_len := (countBins_spec (sortedBy key backups) hcounts).1.trans hlen
      rw [hcounts]
      dsimp only [Option.bind_eq_bind, Option.bind_some]
      refine deleteBinned_total fun b hb => ⟨_, binIndex_exact hd b, fun hin => ?_⟩
      rw [hcounts_len]
      exact hbins' b (List.mem_reverse.1 hb) hin

omit [DecidableEq T] in
theorem log_age_lt {n : Nat} (hd : 0 < d) {b : T}
    (h : exactCutoff t d n 2 ≤ timestamp t key b) : Nat.log 2 (age t d key b).toNat < n := by
  have hlt : age t d key b < 2 ^ n := (age_lt_iff hd b _).2 (lt_of_exactCutoff_le hd h)
  have hpos := age_pos t key hd b
  apply Nat.log_lt_of_lt_pow
  · omega
  · zify
    rw [Int.toNat_of_nonneg hpos.le]
    exact hlt

/-- **With exact arithmetic and base 2 nothing raises.** -/
theorem getStaleBackups_exact (backups : List T) (t : Int) {n : Nat} (hn : 0 < n) {d : Int}
    (hd : 0 < d) (key : T → Int) :
    ∃ stale, getStaleBackups .exact backups t n d 2 key = some stale :=
  getStaleBackups_of_bins hn hd fun _ _ h => log_age_lt hd h

end

end Silkjam.Backup
