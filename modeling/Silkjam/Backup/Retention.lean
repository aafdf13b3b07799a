import Silkjam.Backup.Stale

/-!
# Retention

A backup is made every `d` ticks, and each time the stale ones are removed first. At every step the
cutoff moves on by `d`, so at most one of the kept backups passes it, and if one does all slots are
full and it is deleted (`Retained.past_stale`). The kept backups are therefore always in the window,
and there are as many of them as slots, once there have been as many steps (`retention`).
-/

namespace Silkjam.Backup

/-- `update_backups`, of `test_backups.py` -/
def updateBackups (A : Arith) (backups : List Int) (t : Int) (n : Nat) (d : Int) (base : Nat)
    (key : Int → Int) : Option (List Int) := do
  let stale ← getStaleBackups A backups t n d base key
  return kept backups stale ++ [t]

/-- The backups after a number of steps, at the times `0`, `d`, `2 * d` and so on. -/
def retainedBackups (n : Nat) (d : Int) (steps : Nat) : Option (List Int) :=
  (List.range steps).foldlM (fun backups (k : Nat) => updateBackups .exact backups (k * d) n d 2 id)
    []

theorem retainedBackups_succ {n : Nat} {d : Int} {steps : Nat} {backups : List Int}
    (h : retainedBackups n d steps = some backups) :
    retainedBackups n d (steps + 1) = updateBackups .exact backups (steps * d) n d 2 id := by
  unfold retainedBackups at h ⊢
  rw [List.range_succ, List.foldlM_append, h]
  simp

/-- After `steps` steps: the backups were made at some of them, those that are now less than
`2 ^ n - 1` steps old. -/
structure Retained (n : Nat) (d : Int) (steps : Nat) (backups : List Int) : Prop where
  increasing : backups.Pairwise (· < ·)
  step_of_mem : ∀ b ∈ backups, ∃ i : Nat, b = i * d ∧ i < steps ∧ steps + 1 ≤ i + 2 ^ n
  length : backups.length = min steps n

section
variable {n steps : Nat} {d : Int} {backups : List Int}

theorem Retained.nil (n : Nat) (d : Int) : Retained n d 0 [] where
  increasing := List.Pairwise.nil
  step_of_mem := nofun
  length := (Nat.zero_min n).symm

theorem Retained.nodup (h : Retained n d steps backups) : backups.Nodup :=
  h.increasing.imp fun hlt => hlt.ne

/-- What is before the cutoff at the next step, `steps + 1 - 2 ^ n` being past. -/
theorem timestamp_lt_exactCutoff (hd : 0 < d) {i : Nat} (hi : i < steps) :
    timestamp (steps * d) id (i * d) < exactCutoff (steps * d) d n 2 ↔ i + 2 ^ n < steps + 2 := by
  have hlt : (i : Int) * d < steps * d := by
    apply Int.mul_lt_mul_of_pos_right
    · exact_mod_cast hi
    · exact hd
  have hts : timestamp (steps * d) id ((i : Int) * d) = i * d := min_eq_left hlt.le
  rw [hts, exactCutoff_eq _ n 2 hd, Int.mul_fdiv_cancel _ hd.ne', ← Int.sub_mul,
    Int.mul_lt_mul_right hd]
  zify
  omega

theorem Retained.past_stale (h : Retained n d steps backups) (hd : 0 < d) {stale : Finset Int}
    (hdel : Deletion id (bin .exact (steps * d) d id)
      (beforeCutoff (steps * d) d n id (sortedBy id backups))
      (window (steps * d) d n id (sortedBy id backups)).reverse (numStale backups n) stale)
    {b : Int} (hb : b ∈ beforeCutoff (steps * d) d n id (sortedBy id backups)) : b ∈ stale := by
  have hperm := sortedBy_perm id backups
  have hstep : ∀ x ∈ beforeCutoff (steps * d) d n id (sortedBy id backups),
      ∃ i : Nat, x = i * d ∧ i < steps ∧ i + 2 ^ n = steps + 1 := by
    intro x hx
    rw [beforeCutoff, past, List.mem_filter, decide_eq_true_eq, hperm.mem_iff] at hx
    obtain ⟨i, rfl, hi, hwindow⟩ := h.step_of_mem x hx.1
    have hpast := (timestamp_lt_exactCutoff hd hi).1 hx.2
    exact ⟨i, rfl, hi, by omega⟩
  obtain ⟨i, -, -, hi⟩ := hstep b hb
  have hsame : ∀ x ∈ beforeCutoff (steps * d) d n id (sortedBy id backups), x = i * d := by
    intro x hx
    obtain ⟨i', rfl, -, hi'⟩ := hstep x hx
    obtain rfl : i' = i := by omega
    rfl
  have hone : (beforeCutoff (steps * d) d n id (sortedBy id backups)).length ≤ 1 := by
    have hnodup : (beforeCutoff (steps * d) d n id (sortedBy id backups)).Nodup :=
      (hperm.nodup_iff.2 h.nodup).filter _
    rw [List.eq_replicate_of_mem hsame] at hnodup
    exact List.nodup_replicate.1 hnodup
  have hfull : 1 ≤ numStale backups n := by
    have hpow : n < 2 ^ n := Nat.lt_two_pow_self
    have := h.length
    unfold numStale
    omega
  rw [hdel.mem_before hb, List.take_of_length_le (hone.trans hfull)]
  exact hb

/-- **One step.** -/
theorem Retained.step (h : Retained n d steps backups) (hn : 0 < n) (hd : 0 < d) :
    ∃ backups', updateBackups .exact backups (steps * d) n d 2 id = some (backups' ++ [steps * d]) ∧
      Retained n d (steps + 1) (backups' ++ [steps * d]) := by
  obtain ⟨stale, hstale, hdel⟩ := getStaleBackups_deletion backups h.nodup id (steps * d) hn hd
  obtain ⟨hsub, hcard⟩ := getStaleBackups_card hn h.nodup hstale
  have hkept := length_kept h.nodup hsub
  have hlength := h.length
  refine ⟨kept backups stale, ?_, ?_⟩
  · unfold updateBackups
    rw [hstale]
    rfl
  · constructor
    · refine List.pairwise_append.2 ⟨h.increasing.filter _, List.pairwise_singleton _ _, ?_⟩
      intro b hb t ht
      obtain rfl := List.mem_singleton.1 ht
      obtain ⟨i, rfl, hi, -⟩ := h.step_of_mem b (List.mem_of_mem_filter hb)
      apply Int.mul_lt_mul_of_pos_right
      · exact_mod_cast hi
      · exact hd
    · intro b hb
      obtain hb | hb := List.mem_append.1 hb
      · obtain ⟨hb, hns⟩ := List.mem_filter.1 hb
        obtain ⟨i, rfl, hi, -⟩ := h.step_of_mem b hb
        refine ⟨i, rfl, by omega, ?_⟩
        -- else it would have passed the cutoff
        by_contra hold
        have hpast := (timestamp_lt_exactCutoff (n := n) hd hi).2 (by omega)
        have hbefore : (i : Int) * d ∈ beforeCutoff (steps * d) d n id (sortedBy id backups) :=
          List.mem_filter.2 ⟨(sortedBy_perm id backups).mem_iff.2 hb, by simpa using hpast⟩
        exact absurd (h.past_stale hd hdel hbefore) (by simpa using hns)
      · have hpow : n < 2 ^ n := Nat.lt_two_pow_self
        exact ⟨steps, List.mem_singleton.1 hb, by omega, by omega⟩
    · rw [List.length_append, List.length_singleton]
      unfold numStale at hcard
      omega

/-- **All steps.** -/
theorem retainedBackups_spec (hn : 0 < n) (hd : 0 < d) (steps : Nat) :
    ∃ backups, retainedBackups n d steps = some backups ∧ Retained n d steps backups := by
  induction steps with
  | zero => exact ⟨[], rfl, .nil n d⟩
  | succ steps ih =>
    obtain ⟨backups, hrun, h⟩ := ih
    obtain ⟨backups', hupdate, h'⟩ := h.step hn hd
    exact ⟨_, (retainedBackups_succ hrun).trans hupdate, h'⟩

/-- **Retention**: after the step at the time `k * d` the kept backups are strictly increasing up to
that time; there are `n` of them, or one for each step if there were fewer; and none is older than
`(2 ^ n - 2) * d`. -/
theorem retention (n : Nat) (hn : 0 < n) (d : Int) (hd : 0 < d) (k : Nat) :
    ∃ backups, retainedBackups n d (k + 1) = some backups ∧ backups.Pairwise (· < ·) ∧
      backups.getLast? = some (k * d) ∧ backups.length = min (k + 1) n ∧
      ∀ b ∈ backups, k * d - b ≤ (2 ^ n - 2) * d := by
  obtain ⟨backups, hrun, h⟩ := retainedBackups_spec hn hd k
  obtain ⟨backups', hupdate, h'⟩ := h.step hn hd
  refine ⟨_, (retainedBackups_succ hrun).trans hupdate, h'.increasing, by simp, h'.length, ?_⟩
  intro b hb
  obtain ⟨i, rfl, -, hwindow⟩ := h'.step_of_mem b hb
  rw [← Int.sub_mul]
  refine Int.mul_le_mul_of_nonneg_right ?_ hd.le
  zify at hwindow
  omega

/-- Four slots after forty steps. -/
theorem retention_forty :
    ∃ backups, retainedBackups 4 24 40 = some backups ∧ backups.length = 4 ∧
      backups.getLast? = some 936 := by
  obtain ⟨backups, hrun, -, hlast, hlength, -⟩ := retention 4 (by decide) 24 (by decide) 39
  exact ⟨backups, hrun, hlength, hlast⟩

end

end Silkjam.Backup
