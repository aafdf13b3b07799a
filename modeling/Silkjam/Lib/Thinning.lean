import Mathlib.Algebra.BigOperators.Group.Finset.Piecewise
import Mathlib.Algebra.Order.BigOperators.Group.Finset
import Mathlib.Tactic.Common

/-!
# Thinning bins

The elements of a list lie in bins, and for each bin some number of elements is counted. `thin` goes
through the list and takes an element whenever its bin still has more than one counted, so that no
bin is emptied, until it has taken `m` of them. How many it takes (`length_thin`) depends on what
each bin can spare, whatever the order of the list; with all elements counted, and one more in one
of the bins, all but one for each other bin can be spared (`le_sum_spare`). Which ones it takes
depends on the order: in each bin the first ones (`filter_thin_prefix`); and if the bins are in
order, an element is taken only after all that the bins before its own can spare
(`countP_thin_of_later`).
-/

namespace Thinning

variable {α β : Type*} [DecidableEq β] (bin : α → β)

/-- Take up to `m` elements, none of which is the last counted in its bin. -/
def thin : Nat → List α → (β → Nat) → List α
  | _, [], _ => []
  | 0, _ :: _, _ => []
  | m + 1, a :: l, count =>
    if 1 < count (bin a) then
      a :: thin m l (Function.update count (bin a) (count (bin a) - 1))
    else thin (m + 1) l count

@[simp] theorem thin_zero (l : List α) (count : β → Nat) : thin bin 0 l count = [] := by
  cases l <;> rfl

theorem thin_cons_of_spare {a : α} {count : β → Nat} (m : Nat) (l : List α)
    (h : 1 < count (bin a)) : thin bin (m + 1) (a :: l) count =
      a :: thin bin m l (Function.update count (bin a) (count (bin a) - 1)) := by
  rw [thin, if_pos h]

theorem thin_cons_of_last {a : α} {count : β → Nat} (m : Nat) (l : List α)
    (h : ¬ 1 < count (bin a)) : thin bin m (a :: l) count = thin bin m l count := by
  cases m with
  | zero => simp
  | succ m => rw [thin, if_neg h]

theorem thin_sublist (m : Nat) (l : List α) (count : β → Nat) :
    (thin bin m l count).Sublist l := by
  induction l generalizing m count with
  | nil => exact .refl _
  | cons a l ih =>
    cases m with
    | zero => exact List.nil_sublist _
    | succ m =>
      by_cases h : 1 < count (bin a)
      · rw [thin_cons_of_spare bin m l h]
        exact (ih m _).cons_cons a
      · rw [thin_cons_of_last bin (m + 1) l h]
        exact (ih (m + 1) count).cons a

/-- The elements of `l` in bin `b` that can be taken from it. -/
def spare (l : List α) (count : β → Nat) (b : β) : Nat :=
  min (l.countP (bin · = b)) (count b - 1)

theorem spare_cons_of_last {a : α} {count : β → Nat} (l : List α) (h : ¬ 1 < count (bin a))
    (b : β) :
    spare bin (a :: l) count b = spare bin l count b := by
  unfold spare
  by_cases hb : bin a = b
  · subst hb
    omega
  · rw [List.countP_cons_of_neg (by simpa using hb)]

theorem spare_cons_self {a : α} {count : β → Nat} (l : List α) (h : 1 < count (bin a)) :
    spare bin (a :: l) count (bin a) =
      spare bin l (Function.update count (bin a) (count (bin a) - 1)) (bin a) + 1 := by
  unfold spare
  rw [List.countP_cons_of_pos (by simp), Function.update_self]
  omega

theorem spare_cons_ne {a : α} {count : β → Nat} (l : List α) {b : β} (hb : b ≠ bin a) (k : Nat) :
    spare bin (a :: l) count b = spare bin l (Function.update count (bin a) k) b := by
  unfold spare
  rw [List.countP_cons_of_neg (by simpa using Ne.symm hb), Function.update_of_ne hb]

/-- As many elements are taken as are wanted and can be spared. -/
theorem length_thin {s : Finset β} (m : Nat) (l : List α) (count : β → Nat)
    (hl : ∀ a ∈ l, bin a ∈ s) :
    (thin bin m l count).length = min m (∑ b ∈ s, spare bin l count b) := by
  induction l generalizing m count with
  | nil => simp [thin, spare]
  | cons a l ih =>
    have hl' : ∀ x ∈ l, bin x ∈ s := fun x hx => hl x (by simp [hx])
    by_cases h : 1 < count (bin a)
    · cases m with
      | zero => simp
      | succ m =>
        have ha : bin a ∈ s := hl a (by simp)
        have hsum : ∑ b ∈ s, spare bin (a :: l) count b =
            (∑ b ∈ s, spare bin l (Function.update count (bin a) (count (bin a) - 1)) b) + 1 := by
          rw [← Finset.add_sum_erase s _ ha, ← Finset.add_sum_erase s _ ha, spare_cons_self bin l h,
            Finset.sum_congr rfl fun b hb =>
              spare_cons_ne bin l (Finset.ne_of_mem_erase hb) (count (bin a) - 1)]
          omega
        rw [thin_cons_of_spare bin m l h, List.length_cons, ih m _ hl', hsum]
        omega
    · rw [thin_cons_of_last bin m l h, ih m count hl',
        Finset.sum_congr rfl fun b _ => spare_cons_of_last bin l h b]

theorem sum_countP {s : Finset β} {l : List α} (hl : ∀ a ∈ l, bin a ∈ s) :
    ∑ b ∈ s, l.countP (bin · = b) = l.length := by
  induction l with
  | nil => simp
  | cons a l ih =>
    have ha : bin a ∈ s := hl a (by simp)
    simp only [List.countP_cons, Finset.sum_add_distrib, decide_eq_true_eq, List.length_cons]
    rw [ih fun x hx => hl x (by simp [hx]), Finset.sum_ite_eq, if_pos ha]

/-- With all elements counted and one more in the bin `b₀`. -/
theorem le_sum_spare {s : Finset β} {l : List α} {count : β → Nat} {b₀ : β}
    (hl : ∀ a ∈ l, bin a ∈ s) (hb₀ : b₀ ∈ s)
    (hcount : ∀ b ∈ s, count b = l.countP (bin · = b) + if b₀ = b then 1 else 0) :
    l.length + 1 ≤ (∑ b ∈ s, spare bin l count b) + s.card := by
  have hone : ∑ b ∈ s, (if b₀ = b then 1 else 0) = 1 := by
    rw [Finset.sum_ite_eq, if_pos hb₀]
  calc l.length + 1
      = ∑ b ∈ s, (l.countP (bin · = b) + if b₀ = b then 1 else 0) := by
        rw [Finset.sum_add_distrib, sum_countP bin hl, hone]
    _ ≤ ∑ b ∈ s, (spare bin l count b + 1) := by
        apply Finset.sum_le_sum
        intro b hb
        have hcb := hcount b hb
        unfold spare
        by_cases he : b₀ = b
        · rw [if_pos he] at hcb ⊢
          omega
        · rw [if_neg he] at hcb ⊢
          omega
    _ = (∑ b ∈ s, spare bin l count b) + s.card := by
        rw [Finset.sum_add_distrib, Finset.card_eq_sum_ones]

/-! ### Which elements are taken -/

theorem countP_thin_le_spare (m : Nat) (l : List α) (count : β → Nat) (b : β) :
    (thin bin m l count).countP (bin · = b) ≤ spare bin l count b := by
  induction l generalizing m count with
  | nil => simp [thin]
  | cons a l ih =>
    by_cases h : 1 < count (bin a)
    · cases m with
      | zero => simp
      | succ m =>
        rw [thin_cons_of_spare bin m l h]
        have ih' := ih m (Function.update count (bin a) (count (bin a) - 1))
        by_cases hb : bin a = b
        · subst hb
          rw [List.countP_cons_of_pos (by simp), spare_cons_self bin l h]
          exact Nat.succ_le_succ ih'
        · rw [List.countP_cons_of_neg (by simpa using hb), spare_cons_ne bin l (Ne.symm hb)]
          exact ih'
    · rw [thin_cons_of_last bin m l h, spare_cons_of_last bin l h]
      exact ih m count

theorem filter_thin_prefix (m : Nat) (l : List α) (count : β → Nat) (b : β) :
    (thin bin m l count).filter (bin · = b) <+: l.filter (bin · = b) := by
  induction l generalizing m count with
  | nil => exact List.prefix_rfl
  | cons a l ih =>
    by_cases h : 1 < count (bin a)
    · cases m with
      | zero =>
        rw [thin_zero]
        exact List.nil_prefix
      | succ m =>
        rw [thin_cons_of_spare bin m l h]
        by_cases hb : bin a = b
        · rw [List.filter_cons_of_pos (by simpa using hb),
            List.filter_cons_of_pos (by simpa using hb)]
          exact List.cons_prefix_cons.2 ⟨rfl, ih m _⟩
        · rw [List.filter_cons_of_neg (by simpa using hb),
            List.filter_cons_of_neg (by simpa using hb)]
          exact ih m _
    · rw [thin_cons_of_last bin m l h]
      by_cases hb : bin a = b
      · -- the bin is at its last element, so nothing more is taken from it
        have hnone := countP_thin_le_spare bin m l count b
        have hzero : spare bin l count b = 0 := by
          unfold spare
          rw [← hb]
          omega
        rw [hzero, Nat.le_zero, List.countP_eq_zero] at hnone
        rw [List.filter_eq_nil_iff.2 hnone]
        exact List.nil_prefix
      · rw [List.filter_cons_of_neg (by simpa using hb)]
        exact ih m count

/-- If the bins are in order, all that the bins before it can spare is taken before an element. -/
theorem countP_thin_of_later [Preorder β] {m : Nat} {l : List α} {count : β → Nat} {a : α} {b : β}
    (hsorted : l.Pairwise fun x y => bin x ≤ bin y) (ha : a ∈ thin bin m l count)
    (hb : b < bin a) : (thin bin m l count).countP (bin · = b) = spare bin l count b := by
  induction l generalizing m count with
  | nil => simp [thin] at ha
  | cons x l ih =>
    rw [List.pairwise_cons] at hsorted
    by_cases h : 1 < count (bin x)
    · cases m with
      | zero => simp at ha
      | succ m =>
        rw [thin_cons_of_spare bin m l h] at ha ⊢
        obtain rfl | ha := List.mem_cons.1 ha
        · -- the bins from here on are later than `b`
          have hlater (y : α) (hy : y ∈ l) : bin y ≠ b := fun heq =>
            (hb.trans_le (hsorted.1 y hy)).ne' heq
          have hnone : l.countP (bin · = b) = 0 :=
            List.countP_eq_zero.2 fun y hy => by simpa using hlater y hy
          have hle := countP_thin_le_spare bin m l
            (Function.update count (bin a) (count (bin a) - 1)) b
          have hzero (count : β → Nat) : spare bin l count b = 0 := by
            unfold spare
            rw [hnone, Nat.zero_min]
          rw [hzero, Nat.le_zero] at hle
          rw [List.countP_cons_of_neg (by simpa using hb.ne'), hle, spare_cons_ne bin l hb.ne
            (count (bin a) - 1), hzero]
        · have ih' := ih hsorted.2 ha
          by_cases hx : bin x = b
          · subst hx
            rw [List.countP_cons_of_pos (by simp), spare_cons_self bin l h, ih']
          · rw [List.countP_cons_of_neg (by simpa using hx), spare_cons_ne bin l (Ne.symm hx), ih']
    · rw [thin_cons_of_last bin m l h] at ha ⊢
      rw [spare_cons_of_last bin l h]
      exact ih hsorted.2 ha

end Thinning

/-! ### Beginnings of lists -/

namespace List

variable {α : Type*} {r : α → α → Prop} {l p : List α} {x y : α}

/-- In an ordered list what is in a beginning stands before what is not. -/
theorem IsPrefix.rel_of_notMem (h : p <+: l) (hl : l.Pairwise r) (hx : x ∈ p) (hy : y ∈ l)
    (hny : y ∉ p) : r x y := by
  obtain ⟨q, rfl⟩ := h
  exact (List.pairwise_append.1 hl).2.2 x hx y ((List.mem_append.1 hy).resolve_left hny)

theorem IsPrefix.exists_last (h : p <+: l) (hl : l.Pairwise r) (hnodup : l.Nodup)
    (hlt : p.length < l.length) : ∃ x ∈ l, x ∉ p ∧ ∀ y ∈ l, y = x ∨ r y x := by
  obtain ⟨q, rfl⟩ := h
  have hq : q ≠ [] := by
    rintro rfl
    simp at hlt
  obtain ⟨q', x, rfl⟩ := (List.eq_nil_or_concat q).resolve_left hq
  rw [List.concat_eq_append, ← List.append_assoc] at hl hnodup ⊢
  rw [List.nodup_append] at hnodup
  refine ⟨x, by simp, fun hx => hnodup.2.2 x (by simp [hx]) x (by simp) rfl, ?_⟩
  intro y hy
  obtain hy | hy := List.mem_append.1 hy
  · exact .inr ((List.pairwise_append.1 hl).2.2 y hy x (by simp))
  · exact .inl (List.mem_singleton.1 hy)

end List
