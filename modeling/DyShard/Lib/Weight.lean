import Mathlib.Algebra.Order.BigOperators.Group.List
import Mathlib.Tactic.Common

/-!
# Weighted counts over a list

`weight w l p` adds up the weights of the members of a list that satisfy a test.
-/

namespace Weight

open List

variable {α M : Type*}

section Monoid

variable [AddCommMonoid M] (w : α → M) {l l' : List α} (p q : α → Bool)

/-- The weight of the members of `l` that satisfy `p`. -/
def weight (l : List α) (p : α → Bool) : M := ((l.filter p).map w).sum

theorem weight_eq_sum_ite (l : List α) :
    weight w l p = (l.map fun a => if p a then w a else 0).sum := by
  unfold weight
  induction l with
  | nil => rfl
  | cons a l ih => by_cases h : p a <;> simp [h, ih]

theorem weight_true (l : List α) : weight w l (fun _ => true) = (l.map w).sum := by
  simp [weight]

theorem weight_or_add_weight_and (l : List α) :
    weight w l (fun a => p a || q a) + weight w l (fun a => p a && q a) =
      weight w l p + weight w l q := by
  simp only [weight_eq_sum_ite, ← sum_map_add]
  congr 1
  refine map_congr_left fun a _ => ?_
  cases p a <;> cases q a <;> simp

theorem weight_eq_of_mem_iff (hl : l.Nodup) (hl' : l'.Nodup)
    (h : ∀ a, a ∈ l ∧ p a = true ↔ a ∈ l' ∧ q a = true) : weight w l p = weight w l' q := by
  have hperm : (l.filter p).Perm (l'.filter q) := by
    rw [perm_ext_iff_of_nodup (hl.filter _) (hl'.filter _)]
    intro a
    rw [mem_filter, mem_filter, h]
  exact (hperm.map w).sum_eq

end Monoid

section Ordered

variable [AddCommGroup M] [LinearOrder M] [IsOrderedAddMonoid M] {w : α → M} {l : List α}

theorem weight_le_sum (h : ∀ a ∈ l, 0 ≤ w a) (p : α → Bool) : weight w l p ≤ (l.map w).sum := by
  rw [weight_eq_sum_ite]
  refine sum_le_sum fun a ha => ?_
  split <;> simp [h a ha]

/-- **Quorum intersection.**  What two parts weigh together is at most the whole and what they
have in common. -/
theorem weight_add_weight_le (h : ∀ a ∈ l, 0 ≤ w a) (p q : α → Bool) :
    weight w l p + weight w l q ≤ (l.map w).sum + weight w l (fun a => p a && q a) := by
  rw [← weight_or_add_weight_and]
  exact add_le_add_left (weight_le_sum h _) _

end Ordered

end Weight
