import Mathlib

/-!
# Counting over a family of workers

`tally w pos` adds up a weight over the positions of finitely many workers: a number of workers, or
a termination measure.
-/

namespace Transition

open Function Finset

variable {I P : Type*} [Fintype I]

/-- The sum of the weights of all workers' positions. -/
def tally (w : I → P → ℕ) (pos : I → P) : ℕ := ∑ i, w i (pos i)

theorem tally_update [DecidableEq I] (w : I → P → ℕ) (pos : I → P) (i : I) (p : P) :
    tally w (update pos i p) + w i (pos i) = tally w pos + w i p := by
  have hcomp := funext (apply_update w pos i p)
  rw [tally, hcomp, sum_update_of_mem (mem_univ i), sdiff_singleton_eq_erase,
    tally, ← add_sum_erase univ (fun j => w j (pos j)) (mem_univ i)]
  omega

variable {w : I → P → ℕ} {pos : I → P} {i : I}

theorem eq_tally_update [DecidableEq I] {p : P} {m m' : ℕ} (h : m = tally w pos)
    (hstep : m' + w i (pos i) = m + w i p) : m' = tally w (update pos i p) := by
  have := tally_update w pos i p
  omega

theorem tally_update_lt [DecidableEq I] (w : I → P → ℕ) (pos : I → P) {p : P}
    (h : w i p < w i (pos i)) : tally w (update pos i p) < tally w pos := by
  have := tally_update w pos i p
  omega

theorem tally_eq_zero_iff : tally w pos = 0 ↔ ∀ i, w i (pos i) = 0 := by
  simp [tally]

theorem exists_of_tally_ne_zero (h : tally w pos ≠ 0) : ∃ i, w i (pos i) ≠ 0 := by
  by_contra hno
  push Not at hno
  exact h (tally_eq_zero_iff.2 hno)

theorem le_tally (w : I → P → ℕ) (pos : I → P) (i : I) : w i (pos i) ≤ tally w pos :=
  single_le_sum (f := fun j => w j (pos j)) (fun _ _ => Nat.zero_le _) (mem_univ i)

theorem tally_lt_card (h : ∀ i, w i (pos i) ≤ 1) (hi : w i (pos i) = 0) :
    tally w pos < Fintype.card I := by
  calc tally w pos < ∑ _i : I, 1 :=
        sum_lt_sum (fun i _ => h i) ⟨i, mem_univ i, by omega⟩
    _ = Fintype.card I := by simp

theorem tally_eq_card (h : ∀ i, w i (pos i) = 1) : tally w pos = Fintype.card I := by
  simp [tally, h]

end Transition
