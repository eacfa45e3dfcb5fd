import Mathlib.Control.Monad.Basic
import Mathlib.Tactic.Common

/-!
# Loops that may panic

A loop over a list, `List.foldlM` in `Option`, and a loop with a condition, `iterate`, which is
given a bound on the number of its turns.
-/

namespace Loop

open Option List

variable {α σ : Type} {s s' : σ} {f : σ → α → Option σ}

theorem foldlM_inv {P : σ → Prop} {as : List α}
    (hstep : ∀ a ∈ as, ∀ s s', P s → f s a = some s' → P s') (hs : P s)
    (h : as.foldlM f s = some s') : P s' := by
  induction as generalizing s with
  | nil =>
    cases h
    exact hs
  | cons a as ih =>
    rw [foldlM_cons] at h
    obtain ⟨s₁, h₁, h₂⟩ := bind_eq_some_iff.1 h
    refine ih (fun b hb => hstep b (mem_cons_of_mem _ hb)) ?_ h₂
    exact hstep a mem_cons_self s s₁ hs h₁

theorem foldlM_done {P : List α → σ → Prop}
    (hstep : ∀ done a s s', P done s → f s a = some s' → P (done ++ [a]) s') (done : List α)
    {as : List α} (hs : P done s) (h : as.foldlM f s = some s') :
    P (done ++ as) s' := by
  induction as generalizing done s with
  | nil =>
    cases h
    rwa [append_nil]
  | cons a as ih =>
    rw [foldlM_cons] at h
    obtain ⟨s₁, h₁, h₂⟩ := bind_eq_some_iff.1 h
    rw [append_cons]
    exact ih _ (hstep done a s s₁ hs h₁) h₂

/-- `for cond { body }`, for at most so many turns. -/
def iterate (cond : σ → Bool) (body : σ → Option σ) : ℕ → σ → Option σ
  | 0, s => some s
  | bound + 1, s => if cond s then (body s).bind (iterate cond body bound) else some s

variable {cond : σ → Bool} {body : σ → Option σ}

theorem iterate_inv {P : σ → Prop} (hstep : ∀ s s', P s → body s = some s' → P s') {bound : ℕ}
    (hs : P s) (h : iterate cond body bound s = some s') : P s' := by
  induction bound generalizing s with
  | zero =>
    cases h
    exact hs
  | succ bound ih =>
    unfold iterate at h
    split at h
    · obtain ⟨s₁, h₁, h₂⟩ := bind_eq_some_iff.1 h
      exact ih (hstep s s₁ hs h₁) h₂
    · cases h
      exact hs

/-- A loop whose turns lower a measure that starts no higher than the bound runs to its end. -/
theorem iterate_exit {μ : σ → ℕ} (hpos : ∀ s, cond s = true → 0 < μ s)
    (hstep : ∀ s s', cond s = true → body s = some s' → μ s' < μ s) {bound : ℕ}
    (hbound : μ s ≤ bound) (h : iterate cond body bound s = some s') : cond s' = false := by
  induction bound generalizing s with
  | zero =>
    obtain rfl := some.inj h
    by_contra hcond
    have hs := hpos s (by simpa using hcond)
    omega
  | succ bound ih =>
    unfold iterate at h
    split at h
    case isTrue hcond =>
      obtain ⟨s₁, h₁, h₂⟩ := bind_eq_some_iff.1 h
      have hlt := hstep s s₁ hcond h₁
      exact ih (by omega) h₂
    case isFalse hcond =>
      cases h
      simpa using hcond

end Loop
