import DyShard.Lib.Transition

/-!
# Markers that are set once

A system takes batches, refuses one with an item whose marker is set, and sets the markers of what
it has taken.
-/

namespace Once

open Transition

variable {S B κ : Type*} {step : S → B → Option S} {marks : B → List κ} {marked : S → κ → Prop}

theorem unmarked_of_exec (hfresh : ∀ s b s', step s b = some s' → ∀ k ∈ marks b, ¬ marked s k)
    (hmono : ∀ s b s', step s b = some s' → ∀ k, marked s k → marked s' k)
    {bs : List B} {s s' : S} (h : exec step s bs = some s') :
    ∀ b ∈ bs, ∀ k ∈ marks b, ¬ marked s k := by
  induction bs generalizing s with
  | nil => nofun
  | cons b bs ih =>
    obtain ⟨s₁, hstep, hrest⟩ := Option.bind_eq_some_iff.1 h
    intro b' hb' k hk hmarked
    rcases List.mem_cons.1 hb' with rfl | hb'
    · exact hfresh s _ s₁ hstep k hk hmarked
    · exact ih hrest b' hb' k hk (hmono s b s₁ hstep k hmarked)

/-- **A run meets no marker twice.** -/
theorem disjoint_of_exec (marked : S → κ → Prop)
    (hfresh : ∀ s b s', step s b = some s' → ∀ k ∈ marks b, ¬ marked s k)
    (hmono : ∀ s b s', step s b = some s' → ∀ k, marked s k → marked s' k)
    {bs : List B} (hmark : ∀ b ∈ bs, ∀ s s', step s b = some s' → ∀ k ∈ marks b, marked s' k)
    {s s' : S} (h : exec step s bs = some s') :
    bs.Pairwise fun b b' => List.Disjoint (marks b) (marks b') := by
  induction bs generalizing s with
  | nil => exact .nil
  | cons b bs ih =>
    obtain ⟨s₁, hstep, hrest⟩ := Option.bind_eq_some_iff.1 h
    refine .cons (fun b' hb' k hk hk' => ?_) (ih (fun b' hb' => hmark b' (.tail _ hb')) hrest)
    have hset := hmark b List.mem_cons_self s s₁ hstep k hk
    exact unmarked_of_exec hfresh hmono hrest b' hb' k hk' hset

end Once
