import DyShard.Lib.Client
import DyShard.Lib.Transition

/-!
# Histories with snapshots in any order

A **history** is any sequence of calls, snapshots and reverts; a revert may name a number that was
never given out or that an earlier revert has dropped.
-/

open List Option Nat

namespace Transition

variable {S T A B : Type*}

/-- Two systems side by side; each step is one of the first or one of the second. -/
def both (step : S → A → Option S) (step' : T → B → Option T) :
    S × T → A ⊕ B → Option (S × T)
  | (s, t), .inl a => (step s a).map fun s' => (s', t)
  | (s, t), .inr b => (step' t b).map fun t' => (s, t')

/-- **Each side of two systems runs on its own steps alone.** -/
theorem exec_both {step : S → A → Option S} {step' : T → B → Option T} {xs : List (A ⊕ B)}
    {s s' : S} {t t' : T} (h : exec (both step step') (s, t) xs = some (s', t')) :
    exec step s (xs.filterMap Sum.getLeft?) = some s' ∧
      exec step' t (xs.filterMap Sum.getRight?) = some t' := by
  induction xs generalizing s t with
  | nil =>
    cases h
    exact ⟨rfl, rfl⟩
  | cons x xs ih =>
    obtain ⟨⟨s₁, t₁⟩, hx, hrest⟩ := bind_eq_some_iff.1 h
    obtain ⟨hs, ht⟩ := ih hrest
    cases x with
    | inl a =>
      obtain ⟨s₂, ha, heq⟩ := map_eq_some_iff.1 hx
      cases heq
      exact ⟨by simpa [ha] using hs, ht⟩
    | inr b =>
      obtain ⟨t₂, hb, heq⟩ := map_eq_some_iff.1 hx
      cases heq
      exact ⟨hs, by simpa [hb] using ht⟩

end Transition

namespace Client

open Transition

variable {I : Interface} {σ τ U K E : Type}

/-- One step of a history. -/
inductive Step (I : Interface) where
  | call (c : I.Call)
  | snapshot
  | revert (id : ℕ)

/-- One step on a state with snapshots; what a call answers is dropped. -/
def Machine.step (M : Machine I σ) (s : σ) : Step I → Option σ
  | .call c => (M.call c s).map Prod.snd
  | .snapshot => some (M.snapshot s).1
  | .revert id => M.revert s id

/-- A history on a state with snapshots. -/
def Machine.exec (M : Machine I σ) (s : σ) (steps : List (Step I)) : Option σ :=
  Transition.exec M.step s steps

section Maps

variable {M : Machine I σ} {N : Machine I τ} {P : σ → Prop} {f : σ → τ} {s s' : σ}
  {steps : List (Step I)}

theorem Machine.Hom.step_inv (hom : M.Hom N P f) {x : Step I} (hs : P s)
    (h : M.step s x = some s') : P s' := by
  cases x with
  | call c =>
    obtain ⟨⟨r, s₁⟩, hc, rfl⟩ := map_eq_some_iff.1 h
    exact hom.call_inv c s r s₁ hs hc
  | snapshot =>
    cases h
    exact hom.snapshot_inv s hs
  | revert id => exact hom.revert_inv s id s' hs h

theorem Machine.Hom.step_map (hom : M.Hom N P f) {s : σ} (hs : P s) (x : Step I) :
    (M.step s x).map f = N.step (f s) x := by
  cases x with
  | call c =>
    simp only [Machine.step, ← hom.call c s hs, Option.map_map]
    rfl
  | snapshot =>
    simp only [Machine.step, ← hom.snapshot s hs, map_some]
    rfl
  | revert id => exact hom.revert s id hs

theorem Machine.Hom.exec_inv (hom : M.Hom N P f) (hs : P s) (h : M.exec s steps = some s') : P s' :=
  (reach_of_exec h).invariant hs fun _ _ _ hs _ hx => hom.step_inv hs hx

/-- **A map of machines maps every history.** -/
theorem Machine.Hom.exec_map (hom : M.Hom N P f) (hs : P s)
    (h : M.exec s steps = some s') : N.exec (f s) steps = some (f s') := by
  induction steps generalizing s with
  | nil => exact congrArg (fun s => some (f s)) (some.inj h)
  | cons x steps ih =>
    obtain ⟨s₁, hx, hrest⟩ := bind_eq_some_iff.1 h
    have hmap : N.step (f s) x = some (f s₁) := by rw [← hom.step_map hs x, hx, map_some]
    simp only [Machine.exec, exec_cons, hmap, bind_some]
    exact ih (hom.step_inv hs hx) hrest

end Maps

/-! ## Undo logs along a history -/

namespace Undo

variable {D : Undo I U K E}

/-- The snapshots taken since `j` stand above its log. -/
def Above (j j' : Log U K E) : Prop :=
  ∀ r ∈ j'.revisions.drop j.revisions.length, j.entries.length ≤ r.2

/-- The snapshot `id` has been dropped, and its number is not given out again. -/
structure Gone (id : ℕ) (j : Log U K E) : Prop where
  absent : ∀ r ∈ j.revisions, r.1 ≠ id
  used : id < j.nextId

variable {j j' : Log U K E} {j₁ j₂ : Log U K E} {id : ℕ}

theorem revert_eq_some (h : D.machine.revert j id = some j') :
    ∃ idx n u, j.revisions[idx]? = some (id, n) ∧
      unwind D.undo (j.entries.drop n).reverse j.data = some u ∧
      j' = { j with data := u, entries := j.entries.take n, revisions := j.revisions.take idx } := by
  simp only [machine] at h
  split at h
  · rename_i r hr
    split at h
    · rename_i hid
      obtain ⟨u, hu, rfl⟩ := map_eq_some_iff.1 h
      exact ⟨_, r.2, u, by rw [hr, ← hid], hu, rfl⟩
    · cases h
  · cases h

theorem Gone.revert_eq_none (h : Gone id j) : D.machine.revert j id = none := by
  cases hr : D.machine.revert j id with
  | none => rfl
  | some j' =>
    obtain ⟨idx, n, u, hget, -, -⟩ := revert_eq_some hr
    exact absurd rfl (h.absent _ (mem_of_getElem? hget))

theorem Gone.step {x : Step I} (h : Gone id j) (hx : D.machine.step j x = some j') :
    Gone id j' := by
  cases x with
  | call c =>
    obtain ⟨⟨r, j₁⟩, hc, rfl⟩ := map_eq_some_iff.1 hx
    obtain ⟨s, -, hs⟩ := map_eq_some_iff.1 hc
    cases hs
    exact ⟨h.absent, h.used⟩
  | snapshot =>
    cases hx
    refine ⟨fun r hr => ?_, lt_succ_of_lt h.used⟩
    rcases mem_append.1 hr with hr | hr
    · exact h.absent r hr
    · cases mem_singleton.1 hr
      exact ne_of_gt h.used
  | revert n =>
    obtain ⟨idx, m, u, -, -, rfl⟩ := revert_eq_some hx
    exact ⟨fun r hr => h.absent r (mem_of_mem_take hr), h.used⟩

theorem Since.revert_later {idx n : ℕ} {u : U} (h : D.Since j j') (habove : Above j j')
    (hn : j.entries.length ≤ n) (hidx : j.revisions.length ≤ idx)
    (hu : unwind D.undo (j'.entries.drop n).reverse j'.data = some u) :
    D.Since j { j' with data := u, entries := j'.entries.take n
                        revisions := j'.revisions.take idx } ∧
      Above j { j' with data := u, entries := j'.entries.take n
                        revisions := j'.revisions.take idx } := by
  obtain ⟨es, he, hback⟩ := h.entries
  obtain ⟨rs, hrs⟩ := h.revisions
  have htake : j'.entries.take n = j.entries ++ es.take (n - j.entries.length) := by
    rw [he, take_append, take_of_length_le hn]
  have hdrop : j'.entries.drop n = es.drop (n - j.entries.length) := by
    rw [he, drop_append, drop_of_length_le hn, nil_append]
  refine ⟨⟨⟨_, htake, ?_⟩, ⟨rs.take (idx - j.revisions.length), ?_⟩, ?_, h.nextId⟩, ?_⟩
  · -- the rest of the log starts from the data that the revert has put back
    have hsplit := hback
    rw [← take_append_drop (n - j.entries.length) es, reverse_append, unwind_append,
      ← hdrop, hu] at hsplit
    exact hsplit
  · rw [hrs, take_append, take_of_length_le hidx]
  · exact fun r hr => h.fresh r (mem_of_mem_take hr)
  · intro r hr
    rw [drop_take] at hr
    exact habove r (mem_of_mem_take hr)

theorem Since.step {x : Step I} (hj : ∀ r ∈ j.revisions, r.1 < j.nextId)
    (h : D.Since (D.machine.snapshot j).1 j₁) (habove : Above (D.machine.snapshot j).1 j₁)
    (hx : D.machine.step j₁ x = some j₂) :
    (D.Since (D.machine.snapshot j).1 j₂ ∧ Above (D.machine.snapshot j).1 j₂) ∨
      (Gone j.nextId j₂ ∧ ∃ n ≤ j.nextId, x = .revert n) := by
  have hlen : (D.machine.snapshot j).1.entries.length ≤ j₁.entries.length := by
    obtain ⟨es, he, -⟩ := h.entries
    simp [he]
  have hrlen : (D.machine.snapshot j).1.revisions.length ≤ j₁.revisions.length := by
    obtain ⟨rs, hrs⟩ := h.revisions
    simp [hrs]
  cases x with
  | call c =>
    obtain ⟨⟨r, j₂'⟩, hc, rfl⟩ := map_eq_some_iff.1 hx
    have hs := since_call h.fresh hc
    obtain ⟨s, -, hs'⟩ := map_eq_some_iff.1 hc
    cases hs'
    exact .inl ⟨h.trans hs, habove⟩
  | snapshot =>
    cases hx
    refine .inl ⟨h.trans (since_snapshot h.fresh), fun r hr => ?_⟩
    have hr' : r ∈ j₁.revisions.drop (D.machine.snapshot j).1.revisions.length ++
        [(j₁.nextId, j₁.entries.length)] := by
      rwa [← drop_append_of_le_length hrlen]
    rcases mem_append.1 hr' with hr | hr
    · exact habove r hr
    · cases mem_singleton.1 hr
      exact hlen
  | revert n =>
    obtain ⟨idx, m, u, hget, hu, rfl⟩ := revert_eq_some hx
    obtain ⟨rs, hrs⟩ := h.revisions
    by_cases hidx : (D.machine.snapshot j).1.revisions.length ≤ idx
    · have hm : (D.machine.snapshot j).1.entries.length ≤ m := by
        refine habove (n, m) (mem_of_getElem?
          (i := idx - (D.machine.snapshot j).1.revisions.length) ?_)
        rw [getElem?_drop, Nat.add_sub_cancel' hidx, hget]
      exact .inl (h.revert_later habove hm hidx hu)
    · -- the revert goes back to the snapshot of `j` or beyond it
      have hidx' : idx ≤ j.revisions.length := by
        simp only [machine, length_append, length_singleton] at hidx
        omega
      have htake : j₁.revisions.take idx = j.revisions.take idx := by
        rw [hrs]
        simp only [machine, append_assoc]
        rw [take_append_of_le_length hidx']
      refine .inr ⟨⟨fun r hr => ?_, Nat.lt_of_lt_of_le (Nat.lt_succ_self _) h.nextId⟩, n, ?_, rfl⟩
      · rw [htake] at hr
        exact Nat.ne_of_lt (hj r (mem_of_mem_take hr))
      · have hmem : (n, m) ∈ (D.machine.snapshot j).1.revisions := by
          rw [hrs, getElem?_append_left (Nat.lt_of_not_le hidx)] at hget
          exact mem_of_getElem? hget
        rcases mem_append.1 hmem with hmem | hmem
        · exact Nat.le_of_lt (hj _ hmem)
        · exact le_of_eq (Prod.mk.inj (mem_singleton.1 hmem)).1

/-- **Along a history from a snapshot** the snapshot stays, or it is gone for good. -/
theorem Since.exec {steps : List (Step I)}
    (hj : ∀ r ∈ j.revisions, r.1 < j.nextId) (h : D.Since (D.machine.snapshot j).1 j₁)
    (habove : Above (D.machine.snapshot j).1 j₁) (hexec : D.machine.exec j₁ steps = some j₂) :
    (D.Since (D.machine.snapshot j).1 j₂ ∧ Above (D.machine.snapshot j).1 j₂) ∨
      (Gone j.nextId j₂ ∧ ∃ n ≤ j.nextId, Step.revert n ∈ steps) := by
  induction steps generalizing j₁ with
  | nil =>
    cases hexec
    exact .inl ⟨h, habove⟩
  | cons x steps ih =>
    obtain ⟨j', hx, hrest⟩ := bind_eq_some_iff.1 hexec
    rcases h.step hj habove hx with ⟨h', habove'⟩ | ⟨hgone, n, hn, rfl⟩
    · exact (ih h' habove' hrest).imp_right fun ⟨hgone, n, hn, hmem⟩ =>
        ⟨hgone, n, hn, mem_cons_of_mem _ hmem⟩
    · refine .inr ⟨?_, n, hn, mem_cons_self⟩
      exact (reach_of_exec hrest).invariant hgone fun _ _ _ hgone _ hy => hgone.step hy

section Snapshot

variable {j j' : Log U K E} {steps : List (Step I)}

theorem above_snapshot (j : Log U K E) :
    Above (D.machine.snapshot j).1 (D.machine.snapshot j).1 := by
  simp [Above]

/-- **A revert to a snapshot is exact, whatever happened in between.** -/
theorem revert_exec (hj : ∀ r ∈ j.revisions, r.1 < j.nextId)
    (hexec : D.machine.exec (D.machine.snapshot j).1 steps = some j') {j'' : Log U K E}
    (hrevert : D.machine.revert j' (D.machine.snapshot j).2 = some j'') :
    j'' = { j with kept := j'.kept, nextId := j'.nextId } := by
  have h₀ : D.Since (D.machine.snapshot j).1 (D.machine.snapshot j).1 :=
    .refl (since_snapshot hj).fresh
  rcases h₀.exec hj (above_snapshot j) hexec with ⟨h, -⟩ | ⟨hgone, -⟩
  · rw [revert_snapshot hj h] at hrevert
    exact (some.inj hrevert).symm
  · have hnone : D.machine.revert j' (D.machine.snapshot j).2 = none := hgone.revert_eq_none
    simp [hnone] at hrevert

theorem revert_exec_isSome (hj : ∀ r ∈ j.revisions, r.1 < j.nextId)
    (hexec : D.machine.exec (D.machine.snapshot j).1 steps = some j')
    (hinner : ∀ n, Step.revert n ∈ steps → (D.machine.snapshot j).2 < n) :
    (D.machine.revert j' (D.machine.snapshot j).2).isSome := by
  have h₀ : D.Since (D.machine.snapshot j).1 (D.machine.snapshot j).1 :=
    .refl (since_snapshot hj).fresh
  rcases h₀.exec hj (above_snapshot j) hexec with ⟨h, -⟩ | ⟨-, n, hn, hmem⟩
  · rw [revert_snapshot hj h]
    rfl
  · exact absurd hn (not_le.2 (hinner n hmem))

end Snapshot

section Refines

variable {M : Machine I σ} {P : σ → Prop} {f : σ → Log U K E} {s s' : σ} {steps : List (Step I)}

theorem exec_refined (hom : M.Hom D.machine P f) (hs : P s)
    (hexec : M.exec (M.snapshot s).1 steps = some s') :
    D.machine.exec (D.machine.snapshot (f s)).1 steps = some (f s') ∧
      D.machine.revert (f s') (D.machine.snapshot (f s)).2 =
        (M.revert s' (M.snapshot s).2).map f := by
  have hs₀ := hom.snapshot_inv s hs
  rw [← hom.snapshot s hs, hom.revert s' _ (hom.exec_inv hs₀ hexec)]
  exact ⟨hom.exec_map hs₀ hexec, rfl⟩

theorem revert_refined (hom : M.Hom D.machine P f) (hs : P s)
    (hj : ∀ r ∈ (f s).revisions, r.1 < (f s).nextId)
    (hexec : M.exec (M.snapshot s).1 steps = some s') {s'' : σ}
    (hrevert : M.revert s' (M.snapshot s).2 = some s'') :
    f s'' = { f s with kept := (f s').kept, nextId := (f s').nextId } := by
  obtain ⟨hlog, hback⟩ := exec_refined hom hs hexec
  rw [hrevert] at hback
  exact revert_exec hj hlog hback

theorem exists_revert_refined (hom : M.Hom D.machine P f) (hs : P s)
    (hj : ∀ r ∈ (f s).revisions, r.1 < (f s).nextId)
    (hexec : M.exec (M.snapshot s).1 steps = some s')
    (hinner : ∀ n, Step.revert n ∈ steps → (M.snapshot s).2 < n) :
    ∃ s'', M.revert s' (M.snapshot s).2 = some s'' := by
  obtain ⟨hlog, hback⟩ := exec_refined hom hs hexec
  rw [show (M.snapshot s).2 = (D.machine.snapshot (f s)).2 from
    congrArg Prod.snd (hom.snapshot s hs)] at hinner
  have hsome := revert_exec_isSome hj hlog hinner
  rw [hback, isSome_map] at hsome
  exact isSome_iff_exists.1 hsome

end Refines

end Undo

end Client
