import Mathlib

/-!
# Step functions, guarded runs and inevitability

In state `s` the scheduler picks an action `a`, and `step s a` is the next state, or `none` when
the action is not enabled.  The scheduler is an adversary: statements are about all choices.
-/

namespace Transition

variable {S A : Type*} {step : S → A → Option S} {ok : S → A → Prop} {s₀ : S}

/-! ## Guarded reachability -/

/-- States reached from `s₀` by steps that all meet the guard `ok`. -/
inductive Reach (step : S → A → Option S) (ok : S → A → Prop) (s₀ : S) : S → Prop
  | refl : Reach step ok s₀ s₀
  | tail {s s' : S} {a : A} :
      Reach step ok s₀ s → ok s a → step s a = some s' → Reach step ok s₀ s'

/-- The guard that allows every step. -/
def anyStep (_ : S) (_ : A) : Prop := True

variable {P : S → Prop} {s t : S} {as : List A}

/-- An invariant that holds at the start and is kept by every guarded step
holds in every state reached. -/
theorem Reach.invariant (h0 : P s₀) (hstep : ∀ s a s', P s → ok s a → step s a = some s' → P s')
    (h : Reach step ok s₀ s) : P s := by
  induction h with
  | refl => exact h0
  | tail _ hok hst ih => exact hstep _ _ _ ih hok hst

theorem Reach.trans (h : Reach step ok s₀ s) (h' : Reach step ok s t) : Reach step ok s₀ t := by
  induction h' with
  | refl => exact h
  | tail _ hok hst ih => exact ih.tail hok hst

theorem Reach.mono {ok' : S → A → Prop} (hok : ∀ s a, ok s a → ok' s a) (h : Reach step ok s₀ s) :
    Reach step ok' s₀ s := by
  induction h with
  | refl => exact .refl
  | tail _ hs hst ih => exact ih.tail (hok _ _ hs) hst

/-! ## Replay of a schedule -/

/-- Replay a schedule from a state; `none` as soon as an action is not enabled. -/
def exec (step : S → A → Option S) (s : S) : List A → Option S
  | [] => some s
  | a :: as => (step s a).bind fun s' => exec step s' as

@[simp] theorem exec_nil (s : S) : exec step s [] = some s := rfl

@[simp] theorem exec_cons (s : S) (a : A) (as : List A) :
    exec step s (a :: as) = (step s a).bind fun s' => exec step s' as := rfl

theorem exec_append (s : S) (as bs : List A) :
    exec step s (as ++ bs) = (exec step s as).bind fun t => exec step t bs := by
  induction as generalizing s with
  | nil => rfl
  | cons a as ih =>
    cases hs : step s a with
    | none => simp [hs]
    | some s' => simp [hs, ih]

theorem exec_concat_eq_some {a : A} :
    exec step s (as ++ [a]) = some t ↔ ∃ u, exec step s as = some u ∧ step u a = some t := by
  simp [exec_append, Option.bind_eq_some_iff]

theorem foldlM_eq_exec (s : S) (as : List A) : as.foldlM step s = exec step s as := by
  induction as generalizing s with
  | nil => rfl
  | cons a as ih =>
    exact congrArg (step s a).bind (funext ih)

theorem exec_induction {P : List A → S → Prop} (h0 : P [] s)
    (hstep : ∀ done a rest u u', as = done ++ a :: rest → P done u → step u a = some u' →
      P (done ++ [a]) u') (h : exec step s as = some t) : P as t := by
  have hloop : ∀ (rest done : List A) (u : S), as = done ++ rest → P done u →
      exec step u rest = some t → P as t := by
    intro rest
    induction rest with
    | nil =>
      intro done u has hu hexec
      cases hexec
      rwa [has, List.append_nil]
    | cons a rest ih =>
      intro done u has hu hexec
      obtain ⟨u', hu', hrest⟩ := Option.bind_eq_some_iff.1 hexec
      exact ih (done ++ [a]) u' (by rw [has, List.append_assoc]; rfl)
        (hstep done a rest u u' has hu hu') hrest
  exact hloop as [] s rfl h0 h

theorem reach_of_exec_forall (hok : ∀ a ∈ as, ∀ s, ok s a) (h : exec step s as = some t) :
    Reach step ok s t := by
  refine exec_induction (P := fun _ => Reach step ok s) .refl (fun done a rest u u' has hu hs => ?_) h
  exact hu.tail (hok a (by simp [has]) u) hs

theorem reach_of_exec (h : exec step s as = some t) : Reach step anyStep s t :=
  reach_of_exec_forall (fun _ _ _ => trivial) h

theorem facts_of_map {B C : Type} {r : Option S} {f : S → B} {g : S → C} {b : B} {c : C}
    (h : (r.map fun s => (f s, g s)) = some (b, c)) : ∃ s, r = some s ∧ f s = b ∧ g s = c := by
  obtain ⟨s, hs, hfacts⟩ := Option.map_eq_some_iff.1 h
  exact ⟨s, hs, Prod.mk.inj hfacts⟩

/-- Steps that violate the guard are disabled. -/
def guarded (step : S → A → Option S) (ok : S → A → Prop) [∀ s a, Decidable (ok s a)]
    (s : S) (a : A) : Option S := if ok s a then step s a else none

theorem reach_of_exec_guarded [∀ s a, Decidable (ok s a)] (h : exec (guarded step ok) s as = some t)
    : Reach step ok s t := by
  refine exec_induction (P := fun _ => Reach step ok s) .refl (fun _ a _ u u' _ hu hs => ?_) h
  unfold guarded at hs
  split at hs
  · rename_i hok
    exact hu.tail hok hs
  · cases hs

/-- Replay of a schedule that passes over the actions that are not enabled. -/
def replay (step : S → A → Option S) (s : S) (as : List A) : S :=
  as.foldl (fun s a => (step s a).getD s) s

theorem Reach.getD {a : A} (h : Reach step ok s₀ s) (hok : ok s a) :
    Reach step ok s₀ ((step s a).getD s) := by
  cases hs : step s a with
  | none => exact h
  | some t => exact h.tail hok hs

theorem reach_replay [∀ s a, Decidable (ok s a)] (s : S) (as : List A) :
    Reach step ok s (replay (guarded step ok) s as) := by
  refine List.foldlRecOn as _ .refl fun t ht a _ => ?_
  unfold guarded
  split
  case isTrue hok => exact ht.getD hok
  case isFalse => exact ht

theorem Reach.replay_pair {a b : A} (h : Reach step ok s₀ s) (ha : ok s a)
    (hb : ok (replay step s [a]) b) : Reach step ok s₀ (replay step s [a, b]) :=
  (h.getD ha).getD hb

/-! ## Inevitability -/

/-- Every run from `s` ends in a state satisfying `done`. -/
inductive Inevitable (step : S → A → Option S) (done : S → Prop) : S → Prop
  | now {s : S} : done s → Inevitable step done s
  | later {s : S} : (∃ a s', step s a = some s') →
      (∀ a s', step s a = some s' → Inevitable step done s') → Inevitable step done s

variable {done : S → Prop}

theorem Inevitable.exists_reach (h : Inevitable step done s) :
    ∃ t, Reach step anyStep s t ∧ done t := by
  induction h with
  | now hd => exact ⟨_, .refl, hd⟩
  | later hex _ ih =>
    obtain ⟨a, s', hs⟩ := hex
    obtain ⟨t, ht, hd⟩ := ih a s' hs
    exact ⟨t, (Reach.refl.tail trivial hs).trans ht, hd⟩

/-- Inevitability survives every step, where the goal once reached is kept. -/
theorem Inevitable.of_reach (h : Inevitable step done s) (h0 : P s)
    (hP : ∀ s a s', P s → step s a = some s' → P s')
    (hkeep : ∀ s a s', P s → done s → step s a = some s' → done s') (hr : Reach step anyStep s t) :
    Inevitable step done t := by
  suffices key : P t ∧ Inevitable step done t from key.2
  induction hr with
  | refl => exact ⟨h0, h⟩
  | tail _ _ hst ih =>
    refine ⟨hP _ _ _ ih.1 hst, ?_⟩
    cases ih.2 with
    | now hd => exact .now (hkeep _ _ _ ih.1 hd hst)
    | later _ hall => exact hall _ _ hst

/-- A measure that every step decreases, together with progress outside `done`,
makes `done` inevitable. -/
theorem Inevitable.of_measure (μ : S → ℕ) (hprog : ∀ s, P s → ¬ done s → ∃ a s', step s a = some s')
    (hstep : ∀ s a s', P s → ¬ done s → step s a = some s' → P s' ∧ μ s' < μ s) :
    ∀ s, P s → Inevitable step done s := by
  intro s
  induction s using (measure μ).wf.induction with
  | h s ih =>
    intro hs
    by_cases hd : done s
    · exact .now hd
    · refine .later (hprog s hs hd) fun a s' hst => ?_
      obtain ⟨hs', hlt⟩ := hstep s a s' hs hd hst
      exact ih s' hlt hs'

end Transition
