import Mathlib.Data.List.Basic
import Mathlib.Tactic.Common

/-!
# Programs that run on somebody else's state

A **client** works on a state only through calls, and may try a part of its work under a snapshot.
What every call, snapshot and revert keeps, every client keeps.  An undo log reverts by undoing
what its calls have logged.
-/

namespace Client

open List Option

/-- The calls of an interface and the type of what each answers. -/
structure Interface where
  Call : Type
  Answer : Call → Type

/-- Clients of an interface.  `attempt body undo k` reverts `body` if `undo` says so of its result.
-/
inductive Prog (I : Interface) : Type → Type 1
  | ret {α : Type} (a : α) : Prog I α
  | call {α : Type} (c : I.Call) (k : I.Answer c → Prog I α) : Prog I α
  | attempt {α β : Type} (body : Prog I β) (undo : β → Bool) (k : β → Prog I α) : Prog I α

variable {I : Interface} {α β σ τ : Type}

namespace Prog

/-- Sequential composition. -/
def bind : Prog I α → (α → Prog I β) → Prog I β
  | .ret a, f => f a
  | .call c k, f => .call c fun r => (k r).bind f
  | .attempt body undo k, f => .attempt body undo fun b => (k b).bind f

instance : Monad (Prog I) where
  pure := .ret
  bind := bind

end Prog

/-! ## States with snapshots -/

/-- A state with numbered snapshots.  `none` is a crash. -/
structure Machine (I : Interface) (σ : Type) where
  call : (c : I.Call) → σ → Option (I.Answer c × σ)
  snapshot : σ → σ × ℕ
  revert : σ → ℕ → Option σ

/-- A run on a state with snapshots. -/
def Machine.run (M : Machine I σ) {α : Type} : Prog I α → σ → Option (α × σ)
  | .ret a, s => some (a, s)
  | .call c k, s => (M.call c s).bind fun r => M.run (k r.1) r.2
  | .attempt body undo k, s =>
    (M.run body (M.snapshot s).1).bind fun r =>
      if undo r.1 then (M.revert r.2 (M.snapshot s).2).bind fun s' => M.run (k r.1) s'
      else M.run (k r.1) r.2

variable (M : Machine I σ)

theorem Machine.run_bind (p : Prog I α) (f : α → Prog I β) (s : σ) :
    M.run (p.bind f) s = (M.run p s).bind fun r => M.run (f r.1) r.2 := by
  induction p generalizing s with
  | ret a => rfl
  | call c k ih =>
    simp only [Prog.bind, Machine.run, bind_assoc]
    exact congrArg _ (funext fun r => ih r.1 f r.2)
  | attempt body undo k _ ih =>
    simp only [Prog.bind, Machine.run, bind_assoc]
    refine congrArg _ (funext fun r => ?_)
    split
    · rw [bind_assoc]
      exact congrArg _ (funext fun s' => ih r.1 f s')
    · exact ih r.1 f r.2

/-- **What every step keeps, every client keeps.** -/
theorem Machine.run_inv {P : σ → Prop} (hcall : ∀ c s r s', P s → M.call c s = some (r, s') → P s')
    (hsnapshot : ∀ s, P s → P (M.snapshot s).1)
    (hrevert : ∀ s n s', P s → M.revert s n = some s' → P s') (p : Prog I α) {s s' : σ} {a : α}
    (hs : P s) (hrun : M.run p s = some (a, s')) : P s' := by
  induction p generalizing s s' with
  | ret b =>
    cases hrun
    exact hs
  | call c k ih =>
    obtain ⟨⟨r, s₁⟩, hc, hk⟩ := bind_eq_some_iff.1 hrun
    exact ih r (hcall c s r s₁ hs hc) hk
  | attempt body undo k ihb ihk =>
    obtain ⟨⟨b, s₁⟩, hb, hk⟩ := bind_eq_some_iff.1 hrun
    have h₁ := ihb (hsnapshot s hs) hb
    split at hk
    · obtain ⟨s₂, hr, hk⟩ := bind_eq_some_iff.1 hk
      exact ihk b (hrevert _ _ _ h₁ hr) hk
    · exact ihk b h₁ hk

/-- The machine that crashes at every call that is not `ok`. -/
def Machine.restrict (ok : I.Call → Bool) : Machine I σ :=
  { M with call := fun c s => if ok c then M.call c s else none }

theorem Machine.call_restrict {M : Machine I σ} {ok : I.Call → Bool} {c : I.Call} {s : σ}
    {r : I.Answer c × σ} (h : (M.restrict ok).call c s = some r) :
    ok c = true ∧ M.call c s = some r := by
  by_cases hok : ok c
  · exact ⟨hok, by simpa [restrict, hok] using h⟩
  · simp [restrict, hok] at h

theorem Machine.run_restrict (ok : I.Call → Bool) (p : Prog I α) {s : σ} {r : α × σ}
    (hrun : (M.restrict ok).run p s = some r) : M.run p s = some r := by
  induction p generalizing s with
  | ret b => exact hrun
  | call c k ih =>
    obtain ⟨⟨b, s₁⟩, hc, hk⟩ := bind_eq_some_iff.1 hrun
    simp only [Machine.run, (call_restrict hc).2, bind_some]
    exact ih b hk
  | attempt body undo k ihb ihk =>
    obtain ⟨⟨b, s₁⟩, hb, hk⟩ := bind_eq_some_iff.1 hrun
    have hbody : M.run body (M.snapshot s).1 = some (b, s₁) := ihb hb
    simp only [Machine.run, hbody, bind_some]
    by_cases hu : undo b
    · rw [if_pos hu] at hk ⊢
      obtain ⟨s₂, hr, hk⟩ := bind_eq_some_iff.1 hk
      have hrev : M.revert s₁ (M.snapshot s).2 = some s₂ := hr
      rw [hrev]
      exact ihk b hk
    · rw [if_neg hu] at hk ⊢
      exact ihk b hk

theorem Machine.run_restrict_eq (ok : I.Call → Bool) (p : Prog I α) (s : σ) :
    (M.restrict ok).run p s = none ∨ (M.restrict ok).run p s = M.run p s := by
  cases h : (M.restrict ok).run p s with
  | none => exact .inl rfl
  | some r => exact .inr (M.run_restrict ok p h).symm

/-- `f` maps the machine `M` into `N`, as far as the states that satisfy `P` go. -/
structure Machine.Hom (M : Machine I σ) (N : Machine I τ) (P : σ → Prop) (f : σ → τ) : Prop where
  call : ∀ c s, P s → (M.call c s).map (Prod.map id f) = N.call c (f s)
  snapshot : ∀ s, P s → Prod.map f id (M.snapshot s) = N.snapshot (f s)
  revert : ∀ s n, P s → (M.revert s n).map f = N.revert (f s) n
  call_inv : ∀ c s r s', P s → M.call c s = some (r, s') → P s'
  snapshot_inv : ∀ s, P s → P (M.snapshot s).1
  revert_inv : ∀ s n s', P s → M.revert s n = some s' → P s'

/-! ## Undo logs -/

variable {U K E : Type}

/-- Undo logged entries, the latest first. -/
def unwind (undo : E → U → Option U) : List E → U → Option U
  | [], u => some u
  | e :: es, u => (undo e u).bind (unwind undo es)

theorem unwind_append (undo : E → U → Option U) (es es' : List E) (u : U) :
    unwind undo (es ++ es') u = (unwind undo es u).bind (unwind undo es') := by
  induction es generalizing u with
  | nil => rfl
  | cons e es ih =>
    simp only [cons_append, unwind, bind_assoc]
    exact congrArg _ (funext ih)

/-- Calls that log how to undo what they do to the data `U`; what they do to `K` is kept
on a revert. -/
structure Undo (I : Interface) (U K E : Type) where
  call : (c : I.Call) → U → K → Option (I.Answer c × U × K × List E)
  undo : E → U → Option U
  undo_call : ∀ c u k r u' k' es, call c u k = some (r, u', k', es) →
    unwind undo es.reverse u' = some u

/-- The data, the log since it was cleared, and the snapshots, each with number and length. -/
structure Log (U K E : Type) where
  data : U
  kept : K
  entries : List E
  revisions : List (ℕ × ℕ)
  nextId : ℕ

namespace Undo

variable (D : Undo I U K E)

/-- The machine that reverts by undoing. -/
def machine : Machine I (Log U K E) where
  call c j := (D.call c j.data j.kept).map fun r =>
    (r.1, { j with data := r.2.1, kept := r.2.2.1, entries := j.entries ++ r.2.2.2 })
  snapshot j :=
    ({ j with revisions := j.revisions ++ [(j.nextId, j.entries.length)]
              nextId := j.nextId + 1 }, j.nextId)
  revert j id :=
    let idx := j.revisions.findIdx fun r => decide (id ≤ r.1)
    match j.revisions[idx]? with
    | some r =>
      if r.1 = id then
        (unwind D.undo (j.entries.drop r.2).reverse j.data).map fun u =>
          { j with data := u, entries := j.entries.take r.2, revisions := j.revisions.take idx }
      else none
    | none => none

/-- The log since `j` leads back to `j`, and the snapshots since have higher numbers. -/
structure Since (j j' : Log U K E) : Prop where
  entries : ∃ es, j'.entries = j.entries ++ es ∧ unwind D.undo es.reverse j'.data = some j.data
  revisions : ∃ rs, j'.revisions = j.revisions ++ rs
  fresh : ∀ r ∈ j'.revisions, r.1 < j'.nextId
  nextId : j.nextId ≤ j'.nextId

variable {D}

theorem Since.refl {j : Log U K E} (h : ∀ r ∈ j.revisions, r.1 < j.nextId) : D.Since j j :=
  ⟨⟨[], by simp, rfl⟩, ⟨[], by simp⟩, h, Nat.le_refl _⟩

theorem Since.trans {j j' j'' : Log U K E} (h : D.Since j j') (h' : D.Since j' j'') :
    D.Since j j'' := by
  obtain ⟨es, he, hu⟩ := h.entries
  obtain ⟨es', he', hu'⟩ := h'.entries
  obtain ⟨rs, hr⟩ := h.revisions
  obtain ⟨rs', hr'⟩ := h'.revisions
  refine ⟨⟨es ++ es', by rw [he', he, append_assoc], ?_⟩,
    ⟨rs ++ rs', by rw [hr', hr, append_assoc]⟩, h'.fresh, Nat.le_trans h.nextId h'.nextId⟩
  rw [reverse_append, unwind_append, hu']
  exact hu

theorem since_call {j j' : Log U K E} {c : I.Call} {r : I.Answer c}
    (hj : ∀ r ∈ j.revisions, r.1 < j.nextId) (h : D.machine.call c j = some (r, j')) :
    D.Since j j' := by
  obtain ⟨⟨r, u', k', es⟩, hc, hrj⟩ := map_eq_some_iff.1 h
  cases hrj
  exact ⟨⟨es, rfl, D.undo_call c _ _ _ _ _ _ hc⟩, ⟨[], by simp⟩, hj, Nat.le_refl _⟩

theorem since_snapshot {j : Log U K E} (hj : ∀ r ∈ j.revisions, r.1 < j.nextId) :
    D.Since j (D.machine.snapshot j).1 := by
  refine ⟨⟨[], by simp [machine], rfl⟩, ⟨_, rfl⟩, fun r hr => ?_, Nat.le_succ _⟩
  rcases mem_append.1 hr with hr | hr
  · exact Nat.lt_succ_of_lt (hj r hr)
  · cases mem_singleton.1 hr
    exact Nat.lt_succ_self _

/-- Reverting to a snapshot puts back the data, and only the data. -/
theorem revert_snapshot {j j' : Log U K E} (hj : ∀ r ∈ j.revisions, r.1 < j.nextId)
    (h : D.Since (D.machine.snapshot j).1 j') :
    D.machine.revert j' (D.machine.snapshot j).2 =
      some { j with kept := j'.kept, nextId := j'.nextId } := by
  obtain ⟨es, he, hu⟩ := h.entries
  obtain ⟨rs, hr⟩ := h.revisions
  have hidx : j'.revisions.findIdx (fun r => decide (j.nextId ≤ r.1)) = j.revisions.length := by
    rw [hr]
    simp only [machine, append_assoc, singleton_append]
    rw [findIdx_append, findIdx_eq_length_of_false]
    · simp [findIdx_cons]
    · intro r hr
      simpa using hj r hr
  have hget : j'.revisions[j.revisions.length]? = some (j.nextId, j.entries.length) := by
    rw [hr]
    simp [machine]
  simp only [machine] at he hu hr ⊢
  rw [hidx, hget]
  simp only [if_true, he, drop_left, hu, map_some, take_left]
  rw [hr, append_assoc, take_left]

end Undo

end Client
