import Mathlib.Control.Monad.Basic
import Mathlib.Tactic.Common

/-!
# Outcomes of fallible code

A function panics, returns an error or returns a value.  `Below` compares a run with one that may
panic earlier.
-/

/-- What a call comes to. -/
inductive Outcome (ε α : Type) where
  | panic
  | error (e : ε)
  | ok (a : α)
  deriving DecidableEq

namespace Outcome

open List

variable {ε α β σ : Type}

/-- Go on with the value, if there is one. -/
def bind : Outcome ε α → (α → Outcome ε β) → Outcome ε β
  | .panic, _ => .panic
  | .error e, _ => .error e
  | .ok a, f => f a

instance : Monad (Outcome ε) where
  pure := .ok
  bind := bind

instance : LawfulMonad (Outcome ε) :=
  LawfulMonad.mk' (Outcome ε) (fun x => by cases x <;> rfl) (fun _ _ => rfl)
    (fun x _ _ => by cases x <;> rfl)

/-- A result that may be missing. -/
def ofOption : Option α → Outcome ε α
  | none => .panic
  | some a => .ok a

/-- A result that may be an error. -/
def ofExcept : Except ε α → Outcome ε α
  | .error e => .error e
  | .ok a => .ok a

@[simp] theorem ok_bind (a : α) (f : α → Outcome ε β) : (Outcome.ok a >>= f) = f a := rfl

@[simp] theorem error_bind (e : ε) (f : α → Outcome ε β) : (Outcome.error e >>= f) = .error e := rfl

@[simp] theorem panic_bind (f : α → Outcome ε β) : (Outcome.panic >>= f) = .panic := rfl

variable {x : Outcome ε α} {a : α} {f : σ → α → Outcome ε σ} {as : List α} {s s' : σ}

theorem bind_eq_ok {f : α → Outcome ε β} {b : β} :
    (x >>= f) = .ok b ↔ ∃ a, x = .ok a ∧ f a = .ok b := by
  cases x <;> simp

theorem bind_ne_panic {f : α → Outcome ε β} (hx : x ≠ .panic) (hf : ∀ a, f a ≠ .panic) :
    (x >>= f) ≠ .panic := by
  cases x with
  | panic => exact absurd rfl hx
  | error e => nofun
  | ok a => exact hf a

theorem ne_panic_of_ok (h : x = .ok a) : x ≠ .panic := by
  rw [h]
  nofun

@[simp] theorem ofOption_eq_ok {x : Option α} :
    (ofOption x : Outcome ε α) = .ok a ↔ x = some a := by
  cases x <;> simp [ofOption]

@[simp] theorem ofExcept_eq_ok {x : Except ε α} : ofExcept x = .ok a ↔ x = .ok a := by
  cases x <;> simp [ofExcept]

/-- **The loop rule.**  What every turn keeps, a loop that ends well keeps. -/
theorem foldlM_ok {P : σ → Prop} (hstep : ∀ a ∈ as, ∀ s s', P s → f s a = .ok s' → P s') (hs : P s)
    (h : as.foldlM f s = .ok s') : P s' := by
  induction as generalizing s with
  | nil =>
    cases h
    exact hs
  | cons a as ih =>
    rw [foldlM_cons, bind_eq_ok] at h
    obtain ⟨s₁, h₁, h₂⟩ := h
    refine ih (fun b hb => hstep b (mem_cons_of_mem _ hb)) ?_ h₂
    exact hstep a mem_cons_self s s₁ hs h₁

theorem foldlM_done {P : List α → σ → Prop}
    (hstep : ∀ done a s s', P done s → f s a = .ok s' → P (done ++ [a]) s') (done : List α)
    (hs : P done s) (h : as.foldlM f s = .ok s') : P (done ++ as) s' := by
  induction as generalizing done s with
  | nil =>
    cases h
    rwa [append_nil]
  | cons a as ih =>
    rw [foldlM_cons, bind_eq_ok] at h
    obtain ⟨s₁, h₁, h₂⟩ := h
    rw [append_cons]
    exact ih _ (hstep done a s s₁ hs h₁) h₂

theorem foldlM_count {μ : σ → ℕ} (hstep : ∀ s a s', f s a = .ok s' → μ s' = μ s + 1)
    (h : as.foldlM f s = .ok s') : μ s' = μ s + as.length := by
  refine foldlM_done (P := fun done t => μ t = μ s + done.length)
    (fun done a t t' ht hs => ?_) [] rfl h
  rw [hstep t a t' hs, ht, length_append, length_singleton, Nat.add_assoc]

theorem foldlM_map {g : σ → σ} (hstep : ∀ s a, f (g s) a = g <$> f s a) (as : List α) (s : σ) :
    as.foldlM f (g s) = g <$> as.foldlM f s := by
  induction as generalizing s with
  | nil => rfl
  | cons a as ih =>
    rw [foldlM_cons, foldlM_cons, hstep]
    cases f s a with
    | panic => rfl
    | error e => rfl
    | ok s₁ => exact ih s₁

/-! ## Runs that may crash earlier -/

/-- `x` is `y`, unless it panics. -/
def Below (x y : Outcome ε α) : Prop := x = .panic ∨ x = y

theorem Below.refl (x : Outcome ε α) : Below x x := .inr rfl

theorem Below.bind {y : Outcome ε α} {f g : α → Outcome ε β} (h : Below x y)
    (hf : ∀ a, Below (f a) (g a)) : Below (x >>= f) (y >>= g) := by
  rcases h with rfl | rfl
  · exact .inl rfl
  · cases x with
    | panic => exact .inl rfl
    | error e => exact .inr rfl
    | ok a => exact hf a

theorem Below.foldlM {g : σ → α → Outcome ε σ} (h : ∀ s a, Below (f s a) (g s a)) (as : List α)
    (s : σ) : Below (as.foldlM f s) (as.foldlM g s) := by
  induction as generalizing s with
  | nil => exact .refl _
  | cons a as ih =>
    exact (h s a).bind ih

theorem below_ofOption {x y : Option α} (h : x = none ∨ x = y) :
    Below (ofOption x : Outcome ε α) (ofOption y) := by
  rcases h with rfl | rfl
  · exact .inl rfl
  · exact .refl _

end Outcome
