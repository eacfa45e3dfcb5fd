import DyShard.Lib.Client

/-!
# Clients that may refuse

A check is a client that returns a value or an error.  A successful run of a sequence is a sequence
of successful runs.
-/

namespace Client

open Option Machine

variable {I : Interface} {ε α β σ : Type}

/-- A client that may refuse. -/
abbrev Check (I : Interface) (ε α : Type) := ExceptT ε (Prog I) α

/-- The check succeeds on `s` with the value `a` and leaves `s'`. -/
def Machine.Succeeds (M : Machine I σ) (x : Check I ε α) (s : σ) (a : α) (s' : σ) : Prop :=
  M.run (ExceptT.run x) s = some (.ok a, s')

variable {M : Machine I σ} {s s' : σ}

variable {a : α} {x : Check I ε α} {f : α → Check I ε β} {b : β}

theorem succeeds_pure {b : α} : M.Succeeds (pure a : Check I ε α) s b s' ↔ b = a ∧ s' = s := by
  simp only [Succeeds, ExceptT.run_pure]
  change some (Except.ok a, s) = some (Except.ok b, s') ↔ _
  simp [eq_comm]

theorem run_check_bind (x : Check I ε α) (f : α → Check I ε β) :
    M.run (ExceptT.run (x >>= f)) s = (M.run (ExceptT.run x) s).bind fun r =>
      match r.1 with
      | .ok a => M.run (ExceptT.run (f a)) r.2
      | .error e => some (.error e, r.2) := by
  have hbind : ExceptT.run (x >>= f) = Prog.bind (ExceptT.run x) fun
      | .ok a => ExceptT.run (f a)
      | .error e => .ret (.error e) := rfl
  rw [hbind, run_bind]
  refine congrArg _ (funext fun r => ?_)
  cases r.1 <;> rfl

/-- **A sequence succeeds if its parts do.** -/
theorem succeeds_bind :
    M.Succeeds (x >>= f) s b s' ↔ ∃ a s₁, M.Succeeds x s a s₁ ∧ M.Succeeds (f a) s₁ b s' := by
  unfold Succeeds
  rw [run_check_bind, bind_eq_some_iff]
  constructor
  · rintro ⟨⟨r, s₁⟩, hx, hf⟩
    cases r with
    | error e => cases hf
    | ok a => exact ⟨a, s₁, hx, hf⟩
  · rintro ⟨a, s₁, hx, hf⟩
    exact ⟨_, hx, hf⟩

theorem not_succeeds_throw {e : ε} : ¬ M.Succeeds (throw e : Check I ε α) s a s' := by
  intro h
  cases (Prod.mk.inj (some.inj h)).1

theorem succeeds_lift {p : Prog I α} :
    M.Succeeds (liftM p : Check I ε α) s a s' ↔ M.run p s = some (a, s') := by
  have hlift : ExceptT.run (liftM p : Check I ε α) = Prog.bind p fun a => .ret (.ok a) := rfl
  unfold Succeeds
  rw [hlift, run_bind, bind_eq_some_iff]
  constructor
  · rintro ⟨⟨b, s₁⟩, hp, h⟩
    obtain ⟨hb, rfl⟩ := Prod.mk.inj (some.inj h)
    cases hb
    exact hp
  · intro h
    exact ⟨_, h, rfl⟩

theorem succeeds_guard {p : Prop} [Decidable p] {e : ε} :
    M.Succeeds (if p then throw e else x) s a s' ↔ ¬ p ∧ M.Succeeds x s a s' := by
  split_ifs with hp
  · exact ⟨fun h => absurd h not_succeeds_throw, fun h => absurd hp h.1⟩
  · exact ⟨fun h => ⟨hp, h⟩, fun h => h.2⟩

theorem succeeds_reads {p : Prog I α} (h : M.run p s = some (a, s)) :
    M.Succeeds (liftM p >>= f : Check I ε β) s b s' ↔ M.Succeeds (f a) s b s' := by
  rw [succeeds_bind]
  constructor
  · rintro ⟨a', s₁, hp, hf⟩
    cases h.symm.trans (succeeds_lift.1 hp)
    exact hf
  · intro hf
    exact ⟨a, s, succeeds_lift.2 h, hf⟩

/-- A value or an error that was found without looking at the state. -/
def Check.ofExcept (r : Except ε α) : Check I ε α := ExceptT.mk (pure r)

theorem succeeds_ofExcept {r : Except ε α} :
    M.Succeeds (Check.ofExcept r) s a s' ↔ r = .ok a ∧ s' = s := by
  change some (r, s) = some (Except.ok a, s') ↔ _
  simp [eq_comm]

theorem Machine.Succeeds.after {P : α → Prop} (h : M.Succeeds (x >>= f) s b s')
    (hx : ∀ {a s₁}, M.Succeeds x s a s₁ → P a ∧ s₁ = s) : ∃ a, P a ∧ M.Succeeds (f a) s b s' := by
  obtain ⟨a, s₁, hrun, hrest⟩ := succeeds_bind.1 h
  obtain ⟨ha, rfl⟩ := hx hrun
  exact ⟨a, ha, hrest⟩

end Client
