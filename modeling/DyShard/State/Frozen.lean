import DyShard.State.Backed
import DyShard.State.Snapshot

/-!
# Frozen accounts

Each setter checks the freeze flag by hand.  `CreateAccount` and `Suicide` do not look at it, and
neither does `Finalise` when it deletes empty accounts.
-/

namespace DyShard.State.DB

open Transition Option

variable {W : Type} {codec : WrapperCodec W} {fields : WrapperFields W} {db db' : DB W} {a : Address}

/-- The setters and `Finalise`, without replacing, destroying or deleting the account. -/
def respects (a : Address) (db : DB W) : Action W → Bool
  | .set (.call (.base c)) => !c.replaces a
  | .set (.call (.setFreezeState b _)) => b != a
  | .set (.call _) | .set .snapshot => true
  | .finalise d => !(db.journal.isDirty a && (db.hasSuicided a || (d && db.empty a)))
  | _ => false

theorem getStateObject_of_live {o : Object} (ho : db.stateObjects a = some o)
    (hlive : o.deleted = false) : db.getStateObject a = some o := by
  simp [getStateObject, getDeletedStateObject, ho, hlive]

theorem Frozen.exist_eq (hf : Frozen a db) : db.exist a = true := by
  obtain ⟨o, ho, -, hlive⟩ := hf
  simp [exist, getStateObject_of_live ho hlive]

/-- **A setter leaves a frozen account alone.** -/
theorem away_set {c : Setter W} {r : c.Answer} (hf : Frozen a db)
    (hok : respects a db (.set (.call c)) = true) (h : DB.set codec fields c db = some (r, db')) :
    Away a db db' := by
  have hset : ∀ b, b ≠ a ∨ Frozen b db := fun b => by
    by_cases hb : b = a
    · exact .inr (hb ▸ hf)
    · exact .inl hb
  cases c with
  | base c =>
    refine away_call (fun b _ => (hset b).imp_right fun hb => ⟨hb, ?_⟩) h
    simpa [respects] using hok
  | setBalance b amount =>
    cases h
    exact away_setter (hset b) fun _ _ => .update _ rfl _
  | setFreezeState b isFreeze =>
    cases h
    exact away_setFreezeState db isFreeze (by simpa [respects] using hok)
  | getFreezeState b =>
    cases h
    rcases hset b with hb | ⟨o, ho, -, hlive⟩
    · exact away_getOrNew db hb
    · simp only [getFreezeState, getOrNewStateObject_eq (getStateObject_of_live ho hlive)]
      exact .refl db
  | prepare thash txIndex =>
    cases h
    exact ⟨rfl, rfl, rfl, rfl, rfl, fun _ he => .inl he⟩
  | addReward snapshot reward shareLookup =>
    obtain ⟨⟨db₁, ok⟩, h₁, heq⟩ := map_eq_some_iff.1 h
    cases (Prod.mk.inj heq).2
    unfold addReward at h₁
    split at h₁
    · cases h₁
      exact .refl db
    · have hload := away_validatorWrapper (a := a) codec db (fields.get snapshot).address
      obtain ⟨⟨ok', val⟩, -, heq⟩ := map_eq_some_iff.1 h₁
      cases heq
      cases val with
      | none => exact hload
      | some val => exact away_cacheValidator hload _ val

theorem Frozen.finalise {d : Bool} (hf : Frozen a db) (hok : respects a db (.finalise d) = true) :
    Frozen a (db.finalise codec d) ∧ (db.finalise codec d).face a = db.face a := by
  have haway := (away_flushValidators codec (.inr hf)).1
  obtain ⟨o, ho, hfreeze, hlive⟩ := hf
  have hget := getStateObject_of_live ho hlive
  have hobj : (db.flushValidators codec).stateObjects a = some o := haway.object.trans ho
  have htouched : (db.flushValidators codec).touched a = db.journal.isDirty a := by
    simp [touched, haway.isDirty, hobj]
  obtain ⟨o', ho', hlive', hface⟩ : ∃ o', (db.finalise codec d).stateObjects a = some o' ∧
      o'.deleted = false ∧ o'.face = o.face := by
    simp only [DB.finalise, clearJournalAndRefund, finaliseObjects, htouched, hobj]
    cases hdirty : db.journal.isDirty a with
    | false => exact ⟨o, rfl, hlive, rfl⟩
    | true =>
      have hkept : finaliseObject d o = o.finalise := if_neg (by
        cases d <;> simpa [respects, hdirty, hasSuicided, DB.empty, hget] using hok)
      exact ⟨o.finalise, congrArg some hkept, hlive, face_finalise o⟩
  refine ⟨⟨o', ho', (congrArg Face.frozen hface).trans hfreeze, hlive'⟩, ?_⟩
  rw [face_of_getStateObject hget, ← hface]
  exact face_of_getStateObject (getStateObject_of_live ho' hlive')

theorem Frozen.step {act : Action W} (hf : Frozen a db) (hok : respects a db act = true)
    (h : db.step codec fields act = some db') : Frozen a db' ∧ db'.face a = db.face a := by
  cases act with
  | set s =>
    cases s with
    | call c =>
      obtain ⟨⟨r, db₁⟩, hset, rfl⟩ := map_eq_some_iff.1 h
      have haway := away_set hf hok hset
      exact ⟨hf.away haway, face_away haway⟩
    | snapshot =>
      cases h
      exact ⟨hf, rfl⟩
    | revert id => cases hok
  | finalise d =>
    cases h
    exact hf.finalise hok
  | _ => cases hok

/-- **A frozen account stays as it is** as long as nothing replaces, destroys or deletes it. -/
theorem frozen_reach (hf : Frozen a db)
    (hreach : Reach (step codec fields) (fun db act => respects a db act = true) db db') :
    db'.face a = db.face a ∧ db'.exist a = db.exist a := by
  obtain ⟨hf', hface⟩ : Frozen a db' ∧ db'.face a = db.face a := by
    refine hreach.invariant (P := fun db' => Frozen a db' ∧ db'.face a = db.face a) ⟨hf, rfl⟩ ?_
    rintro db₁ act db₂ ⟨hf₁, hface₁⟩ hok hstep
    obtain ⟨hf₂, hface₂⟩ := hf₁.step hok hstep
    exact ⟨hf₂, hface₂.trans hface₁⟩
  exact ⟨hface, hf'.exist_eq.trans hf.exist_eq.symm⟩

/-- A frozen account with this balance. -/
def sampleFrozen (balance : ℤ) : DB UInt8 :=
  (new fun _ => some { Account.zero with balance }).setFreezeState 1 true

/-- A payment to a frozen account and a `Finalise` leave it as it is. -/
theorem frozen_credited : ∃ db', Frozen 1 (sampleFrozen 5) ∧
    Reach (step byteCodec byteFields) (fun db act => respects 1 db act = true) (sampleFrozen 5) db' ∧
    db'.face 1 = (sampleFrozen 5).face 1 ∧ db'.exist 1 = (sampleFrozen 5).exist 1 := by
  have hf : Frozen 1 (sampleFrozen 5) := ⟨_, rfl, rfl, rfl⟩
  have hreach : Reach (step byteCodec byteFields) (fun db act => respects 1 db act = true)
      (sampleFrozen 5) (((sampleFrozen 5).addBalance 1 7).finalise byteCodec true) :=
    .tail (.tail .refl (a := .set (.call (.base (.addBalance 1 7)))) rfl rfl)
      (a := .finalise true) rfl rfl
  exact ⟨_, hf, hreach, frozen_reach hf hreach⟩

/-- **The freeze flag does not stop everything**: `CreateAccount`, `Suicide` and `Finalise` get
through. -/
theorem frozen_changed : Frozen 1 (sampleFrozen 5) ∧ Frozen 1 (sampleFrozen 0) ∧
    (((sampleFrozen 5).createAccount 1).face 1).frozen = false ∧
    (sampleFrozen 5).getBalance 1 = 5 ∧ ((sampleFrozen 5).suicide 1).1.getBalance 1 = 0 ∧
    (sampleFrozen 0).exist 1 = true ∧ ((sampleFrozen 0).finalise byteCodec true).exist 1 = false := by
  refine ⟨⟨_, rfl, rfl, rfl⟩, ⟨_, rfl, rfl, rfl⟩, ?_⟩
  decide

end DyShard.State.DB
