import DyShard.State.Refinement

/-!
# An account at rest

What has to be kept away from an account so that it comes out of a block as it went in: nothing in
the journal is about it, and its value is what the trie has or will get (`Holds`).
-/

namespace DyShard.State

open Function List Option Ledger JournalEntry DB Journal

/-- The address an entry is about. -/
def JournalEntry.account {O : Type} : JournalEntry O → Option Address
  | .createObjectChange a | .resetObjectChange a _ | .suicideChange a _ _ | .balanceChange a _
  | .nonceChange a _ | .storageChange a _ _ | .codeChange a _ | .freezeChange a _
  | .touchChange a => some a
  | .refundChange _ | .addLogChange _ => none

theorem JournalEntry.account_of_dirtied {O : Type} {e : JournalEntry O} {a : Address}
    (h : e.dirtied = some a) : e.account = some a := by
  cases e <;> first | exact h | cases h

/-- The address a call writes to, or whose wrapper it loads. -/
def Call.target {W : Type} : Call W → Option Address
  | .createAccount a | .addBalance a _ | .subBalance a _ | .setNonce a _ | .setCode a _
  | .setState a _ _ | .suicide a | .validatorWrapper a | .putValidator a _
  | .updateValidatorWrapper a _ => some a
  | _ => none

/-- The call writes neither to `a` nor to its wrapper.  Loading counts: `Finalise` stores every
loaded wrapper. -/
def Call.avoids {W : Type} (a : Address) (c : Call W) : Bool := decide (c.target ≠ some a)

/-- The call replaces or destroys the account, which the freeze flag does not prevent. -/
def Call.replaces {W : Type} (a : Address) : Call W → Bool
  | .createAccount b | .suicide b => decide (b = a)
  | _ => false

namespace DB

variable {W : Type} {a b : Address}

/-! ## Steps away from an account -/

/-- The step leaves the account `a` alone. -/
structure Away (a : Address) (db db' : DB W) : Prop where
  object : db'.stateObjects a = db.stateObjects a
  trie : db'.trie a = db.trie a
  pending : db'.stateObjectsPending a = db.stateObjectsPending a
  dirties : db'.journal.dirties a = db.journal.dirties a
  forced : db'.journal.forced a = db.journal.forced a
  entries : ∀ e ∈ db'.journal.entries, e ∈ db.journal.entries ∨ e.account ≠ some a

theorem Away.refl (db : DB W) : Away a db db := ⟨rfl, rfl, rfl, rfl, rfl, fun _ he => .inl he⟩

variable {db db' : DB W} {e : JournalEntry Object} {codec : WrapperCodec W} {α : Type} {o : Object}
  {write : DB W → Object → DB W} {P : DB W → Prop} {n : ℕ}

theorem Away.trans {db'' : DB W} (h : Away a db db') (h' : Away a db' db'') :
    Away a db db'' where
  object := h'.object.trans h.object
  trie := h'.trie.trans h.trie
  pending := h'.pending.trans h.pending
  dirties := h'.dirties.trans h.dirties
  forced := h'.forced.trans h.forced
  entries e he := by
    rcases h'.entries e he with he | he
    · exact h.entries e he
    · exact .inr he

theorem away_journalAppend (db : DB W) (he : e.account ≠ some a) :
    Away a db (db.journalAppend e) where
  object := rfl
  trie := rfl
  pending := rfl
  dirties := by
    simp only [journalAppend, append]
    cases hd : e.dirtied with
    | none => rfl
    | some b =>
      have hb : a ≠ b := fun hab => he (hab ▸ account_of_dirtied hd)
      simp [update_of_ne hb]
  forced := rfl
  entries e' he' := by
    rcases mem_append.1 he' with he' | he'
    · exact .inl he'
    · exact .inr (mem_singleton.1 he' ▸ he)

theorem away_setStateObject (db : DB W) (o : Object) (h : b ≠ a) :
    Away a db (db.setStateObject b o) :=
  { Away.refl db with object := update_of_ne h.symm _ _ }

theorem away_update (db : DB W) (o : Object) (h : b ≠ a) (he : e.account = some b) :
    Away a db (db.update b e o) :=
  (away_journalAppend db (he ▸ fun hab => h (some.inj hab))).trans (away_setStateObject _ o h)

theorem account_creation (db : DB W) (b : Address) : (db.creation b).account = some b := by
  unfold creation
  split <;> rfl

theorem away_createAccount (db : DB W) (h : b ≠ a) : Away a db (db.createAccount b) := by
  rw [createAccount_eq]
  exact away_update db _ h (account_creation db b)

theorem away_getOrNew (db : DB W) (h : b ≠ a) : Away a db (db.getOrNewStateObject b).1 := by
  unfold getOrNewStateObject
  split
  · exact .refl db
  · rw [createObject_eq]
    exact away_update db _ h (account_creation db b)

/-- What a setter does with the object it has found: nothing, a touch or one journalled write. -/
inductive Write (b : Address) (db : DB W) (o : Object) : DB W → Prop
  | same : Write b db o db
  | touch : Write b db o (touch b db o)
  | update (e : JournalEntry Object) (he : e.dirtied = some b) (o' : Object) :
      Write b db o (db.update b e o')

theorem writes_addBalance (amount : ℤ) (db : DB W) (o : Object) :
    Write b db o (objectAddBalance b amount db o) := by
  unfold objectAddBalance
  split_ifs
  · exact .touch
  · exact .same
  · exact .update _ rfl _

theorem writes_subBalance (amount : ℤ) (db : DB W) (o : Object) :
    Write b db o (objectSubBalance b amount db o) := by
  unfold objectSubBalance
  split_ifs
  · exact .same
  · exact .update _ rfl _

theorem writes_setState (key value : Word) (db : DB W) (o : Object) :
    Write b db o (objectSetState b key value db o) := by
  unfold objectSetState
  split_ifs
  · exact .same
  · exact .update _ rfl _

theorem away_write (h : b ≠ a) (hw : Write b db o db') : Away a db db' := by
  cases hw with
  | same => exact .refl db
  | touch =>
    have hu : Away a db (db.update b (.touchChange b) o) := away_update db o h rfl
    unfold touch
    split
    · exact { hu with forced := (update_of_ne h.symm _ _).trans hu.forced }
    · exact hu
  | update e he o' => exact away_update db o' h (account_of_dirtied he)

section

variable (db : DB W)

theorem away_unlessFrozen (h : b ≠ a)
    (hwrite : ∀ db o, Write b db o (write db o)) : Away a db (db.unlessFrozen b write) := by
  have hnew := away_getOrNew db h
  unfold unlessFrozen
  split
  case h_1 db₁ o hr =>
    rw [hr] at hnew
    split
    · exact hnew
    · exact hnew.trans (away_write h (hwrite db₁ o))

theorem away_addBalance (amount : ℤ) (h : b ≠ a) :
    Away a db (db.addBalance b amount) := away_unlessFrozen db h (writes_addBalance amount)

theorem away_subBalance (amount : ℤ) (h : b ≠ a) :
    Away a db (db.subBalance b amount) := away_unlessFrozen db h (writes_subBalance amount)

theorem away_setBalance (amount : ℤ) (h : b ≠ a) :
    Away a db (db.setBalance b amount) := away_unlessFrozen db h fun _ _ => .update _ rfl _

theorem away_setNonce (nonce : UInt64) (h : b ≠ a) :
    Away a db (db.setNonce b nonce) := away_unlessFrozen db h fun _ _ => .update _ rfl _

theorem away_setFreezeState (isFreeze : Bool) (h : b ≠ a) :
    Away a db (db.setFreezeState b isFreeze) := by
  have hnew := away_getOrNew db h
  unfold setFreezeState
  split
  case h_1 db₁ o hr =>
    rw [hr] at hnew
    exact hnew.trans (away_update db₁ _ h rfl)

theorem away_suicide (h : b ≠ a) : Away a db (db.suicide b).1 := by
  unfold suicide
  split
  · exact .refl db
  · exact away_update db _ h rfl

end

/-! ## Frozen accounts -/

/-- The account is in memory and frozen. -/
def Frozen (a : Address) (db : DB W) : Prop :=
  ∃ o, db.stateObjects a = some o ∧ o.freeze = true ∧ o.deleted = false

theorem Frozen.away (hf : Frozen a db) (h : Away a db db') : Frozen a db' := by
  obtain ⟨o, ho, hfreeze⟩ := hf
  exact ⟨o, h.object.trans ho, hfreeze⟩

/-- **A setter does nothing to a frozen account.** -/
theorem Frozen.unlessFrozen_eq (hf : Frozen a db) (write : DB W → Object → DB W) :
    db.unlessFrozen a write = db := by
  obtain ⟨o, ho, hfreeze, hdel⟩ := hf
  have hget : db.getStateObject a = some o := by
    simp [getStateObject, getDeletedStateObject, ho, hdel]
  simp [unlessFrozen, getOrNewStateObject, hget, hfreeze]

theorem away_setter (h : b ≠ a ∨ Frozen b db)
    (hwrite : ∀ db o, Write b db o (write db o)) : Away a db (db.unlessFrozen b write) := by
  rcases h with h | h
  · exact away_unlessFrozen db h hwrite
  · rw [h.unlessFrozen_eq]
    exact .refl db

/-! ## Calls -/

theorem away_cacheValidator (h : Away a db db') (b : Address) (val : W) :
    Away a db (db'.cacheValidator b val) :=
  ⟨h.object, h.trie, h.pending, h.dirties, h.forced, h.entries⟩

theorem away_validatorWrapper (codec : WrapperCodec W) (db : DB W) (b : Address) :
    Away a db (db.validatorWrapper codec b).1 := by
  unfold validatorWrapper
  split
  · exact .refl db
  · split
    · exact away_cacheValidator (.refl db) b _
    · exact .refl db

theorem away_updateValidatorWrapper (codec : WrapperCodec W) (db : DB W) (val : W)
    (h : b ≠ a ∨ Frozen b db) : Away a db (db.updateValidatorWrapper codec b val).1 := by
  unfold updateValidatorWrapper
  split
  · exact .refl db
  · exact away_cacheValidator (away_setter h fun _ _ => .update _ rfl _) b val

theorem away_call {c : Call W} {r : c.Answer}
    (hok : ∀ b, c.target = some b → b ≠ a ∨ (Frozen b db ∧ c.replaces a = false))
    (h : call codec c db = some (r, db')) : Away a db db' := by
  have hset : ∀ b, c.target = some b → b ≠ a ∨ Frozen b db := fun b hb =>
    (hok b hb).imp_right And.left
  have hmove : ∀ b, c.target = some b → (c.replaces a = false → b ≠ a) → b ≠ a := fun b hb hr =>
    (hok b hb).elim id fun hf => hr hf.2
  cases c with
  | createAccount b =>
    cases h
    exact away_createAccount db (hmove b rfl fun hr => by simpa [Call.replaces] using hr)
  | suicide b =>
    cases h
    exact away_suicide db (hmove b rfl fun hr => by simpa [Call.replaces] using hr)
  | addBalance b amount =>
    cases h
    exact away_setter (hset b rfl) (writes_addBalance amount)
  | subBalance b amount =>
    cases h
    exact away_setter (hset b rfl) (writes_subBalance amount)
  | setNonce b _ | setCode b _ =>
    cases h
    exact away_setter (hset b rfl) fun _ _ => .update _ rfl _
  | setState b key value =>
    cases h
    exact away_setter (hset b rfl) (writes_setState key value)
  | addRefund gas =>
    cases h
    exact { away_journalAppend db (by simp [account]) with }
  | subRefund gas =>
    obtain ⟨db₁, h₁, heq⟩ := map_eq_some_iff.1 h
    cases (Prod.mk.inj heq).2
    unfold subRefund at h₁
    split at h₁
    · cases h₁
    · cases h₁
      exact { away_journalAppend db (by simp [account]) with }
  | addLog log =>
    cases h
    exact { away_journalAppend db (by simp [account]) with }
  | validatorWrapper b =>
    cases h
    exact away_validatorWrapper codec db b
  | putValidator b val =>
    cases h
    exact away_cacheValidator (.refl db) b val
  | updateValidatorWrapper b val =>
    cases h
    exact away_updateValidatorWrapper codec db val (hset b rfl)
  | _ =>
    cases h
    exact .refl db

theorem stateValidators_call {c : Call W} {r : c.Answer} (hok : c.target ≠ some a)
    (h : call codec c db = some (r, db')) : db'.stateValidators a = db.stateValidators a := by
  -- what is kept is a function of the ledger, and only wrapper calls touch the wrappers
  have hkept : ∀ l k r l' k' es, Ledger.call codec c l k = some (r, l', k', es) →
      k'.validators a = k.validators a := by
    intro l k r l' k' es hl
    have hput : ∀ b val, c.target = some b → (k.putValidator b val).validators a = k.validators a :=
      fun b val hb => update_of_ne (fun hab => hok (hb.trans (congrArg some hab.symm))) _ _
    cases c with
    | addBalance b amount =>
      obtain ⟨-, -, rfl, -⟩ := by simpa [call, writes] using hl
      unfold Kept.touch
      split <;> rfl
    | subRefund gas =>
      simp only [Ledger.call] at hl
      split at hl
      · cases hl
      · obtain ⟨-, -, rfl, -⟩ := by simpa [writes] using hl
        rfl
    | validatorWrapper b =>
      simp only [Ledger.call] at hl
      split at hl
      · obtain ⟨-, -, rfl, -⟩ := by simpa [reads] using hl
        rfl
      · split at hl
        · obtain ⟨-, -, rfl, -⟩ := by simpa [reads] using hl
          exact hput b _ rfl
        · obtain ⟨-, -, rfl, -⟩ := by simpa [reads] using hl
          rfl
    | putValidator b val =>
      obtain ⟨-, -, rfl, -⟩ := by simpa [Ledger.call, reads] using hl
      exact hput b val rfl
    | updateValidatorWrapper b val =>
      simp only [Ledger.call] at hl
      split at hl
      · obtain ⟨-, -, rfl, -⟩ := by simpa [reads] using hl
        rfl
      · obtain ⟨-, -, rfl, -⟩ := by simpa [writes] using hl
        exact hput b val rfl
    | _ =>
      obtain ⟨-, -, rfl, -⟩ := by simpa [call, reads, writes] using hl
      rfl
  obtain ⟨eff, k, hl, hshow⟩ := shows_of_call h
  exact (congrFun (congrArg Kept.validators hshow.kept) a).trans (hkept _ _ _ _ _ _ hl)

/-! ## Reverts -/

theorem away_revertEntry (he : e.account ≠ some a) (h : db.revertEntry e = some db') :
    Away a db db' := by
  have hne : ∀ {b}, e.account = some b → b ≠ a := fun hb hba => he (hba ▸ hb)
  have hobj : ∀ b f, b ≠ a → db.revertObject b f = some db' → Away a db db' := by
    intro b f hb h
    obtain ⟨o, -, rfl⟩ := map_eq_some_iff.1 h
    exact away_setStateObject db _ hb
  cases e with
  | createObjectChange b =>
    cases h
    exact { Away.refl db with object := update_of_ne (hne rfl).symm _ _ }
  | resetObjectChange b prev =>
    cases h
    exact away_setStateObject db prev (hne rfl)
  | suicideChange b prev prevbalance =>
    simp only [revertEntry] at h
    split at h <;> cases h
    · exact away_setStateObject db _ (hne rfl)
    · exact .refl db
  | balanceChange b _ | nonceChange b _ | storageChange b _ _ | codeChange b _
  | freezeChange b _ => exact hobj b _ (hne rfl) h
  | refundChange prev | addLogChange t =>
    cases h
    exact { Away.refl db with }
  | touchChange b =>
    cases h
    exact .refl db

theorem away_revertLast (he : e.account ≠ some a) (h : db.revertLast e = some db') :
    Away a db db' := by
  obtain ⟨db₁, h₁, rfl⟩ := map_eq_some_iff.1 h
  have hr := away_revertEntry he h₁
  refine ⟨hr.object, hr.trie, hr.pending, ?_, hr.forced, fun e' he' =>
    hr.entries e' (dropLast_subset _ he')⟩
  rw [← hr.dirties]
  cases hd : e.dirtied with
  | none => rfl
  | some b =>
    have hb : a ≠ b := fun hab => he (hab ▸ account_of_dirtied hd)
    simp [update_of_ne hb]

theorem revertToSnapshot_inv (h₀ : P db)
    (hstep : ∀ e ∈ db.journal.entries, ∀ db₁ db₂, P db₁ → db₁.revertLast e = some db₂ → P db₂)
    (hrevisions : ∀ db₁ l, P db₁ → P { db₁ with validRevisions := l })
    (h : db.revertToSnapshot n = some db') : P db' := by
  have hentries : ∀ es, (∀ e ∈ es, e ∈ db.journal.entries) → ∀ db₁ db₂, P db₁ →
      db₁.revertEntries es = some db₂ → P db₂ := by
    intro es
    induction es with
    | nil =>
      rintro - db₁ _ h₁ ⟨⟩
      exact h₁
    | cons e es ih =>
      intro hes db₁ db₂ h₁ h
      obtain ⟨db₃, hlast, hrest⟩ := bind_eq_some_iff.1 h
      exact ih (fun e' he' => hes e' (mem_cons_of_mem _ he')) db₃ db₂
        (hstep e (hes e mem_cons_self) db₁ db₃ h₁ hlast) hrest
  unfold revertToSnapshot at h
  dsimp only at h
  split at h
  · split at h
    · obtain ⟨db₁, h₁, rfl⟩ := map_eq_some_iff.1 h
      exact hrevisions db₁ _
        (hentries _ (fun e he => mem_of_mem_drop (mem_reverse.1 he)) db db₁ h₀ h₁)
    · cases h
  · cases h

theorem away_revertToSnapshot (hes : ∀ e ∈ db.journal.entries, e.account ≠ some a)
    (h : db.revertToSnapshot n = some db') : Away a db db' :=
  revertToSnapshot_inv (.refl db) (fun e he _ _ h₁ hr => h₁.trans (away_revertLast (hes e he) hr))
    (fun _ _ h => { h with }) h

theorem stateValidators_revertEntry (h : db.revertEntry e = some db') :
    db'.stateValidators = db.stateValidators := by
  cases e <;> simp only [revertEntry, revertObject, map_eq_some_iff] at h <;>
    first
    | (obtain rfl := some.inj h; rfl)
    | (obtain ⟨o, -, rfl⟩ := h; rfl)
    | (split at h <;> obtain rfl := some.inj h <;> rfl)

theorem stateValidators_revertToSnapshot (h : db.revertToSnapshot n = some db') :
    db'.stateValidators = db.stateValidators := by
  refine revertToSnapshot_inv (P := fun db' => db'.stateValidators = db.stateValidators) rfl
    (fun e _ db₁ db₂ h₁ hr => ?_) (fun _ _ h => h) h
  obtain ⟨db₃, h₃, rfl⟩ := map_eq_some_iff.1 hr
  exact (stateValidators_revertEntry h₃).trans h₁

/-! ## Clients -/

theorem Away.quiet (h : Away a db db') (hq : ∀ e ∈ db.journal.entries, e.account ≠ some a) :
    ∀ e ∈ db'.journal.entries, e.account ≠ some a := fun e he => (h.entries e he).elim (hq e) id

theorem Away.isDirty (h : Away a db db') : db'.journal.isDirty a = db.journal.isDirty a := by
  simp only [Journal.isDirty, h.dirties, h.forced]

section

variable (p : Client W α) (hq : ∀ e ∈ db.journal.entries, e.account ≠ some a)
include hq

theorem away_run {ok : Call W → Bool} {x : α}
    (hok : ∀ c db₁, ok c = true → Away a db db₁ →
      ∀ b, c.target = some b → b ≠ a ∨ (Frozen b db₁ ∧ c.replaces a = false))
    (hrun : ((machine codec).restrict ok).run p db = some (x, db')) : Away a db db' := by
  refine Client.Machine.run_inv _ ?_ ?_ ?_ p (.refl db) hrun
  · intro c db₁ r db₂ h₁ hc
    obtain ⟨hc₁, hc₂⟩ := Client.Machine.call_restrict hc
    exact h₁.trans (away_call (hok c db₁ hc₁ h₁) hc₂)
  · intro db₁ h₁
    exact ⟨h₁.object, h₁.trie, h₁.pending, h₁.dirties, h₁.forced, h₁.entries⟩
  · intro db₁ n db₂ h₁ hr
    exact h₁.trans (away_revertToSnapshot (h₁.quiet hq) hr)

theorem away_run_avoids {x : α}
    (hrun : ((machine codec).restrict (Call.avoids a)).run p db = some (x, db')) :
    Away a db db' ∧ db'.stateValidators a = db.stateValidators a := by
  refine ⟨away_run p hq (fun c _ hc _ b hb => .inl fun hba => ?_) hrun, ?_⟩
  · simp [Call.avoids, hb, hba] at hc
  · refine Client.Machine.run_inv _ (P := fun db' => db'.stateValidators a = db.stateValidators a)
      ?_ (fun _ h => h) ?_ p rfl hrun
    · intro c db₁ r db₂ h₁ hc
      obtain ⟨hc₁, hc₂⟩ := Client.Machine.call_restrict hc
      have htarget : c.target ≠ some a := by simpa [Call.avoids] using hc₁
      exact (stateValidators_call htarget hc₂).trans h₁
    · intro db₁ n db₂ h₁ hr
      exact (congrFun (stateValidators_revertToSnapshot hr) a).trans h₁

theorem away_run_frozen {x : α} (hf : Frozen a db)
    (hrun : ((machine codec).restrict fun c => !c.replaces a).run p db = some (x, db')) :
    Away a db db' := by
  refine away_run p hq (fun c db₁ hc h₁ b _ => ?_) hrun
  by_cases hba : b = a
  · exact .inr ⟨hba ▸ hf.away h₁, by simpa using hc⟩
  · exact .inl hba

end

/-! ## Accounts at rest -/

/-- The account is at rest with the value `x`. -/
structure Holds (a : Address) (x : Option Account) (db : DB W) : Prop where
  value : (db.stateObjects a).elim (db.trie a = x) fun o =>
    trieEntry o = x ∧ (db.stateObjectsPending a = true ∨ db.trie a = x)
  living : ∀ o, db.stateObjects a = some o → o.suicided = true → o.deleted = true
  clean : db.journal.isDirty a = false
  quiet : ∀ e ∈ db.journal.entries, e.account ≠ some a
  cached : db.stateValidators a = none ∨ Frozen a db

variable {x : Option Account}

theorem holds_new (trie : Address → Option Account) (a : Address) :
    Holds a (trie a) (new trie : DB W) where
  value := rfl
  living := by simp [new]
  clean := rfl
  quiet := by simp [new]
  cached := .inl rfl

theorem Holds.away (h : Holds a x db) (haway : Away a db db')
    (hcached : db'.stateValidators a = none ∨ Frozen a db') : Holds a x db' where
  value := by
    rw [haway.object, haway.trie, haway.pending]
    exact h.value
  living := by
    rw [haway.object]
    exact h.living
  clean := haway.isDirty.trans h.clean
  quiet := haway.quiet h.quiet
  cached := hcached

theorem Holds.run {p : Client W α} {y : α} (h : Holds a x db)
    (hrun : ((machine codec).restrict (Call.avoids a)).run p db = some (y, db')) :
    Holds a x db' := by
  obtain ⟨haway, hval⟩ := away_run_avoids p h.quiet hrun
  refine h.away haway ?_
  rw [hval]
  exact h.cached.imp_right fun hf => hf.away haway

theorem Holds.run_frozen {p : Client W α} {y : α} (h : Holds a x db) (hf : Frozen a db)
    (hrun : ((machine codec).restrict fun c => !c.replaces a).run p db = some (y, db')) :
    Holds a x db' ∧ Frozen a db' := by
  have haway := away_run_frozen p h.quiet hf hrun
  exact ⟨h.away haway (.inr (hf.away haway)), hf.away haway⟩

/-! ## Finalise and IntermediateRoot -/

theorem stateValidators_updateValidatorWrapper_of_ne (codec : WrapperCodec W) (db : DB W) (val : W)
    (h : b ≠ a) :
    (db.updateValidatorWrapper codec b val).1.stateValidators a = db.stateValidators a := by
  have hcall : call codec (.updateValidatorWrapper b val) db =
      some ((db.updateValidatorWrapper codec b val).2, (db.updateValidatorWrapper codec b val).1) :=
    rfl
  have htarget : (Call.updateValidatorWrapper b val).target ≠ some a :=
    fun hb => h (some.inj hb)
  exact stateValidators_call htarget hcall

theorem flushValidators_inv (h₀ : P db)
    (hstep : ∀ db' addr val, P db' → db.stateValidators addr = some val →
      P (db'.updateValidatorWrapper codec addr val).1) : P (db.flushValidators codec) := by
  refine foldlRecOn db.validatorKeys _ h₀ fun db' h addr _ => ?_
  unfold storeValidator
  split
  · exact hstep db' addr _ h ‹_›
  · exact h

/-- Storing the loaded wrappers is a step away from an account whose wrapper is not loaded
and from a frozen one. -/
theorem away_flushValidators (codec : WrapperCodec W)
    (h : db.stateValidators a = none ∨ Frozen a db) : Away a db (db.flushValidators codec) ∧
      (db.stateValidators a = none → (db.flushValidators codec).stateValidators a = none) := by
  refine flushValidators_inv (P := fun db' => Away a db db' ∧
    (db.stateValidators a = none → db'.stateValidators a = none)) ⟨.refl db, id⟩ ?_
  rintro db' addr val ⟨haway, hnone⟩ hval
  have hstep : addr ≠ a ∨ Frozen addr db' := by
    by_cases haddr : addr = a
    · subst haddr
      rw [hval] at h
      exact .inr ((h.resolve_left (by simp)).away haway)
    · exact .inl haddr
  refine ⟨haway.trans (away_updateValidatorWrapper codec db' val hstep), fun hc => ?_⟩
  have haddr : addr ≠ a := by
    rintro rfl
    simp [hval] at hc
  rw [stateValidators_updateValidatorWrapper_of_ne codec db' val haddr]
  exact hnone hc

theorem Holds.flushValidators (codec : WrapperCodec W) (h : Holds a x db) :
    Holds a x (db.flushValidators codec) := by
  obtain ⟨haway, hnone⟩ := away_flushValidators codec h.cached
  refine h.away haway ?_
  rcases h.cached with hc | hf
  · exact .inl (hnone hc)
  · exact .inr (hf.away haway)

theorem Holds.finaliseObjects (h : Holds a x db) (deleteEmptyObjects : Bool) :
    Holds a x (db.finaliseObjects deleteEmptyObjects) ∧
      (db.finaliseObjects deleteEmptyObjects).stateObjects a = db.stateObjects a := by
  have htouched : db.touched a = false := by simp [touched, h.clean]
  have hobj : (db.finaliseObjects deleteEmptyObjects).stateObjects a = db.stateObjects a := by
    simp [DB.finaliseObjects, htouched]
  have hpend : (db.finaliseObjects deleteEmptyObjects).stateObjectsPending a =
      db.stateObjectsPending a := by
    simp [DB.finaliseObjects, htouched]
  have htrie : (db.finaliseObjects deleteEmptyObjects).trie = db.trie := rfl
  refine ⟨⟨?_, ?_, h.clean, h.quiet, ?_⟩, hobj⟩
  · rw [hobj, hpend, htrie]
    exact h.value
  · rw [hobj]
    exact h.living
  · refine h.cached.imp_right ?_
    rintro ⟨o, ho, hf⟩
    exact ⟨o, hobj.trans ho, hf⟩

theorem Holds.clearJournalAndRefund (h : Holds a x db) : Holds a x db.clearJournalAndRefund := by
  refine ⟨h.value, h.living, ?_, ?_, h.cached⟩
  · simp only [DB.clearJournalAndRefund]
    split
    · exact h.clean
    · rfl
  · simp only [DB.clearJournalAndRefund]
    split
    · exact h.quiet
    · simp

theorem Holds.finalise (codec : WrapperCodec W) (h : Holds a x db) (deleteEmptyObjects : Bool) :
    Holds a x (db.finalise codec deleteEmptyObjects) ∧
      (Frozen a db → Frozen a (db.finalise codec deleteEmptyObjects)) := by
  have hflush := h.flushValidators codec
  obtain ⟨hfin, hobj⟩ := hflush.finaliseObjects deleteEmptyObjects
  refine ⟨hfin.clearJournalAndRefund, fun hf => ?_⟩
  obtain ⟨o, ho, hfreeze⟩ := hf.away (away_flushValidators codec h.cached).1
  exact ⟨o, hobj.trans ho, hfreeze⟩

theorem trieEntry_updateRoot (o : Object) :
    trieEntry (if o.deleted then o else o.updateRoot) = trieEntry o := by
  by_cases hdel : o.deleted = true
  · simp [hdel]
  · have hdel' : o.updateRoot.deleted ≠ true := hdel
    rw [if_neg hdel, trieEntry, trieEntry, if_neg hdel, if_neg hdel']
    simp [Object.updateRoot, Object.finalise]

theorem object_writePending (h : db.stateObjects a = some o) :
    ∃ o', db.writePending.stateObjects a = some o' ∧ trieEntry o' = trieEntry o ∧
      o'.suicided = o.suicided ∧ o'.deleted = o.deleted ∧ o'.freeze = o.freeze := by
  by_cases hp : db.stateObjectsPending a = true
  · refine ⟨if o.deleted then o else o.updateRoot, by simp [writePending, hp, h],
      trieEntry_updateRoot o, ?_⟩
    split
    · exact ⟨rfl, rfl, rfl⟩
    · exact ⟨rfl, rfl, rfl⟩
  · exact ⟨o, by simp [writePending, hp, h], rfl, rfl, rfl, rfl⟩

theorem Holds.writePending (h : Holds a x db) :
    Holds a x db.writePending ∧ db.writePending.trie a = x ∧
      (Frozen a db → Frozen a db.writePending) := by
  have hvalue := h.value
  cases hobj : db.stateObjects a with
  | none =>
    have hobj' : db.writePending.stateObjects a = none := by simp [DB.writePending, hobj]
    have htrie : db.writePending.trie a = x := by
      simpa [DB.writePending, hobj] using hvalue
    refine ⟨⟨?_, ?_, h.clean, h.quiet, ?_⟩, htrie, ?_⟩
    · rw [hobj']
      exact htrie
    · simp [hobj']
    · refine h.cached.imp_right ?_
      rintro ⟨o, ho, -⟩
      simp [hobj] at ho
    · rintro ⟨o, ho, -⟩
      simp [hobj] at ho
  | some o =>
    rw [hobj] at hvalue
    obtain ⟨hentry, hpend⟩ := hvalue
    have htrie : db.writePending.trie a = x := by
      by_cases hp : db.stateObjectsPending a = true
      · simpa [DB.writePending, hp, hobj] using hentry
      · simpa [DB.writePending, hp] using hpend.resolve_left hp
    obtain ⟨o', hobj', hentry', hsui, hdel, hfreeze⟩ := object_writePending hobj
    have hfrozen : Frozen a db → Frozen a db.writePending := by
      rintro ⟨o₁, ho₁, hf, hd⟩
      cases hobj.symm.trans ho₁
      exact ⟨o', hobj', hfreeze.trans hf, hdel.trans hd⟩
    refine ⟨⟨?_, ?_, h.clean, h.quiet, h.cached.imp_right hfrozen⟩, htrie, hfrozen⟩
    · rw [hobj']
      exact ⟨hentry'.trans hentry, .inr htrie⟩
    · intro o₁ ho₁ hs
      cases hobj'.symm.trans ho₁
      rw [hsui] at hs
      rw [hdel]
      exact h.living o hobj hs

theorem Holds.intermediateRoot (codec : WrapperCodec W) (h : Holds a x db)
    (deleteEmptyObjects : Bool) : Holds a x (db.intermediateRoot codec deleteEmptyObjects) ∧
      (db.intermediateRoot codec deleteEmptyObjects).trie a = x ∧
      (Frozen a db → Frozen a (db.intermediateRoot codec deleteEmptyObjects)) := by
  obtain ⟨hfin, hfrozen⟩ := h.finalise codec deleteEmptyObjects
  obtain ⟨hw, htrie, hfrozen'⟩ := hfin.writePending
  exact ⟨hw, htrie, fun hf => hfrozen' (hfrozen hf)⟩

/-! ## What an account shows -/

/-- The account as the reading functions show it. -/
def account (db : DB W) (a : Address) : Account where
  nonce := db.getNonce a
  balance := db.getBalance a
  storage := db.getState a
  code := db.getCode a

theorem updateRoot_data (o : Object) : o.updateRoot.data = { o.data with storage := o.getState } := by
  have hstorage : o.updateRoot.data.storage = o.getState := by
    funext k
    simp only [Object.updateRoot, Object.finalise, Object.getState, Object.getCommittedState]
    cases o.dirtyStorage k <;> rfl
  rw [← hstorage]
  rfl

theorem account_of_getStateObject (h : db.getStateObject a = some o) :
    db.account a = o.updateRoot.data := by
  rw [updateRoot_data]
  have hstate : db.getState a = o.getState := by
    funext k
    simp [getState, h]
  simp [account, getNonce, getBalance, getCode, h, hstate]

theorem account_of_not_exist (h : db.getStateObject a = none) : db.account a = .zero := by
  have hstate : db.getState a = fun _ => 0 := by
    funext k
    simp [getState, h]
  simp [account, getNonce, getBalance, getCode, h, hstate, Account.zero]

theorem getStateObject_eq_some (h : db.getStateObject a = some o) :
    db.getDeletedStateObject a = some o ∧ o.deleted = false := by
  simpa [getStateObject, filter_eq_some_iff] using h

theorem Holds.account_eq (h : Holds a x db) : db.account a = x.getD .zero := by
  have hvalue := h.value
  cases hobj : db.stateObjects a with
  | none =>
    rw [hobj] at hvalue
    cases hvalue
    cases htrie : db.trie a with
    | none =>
      rw [account_of_not_exist (by simp [getStateObject, getDeletedStateObject, hobj, htrie])]
      rfl
    | some acct =>
      have hget : db.getStateObject a = some (newObject acct) := by
        simp [getStateObject, getDeletedStateObject, hobj, htrie, newObject]
      rw [account_of_getStateObject hget, updateRoot_data]
      rfl
  | some o =>
    rw [hobj] at hvalue
    obtain ⟨rfl, -⟩ := hvalue
    cases hdel : o.deleted with
    | true =>
      rw [account_of_not_exist (by simp [getStateObject, getDeletedStateObject, hobj, hdel])]
      simp [trieEntry, hdel]
    | false =>
      have hget : db.getStateObject a = some o := by
        simp [getStateObject, getDeletedStateObject, hobj, hdel]
      rw [account_of_getStateObject hget]
      simp [trieEntry, hdel]

theorem Holds.living_of_getStateObject (h : Holds a x db) (hget : db.getStateObject a = some o) :
    o.suicided = false := by
  obtain ⟨hd, hdel⟩ := getStateObject_eq_some hget
  cases hobj : db.stateObjects a with
  | none =>
    simp only [getDeletedStateObject, hobj, none_or, map_eq_some_iff] at hd
    obtain ⟨acct, -, rfl⟩ := hd
    rfl
  | some o' =>
    simp only [getDeletedStateObject, hobj, some_or, some.injEq] at hd
    subst hd
    by_contra hs
    have := h.living o' hobj (by simpa using hs)
    simp [hdel] at this

/-! ## Writing an account at rest -/

theorem getStateObject_update (db : DB W) (e : JournalEntry Object) (h : o.deleted = false) :
    (db.update a e o).getStateObject a = some o := by
  simp [update, setStateObject, getStateObject, getDeletedStateObject, h]

section

variable (h : db.getStateObject a = some o)
include h

theorem getOrNewStateObject_eq : db.getOrNewStateObject a = (db, o) := by
  simp [getOrNewStateObject, h]

theorem setFreezeState_eq (isFreeze : Bool) :
    db.setFreezeState a isFreeze =
      db.update a (.freezeChange a o.freeze) (o.setFreezeState isFreeze) := by
  simp [setFreezeState, getOrNewStateObject_eq h]

theorem setBalance_eq (hf : o.freeze = false) (amount : ℤ) :
    db.setBalance a amount =
      db.update a (.balanceChange a o.data.balance) (o.setBalance amount) := by
  simp [setBalance, unlessFrozen, getOrNewStateObject_eq h, hf, objectSetBalance]

theorem setNonce_eq (hf : o.freeze = false) (nonce : UInt64) :
    db.setNonce a nonce = db.update a (.nonceChange a o.data.nonce) (o.setNonce nonce) := by
  simp [setNonce, unlessFrozen, getOrNewStateObject_eq h, hf]

end

theorem Shows.length_le {eff : Effect} {k : Kept W} (h : Shows db db' eff k) :
    db.journal.entries.length ≤ db'.journal.entries.length := by
  have := congrArg List.length h.entries
  simp only [length_map, length_append] at this
  omega

theorem length_flushValidators (codec : WrapperCodec W) (db : DB W) :
    db.journal.entries.length ≤ (db.flushValidators codec).journal.entries.length := by
  refine flushValidators_inv (P := fun db' => db.journal.entries.length ≤
    db'.journal.entries.length) (Nat.le_refl _) fun db' addr val h _ => Nat.le_trans h ?_
  unfold updateValidatorWrapper
  split
  · exact Nat.le_refl _
  · exact (shows_setCode db' addr _).length_le

section Write

variable {codec : WrapperCodec W} {db₀ : DB W} {e : JournalEntry Object} {o : Object} {d : Bool}

theorem written_flushValidators (codec : WrapperCodec W) (he : e.dirtied = some a)
    (hguard : db₀.stateValidators a = none ∨ o.freeze = true ∧ o.deleted = false) :
    let db := (db₀.update a e o).flushValidators codec
    db.stateObjects a = some o ∧ db.touched a = true ∧ db.journal.entries ≠ [] ∧
      (db₀.stateValidators a = none → db.stateValidators a = none) := by
  intro db
  have hobj : (db₀.update a e o).stateObjects a = some o := by simp [update, setStateObject]
  have hdirty : (db₀.update a e o).journal.isDirty a = true := by
    simp [update, setStateObject, journalAppend, append, isDirty, he]
  have hfrozen : (db₀.update a e o).stateValidators a = none ∨ Frozen a (db₀.update a e o) :=
    hguard.imp_right fun hf => ⟨o, hobj, hf⟩
  obtain ⟨haway, hnone⟩ := away_flushValidators codec hfrozen
  have hobj' : db.stateObjects a = some o := haway.object.trans hobj
  refine ⟨hobj', by simp [db, touched, haway.isDirty, hdirty, hobj'], ?_, hnone⟩
  intro hnil
  have hlen := length_flushValidators codec (db₀.update a e o)
  rw [show ((db₀.update a e o).flushValidators codec).journal.entries = [] from hnil] at hlen
  simp [update, setStateObject, journalAppend, append] at hlen

theorem object_finalise (he : e.dirtied = some a)
    (hguard : db₀.stateValidators a = none ∨ o.freeze = true ∧ o.deleted = false) :
    ((db₀.update a e o).finalise codec d).stateObjects a = some (finaliseObject d o) := by
  obtain ⟨hobj, htouched, -⟩ := written_flushValidators codec he hguard
  simp [finalise, clearJournalAndRefund, finaliseObjects, htouched, hobj]

theorem finaliseObject_of_live (h : (finaliseObject d o).deleted = false) :
    finaliseObject d o = o.finalise ∧ o.deleted = false := by
  unfold finaliseObject at h ⊢
  split at h
  · cases h
  · exact ⟨by rw [if_neg ‹_›], h⟩

/-- **A written account comes to rest at the next `Finalise`**, with what `Finalise` makes of
it. -/
theorem holds_finalise (he : e.dirtied = some a)
    (hcached : db₀.stateValidators a = none ∨
      o.freeze = true ∧ (finaliseObject d o).deleted = false) :
    Holds a (trieEntry (finaliseObject d o)) ((db₀.update a e o).finalise codec d) := by
  have hguard : db₀.stateValidators a = none ∨ o.freeze = true ∧ o.deleted = false :=
    hcached.imp_right fun h => ⟨h.1, (finaliseObject_of_live h.2).2⟩
  have hobj : ((db₀.update a e o).finalise codec d).stateObjects a = some (finaliseObject d o) :=
    object_finalise he hguard
  obtain ⟨-, htouched, hne, hnone⟩ := written_flushValidators codec he hguard
  generalize hdb : (db₀.update a e o).finalise codec d = db at hobj
  have hjournal : db.journal = {} := by
    rw [← hdb]
    exact if_neg hne
  refine ⟨?_, ?_, by rw [hjournal]; rfl, by simp [hjournal], ?_⟩
  · rw [hobj]
    refine ⟨rfl, .inl ?_⟩
    rw [← hdb]
    simp [finalise, clearJournalAndRefund, finaliseObjects, htouched]
  · intro o' ho' hs
    cases hobj.symm.trans ho'
    by_contra hlive
    obtain ⟨heq, -⟩ := finaliseObject_of_live (by simpa using hlive)
    rw [heq] at hs
    have hsui : o.suicided = true := hs
    simp [finaliseObject, hsui] at hlive
  · rcases hcached with hc | ⟨hf, hlive⟩
    · left
      rw [← hdb]
      exact hnone hc
    · right
      refine ⟨_, hobj, ?_, hlive⟩
      rw [(finaliseObject_of_live hlive).1]
      exact hf

end Write

end DB
end DyShard.State
