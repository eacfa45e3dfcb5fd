import DyShard.State.History
import DyShard.State.Wrappers

/-!
# Settling a transaction

`Finalise` makes the loaded wrappers the code of their accounts and closes the dirty objects.
Sealing a block commits the state, and the next block opens it again.
-/

namespace DyShard.State.DB

open Function

variable {W : Type} {codec : WrapperCodec W} {db db' : DB W}

/-! ## The flush -/

/-- The wrapper of an account is the old one, or the one that is loaded. -/
def Stores (codec : WrapperCodec W) (db db' : DB W) (a : Address) : Prop :=
  db'.validatorWrapperCopy codec a = db.validatorWrapperCopy codec a ∨
    ∃ val, db.stateValidators a = some val ∧ db'.validatorWrapperCopy codec a = some val

/-- Loaded wrappers have been stored, and nothing else has changed. -/
structure Flushed (codec : WrapperCodec W) (db db' : DB W) : Prop where
  wrapper : ∀ a, Stores codec db db' a
  cached : db'.stateValidators = db.stateValidators
  storage : db'.getState = db.getState
  frozen : ∀ a, (db'.face a).frozen = (db.face a).frozen
  suicided : ∀ a, (db'.face a).suicided = (db.face a).suicided
  backed : db.Backed → db'.Backed

theorem SameStaking.flushed (h : SameStaking codec db db') : Flushed codec db db' where
  wrapper a := .inl (by rw [h.wrapper])
  cached := h.cached
  storage := h.storage
  frozen := h.frozen
  suicided := h.suicided
  backed := h.backed

theorem Flushed.trans {db'' : DB W} (h : Flushed codec db db') (h' : Flushed codec db' db'') :
    Flushed codec db db'' where
  wrapper a := by
    obtain heq | ⟨val, hval, heq⟩ := h'.wrapper a
    · exact (h.wrapper a).imp (fun h => heq.trans h) fun ⟨val, hval, h⟩ => ⟨val, hval, heq.trans h⟩
    · exact .inr ⟨val, by rw [← h.cached, hval], heq⟩
  cached := h'.cached.trans h.cached
  storage := h'.storage.trans h.storage
  frozen a := (h'.frozen a).trans (h.frozen a)
  suicided a := (h'.suicided a).trans (h.suicided a)
  backed hdb := h'.backed (h.backed hdb)

theorem sameStaking_setCode_frozen {a : Address} (hfrozen : (db.face a).frozen = true)
    (code : List UInt8) : SameStaking codec db (db.setCode a code) := by
  have hface : (db.setCode a code).face = db.face := by
    rw [face_setCode, Face.write_frozen hfrozen, update_eq_self]
  refine ⟨?_, ?_, ?_, fun b => by rw [hface], fun b => by rw [hface],
    fun hdb => hdb.marks (marks_setCode db a code)⟩
  · funext b
    exact validatorWrapperCopy_of_code (by rw [hface])
  · exact congrArg Kept.validators (shows_setCode db a code).kept
  · funext b key
    rw [getState_eq_face, getState_eq_face, hface]

theorem flushed_updateValidatorWrapper {a : Address} {val : W}
    (hcached : db.stateValidators a = some val) :
    Flushed codec db (db.updateValidatorWrapper codec a val).1 := by
  cases hok : (db.updateValidatorWrapper codec a val).2 with
  | false =>
    have hsame : (db.updateValidatorWrapper codec a val).1 = db := by
      unfold updateValidatorWrapper at hok ⊢
      cases hbytes : wrapperBytes codec val with
      | none => rfl
      | some code => simp [hbytes] at hok
    rw [hsame]
    exact (SameStaking.refl db).flushed
  | true =>
    cases hfrozen : (db.face a).frozen with
    | false =>
      have hupdated := updated_of_update hfrozen hok
      refine ⟨fun b => ?_, ?_, hupdated.storage, hupdated.frozen, hupdated.suicided,
        hupdated.backed⟩
      · unfold Stores
        rw [hupdated.wrapper]
        by_cases hb : b = a
        · subst hb
          exact .inr ⟨val, hcached, update_self _ _ _⟩
        · exact .inl (update_of_ne hb _ _)
      · rw [hupdated.cached, ← hcached, update_eq_self]
    | true =>
      obtain ⟨code, -, -, heq⟩ := updateValidatorWrapper_eq_true hok
      have hsame : SameStaking codec db (db.setCode a code) :=
        sameStaking_setCode_frozen hfrozen code
      have hloaded : ((db.setCode a code).cacheValidator a val).stateValidators =
          db.stateValidators := by
        change Function.update (db.setCode a code).stateValidators a (some val) = _
        rw [hsame.cached, ← hcached, update_eq_self]
      rw [heq]
      exact { hsame.flushed with cached := hloaded }

/-- **The flush** stores loaded wrappers and changes nothing else. -/
theorem flushed_flushValidators (codec : WrapperCodec W) (db : DB W) :
    Flushed codec db (db.flushValidators codec) := by
  -- the loop reads the map of the state it started from, so the invariant speaks of that state
  refine flushValidators_inv (SameStaking.refl db).flushed ?_
  intro cur a val h hval
  exact h.trans (flushed_updateValidatorWrapper (by rw [h.cached, hval]))

/-- An account that is closed keeps its face, or it vanishes: it has destroyed itself, or there is
nothing in it. -/
theorem face_finaliseObjects (db : DB W) (d : Bool) (a : Address) :
    (db.finaliseObjects d).face a = db.face a ∨
      (db.finaliseObjects d).face a = .zero ∧
        ((db.face a).suicided = true ∨ (db.face a).account.code = []) := by
  unfold face getStateObject getDeletedStateObject finaliseObjects
  by_cases htouched : db.touched a = true
  · obtain ⟨o, ho⟩ : ∃ o, db.stateObjects a = some o := by
      simpa [touched, Option.isSome_iff_exists] using (Bool.and_eq_true_iff.1 htouched).2
    simp only [htouched, if_true, ho, Option.map_some, Option.some_or]
    cases hdeleted : o.deleted with
    | true =>
      left
      by_cases hgone : (o.suicided || (d && o.empty)) = true <;>
        simp [finaliseObject, hgone, Option.filter, hdeleted, Object.finalise]
    | false =>
      by_cases hgone : (o.suicided || (d && o.empty)) = true
      · right
        refine ⟨by simp [finaliseObject, hgone, Option.filter], ?_⟩
        simp only [Option.filter, hdeleted, Bool.not_false, if_true, Option.elim_some]
        obtain hsuicided | hempty := Bool.or_eq_true_iff.1 hgone
        · exact .inl hsuicided
        · have := (Bool.and_eq_true_iff.1 hempty).2
          simp only [Object.empty, Bool.and_eq_true, beq_iff_eq] at this
          exact .inr this.2
      · left
        have hfinalise : finaliseObject d o = o.finalise := if_neg hgone
        have hlive : o.finalise.deleted = false := hdeleted
        simp [hfinalise, Option.filter, hdeleted, hlive, face_finalise]
  · left
    simp [htouched]

/-! ## The end of a transaction -/

/-- An account with a wrapper keeps its storage, and one without has no more in it than before. -/
structure Settled (codec : WrapperCodec W) (db db' : DB W) : Prop where
  wrapper : ∀ a, Stores codec db db' a
  cached : db'.stateValidators = db.stateValidators
  storage : ∀ a, db.validatorWrapperCopy codec a ≠ none → db'.getState a = db.getState a
  cleared : ∀ a key, db'.getState a key = db.getState a key ∨ db'.getState a key = 0
  frozen : ∀ a, (db'.face a).frozen = true → (db.face a).frozen = true
  suicided : ∀ a, (db'.face a).suicided = false
  backed : db.Backed → db'.Backed

theorem Settled.coherent_wrapper (h : Settled codec db db') (hcoherent : Coherent codec db) :
    db'.validatorWrapperCopy codec = db.validatorWrapperCopy codec := by
  funext a
  obtain heq | ⟨val, hval, heq⟩ := h.wrapper a
  · exact heq
  · rw [heq, hcoherent a val hval]

theorem Settled.thawed (h : Settled codec db db') (hthawed : db.Thawed) : db'.Thawed := fun a =>
  Bool.eq_false_iff.2 fun hfrozen => by
    have := h.frozen a hfrozen
    rw [hthawed a] at this
    cases this

theorem Settled.coherent (h : Settled codec db db') (hcoherent : Coherent codec db) :
    Coherent codec db' := by
  intro a val hval
  rw [h.coherent_wrapper hcoherent]
  exact hcoherent a val (by rw [← h.cached, hval])

theorem wrapper_of_faces (hface : ∀ a, db'.face a = db.face a ∨
    db'.face a = .zero ∧ (db.face a).account.code = []) (a : Address) :
    db'.validatorWrapperCopy codec a = db.validatorWrapperCopy codec a := by
  refine validatorWrapperCopy_of_code ?_
  obtain h | ⟨h, hcode⟩ := hface a
  · rw [h]
  · rw [h, hcode]
    rfl

theorem Stores.code_ne_nil {a : Address} (h : Stores codec db db' a)
    (hwrapper : db.validatorWrapperCopy codec a ≠ none) : (db'.face a).account.code ≠ [] := by
  intro hcode
  have hnone : db'.validatorWrapperCopy codec a = none := by
    rw [validatorWrapperCopy, getCode_eq_face, if_pos hcode]
  obtain heq | ⟨val, -, heq⟩ := h
  · exact hwrapper (heq.symm.trans hnone)
  · exact Option.some_ne_none val (heq.symm.trans hnone)

theorem Flushed.settled {db₁ : DB W} (h : Flushed codec db db₁)
    (hsuicided : ∀ a, (db.face a).suicided = false)
    (hcached : db'.stateValidators = db₁.stateValidators) (hbacked : db.Backed → db'.Backed)
    (hface : ∀ a, db'.face a = db₁.face a ∨ db'.face a = .zero ∧ (db₁.face a).account.code = []) :
    Settled codec db db' where
  wrapper a := by
    unfold Stores
    rw [wrapper_of_faces hface]
    exact h.wrapper a
  cached := hcached.trans h.cached
  storage a hwrapper := by
    obtain heq | ⟨-, hcode⟩ := hface a
    · rw [← h.storage]
      funext key
      rw [getState_eq_face, getState_eq_face, heq]
    · exact absurd hcode ((h.wrapper a).code_ne_nil hwrapper)
  cleared a key := by
    rw [← h.storage, getState_eq_face, getState_eq_face]
    obtain heq | ⟨heq, -⟩ := hface a
    · exact .inl (by rw [heq])
    · exact .inr (by rw [heq]; rfl)
  frozen a hfrozen := by
    obtain heq | ⟨heq, -⟩ := hface a
    · rwa [heq, h.frozen] at hfrozen
    · rw [heq] at hfrozen
      cases hfrozen
  suicided a := by
    obtain heq | ⟨heq, -⟩ := hface a
    · rw [heq, h.suicided]
      exact hsuicided a
    · rw [heq]
      rfl
  backed := hbacked

theorem face_finalise_flushed (hsuicided : ∀ a, (db.face a).suicided = false) (d : Bool)
    (a : Address) :
    (db.finalise codec d).face a = (db.flushValidators codec).face a ∨
      (db.finalise codec d).face a = .zero ∧
        ((db.flushValidators codec).face a).account.code = [] := by
  have hclear : (db.finalise codec d).face a =
      ((db.flushValidators codec).finaliseObjects d).face a := rfl
  have hflushed : ((db.flushValidators codec).face a).suicided = false :=
    ((flushed_flushValidators codec db).suicided a).trans (hsuicided a)
  refine (face_finaliseObjects (db.flushValidators codec) d a).imp_right fun h => ⟨h.1, ?_⟩
  exact h.2.resolve_left (by rw [hflushed]; exact Bool.false_ne_true)

/-- **`Finalise` settles a state.** -/
theorem settled_finalise (codec : WrapperCodec W) (hsuicided : ∀ a, (db.face a).suicided = false)
    (d : Bool) : Settled codec db (db.finalise codec d) :=
  (flushed_flushValidators codec db).settled hsuicided rfl (fun hdb _ _ => stored_finalise hdb d)
    (face_finalise_flushed hsuicided d)

/-! ## The next block -/

/-- A state that is opened on the trie of another one. -/
structure Reopened (codec : WrapperCodec W) (db db' : DB W) : Prop where
  wrapper : ∀ a, Stores codec db db' a
  cached : ∀ a, db'.stateValidators a = none
  storage : ∀ a, db.validatorWrapperCopy codec a ≠ none → db'.getState a = db.getState a
  cleared : ∀ a key, db'.getState a key = db.getState a key ∨ db'.getState a key = 0
  thawed : db'.Thawed
  suicided : ∀ a, (db'.face a).suicided = false
  backed : db'.Backed
  sound : db'.Sound

/-- **The state of the next block** has no memory of what was frozen or loaded. -/
theorem reopened_commit (codec : WrapperCodec W) (hsuicided : ∀ a, (db.face a).suicided = false)
    (hbacked : db.Backed) (hsound : db.Sound) (d : Bool) :
    Reopened codec db (new (db.commit codec d).trie) := by
  have hfinal := settled_finalise codec hsuicided d
  have hroot : ∀ a, (db.intermediateRoot codec d).face a = (db.finalise codec d).face a :=
    face_writePending fun a ha => (sound_finalise hsound d).present a (.inr ha)
  have hface : ∀ a, (new (db.commit codec d).trie : DB W).face a =
      ⟨((db.finalise codec d).face a).account, false, false⟩ := fun a => by
    rw [face_reopen hbacked hsound d a, hroot a]
  have hstate : ∀ a, (new (db.commit codec d).trie : DB W).getState a =
      (db.finalise codec d).getState a := fun a => by
    funext key
    rw [getState_eq_face, getState_eq_face, hface a]
  have hcopy : ∀ a, (new (db.commit codec d).trie : DB W).validatorWrapperCopy codec a =
      (db.finalise codec d).validatorWrapperCopy codec a := fun a =>
    validatorWrapperCopy_of_code (by rw [hface a])
  exact {
    wrapper := fun a => by
      unfold Stores
      rw [hcopy a]
      exact hfinal.wrapper a
    cached := fun _ => rfl
    storage := fun a hwrapper => (hstate a).trans (hfinal.storage a hwrapper)
    cleared := fun a key => by
      rw [hstate a]
      exact hfinal.cleared a key
    thawed := fun a => by rw [hface a]
    suicided := fun a => by rw [hface a]
    backed := backed_new _
    sound := sound_new _ }

end DyShard.State.DB
