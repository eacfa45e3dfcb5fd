import DyShard.State.Backed

/-!
# Wrappers in the database

A wrapper is the code of its account, and one that has been loaded or written is also in
`stateValidators`.  What each operation does to the two, to the storage and to the freeze flags.
-/

namespace DyShard.State.DB

open Function Account

variable {W : Type} {codec : WrapperCodec W}

/-- No account is frozen. -/
def Thawed (db : DB W) : Prop := ∀ a, (db.face a).frozen = false

variable {db db' : DB W} {a : Address} {val : W}

theorem validatorWrapperCopy_of_code (h : (db'.face a).account.code = (db.face a).account.code) :
    db'.validatorWrapperCopy codec a = db.validatorWrapperCopy codec a := by
  unfold validatorWrapperCopy
  rw [getCode_eq_face, getCode_eq_face, h]

/-- The two states have the same wrappers, storage and freeze flags. -/
structure SameStaking (codec : WrapperCodec W) (db db' : DB W) : Prop where
  wrapper : db'.validatorWrapperCopy codec = db.validatorWrapperCopy codec
  cached : db'.stateValidators = db.stateValidators
  storage : db'.getState = db.getState
  frozen : ∀ a, (db'.face a).frozen = (db.face a).frozen
  suicided : ∀ a, (db'.face a).suicided = (db.face a).suicided
  backed : db.Backed → db'.Backed

namespace SameStaking

variable {db db' db'' : DB W}

theorem refl (db : DB W) : SameStaking codec db db :=
  ⟨rfl, rfl, rfl, fun _ => rfl, fun _ => rfl, id⟩

theorem trans (h : SameStaking codec db db') (h' : SameStaking codec db' db'') :
    SameStaking codec db db'' where
  wrapper := h'.wrapper.trans h.wrapper
  cached := h'.cached.trans h.cached
  storage := h'.storage.trans h.storage
  frozen a := (h'.frozen a).trans (h.frozen a)
  suicided a := (h'.suicided a).trans (h.suicided a)
  backed hdb := h'.backed (h.backed hdb)

theorem thawed (h : SameStaking codec db db') (hdb : db.Thawed) : db'.Thawed :=
  fun a => (h.frozen a).trans (hdb a)

theorem of_write {a : Address} {f : Account → Account}
    (hface : db'.face = Function.update db.face a ((db.face a).write f))
    (hcached : db'.stateValidators = db.stateValidators)
    (hmarks : Marks a db db') (hcode : ∀ x, (f x).code = x.code)
    (hstorage : ∀ x, (f x).storage = x.storage) : SameStaking codec db db' where
  wrapper := by
    funext b
    refine validatorWrapperCopy_of_code ?_
    rw [hface]
    exact account_update_write code hcode _ _ _
  cached := hcached
  storage := by
    funext b key
    rw [getState_eq_face, getState_eq_face, hface]
    exact congrFun (account_update_write Account.storage hstorage _ _ _) key
  frozen b := by rw [hface, frozen_update_write]
  suicided b := by rw [hface, suicided_update_write]
  backed hdb := hdb.marks hmarks

theorem addBalance (db : DB W) (a : Address) (amount : ℤ) :
    SameStaking codec db (db.addBalance a amount) := by
  refine of_write (face_addBalance db a amount) ?_ (marks_unlessFrozen (writes_addBalance amount) db) (fun _ => rfl)
    fun _ => rfl
  refine (congrArg Kept.validators (shows_addBalance db a amount).kept).trans ?_
  unfold Kept.touch
  split <;> rfl

theorem subBalance (db : DB W) (a : Address) (amount : ℤ) :
    SameStaking codec db (db.subBalance a amount) :=
  of_write (face_subBalance db a amount)
    (congrArg Kept.validators (shows_subBalance db a amount).kept) (marks_unlessFrozen (writes_subBalance amount) db)
    (fun _ => rfl) fun _ => rfl

theorem setNonce (db : DB W) (a : Address) (nonce : UInt64) :
    SameStaking codec db (db.setNonce a nonce) :=
  of_write (face_setNonce db a nonce)
    (congrArg Kept.validators (shows_setNonce db a nonce).kept) (marks_unlessFrozen (fun _ _ => .update _ rfl _) db)
    (fun _ => rfl) fun _ => rfl

theorem addLog (db : DB W) (log : EventLog) : SameStaking codec db (db.addLog log) :=
  ⟨rfl, rfl, rfl, fun _ => rfl, fun _ => rfl, fun hdb a => hdb a⟩

end SameStaking

/-! ## Storage -/

theorem getBalance_setState (db : DB W) (a b : Address) (key value : Word) :
    (db.setState a key value).getBalance b = db.getBalance b := by
  simp only [getBalance_eq_face, face_setState]
  exact account_update_write (f := fun x => { x with storage := Function.update x.storage key value })
    balance (fun _ => rfl) _ _ _

theorem getState_setState_thawed (h : (db.face a).frozen = false) (key value : Word) (b : Address)
    (k : Word) :
    (db.setState a key value).getState b k =
      if b = a ∧ k = key then value else db.getState b k := by
  simp only [getState_eq_face, face_setState]
  by_cases hb : b = a
  · subst hb
    rw [update_self, Face.account_write h]
    by_cases hk : k = key <;> simp [hk]
  · simp [hb]

theorem wrapper_setState (db : DB W) (a : Address) (key value : Word) :
    (db.setState a key value).validatorWrapperCopy codec = db.validatorWrapperCopy codec := by
  funext b
  refine validatorWrapperCopy_of_code ?_
  rw [face_setState]
  exact account_update_write (f := fun x => { x with storage := Function.update x.storage key value })
    code (fun _ => rfl) _ _ _

theorem cached_setState (db : DB W) (a : Address) (key value : Word) :
    (db.setState a key value).stateValidators = db.stateValidators :=
  congrArg Kept.validators (shows_setState db a key value).kept

theorem Thawed.addBalance (h : db.Thawed) (a : Address) (amount : ℤ) :
    (db.addBalance a amount).Thawed := fun b => (frozen_addBalance db a b amount).trans (h b)

theorem Thawed.subBalance (h : db.Thawed) (a : Address) (amount : ℤ) :
    (db.subBalance a amount).Thawed := fun b => (frozen_subBalance db a b amount).trans (h b)

theorem Thawed.setState (h : db.Thawed) (a : Address) (key value : Word) :
    (db.setState a key value).Thawed := fun b => by
  rw [face_setState, frozen_update_write]
  exact h b

/-! ## `UpdateValidatorWrapper` -/

theorem updateValidatorWrapper_eq_true (h : (db.updateValidatorWrapper codec a val).2 = true) :
    ∃ code, codec.sanityCheck val = true ∧ codec.encode val = some code ∧
      (db.updateValidatorWrapper codec a val).1 = (db.setCode a code).cacheValidator a val := by
  unfold updateValidatorWrapper at h ⊢
  cases hbytes : wrapperBytes codec val with
  | none => simp [hbytes] at h
  | some code =>
    unfold wrapperBytes at hbytes
    split_ifs at hbytes with hsane
    exact ⟨code, hsane, hbytes, rfl⟩

/-- What a successful `UpdateValidatorWrapper` leaves, if the account is not frozen. -/
structure Updated (codec : WrapperCodec W) (db db' : DB W) (a : Address) (val : W) : Prop where
  sane : codec.sanityCheck val = true
  wrapper : db'.validatorWrapperCopy codec =
    Function.update (db.validatorWrapperCopy codec) a (some val)
  cached : db'.stateValidators = Function.update db.stateValidators a (some val)
  storage : db'.getState = db.getState
  balance : db'.getBalance = db.getBalance
  frozen : ∀ b, (db'.face b).frozen = (db.face b).frozen
  suicided : ∀ b, (db'.face b).suicided = (db.face b).suicided
  backed : db.Backed → db'.Backed

theorem face_cacheValidator (db : DB W) (a : Address) (val : W) :
    (db.cacheValidator a val).face = db.face := rfl

theorem updated_of_update (hthawed : (db.face a).frozen = false)
    (h : (db.updateValidatorWrapper codec a val).2 = true) :
    Updated codec db (db.updateValidatorWrapper codec a val).1 a val := by
  obtain ⟨code, hsane, hencode, heq⟩ := updateValidatorWrapper_eq_true h
  rw [heq]
  have hface : ((db.setCode a code).cacheValidator a val).face = Function.update db.face a
      ((db.face a).write fun x => { x with code := code }) :=
    (face_cacheValidator _ a val).trans (face_setCode db a code)
  have hcached : (db.setCode a code).stateValidators = db.stateValidators :=
    congrArg Kept.validators (shows_setCode db a code).kept
  refine ⟨hsane, ?_, ?_, ?_, ?_, ?_, ?_,
    fun hdb => (hdb.marks (marks_setCode db a code)).cacheValidator a val⟩
  · funext b
    by_cases hb : b = a
    · subst hb
      rw [update_self]
      have hcode : ((db.setCode b code).cacheValidator b val).getCode b = code := by
        rw [getCode_eq_face, hface, update_self, Face.account_write hthawed]
      unfold validatorWrapperCopy
      rw [hcode, if_neg (codec.encode_ne_nil _ _ hencode), codec.decode_encode _ _ hencode]
    · rw [update_of_ne hb]
      refine validatorWrapperCopy_of_code ?_
      rw [hface, update_of_ne hb]
  · change Function.update (db.setCode a code).stateValidators a (some val) = _
    rw [hcached]
  · funext b key
    rw [getState_eq_face, getState_eq_face, hface]
    exact congrFun (account_update_write (f := fun x => { x with code := code })
      storage (fun _ => rfl) _ _ _) key
  · funext b
    rw [getBalance_eq_face, getBalance_eq_face, hface]
    exact account_update_write (f := fun x => { x with code := code }) balance (fun _ => rfl) _ _ _
  · intro b
    rw [hface, frozen_update_write]
  · intro b
    rw [hface, suicided_update_write]

theorem Updated.thawed (h : Updated codec db db' a val) (hdb : db.Thawed) :
    db'.Thawed := fun b => (h.frozen b).trans (hdb b)

/-! ## Coherence -/

/-- Every loaded wrapper is the one in the code. -/
def Coherent (codec : WrapperCodec W) (db : DB W) : Prop :=
  ∀ a val, db.stateValidators a = some val → db.validatorWrapperCopy codec a = some val

theorem SameStaking.coherent (h : SameStaking codec db db') (hdb : Coherent codec db) :
    Coherent codec db' := by
  intro a val hval
  rw [h.wrapper]
  exact hdb a val (h.cached ▸ hval)

theorem Updated.coherent (h : Updated codec db db' a val) (hdb : Coherent codec db) :
    Coherent codec db' := by
  intro b val' hval'
  rw [h.cached] at hval'
  rw [h.wrapper]
  by_cases hb : b = a
  · subst hb
    rwa [update_self] at hval' ⊢
  · rw [update_of_ne hb] at hval' ⊢
    exact hdb b val' hval'

end DyShard.State.DB
