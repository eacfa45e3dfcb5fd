import DyShard.State.Holding

/-!
# What the setters do to the accounts

The *face* of an account is what readers see of it and its freeze flag.  Each operation of the
database is a function of the faces alone.
-/

namespace DyShard.State

open Function DB Account

/-- What an account shows to readers and setters. -/
@[ext]
structure Face where
  account : Account
  frozen : Bool
  suicided : Bool

/-- The face of an object. -/
def Object.face (o : Object) : Face :=
  ⟨{ o.data with storage := o.getState }, o.freeze, o.suicided⟩

namespace Face

/-- The face of an account that does not exist. -/
def zero : Face := (newObject .zero).face

/-- A write to an account that is not frozen. -/
def write (f : Account → Account) (x : Face) : Face :=
  if x.frozen then x else { x with account := f x.account }

theorem frozen_write (f : Account → Account) (x : Face) : (x.write f).frozen = x.frozen := by
  unfold write
  split <;> rfl

theorem suicided_write (f : Account → Account) (x : Face) :
    (x.write f).suicided = x.suicided := by
  unfold write
  split <;> rfl

theorem write_frozen {x : Face} (h : x.frozen = true) (f : Account → Account) : x.write f = x :=
  if_pos h

theorem account_write {x : Face} (h : x.frozen = false) (f : Account → Account) :
    (x.write f).account = f x.account := by simp [write, h]

end Face

namespace DB

variable {W : Type} {a b : Address}

/-- The face of an account. -/
def face (db : DB W) (a : Address) : Face := (db.getStateObject a).elim .zero Object.face

variable {db : DB W} {o : Object} {f : Account → Account}

theorem face_of_getStateObject (h : db.getStateObject a = some o) :
    db.face a = o.face := by simp [face, h]

section

variable (db : DB W) (a : Address)

theorem getBalance_eq_face : db.getBalance a = (db.face a).account.balance := by
  unfold getBalance face
  cases db.getStateObject a <;> rfl

theorem getNonce_eq_face : db.getNonce a = (db.face a).account.nonce := by
  unfold getNonce face
  cases db.getStateObject a <;> rfl

theorem getCode_eq_face : db.getCode a = (db.face a).account.code := by
  unfold getCode face
  cases db.getStateObject a <;> rfl

theorem getState_eq_face (key : Word) : db.getState a key = (db.face a).account.storage key := by
  unfold getState face
  cases db.getStateObject a <;> rfl

end

theorem face_away {db' : DB W} (h : Away a db db') : db'.face a = db.face a := by
  simp only [face, getStateObject, getDeletedStateObject, h.object, h.trie]

theorem face_update_self (db : DB W) (e : JournalEntry Object) (h : o.deleted = false) :
    (db.update a e o).face a = o.face :=
  face_of_getStateObject (getStateObject_update db e h)

theorem deleted_of_getStateObject (h : db.getStateObject a = some o) : o.deleted = false := by
  have := (Option.filter_eq_some_iff.1 h).2
  simpa using this

theorem face_getOrNew (db : DB W) (a : Address) :
    (db.getOrNewStateObject a).1.getStateObject a = some (db.getOrNewStateObject a).2 ∧
      (db.getOrNewStateObject a).2.face = db.face a := by
  cases h : db.getStateObject a with
  | some o =>
    rw [getOrNewStateObject_eq h]
    exact ⟨h, (face_of_getStateObject h).symm⟩
  | none =>
    have heq : db.getOrNewStateObject a =
        (db.update a (db.creation a) (newObject .zero), newObject .zero) := by
      simp [getOrNewStateObject, h, createObject_eq]
    rw [heq]
    exact ⟨getStateObject_update db _ rfl, by simp [face, h, Face.zero]⟩

/-- **A setter writes one account**, unless it is frozen. -/
theorem face_unlessFrozen {write : DB W → Object → DB W}
    (hwrite : ∀ db o, Write a db o (write db o))
    (hself : ∀ db o, db.getStateObject a = some o →
      (write db o).face a = { o.face with account := f o.face.account }) (db : DB W) :
    (db.unlessFrozen a write).face = Function.update db.face a ((db.face a).write f) := by
  funext b
  by_cases hb : b = a
  · subst hb
    obtain ⟨hget, hface⟩ := face_getOrNew db b
    rw [update_self]
    have hfrozen : (db.getOrNewStateObject b).2.freeze = (db.face b).frozen :=
      congrArg Face.frozen hface
    unfold unlessFrozen Face.write
    dsimp only
    rw [hfrozen]
    split
    · exact (face_of_getStateObject hget).trans hface
    · rw [hself _ _ hget, hface]
  · rw [update_of_ne hb]
    exact face_away (away_unlessFrozen db (Ne.symm hb) hwrite)

theorem account_update_write {β : Type} (field : Account → β) (hfield : ∀ x, field (f x) = field x)
    (faces : Address → Face) (a b : Address) :
    field (Function.update faces a ((faces a).write f) b).account = field (faces b).account := by
  by_cases hb : b = a
  · subst hb
    rw [update_self]
    unfold Face.write
    split
    · rfl
    · exact hfield _
  · rw [update_of_ne hb]

theorem frozen_update_write (faces : Address → Face) (a b : Address) :
    (Function.update faces a ((faces a).write f) b).frozen = (faces b).frozen := by
  by_cases hb : b = a
  · subst hb
    rw [update_self, Face.frozen_write]
  · rw [update_of_ne hb]

theorem suicided_update_write (faces : Address → Face) (a b : Address) :
    (Function.update faces a ((faces a).write f) b).suicided = (faces b).suicided := by
  by_cases h : b = a
  · subst h
    rw [update_self, Face.suicided_write]
  · rw [update_of_ne h]

theorem face_touch (h : db.getStateObject a = some o) : (touch a db o).face a = o.face := by
  have hdel := deleted_of_getStateObject h
  unfold touch
  split
  · exact face_update_self db _ hdel
  · exact face_update_self db _ hdel

section

variable (db : DB W) (a : Address)

theorem face_addBalance (amount : ℤ) :
    (db.addBalance a amount).face = Function.update db.face a
      ((db.face a).write fun x => { x with balance := x.balance + amount }) := by
  refine face_unlessFrozen (writes_addBalance amount) (fun db o h => ?_) db
  unfold objectAddBalance
  split_ifs with hzero
  · rw [face_touch h, hzero, add_zero]
  · rw [face_of_getStateObject h, hzero, add_zero]
  · exact face_update_self db _ (deleted_of_getStateObject h :)

theorem face_subBalance (amount : ℤ) :
    (db.subBalance a amount).face = Function.update db.face a
      ((db.face a).write fun x => { x with balance := x.balance - amount }) := by
  refine face_unlessFrozen (writes_subBalance amount) (fun db o h => ?_) db
  unfold objectSubBalance
  split_ifs with hzero
  · rw [face_of_getStateObject h, hzero, sub_zero]
  · exact face_update_self db _ (deleted_of_getStateObject h :)

theorem face_setNonce (nonce : UInt64) :
    (db.setNonce a nonce).face = Function.update db.face a
      ((db.face a).write fun x => { x with nonce := nonce }) :=
  face_unlessFrozen (fun _ _ => .update _ rfl _)
    (fun db o h => face_update_self (o := o.setNonce nonce) db _ (deleted_of_getStateObject h :)) db

theorem face_setCode (code : List UInt8) :
    (db.setCode a code).face = Function.update db.face a
      ((db.face a).write fun x => { x with code := code }) :=
  face_unlessFrozen (fun _ _ => .update _ rfl _)
    (fun db o h => face_update_self (o := o.setCode code) db _ (deleted_of_getStateObject h :)) db

theorem face_setState (key value : Word) :
    (db.setState a key value).face = Function.update db.face a ((db.face a).write fun x =>
      { x with storage := Function.update x.storage key value }) := by
  refine face_unlessFrozen (writes_setState key value) (fun db o h => ?_) db
  unfold objectSetState
  split_ifs with hsame
  · have hstorage : Function.update o.face.account.storage key value = o.face.account.storage :=
      update_eq_self_iff.2 hsame.symm
    rw [face_of_getStateObject h, hstorage]
  · rw [face_update_self (o := o.setState key value) db _ (deleted_of_getStateObject h :)]
    simp only [Object.face, getState_setState]
    rfl

end

/-! ## Balances and nonces -/

section

variable (db : DB W) (a b : Address) (amount : ℤ)

theorem getBalance_addBalance :
    (db.addBalance a amount).getBalance b =
      db.getBalance b + if b = a ∧ (db.face a).frozen = false then amount else 0 := by
  simp only [getBalance_eq_face, face_addBalance]
  by_cases hb : b = a
  · subst hb
    cases h : (db.face b).frozen <;> simp [Face.write, h]
  · simp [hb]

theorem getBalance_subBalance :
    (db.subBalance a amount).getBalance b =
      db.getBalance b - if b = a ∧ (db.face a).frozen = false then amount else 0 := by
  simp only [getBalance_eq_face, face_subBalance]
  by_cases hb : b = a
  · subst hb
    cases h : (db.face b).frozen <;> simp [Face.write, h]
  · simp [hb]

theorem getBalance_setNonce (nonce : UInt64) :
    (db.setNonce a nonce).getBalance b = db.getBalance b := by
  simp only [getBalance_eq_face, face_setNonce]
  exact account_update_write (f := fun x => { x with nonce := nonce }) balance (fun _ => rfl) _ _ _

theorem getNonce_addBalance : (db.addBalance a amount).getNonce b = db.getNonce b := by
  simp only [getNonce_eq_face, face_addBalance]
  exact account_update_write (f := fun x => { x with balance := x.balance + amount })
    nonce (fun _ => rfl) _ _ _

theorem getNonce_subBalance : (db.subBalance a amount).getNonce b = db.getNonce b := by
  simp only [getNonce_eq_face, face_subBalance]
  exact account_update_write (f := fun x => { x with balance := x.balance - amount })
    nonce (fun _ => rfl) _ _ _

end

theorem getNonce_setNonce (db : DB W) (a : Address) (nonce : UInt64) :
    (db.setNonce a nonce).getNonce a = if (db.face a).frozen then db.getNonce a else nonce := by
  simp only [getNonce_eq_face, face_setNonce, update_self]
  unfold Face.write
  split <;> rfl

theorem frozen_addBalance (db : DB W) (a b : Address) (amount : ℤ) :
    ((db.addBalance a amount).face b).frozen = (db.face b).frozen := by
  rw [face_addBalance, frozen_update_write]

theorem frozen_subBalance (db : DB W) (a b : Address) (amount : ℤ) :
    ((db.subBalance a amount).face b).frozen = (db.face b).frozen := by
  rw [face_subBalance, frozen_update_write]

theorem frozen_setNonce (db : DB W) (a b : Address) (nonce : UInt64) :
    ((db.setNonce a nonce).face b).frozen = (db.face b).frozen := by
  rw [face_setNonce, frozen_update_write]

/-- The balance that `CreateAccount` carries over. -/
def carried (db : DB W) (a : Address) : ℤ :=
  (db.getDeletedStateObject a).elim 0 fun o => o.data.balance

theorem face_createAccount (db : DB W) (a : Address) :
    (db.createAccount a).face =
      Function.update db.face a ⟨{ zero with balance := db.carried a }, false, false⟩ := by
  funext b
  by_cases hb : b = a
  · subst hb
    rw [update_self, createAccount_eq, face_update_self db _ rfl]
    rfl
  · rw [update_of_ne hb]
    exact face_away (away_createAccount db (Ne.symm hb))

theorem face_of_not_exist (h : db.exist a = false) : db.face a = .zero := by
  have hnone : db.getStateObject a = none := by simpa [exist] using h
  simp [face, hnone]

theorem getBalance_createAccount (db : DB W) (a b : Address) :
    (db.createAccount a).getBalance b = if b = a then db.carried a else db.getBalance b := by
  simp only [getBalance_eq_face, face_createAccount]
  by_cases hb : b = a
  · simp [hb]
  · simp [hb]

theorem frozen_createAccount (h : db.exist a = false) (b : Address) :
    ((db.createAccount a).face b).frozen = (db.face b).frozen := by
  rw [face_createAccount]
  by_cases hb : b = a
  · subst hb
    rw [update_self, face_of_not_exist h]
    rfl
  · rw [update_of_ne hb]

theorem getNonce_createAccount (h : db.exist a = false) (b : Address) :
    (db.createAccount a).getNonce b = db.getNonce b := by
  simp only [getNonce_eq_face, face_createAccount]
  by_cases hb : b = a
  · subst hb
    rw [update_self, face_of_not_exist h]
    rfl
  · rw [update_of_ne hb]

theorem face_snapshot (db : DB W) : db.snapshot.1.face = db.face := rfl

end DB

/-! ## Further calls as clients -/

namespace Client

variable {W : Type}

/-- `Exist`. -/
def exist (a : Address) : Client W Bool := .call (Call.exist a) .ret

/-- `GetCode`. -/
def getCode (a : Address) : Client W (List UInt8) := .call (Call.getCode a) .ret

/-- `CreateAccount`. -/
def createAccount (a : Address) : Client W Unit := .call (Call.createAccount a) .ret

/-- `AddLog`. -/
def addLog (log : EventLog) : Client W Unit := .call (Call.addLog log) .ret

/-- `UpdateValidatorWrapper`. -/
def updateValidatorWrapper (a : Address) (val : W) : Client W Bool :=
  .call (Call.updateValidatorWrapper a val) .ret

end Client

/-! ## Runs, call by call -/

namespace DB

variable {W α β : Type} (codec : WrapperCodec W) (db : DB W)

@[simp] theorem run_pure (x : α) : run codec (pure x) db = some (x, db) := rfl

@[simp] theorem run_bind (p : Client W α) (f : α → Client W β) :
    run codec (p >>= f) db = (run codec p db).bind fun r => run codec (f r.1) r.2 :=
  Client.Machine.run_bind _ p f db

@[simp] theorem run_exist (a : Address) :
    run codec (Client.exist a) db = some (db.exist a, db) := rfl

@[simp] theorem run_getBalance (a : Address) :
    run codec (Client.getBalance a) db = some (db.getBalance a, db) := rfl

@[simp] theorem run_getNonce (a : Address) :
    run codec (Client.getNonce a) db = some (db.getNonce a, db) := rfl

@[simp] theorem run_getCode (a : Address) :
    run codec (Client.getCode a) db = some (db.getCode a, db) := rfl

@[simp] theorem run_getState (a : Address) (key : Word) :
    run codec (Client.getState a key) db = some (db.getState a key, db) := rfl

@[simp] theorem run_getRefund : run codec Client.getRefund db = some (db.refund, db) := rfl

@[simp] theorem run_addBalance (a : Address) (amount : ℤ) :
    run codec (Client.addBalance a amount) db = some ((), db.addBalance a amount) := rfl

@[simp] theorem run_validatorWrapper (a : Address) :
    run codec (Client.validatorWrapper a) db =
      some ((db.validatorWrapper codec a).2, (db.validatorWrapper codec a).1) := rfl

end DB
end DyShard.State
