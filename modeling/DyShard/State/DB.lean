import DyShard.Common
import DyShard.Lib.Client

/-!
# The world state: `core/state`

`DB` caches the accounts of a shard over a trie; the setters of a frozen object do nothing.  Go
maps are functions into `Option` or `Bool`, a loop over a map whose iterations do not interact is
pointwise, tries and code are their contents, and a panic is `none`.  The validator wrappers are of
an arbitrary type with its checks and its codec.

Left out: the cached reads of tries, preimages, metrics and the database errors.
-/

namespace DyShard.State

open Function Client

/-! ## Accounts and objects -/

/-- `Account`, with the storage and the code that `Root` and `CodeHash` stand for. -/
structure Account where
  nonce : UInt64
  balance : ℤ
  storage : Word → Word
  code : List UInt8

/-- `Account{}`, as `newObject` completes it. -/
def Account.zero : Account where
  nonce := 0
  balance := 0
  storage _ := 0
  code := []

/-- A storage cache, `map[common.Hash]common.Hash`. -/
abbrev Storage := Word → Option Word

/-- `Object`: an account that is being modified. -/
structure Object where
  data : Account
  freeze : Bool := false
  pendingStorage : Storage := fun _ => none
  dirtyStorage : Storage := fun _ => none
  suicided : Bool := false
  deleted : Bool := false

/-- `newObject`. -/
def newObject (data : Account) : Object := { data }

namespace Object

variable (o : Object)

/-- `empty`. -/
def empty : Bool := o.data.nonce == 0 && o.data.balance == 0 && o.data.code == []

/-- `GetCommittedState`. -/
def getCommittedState (key : Word) : Word :=
  (o.pendingStorage key).getD (o.data.storage key)

/-- `GetState`. -/
def getState (key : Word) : Word :=
  (o.dirtyStorage key).getD (o.getCommittedState key)

/-- `setState`. -/
def setState (key value : Word) : Object :=
  { o with dirtyStorage := update o.dirtyStorage key (some value) }

/-- `setBalance`. -/
def setBalance (amount : ℤ) : Object := { o with data.balance := amount }

/-- `setNonce`. -/
def setNonce (nonce : UInt64) : Object := { o with data.nonce := nonce }

/-- `setCode`. -/
def setCode (code : List UInt8) : Object := { o with data.code := code }

/-- `setFreezeState`. -/
def setFreezeState (isFreeze : Bool) : Object := { o with freeze := isFreeze }

/-- `finalise`: the slots written in the transaction become pending. -/
def finalise : Object :=
  { o with
    pendingStorage := fun k => (o.dirtyStorage k).or (o.pendingStorage k)
    dirtyStorage := fun _ => none }

/-- `updateRoot`: the pending slots are written to the storage trie. -/
def updateRoot : Object :=
  let o := o.finalise
  { o with
    data.storage := fun k => (o.pendingStorage k).getD (o.data.storage k)
    pendingStorage := fun _ => none }

/-- `deepCopy`: it goes through `newObject` and copies everything but the freeze flag. -/
def deepCopy : Object :=
  { newObject o.data with
    dirtyStorage := o.dirtyStorage
    pendingStorage := o.pendingStorage
    suicided := o.suicided
    deleted := o.deleted }

end Object

/-! ## The journal -/

/-- The journal entries of `journal.go`, over the type of the objects they hold. -/
inductive JournalEntry (O : Type) where
  | createObjectChange (account : Address)
  | resetObjectChange (account : Address) (prev : O)
  | suicideChange (account : Address) (prev : Bool) (prevbalance : ℤ)
  | balanceChange (account : Address) (prev : ℤ)
  | nonceChange (account : Address) (prev : UInt64)
  | storageChange (account : Address) (key prevalue : Word)
  | codeChange (account : Address) (prevcode : List UInt8)
  | freezeChange (account : Address) (prev : Bool)
  | refundChange (prev : UInt64)
  | addLogChange (txhash : Word)
  | touchChange (account : Address)

/-- `dirtied`: the address an entry marks as modified. -/
def JournalEntry.dirtied {O : Type} : JournalEntry O → Option Address
  | .createObjectChange a => some a
  | .resetObjectChange _ _ => none
  | .suicideChange a _ _ => some a
  | .balanceChange a _ => some a
  | .nonceChange a _ => some a
  | .storageChange a _ _ => some a
  | .codeChange a _ => some a
  | .freezeChange a _ => some a
  | .refundChange _ => none
  | .addLogChange _ => none
  | .touchChange a => some a

/-- The journal.  An address is in the Go map `dirties` while the number of its entries and of the
calls of `dirty`, which a revert does not take back, is positive. -/
structure Journal where
  entries : List (JournalEntry Object) := []
  dirties : Address → ℕ := fun _ => 0
  forced : Address → ℕ := fun _ => 0

namespace Journal

/-- `append`. -/
def append (j : Journal) (e : JournalEntry Object) : Journal :=
  { j with
    entries := j.entries ++ [e]
    dirties := match e.dirtied with
      | some a => update j.dirties a (j.dirties a + 1)
      | none => j.dirties }

/-- `dirty`. -/
def dirty (j : Journal) (a : Address) : Journal :=
  { j with forced := update j.forced a (j.forced a + 1) }

/-- `addr` is a key of `dirties`. -/
def isDirty (j : Journal) (a : Address) : Bool := decide (0 < j.dirties a + j.forced a)

end Journal

/-- The RIPEMD precompile, whose touches survive a revert. -/
def ripemd : Address := 3

/-! ## The database -/

/-- What is asked of a validator wrapper: its `SanityCheck` and its RLP codec. -/
structure WrapperCodec (W : Type) where
  sanityCheck : W → Bool
  encode : W → Option (List UInt8)
  decode : List UInt8 → Option W
  decode_encode : ∀ w c, encode w = some c → decode c = some w
  encode_ne_nil : ∀ w c, encode w = some c → c ≠ []

/-- The codec of a chain that has no wrappers. -/
def WrapperCodec.empty : WrapperCodec Unit where
  sanityCheck _ := false
  encode _ := none
  decode _ := none
  decode_encode := by simp
  encode_ne_nil := by simp

/-- A log of the EVM, without the block metadata. -/
structure EventLog where
  address : Address
  topics : List Word
  data : List UInt8
  deriving DecidableEq

/-- A snapshot: its number and the journal length it was taken at. -/
structure Revision where
  id : ℕ
  journalIndex : ℕ

/-- `DB`.  `validatorKeys` are the keys of the map `stateValidators`. -/
structure DB (W : Type) where
  trie : Address → Option Account
  stateObjects : Address → Option Object := fun _ => none
  stateObjectsPending : Address → Bool := fun _ => false
  stateObjectsDirty : Address → Bool := fun _ => false
  stateValidators : Address → Option W := fun _ => none
  validatorKeys : List Address := []
  refund : UInt64 := 0
  thash : Word := 0
  txIndex : ℕ := 0
  logs : Word → List EventLog := fun _ => []
  logSize : ℕ := 0
  journal : Journal := {}
  validRevisions : List Revision := []
  nextRevisionID : ℕ := 0

namespace DB

variable {W : Type}

/-- `New` on the trie stored under a root. -/
def new (trie : Address → Option Account) : DB W := { trie }

/-! ## Reading -/

variable (db : DB W)

/-- `getDeletedStateObject`: the live object if there is one, otherwise what the trie
holds. -/
def getDeletedStateObject (addr : Address) : Option Object :=
  (db.stateObjects addr).or ((db.trie addr).map newObject)

/-- `getStateObject`: the same, hiding deleted objects. -/
def getStateObject (addr : Address) : Option Object :=
  (db.getDeletedStateObject addr).filter fun obj => !obj.deleted

/-- `Exist`. -/
def exist (addr : Address) : Bool := (db.getStateObject addr).isSome

/-- `Empty`. -/
def empty (db : DB W) (addr : Address) : Bool := (db.getStateObject addr).all Object.empty

/-- `GetBalance`. -/
def getBalance (addr : Address) : ℤ :=
  (db.getStateObject addr).elim 0 fun obj => obj.data.balance

/-- `GetNonce`. -/
def getNonce (addr : Address) : UInt64 :=
  (db.getStateObject addr).elim 0 fun obj => obj.data.nonce

/-- `GetCode`. -/
def getCode (addr : Address) : List UInt8 :=
  (db.getStateObject addr).elim [] fun obj => obj.data.code

/-- `GetState`. -/
def getState (db : DB W) (addr : Address) (key : Word) : Word :=
  (db.getStateObject addr).elim 0 fun obj => obj.getState key

/-- `GetCommittedState`. -/
def getCommittedState (db : DB W) (addr : Address) (key : Word) : Word :=
  (db.getStateObject addr).elim 0 fun obj => obj.getCommittedState key

/-- `HasSuicided`. -/
def hasSuicided (addr : Address) : Bool :=
  (db.getStateObject addr).any Object.suicided

/-- `GetLogs`. -/
def getLogs (hash : Word) : List EventLog := db.logs hash

/-! ## Writing -/

/-- `setStateObject`. -/
def setStateObject (addr : Address) (obj : Object) : DB W :=
  { db with stateObjects := update db.stateObjects addr (some obj) }

/-- `db.journal.append`. -/
def journalAppend (e : JournalEntry Object) : DB W :=
  { db with journal := db.journal.append e }

/-- `createObject`, returning the new object and the one it replaces. -/
def createObject (addr : Address) : DB W × Object × Option Object :=
  let prev := db.getDeletedStateObject addr
  let newobj := (newObject .zero).setNonce 0
  let db := match prev with
    | none => db.journalAppend (.createObjectChange addr)
    | some p => db.journalAppend (.resetObjectChange addr p)
  (db.setStateObject addr newobj, newobj, prev)

/-- `CreateAccount`: the balance of a previous object, a deleted one included, is carried
over. -/
def createAccount (addr : Address) : DB W :=
  match db.createObject addr with
  | (db, newObj, some prev) => db.setStateObject addr (newObj.setBalance prev.data.balance)
  | (db, _, none) => db

/-- `GetOrNewStateObject`. -/
def getOrNewStateObject (addr : Address) : DB W × Object :=
  match db.getStateObject addr with
  | some obj => (db, obj)
  | none => ((db.createObject addr).1, (db.createObject addr).2.1)

/-- The common shape of the setters: fetch or create the object, stop if it is frozen,
otherwise write. -/
def unlessFrozen (addr : Address) (write : DB W → Object → DB W) : DB W :=
  match db.getOrNewStateObject addr with
  | (db, obj) => if obj.freeze then db else write db obj

/-- A journalled write of an object. -/
def update (addr : Address) (e : JournalEntry Object) (obj : Object) : DB W :=
  (db.journalAppend e).setStateObject addr obj

/-- `Object.SetBalance`. -/
def objectSetBalance (addr : Address) (amount : ℤ) (db : DB W) (obj : Object) : DB W :=
  db.update addr (.balanceChange addr obj.data.balance) (obj.setBalance amount)

/-- `Object.touch`; the object it is called on is live. -/
def touch (addr : Address) (db : DB W) (obj : Object) : DB W :=
  let db := db.update addr (.touchChange addr) obj
  if addr = ripemd then { db with journal := db.journal.dirty addr } else db

/-- `Object.AddBalance`. -/
def objectAddBalance (addr : Address) (amount : ℤ) (db : DB W) (obj : Object) : DB W :=
  if amount = 0 then if obj.empty then touch addr db obj else db
  else objectSetBalance addr (obj.data.balance + amount) db obj

/-- `Object.SubBalance`. -/
def objectSubBalance (addr : Address) (amount : ℤ) (db : DB W) (obj : Object) : DB W :=
  if amount = 0 then db else objectSetBalance addr (obj.data.balance - amount) db obj

/-- `Object.SetState`. -/
def objectSetState (addr : Address) (key value : Word) (db : DB W) (obj : Object) : DB W :=
  if obj.getState key = value then db
  else db.update addr (.storageChange addr key (obj.getState key)) (obj.setState key value)

/-- `AddBalance`. -/
def addBalance (addr : Address) (amount : ℤ) : DB W :=
  db.unlessFrozen addr (objectAddBalance addr amount)

/-- `SubBalance`. -/
def subBalance (addr : Address) (amount : ℤ) : DB W :=
  db.unlessFrozen addr (objectSubBalance addr amount)

/-- `SetBalance`. -/
def setBalance (addr : Address) (amount : ℤ) : DB W :=
  db.unlessFrozen addr (objectSetBalance addr amount)

/-- `SetNonce`. -/
def setNonce (db : DB W) (addr : Address) (nonce : UInt64) : DB W :=
  db.unlessFrozen addr fun db obj =>
    db.update addr (.nonceChange addr obj.data.nonce) (obj.setNonce nonce)

/-- `SetCode`. -/
def setCode (db : DB W) (addr : Address) (code : List UInt8) : DB W :=
  db.unlessFrozen addr fun db obj =>
    db.update addr (.codeChange addr obj.data.code) (obj.setCode code)

/-- `SetState`. -/
def setState (addr : Address) (key value : Word) : DB W :=
  db.unlessFrozen addr (objectSetState addr key value)

/-- `SetFreezeState`. -/
def setFreezeState (db : DB W) (addr : Address) (isFreeze : Bool) : DB W :=
  match db.getOrNewStateObject addr with
  | (db, obj) => db.update addr (.freezeChange addr obj.freeze) (obj.setFreezeState isFreeze)

/-- `Suicide`, with the Boolean the source returns.  It does not look at the freeze
flag. -/
def suicide (addr : Address) : DB W × Bool :=
  match db.getStateObject addr with
  | none => (db, false)
  | some obj =>
    (db.update addr (.suicideChange addr obj.suicided obj.data.balance)
      { obj.setBalance 0 with suicided := true }, true)

/-- `AddLog`. -/
def addLog (log : EventLog) : DB W :=
  let db := db.journalAppend (.addLogChange db.thash)
  { db with logs := Function.update db.logs db.thash (db.logs db.thash ++ [log])
            logSize := db.logSize + 1 }

/-- `AddRefund`. -/
def addRefund (gas : UInt64) : DB W :=
  { db.journalAppend (.refundChange db.refund) with refund := db.refund + gas }

/-- `SubRefund`; going below zero is a panic. -/
def subRefund (gas : UInt64) : Option (DB W) :=
  if db.refund < gas then none
  else some { db.journalAppend (.refundChange db.refund) with refund := db.refund - gas }

/-- `Prepare`, without the block hash. -/
def prepare (thash : Word) (txIndex : ℕ) : DB W := { db with thash, txIndex }

/-! ## Validator wrappers -/

/-- A write to the map `stateValidators`. -/
def cacheValidator (addr : Address) (val : W) : DB W :=
  { db with
    stateValidators := Function.update db.stateValidators addr (some val)
    validatorKeys :=
      if (db.stateValidators addr).isSome then db.validatorKeys else addr :: db.validatorKeys }

variable (codec : WrapperCodec W)

/-- `ValidatorWrapperCopy`: the wrapper is stored as the code of the account. -/
def validatorWrapperCopy (db : DB W) (addr : Address) : Option W :=
  if db.getCode addr = [] then none else codec.decode (db.getCode addr)

/-- `ValidatorWrapper`: the cached wrapper, loaded on the first access. -/
def validatorWrapper (db : DB W) (addr : Address) : DB W × Option W :=
  match db.stateValidators addr with
  | some val => (db, some val)
  | none =>
    match db.validatorWrapperCopy codec addr with
    | some val => (db.cacheValidator addr val, some val)
    | none => (db, none)

/-- The bytes `UpdateValidatorWrapper` stores, unless one of its checks fails. -/
def wrapperBytes (val : W) : Option (List UInt8) :=
  if codec.sanityCheck val then codec.encode val else none

/-- `UpdateValidatorWrapper`; the Boolean tells whether it succeeded. -/
def updateValidatorWrapper (db : DB W) (addr : Address) (val : W) : DB W × Bool :=
  match wrapperBytes codec val with
  | none => (db, false)
  | some code => ((db.setCode addr code).cacheValidator addr val, true)

/-! ## Snapshots -/

/-- `Snapshot`, returning the number of the new revision. -/
def snapshot : DB W × ℕ :=
  ({ db with nextRevisionID := db.nextRevisionID + 1
             validRevisions :=
               db.validRevisions ++ [⟨db.nextRevisionID, db.journal.entries.length⟩] },
    db.nextRevisionID)

/-- The setters that `revert` calls on the object of an entry; a missing object is a nil
dereference. -/
def revertObject (addr : Address) (f : Object → Object) : Option (DB W) :=
  (db.getStateObject addr).map fun obj => db.setStateObject addr (f obj)

/-- `revert` of one journal entry. -/
def revertEntry : JournalEntry Object → Option (DB W)
  | .createObjectChange a =>
    some { db with stateObjects := Function.update db.stateObjects a none
                   stateObjectsDirty := Function.update db.stateObjectsDirty a false }
  | .resetObjectChange a prev => some (db.setStateObject a prev)
  | .suicideChange a prev prevbalance =>
    match db.getStateObject a with
    | some obj =>
      some (db.setStateObject a { obj.setBalance prevbalance with suicided := prev })
    | none => some db
  | .balanceChange a prev => db.revertObject a fun obj => obj.setBalance prev
  | .nonceChange a prev => db.revertObject a fun obj => obj.setNonce prev
  | .storageChange a key prevalue => db.revertObject a fun obj => obj.setState key prevalue
  | .codeChange a prevcode => db.revertObject a fun obj => obj.setCode prevcode
  | .freezeChange a prev => db.revertObject a fun obj => obj.setFreezeState prev
  | .refundChange prev => some { db with refund := prev }
  | .addLogChange h =>
    some { db with logs := Function.update db.logs h (db.logs h).dropLast
                   logSize := db.logSize - 1 }
  | .touchChange _ => some db

/-- One turn of the loop of `journal.revert`: undo the last entry, then drop the dirty
mark it had made. -/
def revertLast (e : JournalEntry Object) : Option (DB W) :=
  (db.revertEntry e).map fun db =>
    { db with journal :=
        { db.journal with
          entries := db.journal.entries.dropLast
          dirties := match e.dirtied with
            | some a => Function.update db.journal.dirties a (db.journal.dirties a - 1)
            | none => db.journal.dirties } }

/-- `journal.revert`: undo the given entries, the latest first. -/
def revertEntries (db : DB W) : List (JournalEntry Object) → Option (DB W)
  | [] => some db
  | e :: es => (db.revertLast e).bind fun db => revertEntries db es

/-- `RevertToSnapshot`; an unknown revision is a panic.  The binary search finds the first revision
that is not below `revid`. -/
def revertToSnapshot (revid : ℕ) : Option (DB W) :=
  let idx := db.validRevisions.findIdx fun r => decide (revid ≤ r.id)
  match db.validRevisions[idx]? with
  | some r =>
    if r.id = revid then
      (db.revertEntries (db.journal.entries.drop r.journalIndex).reverse).map fun db =>
        { db with validRevisions := db.validRevisions.take idx }
    else none
  | none => none

/-! ## Moving objects into the trie -/

/-- `clearJournalAndRefund`. -/
def clearJournalAndRefund : DB W :=
  { db with
    journal := if db.journal.entries = [] then db.journal else {}
    refund := if db.journal.entries = [] then db.refund else 0
    validRevisions := [] }

/-- One turn of the first loop of `Finalise`, over the cached wrappers; errors are
ignored. -/
def storeValidator (stateValidators : Address → Option W) (db : DB W) (addr : Address) : DB W :=
  match stateValidators addr with
  | some val => (db.updateValidatorWrapper codec addr val).1
  | none => db

/-- The first loop of `Finalise`: the cached wrappers become the code of their accounts. -/
def flushValidators (db : DB W) : DB W :=
  db.validatorKeys.foldl (storeValidator codec db.stateValidators) db

/-- What `Finalise` does with one dirty object. -/
def finaliseObject (deleteEmptyObjects : Bool) (obj : Object) : Object :=
  if obj.suicided || (deleteEmptyObjects && obj.empty) then { obj with deleted := true }
  else obj.finalise

/-- `addr` is a key of `journal.dirties` and has a live object. -/
def touched (addr : Address) : Bool :=
  db.journal.isDirty addr && (db.stateObjects addr).isSome

/-- The second loop of `Finalise`. -/
def finaliseObjects (deleteEmptyObjects : Bool) : DB W :=
  { db with
    stateObjects := fun a =>
      if db.touched a then (db.stateObjects a).map (finaliseObject deleteEmptyObjects)
      else db.stateObjects a
    stateObjectsPending := fun a => db.stateObjectsPending a || db.touched a
    stateObjectsDirty := fun a => db.stateObjectsDirty a || db.touched a }

/-- `Finalise`. -/
def finalise (db : DB W) (deleteEmptyObjects : Bool) : DB W :=
  ((db.flushValidators codec).finaliseObjects deleteEmptyObjects).clearJournalAndRefund

/-- The trie entry of an object. -/
def trieEntry (obj : Object) : Option Account :=
  if obj.deleted then none else some obj.updateRoot.data

/-- The loop of `IntermediateRoot`: the pending objects are written to the trie or deleted
from it. -/
def writePending : DB W :=
  { db with
    trie := fun a =>
      if db.stateObjectsPending a then (db.stateObjects a).elim (db.trie a) trieEntry
      else db.trie a
    stateObjects := fun a =>
      if db.stateObjectsPending a then
        (db.stateObjects a).map fun obj => if obj.deleted then obj else obj.updateRoot
      else db.stateObjects a
    stateObjectsPending := fun _ => false }

/-- `IntermediateRoot`, up to the final `trie.Hash()`. -/
def intermediateRoot (db : DB W) (deleteEmptyObjects : Bool) : DB W :=
  (db.finalise codec deleteEmptyObjects).writePending

/-- `Commit`: the trie of the result is what the returned root stands for. -/
def commit (db : DB W) (deleteEmptyObjects : Bool) : DB W :=
  { db.intermediateRoot codec deleteEmptyObjects with stateObjectsDirty := fun _ => false }

/-- `Copy`: dirty and pending objects are deep-copied, the rest is read from the copied trie. -/
def copy : DB W :=
  { trie := db.trie
    stateObjects := fun a =>
      if db.touched a || db.stateObjectsPending a || db.stateObjectsDirty a then
        (db.stateObjects a).map Object.deepCopy
      else none
    stateObjectsPending := fun a => db.touched a || db.stateObjectsPending a
    stateObjectsDirty := fun a => db.touched a || db.stateObjectsDirty a
    refund := db.refund
    logs := db.logs
    logSize := db.logSize }

end DB

/-! ## The interface of the clients

The EVM, the staking messages and the finalisation of a block work on the state through
these calls only. -/

/-- The calls of `vm.StateDB` and of the reward and slashing code; `putValidator` writes through the
pointer of `validatorWrapper`. -/
inductive Call (W : Type) where
  | exist (a : Address)
  | empty (a : Address)
  | getBalance (a : Address)
  | getNonce (a : Address)
  | getCode (a : Address)
  | getState (a : Address) (key : Word)
  | getCommittedState (a : Address) (key : Word)
  | hasSuicided (a : Address)
  | getRefund
  | createAccount (a : Address)
  | addBalance (a : Address) (amount : ℤ)
  | subBalance (a : Address) (amount : ℤ)
  | setNonce (a : Address) (nonce : UInt64)
  | setCode (a : Address) (code : List UInt8)
  | setState (a : Address) (key value : Word)
  | suicide (a : Address)
  | addRefund (gas : UInt64)
  | subRefund (gas : UInt64)
  | addLog (log : EventLog)
  | validatorWrapper (a : Address)
  | putValidator (a : Address) (val : W)
  | updateValidatorWrapper (a : Address) (val : W)

/-- What a call answers. -/
def Call.Answer {W : Type} : Call W → Type
  | .exist _ | .empty _ | .hasSuicided _ | .suicide _ | .updateValidatorWrapper _ _ => Bool
  | .getBalance _ => ℤ
  | .getNonce _ | .getRefund => UInt64
  | .getCode _ => List UInt8
  | .getState _ _ | .getCommittedState _ _ => Word
  | .validatorWrapper _ => Option W
  | _ => Unit

/-- The interface of the state. -/
abbrev interface (W : Type) : Interface := ⟨Call W, Call.Answer⟩

/-- A client of the state. -/
abbrev Client (W α : Type) := Prog (interface W) α

/-- One call on the database. -/
def DB.call {W : Type} (codec : WrapperCodec W) :
    (c : Call W) → DB W → Option (c.Answer × DB W)
  | .exist a, db => some (db.exist a, db)
  | .empty a, db => some (db.empty a, db)
  | .getBalance a, db => some (db.getBalance a, db)
  | .getNonce a, db => some (db.getNonce a, db)
  | .getCode a, db => some (db.getCode a, db)
  | .getState a key, db => some (db.getState a key, db)
  | .getCommittedState a key, db => some (db.getCommittedState a key, db)
  | .hasSuicided a, db => some (db.hasSuicided a, db)
  | .getRefund, db => some (db.refund, db)
  | .createAccount a, db => some ((), db.createAccount a)
  | .addBalance a amount, db => some ((), db.addBalance a amount)
  | .subBalance a amount, db => some ((), db.subBalance a amount)
  | .setNonce a nonce, db => some ((), db.setNonce a nonce)
  | .setCode a code, db => some ((), db.setCode a code)
  | .setState a key value, db => some ((), db.setState a key value)
  | .suicide a, db => some ((db.suicide a).2, (db.suicide a).1)
  | .addRefund gas, db => some ((), db.addRefund gas)
  | .subRefund gas, db => (db.subRefund gas).map fun db => ((), db)
  | .addLog log, db => some ((), db.addLog log)
  | .validatorWrapper a, db =>
    some ((db.validatorWrapper codec a).2, (db.validatorWrapper codec a).1)
  | .putValidator a val, db => some ((), db.cacheValidator a val)
  | .updateValidatorWrapper a val, db =>
    some ((db.updateValidatorWrapper codec a val).2, (db.updateValidatorWrapper codec a val).1)

/-- The database as a machine for its clients. -/
def DB.machine {W : Type} (codec : WrapperCodec W) : Machine (interface W) (DB W) where
  call := DB.call codec
  snapshot := DB.snapshot
  revert := DB.revertToSnapshot

/-- A client runs on the database. -/
def DB.run {W α : Type} (codec : WrapperCodec W) (p : Client W α) (db : DB W) :
    Option (α × DB W) := (DB.machine codec).run p db

/-! ## Single calls as clients -/

namespace Client

variable {W : Type}

/-- `GetBalance`. -/
def getBalance (a : Address) : Client W ℤ := .call (Call.getBalance a) .ret

/-- `GetNonce`. -/
def getNonce (a : Address) : Client W UInt64 := .call (Call.getNonce a) .ret

/-- `GetState`. -/
def getState (a : Address) (key : Word) : Client W Word := .call (Call.getState a key) .ret

/-- `GetRefund`. -/
def getRefund : Client W UInt64 := .call Call.getRefund .ret

/-- `AddBalance`. -/
def addBalance (a : Address) (amount : ℤ) : Client W Unit := .call (Call.addBalance a amount) .ret

/-- `SubBalance`. -/
def subBalance (a : Address) (amount : ℤ) : Client W Unit := .call (Call.subBalance a amount) .ret

/-- `SetNonce`. -/
def setNonce (a : Address) (nonce : UInt64) : Client W Unit := .call (Call.setNonce a nonce) .ret

/-- `SetState`. -/
def setState (a : Address) (key value : Word) : Client W Unit := .call (Call.setState a key value) .ret

/-- `ValidatorWrapper`. -/
def validatorWrapper (a : Address) : Client W (Option W) := .call (Call.validatorWrapper a) .ret

/-- A write through the pointer of `ValidatorWrapper`. -/
def putValidator (a : Address) (val : W) : Client W Unit := .call (Call.putValidator a val) .ret

end Client

end DyShard.State
