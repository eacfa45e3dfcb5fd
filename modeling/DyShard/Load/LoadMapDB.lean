import DyShard.Common

/-!
# The load map: `shard/mapping/load`

The load map sends an address to the shard it has been migrated to.  Go maps are functions into
`Option` or `Bool`, a loop over a map whose iterations do not interact is pointwise, the trie is
its contents, and a panic is `none`.  `loadMapObject` has no exported field, so what is stored for
it is the empty list.

Left out: the database error, the refund counter and the block metadata, which nothing here reads.
-/

namespace DyShard.Load

open Function

/-! ## Objects and the journal -/

/-- `MapAccount`: the record stored for one address. -/
structure MapAccount where
  targetShardID : ShardID
  deriving DecidableEq

/-- `loadMapObject`, the cached form of one entry. -/
structure LoadMapObject where
  data : MapAccount
  suicided : Bool := false
  deleted : Bool := false
  deriving DecidableEq

/-- `newObject`: the target shard it is given is overwritten with `IniShardID`,
whatever it was. -/
def newObject (data : MapAccount) : LoadMapObject :=
  { data := { data with targetShardID := iniShardID } }

namespace LoadMapObject

/-- `setTargetShardID`, the unjournalled write. -/
def setTargetShardID (o : LoadMapObject) (id : ShardID) : LoadMapObject :=
  { o with data := { o.data with targetShardID := id } }

/-- `empty`: the address has no mapping. -/
def empty (o : LoadMapObject) : Bool := o.data.targetShardID == iniShardID

/-- `deepCopy`, which goes through `newObject`. -/
def deepCopy (o : LoadMapObject) : LoadMapObject :=
  { newObject o.data with suicided := o.suicided, deleted := o.deleted }

end LoadMapObject

/-- What `rlp.EncodeToBytes` writes for a `loadMapObject`, which has no exported fields. -/
def encodeObject (_ : LoadMapObject) : Rlp.Item := Rlp.encodeStruct []

/-- `rlp.DecodeBytes` into a `MapAccount`: one element, a `uint32`. -/
def decodeMapAccount : Rlp.Item → Option MapAccount
  | .list [x] => (Rlp.decodeUint32 x).map MapAccount.mk
  | _ => none

/-- The journal entries of `journal.go`. -/
inductive JournalEntry where
  | createObjectChange (account : Address)
  | resetObjectChange (account : Address) (prev : LoadMapObject)
  | suicideChange (account : Address) (prev : Bool) (previd : ShardID)
  | targetShardIDChange (account : Address) (prev : ShardID)
  | addLogChange (txhash : Word)

/-- `dirtied`: the address an entry marks as modified. -/
def JournalEntry.dirtied : JournalEntry → Option Address
  | .createObjectChange a => some a
  | .resetObjectChange _ _ => none
  | .suicideChange a _ _ => some a
  | .targetShardIDChange a _ => some a
  | .addLogChange _ => none

/-- The entries since the last `Finalise`, and how many of them touch each address. -/
structure Journal where
  entries : List JournalEntry := []
  dirties : Address → ℕ := fun _ => 0

/-- `journal.append`. -/
def Journal.append (j : Journal) (e : JournalEntry) : Journal where
  entries := j.entries ++ [e]
  dirties := match e.dirtied with
    | some a => update j.dirties a (j.dirties a + 1)
    | none => j.dirties

/-- A snapshot: its number and the journal length it was taken at. -/
structure Revision where
  id : ℕ
  journalIndex : ℕ

/-- The contents of the load-map trie. -/
abbrev Trie := Address → Option Rlp.Item

/-- `LoadMapDB`. -/
structure LoadMapDB where
  trie : Trie
  loadMapObjects : Address → Option LoadMapObject := fun _ => none
  loadMapObjectsPending : Address → Bool := fun _ => false
  loadMapObjectsDirty : Address → Bool := fun _ => false
  thash : Word := 0
  logs : Word → List (List UInt8) := fun _ => []
  logSize : ℕ := 0
  journal : Journal := {}
  validRevisions : List Revision := []
  nextRevisionId : ℕ := 0

namespace LoadMapDB

/-- `New` on the trie stored under a root. -/
def new (trie : Trie) : LoadMapDB := { trie }

/-! ## Reading -/

variable (l : LoadMapDB)

/-- `getDeletedLoadMapObject`: the live object, otherwise what the trie holds.  The cache of loaded
objects is never newer than the trie, and left out. -/
def getDeletedLoadMapObject (addr : Address) : Option LoadMapObject :=
  match l.loadMapObjects addr with
  | some obj => some obj
  | none => ((l.trie addr).bind decodeMapAccount).map newObject

/-- `getLoadMapObject`: the same, hiding deleted objects. -/
def getLoadMapObject (addr : Address) : Option LoadMapObject :=
  (l.getDeletedLoadMapObject addr).filter fun obj => !obj.deleted

/-- `Exist`. -/
def exist (addr : Address) : Bool := (l.getLoadMapObject addr).isSome

/-- `Empty`. -/
def empty (l : LoadMapDB) (addr : Address) : Bool :=
  match l.getLoadMapObject addr with
  | some obj => obj.empty
  | none => true

/-- `HasSuicided` is read off the object. -/
def hasSuicided (addr : Address) : Bool :=
  match l.getLoadMapObject addr with
  | some obj => obj.suicided
  | none => false

/-- `GetTargetShardID`. -/
def getTargetShardID (addr : Address) : ShardID :=
  match l.getLoadMapObject addr with
  | some obj => obj.data.targetShardID
  | none => iniShardID

/-! ## Writing -/

/-- `setLoadMapObject`. -/
def setLoadMapObject (addr : Address) (obj : LoadMapObject) : LoadMapDB :=
  { l with loadMapObjects := update l.loadMapObjects addr (some obj) }

/-- `l.journal.append`. -/
def journalAppend (e : JournalEntry) : LoadMapDB :=
  { l with journal := l.journal.append e }

/-- `createObject`, returning the new object and the one it replaces. -/
def createObject (addr : Address) : LoadMapDB × LoadMapObject × Option LoadMapObject :=
  let prev := l.getDeletedLoadMapObject addr
  let newobj := (newObject ⟨0⟩).setTargetShardID iniShardID
  let l := match prev with
    | none => l.journalAppend (.createObjectChange addr)
    | some p => l.journalAppend (.resetObjectChange addr p)
  (l.setLoadMapObject addr newobj, newobj, prev)

/-- `CreateMapAccount`: the mapping of a previous object is carried over. -/
def createMapAccount (addr : Address) : LoadMapDB :=
  match l.createObject addr with
  | (l, newObj, some prev) =>
    l.setLoadMapObject addr (newObj.setTargetShardID prev.data.targetShardID)
  | (l, _, none) => l

/-- `GetOrNewLoadMapObject`. -/
def getOrNewLoadMapObject (addr : Address) : LoadMapDB × LoadMapObject :=
  match l.getLoadMapObject addr with
  | some obj => (l, obj)
  | none => ((l.createObject addr).1, (l.createObject addr).2.1)

/-- `SetTargetShardID`. -/
def setTargetShardID (l : LoadMapDB) (addr : Address) (id : ShardID) : LoadMapDB :=
  match l.getOrNewLoadMapObject addr with
  | (l, obj) =>
    (l.journalAppend (.targetShardIDChange addr obj.data.targetShardID)).setLoadMapObject addr
      (obj.setTargetShardID id)

/-- `Suicide`, with the Boolean the source returns. -/
def suicide (addr : Address) : LoadMapDB × Bool :=
  match l.getLoadMapObject addr with
  | none => (l, false)
  | some obj =>
    ((l.journalAppend (.suicideChange addr obj.suicided obj.data.targetShardID)).setLoadMapObject
      addr { obj.setTargetShardID iniShardID with suicided := true }, true)

/-- `AddLog`, keeping the payload of the log. -/
def addLog (log : List UInt8) : LoadMapDB :=
  let l := l.journalAppend (.addLogChange l.thash)
  { l with logs := update l.logs l.thash (l.logs l.thash ++ [log])
           logSize := l.logSize + 1 }

/-! ## Snapshots -/

/-- `Snapshot`, returning the number of the new revision. -/
def snapshot : LoadMapDB × ℕ :=
  ({ l with nextRevisionId := l.nextRevisionId + 1
            validRevisions := l.validRevisions ++ [⟨l.nextRevisionId, l.journal.entries.length⟩] },
    l.nextRevisionId)

/-- `revert` of one journal entry; a missing object is a nil dereference. -/
def revertEntry : JournalEntry → Option LoadMapDB
  | .createObjectChange a =>
    some { l with loadMapObjects := update l.loadMapObjects a none
                  loadMapObjectsDirty := update l.loadMapObjectsDirty a false }
  | .resetObjectChange a prev => some (l.setLoadMapObject a prev)
  | .suicideChange a prev previd =>
    match l.getLoadMapObject a with
    | some obj => some (l.setLoadMapObject a { obj.setTargetShardID previd with suicided := prev })
    | none => some l
  | .targetShardIDChange a prev =>
    (l.getLoadMapObject a).map fun obj => l.setLoadMapObject a (obj.setTargetShardID prev)
  | .addLogChange h =>
    some { l with logs := update l.logs h ((l.logs h).dropLast)
                  logSize := l.logSize - 1 }

/-- One turn of the loop of `journal.revert`: undo the last entry, then drop the
dirty mark it had made. -/
def revertLast (e : JournalEntry) : Option LoadMapDB :=
  (l.revertEntry e).map fun l =>
    { l with journal :=
        { entries := l.journal.entries.dropLast
          dirties := match e.dirtied with
            | some a => update l.journal.dirties a (l.journal.dirties a - 1)
            | none => l.journal.dirties } }

/-- `journal.revert`: undo the given entries, the latest first. -/
def revertEntries (l : LoadMapDB) : List JournalEntry → Option LoadMapDB
  | [] => some l
  | e :: es => (l.revertLast e).bind fun l => revertEntries l es

/-- `RevertToSnapshot`; an unknown revision is a panic.  The binary search finds the first revision
that is not below `revid`. -/
def revertToSnapshot (revid : ℕ) : Option LoadMapDB :=
  let idx := l.validRevisions.findIdx fun r => decide (revid ≤ r.id)
  match l.validRevisions[idx]? with
  | some r =>
    if r.id = revid then
      (l.revertEntries (l.journal.entries.drop r.journalIndex).reverse).map fun l =>
        { l with validRevisions := l.validRevisions.take idx }
    else none
  | none => none

/-! ## Moving objects into the trie -/

/-- `clearJournalAndRefund`. -/
def clearJournalAndRefund : LoadMapDB :=
  { l with journal := if l.journal.entries = [] then l.journal else {}
           validRevisions := [] }

/-- What `Finalise` does with one dirty object. -/
def finaliseObject (deleteEmptyObjects : Bool) (obj : LoadMapObject) : LoadMapObject :=
  if obj.suicided || (deleteEmptyObjects && obj.empty) then { obj with deleted := true } else obj

/-- `addr` is a key of `journal.dirties` and has a live object. -/
def touched (addr : Address) : Bool :=
  decide (0 < l.journal.dirties addr) && (l.loadMapObjects addr).isSome

/-- `Finalise`. -/
def finalise (deleteEmptyObjects : Bool) : LoadMapDB :=
  clearJournalAndRefund
    { l with
      loadMapObjects := fun a =>
        if l.touched a then (l.loadMapObjects a).map (finaliseObject deleteEmptyObjects)
        else l.loadMapObjects a
      loadMapObjectsPending := fun a => l.loadMapObjectsPending a || l.touched a
      loadMapObjectsDirty := fun a => l.loadMapObjectsDirty a || l.touched a }

/-- The trie entry `IntermediateRoot` writes for a pending object. -/
def trieEntry (obj : LoadMapObject) : Option Rlp.Item :=
  if obj.deleted then none else some (encodeObject obj)

/-- `IntermediateRoot` up to `trie.Hash()`: pending objects are written or deleted. -/
def intermediateRoot (deleteEmptyObjects : Bool) : LoadMapDB :=
  let l := l.finalise deleteEmptyObjects
  { l with
    trie := fun a =>
      if l.loadMapObjectsPending a then (l.loadMapObjects a).elim (l.trie a) trieEntry
      else l.trie a
    loadMapObjectsPending := fun _ => false }

/-- `Commit`: the trie of the result is what the returned root stands for. -/
def commit (deleteEmptyObjects : Bool) : LoadMapDB :=
  { l.intermediateRoot deleteEmptyObjects with loadMapObjectsDirty := fun _ => false }

/-- `Copy`: dirty and pending objects are deep-copied, the rest is read from the copied trie. -/
def copy : LoadMapDB :=
  { trie := l.trie
    loadMapObjects := fun a =>
      if l.touched a || l.loadMapObjectsPending a || l.loadMapObjectsDirty a then
        (l.loadMapObjects a).map LoadMapObject.deepCopy
      else none
    loadMapObjectsPending := fun a => l.touched a || l.loadMapObjectsPending a
    loadMapObjectsDirty := fun a => l.touched a || l.loadMapObjectsDirty a
    logs := l.logs
    logSize := l.logSize }

/-! ## What the calls leave alone

The journalled calls keep the trie, and keep the objects of every other address. -/

@[simp] theorem trie_createObject (a : Address) : (l.createObject a).1.trie = l.trie := by
  unfold createObject
  cases l.getDeletedLoadMapObject a <;> rfl

@[simp] theorem trie_createMapAccount (a : Address) : (l.createMapAccount a).trie = l.trie := by
  have h := trie_createObject l a
  unfold createMapAccount
  generalize l.createObject a = r at h ⊢
  obtain ⟨l', newObj, _ | prev⟩ := r <;> exact h

@[simp] theorem trie_setTargetShardID (a : Address) (id : ShardID) :
    (l.setTargetShardID a id).trie = l.trie := by
  unfold setTargetShardID getOrNewLoadMapObject
  cases l.getLoadMapObject a with
  | some obj => rfl
  | none => exact trie_createObject l a

@[simp] theorem trie_suicide (a : Address) : (l.suicide a).1.trie = l.trie := by
  unfold suicide
  cases l.getLoadMapObject a <;> rfl

section Frame

variable {a b : Address} (l : LoadMapDB)

theorem loadMapObjects_createObject_of_ne (h : b ≠ a) :
    (l.createObject a).1.loadMapObjects b = l.loadMapObjects b := by
  unfold createObject
  cases l.getDeletedLoadMapObject a <;>
    simp [setLoadMapObject, journalAppend, update_of_ne h]

theorem loadMapObjects_createMapAccount_of_ne (h : b ≠ a) :
    (l.createMapAccount a).loadMapObjects b = l.loadMapObjects b := by
  have hc := loadMapObjects_createObject_of_ne l h
  unfold createMapAccount
  generalize l.createObject a = r at hc ⊢
  obtain ⟨l', newObj, _ | prev⟩ := r
  · exact hc
  · simpa [setLoadMapObject, update_of_ne h] using hc

theorem loadMapObjects_setTargetShardID_of_ne (id : ShardID) (h : b ≠ a) :
    (l.setTargetShardID a id).loadMapObjects b = l.loadMapObjects b := by
  unfold setTargetShardID getOrNewLoadMapObject
  cases l.getLoadMapObject a with
  | some obj => simp [setLoadMapObject, journalAppend, update_of_ne h]
  | none =>
    have hc := loadMapObjects_createObject_of_ne l h
    simp [setLoadMapObject, journalAppend, update_of_ne h, hc]

theorem loadMapObjects_suicide_of_ne (h : b ≠ a) :
    (l.suicide a).1.loadMapObjects b = l.loadMapObjects b := by
  unfold suicide
  cases l.getLoadMapObject a <;> simp [setLoadMapObject, journalAppend, update_of_ne h]

theorem getLoadMapObject_congr {l l' : LoadMapDB} (hobj : l'.loadMapObjects b = l.loadMapObjects b)
    (htrie : l'.trie b = l.trie b) : l'.getLoadMapObject b = l.getLoadMapObject b := by
  simp only [getLoadMapObject, getDeletedLoadMapObject, hobj, htrie]

end Frame

end LoadMapDB

end DyShard.Load
