import DyShard.Load.Persistence

/-!
# What the load-map root in a header binds

`ValidateLoadMapState` compares the load-map root in a header with the root the validator computes.
`trieHash` is the hash of the trie; nothing below asks it to have collisions.
-/

namespace DyShard.Load

open Transition Function JournalEntry Reach

namespace LoadMapDB

section Root

variable {Hash : Type*} (trieHash : Trie → Hash)

/-- The value `IntermediateRoot` returns. -/
def rootHash (l : LoadMapDB) (deleteEmptyObjects : Bool) : Hash :=
  trieHash (l.intermediateRoot deleteEmptyObjects).trie

/-- "invalid merkle root of LoadMapState (remote: %x local: %x, rlp dump %s)". -/
structure InvalidLoadMapRoot (Hash : Type*) where
  remote : Hash
  localRoot : Hash

/-- `ValidateLoadMapState` on a header with load-map root `remote`, in an epoch where
`IsS3` is `isS3`. -/
def validateLoadMapState [DecidableEq Hash] (remote : Hash) (isS3 : Bool) (l : LoadMapDB) :
    Except (InvalidLoadMapRoot Hash) Unit :=
  let root := l.rootHash trieHash isS3
  if remote ≠ root then .error ⟨remote, root⟩ else .ok ()

end Root

/-! ## A map in which given addresses all go to one shard -/

theorem dirties_append (j : Journal) (e : JournalEntry) (b : Address) :
    (j.append e).dirties b = j.dirties b + if e.dirtied = some b then 1 else 0 := by
  unfold Journal.append
  cases e.dirtied with
  | none => simp
  | some a =>
    by_cases h : b = a
    · subst h; simp
    · simp [update_of_ne h, Ne.symm h]

/-- `l` maps the addresses of `ks` to `x`, in memory and in the journal only. -/
structure Mapped (x : ShardID) (ks : List Address) (l : LoadMapDB) : Prop where
  trie : l.trie = fun _ => none
  pending : l.loadMapObjectsPending = fun _ => false
  objects : ∀ a, l.loadMapObjects a = if a ∈ ks then some { data := ⟨x⟩ } else none
  dirties : ∀ a, 0 < l.journal.dirties a ↔ a ∈ ks

theorem mapped_new (x : ShardID) : Mapped x [] (new fun _ => none) :=
  ⟨rfl, rfl, fun _ => rfl, fun a => by simp [new]⟩

variable {x : ShardID} {ks : List Address} {l : LoadMapDB}

theorem Mapped.getLoadMapObject (h : Mapped x ks l) (a : Address) :
    l.getLoadMapObject a = if a ∈ ks then some { data := ⟨x⟩ } else none := by
  rw [getLoadMapObject_of_blank (by rw [h.trie]; exact blank_empty), h.objects]
  by_cases ha : a ∈ ks <;> simp [ha]

theorem setTargetShardID_of_some {k : Address} {obj : LoadMapObject} (id : ShardID)
    (h : l.getLoadMapObject k = some obj) :
    l.setTargetShardID k id =
      (l.journalAppend (.targetShardIDChange k obj.data.targetShardID)).setLoadMapObject k
        (obj.setTargetShardID id) := by
  simp only [setTargetShardID, getOrNewLoadMapObject, h]

theorem setTargetShardID_of_absent {k : Address} (id : ShardID)
    (h : l.getDeletedLoadMapObject k = none) :
    l.setTargetShardID k id =
      (((l.journalAppend (.createObjectChange k)).setLoadMapObject k
        { data := ⟨iniShardID⟩ }).journalAppend
          (.targetShardIDChange k iniShardID)).setLoadMapObject k { data := ⟨id⟩ } := by
  simp only [setTargetShardID, getOrNewLoadMapObject, createObject, getLoadMapObject, h]
  rfl

theorem Mapped.setTargetShardID (h : Mapped x ks l) (k : Address) :
    Mapped x (k :: ks) (l.setTargetShardID k x) := by
  by_cases hk : k ∈ ks
  · have hobj : l.getLoadMapObject k = some { data := ⟨x⟩ } := by simp [h.getLoadMapObject, hk]
    rw [setTargetShardID_of_some x hobj]
    refine ⟨h.trie, h.pending, fun a => ?_, fun a => ?_⟩
    · simp [setLoadMapObject, journalAppend, update_apply, h.objects,
        LoadMapObject.setTargetShardID, ite_or]
    · have := h.dirties a
      simp [setLoadMapObject, journalAppend, dirties_append, dirtied]
      grind
  · have hobj : l.getDeletedLoadMapObject k = none := by
      simp [getDeletedLoadMapObject, h.objects, h.trie, hk]
    rw [setTargetShardID_of_absent x hobj]
    refine ⟨h.trie, h.pending, fun a => ?_, fun a => ?_⟩
    · simp [setLoadMapObject, journalAppend, update_apply, h.objects, ite_or]
    · have := h.dirties a
      simp [setLoadMapObject, journalAppend, dirties_append, dirtied]
      grind

theorem exists_mapped (x : ShardID) (ks : List Address) :
    ∃ l : LoadMapDB, l.Reachable ∧ Mapped x ks l := by
  induction ks with
  | nil => exact ⟨_, refl, mapped_new x⟩
  | cons k ks ih =>
    obtain ⟨l, hl, hm⟩ := ih
    exact ⟨_, hl.tail (a := .call (.setTargetShardID k x)) trivial rfl, hm.setTargetShardID k⟩

theorem Mapped.trie_intermediateRoot (h : Mapped x ks l) (hx : x ≠ iniShardID) :
    (l.intermediateRoot true).trie =
      fun a => if a ∈ ks then some (Rlp.encodeStruct []) else none := by
  funext a
  have hd := h.dirties a
  by_cases ha : a ∈ ks <;>
    simp [intermediateRoot, finalise, clearJournalAndRefund, touched, h.pending, h.objects, h.trie,
      hd, ha, finaliseObject, LoadMapObject.empty, hx, trieEntry, encodeObject]

/-! ## A map that shows an entry it never stores

`Suicide` keeps the object until the next `Finalise`, and a target set in between
stays in the deleted object; `CreateMapAccount` then revives the address with it,
without marking it dirty. -/

/-- Address 0 is shown in shard `x`, the trie is empty. -/
def revived (x : ShardID) : LoadMapDB :=
  (((((new fun _ => none).setTargetShardID 0 x).suicide 0).1.setTargetShardID 0 x).intermediateRoot
    true).createMapAccount 0

theorem reachable_revived (x : ShardID) : (revived x).Reachable := by
  have hrun : exec step (new fun _ => none) [.call (.setTargetShardID 0 x), .call (.suicide 0),
      .call (.setTargetShardID 0 x), .intermediateRoot true, .call (.createMapAccount 0)] =
      some (revived x) := rfl
  exact reach_of_exec hrun

theorem intermediateRoot_of_none {a : Address} (del : Bool) (h : l.loadMapObjects a = none) :
    (l.intermediateRoot del).loadMapObjects a = none ∧
      (l.intermediateRoot del).trie a = l.trie a := by
  simp [intermediateRoot, finalise, clearJournalAndRefund, touched, h]

theorem trie_intermediateRoot_revived (x : ShardID) :
    ((revived x).intermediateRoot true).trie = fun _ => none := by
  funext a
  by_cases ha : a = 0
  · subst ha
    rfl
  · -- no call of the history names `a`
    have h₀ : ((((new fun _ => none).setTargetShardID 0 x).suicide 0).1.setTargetShardID 0 x
        ).loadMapObjects a = none := by
      rw [loadMapObjects_setTargetShardID_of_ne _ _ ha, loadMapObjects_suicide_of_ne _ ha,
        loadMapObjects_setTargetShardID_of_ne _ _ ha]
      rfl
    obtain ⟨h₁, ht₁⟩ := intermediateRoot_of_none true h₀
    have h₂ : (revived x).loadMapObjects a = none := by
      rw [revived, loadMapObjects_createMapAccount_of_ne _ ha, h₁]
    rw [(intermediateRoot_of_none true h₂).2, revived, trie_createMapAccount, ht₁]
    simp [new]

/-! ## The root binds nothing -/

theorem exists_shard_ne (u v : ShardID) : ∃ x : ShardID, x ≠ u ∧ x ≠ v ∧ x ≠ iniShardID := by
  by_contra hno
  push Not at hno
  have h0 := hno 0
  have h1 := hno 1
  have h2 := hno 2
  simp only [iniShardID] at h0 h1 h2
  grind

theorem Mapped.getTargetShardID_eq (h : Mapped x ks l) (hx : x ≠ iniShardID) {a : Address}
    (ha : a ∈ ks) :
    l.getTargetShardID a = x ∧ (l.intermediateRoot true).getTargetShardID a = x := by
  constructor
  · simp [getTargetShardID, h.getLoadMapObject, ha]
  · simp [getTargetShardID, LoadMapDB.getLoadMapObject, getDeletedLoadMapObject, intermediateRoot,
      finalise, clearJournalAndRefund, touched, h.objects, ha, finaliseObject,
      LoadMapObject.empty, hx, Option.filter]

theorem exists_same_trie {t : Trie} (ht : Blank t) (hx : x ≠ iniShardID) (a : Address)
    (ha : t a ≠ none ∨ t = (fun _ => none) ∧ a = 0) :
    ∃ l : LoadMapDB, l.Reachable ∧ (l.intermediateRoot true).trie = t ∧
      l.getTargetShardID a = x ∧ (l.intermediateRoot true).getTargetShardID a = x := by
  rcases ha with ha | ⟨rfl, rfl⟩
  · -- map every address of the trie to `x`
    have hfin : {b | t b ≠ none}.Finite := Set.toFinite _
    obtain ⟨l, hl, hm⟩ := exists_mapped x hfin.toFinset.toList
    have hmem : ∀ b, b ∈ hfin.toFinset.toList ↔ t b ≠ none := fun b => by simp
    refine ⟨l, hl, ?_, hm.getTargetShardID_eq hx ((hmem a).2 ha)⟩
    rw [hm.trie_intermediateRoot hx]
    funext b
    rcases ht b with hb | hb <;> simp [hb]
  · exact ⟨revived x, reachable_revived x, trie_intermediateRoot_revived x, rfl, rfl⟩

/-- **The load-map root binds no mapping**: for every reachable map there is another one with the
same root, accepted by `ValidateLoadMapState`, that sends some address to a different shard. -/
theorem exists_forged {Hash : Type*} [DecidableEq Hash] (trieHash : Trie → Hash) {l : LoadMapDB}
    (hl : l.Reachable) :
    ∃ l' : LoadMapDB, l'.Reachable ∧ l'.rootHash trieHash true = l.rootHash trieHash true ∧
      validateLoadMapState trieHash (l.rootHash trieHash true) true l' = .ok () ∧
      ∃ a, l'.getTargetShardID a ≠ l.getTargetShardID a ∧
        (l'.intermediateRoot true).getTargetShardID a ≠
          (l.intermediateRoot true).getTargetShardID a := by
  have ht : Blank (l.intermediateRoot true).trie := blank_intermediateRoot hl.blank true
  -- an address to send elsewhere
  obtain ⟨a, ha⟩ : ∃ a, (l.intermediateRoot true).trie a ≠ none ∨
      (l.intermediateRoot true).trie = (fun _ => none) ∧ a = 0 := by
    by_cases hemp : ∃ a, (l.intermediateRoot true).trie a ≠ none
    · obtain ⟨a, ha⟩ := hemp
      exact ⟨a, .inl ha⟩
    · push Not at hemp
      exact ⟨0, .inr ⟨funext hemp, rfl⟩⟩
  obtain ⟨x, hx, hx', hini⟩ := exists_shard_ne (l.getTargetShardID a)
    ((l.intermediateRoot true).getTargetShardID a)
  obtain ⟨l', hl', htrie, hget, hget'⟩ := exists_same_trie ht hini a ha
  have hroot : l'.rootHash trieHash true = l.rootHash trieHash true := by
    rw [rootHash, rootHash, htrie]
  refine ⟨l', hl', hroot, ?_, a, by rwa [hget], by rwa [hget']⟩
  simp [validateLoadMapState, hroot]

/-- Already the genesis map shares its root with another mapping, also when the
root is the whole trie. -/
theorem exists_forged_genesis :
    ∃ l' : LoadMapDB, l'.Reachable ∧
      l'.rootHash id true = (new fun _ => none).rootHash id true ∧
      ∃ a, l'.getTargetShardID a ≠ (new fun _ => none).getTargetShardID a := by
  classical
  obtain ⟨l', hl', hroot, -, a, ha, -⟩ :=
    exists_forged id (refl : (new fun _ => none).Reachable)
  exact ⟨l', hl', hroot, a, ha⟩

/-- Address 1 in shard 1 and address 1 in shard 2 have the same root under every hash. -/
theorem same_root_different_target :
    ((new fun _ => none).setTargetShardID 1 1).Reachable ∧
      ((new fun _ => none).setTargetShardID 1 2).Reachable ∧
      (∀ {Hash : Type} (trieHash : Trie → Hash),
        ((new fun _ => none).setTargetShardID 1 1).rootHash trieHash true =
          ((new fun _ => none).setTargetShardID 1 2).rootHash trieHash true) ∧
      ((new fun _ => none).setTargetShardID 1 1).getTargetShardID 1 = 1 ∧
      ((new fun _ => none).setTargetShardID 1 2).getTargetShardID 1 = 2 := by
  refine ⟨refl.tail (a := .call (.setTargetShardID 1 1)) trivial rfl,
    refl.tail (a := .call (.setTargetShardID 1 2)) trivial rfl, fun trieHash => ?_,
    by decide, by decide⟩
  have h₁ := (mapped_new 1).setTargetShardID 1
  have h₂ := (mapped_new 2).setTargetShardID 1
  rw [rootHash, rootHash, h₁.trie_intermediateRoot (by decide),
    h₂.trie_intermediateRoot (by decide)]

end LoadMapDB

end DyShard.Load
