import DyShard.Lib.Transition
import DyShard.Load.LoadMapDB

/-!
# What the load map keeps on disk

Histories of a load map, and what survives `Commit` followed by reopening the map on the committed
root: nothing stored in the trie can be read back.
-/

namespace DyShard.Load

open Transition Option

/-! ## Histories -/

/-- The journalled calls on a load map. -/
inductive Call where
  | setTargetShardID (addr : Address) (id : ShardID)
  | createMapAccount (addr : Address)
  | suicide (addr : Address)
  | snapshot
  | revertToSnapshot (revid : ℕ)

/-- Everything a node does with a load map. -/
inductive Action where
  | call (c : Call)
  | addLog (log : List UInt8)
  | finalise (deleteEmptyObjects : Bool)
  | intermediateRoot (deleteEmptyObjects : Bool)
  | commit (deleteEmptyObjects : Bool)
  | copy
  | reopen

namespace LoadMapDB

/-- One journalled call; reverting to an unknown snapshot panics. -/
def call (l : LoadMapDB) : Call → Option LoadMapDB
  | .setTargetShardID addr id => some (l.setTargetShardID addr id)
  | .createMapAccount addr => some (l.createMapAccount addr)
  | .suicide addr => some (l.suicide addr).1
  | .snapshot => some l.snapshot.1
  | .revertToSnapshot revid => l.revertToSnapshot revid

/-- One step of a history; `reopen` is `New` on the trie as it stands. -/
def step (l : LoadMapDB) : Action → Option LoadMapDB
  | .call c => l.call c
  | .addLog log => some (l.addLog log)
  | .finalise del => some (l.finalise del)
  | .intermediateRoot del => some (l.intermediateRoot del)
  | .commit del => some (l.commit del)
  | .copy => some l.copy
  | .reopen => some (new l.trie)

/-- The load maps a node can hold: the genesis map is empty. -/
def Reachable : LoadMapDB → Prop := Reach step anyStep (new fun _ => none)

/-! ## Which operations write the trie -/

variable {l l' : LoadMapDB}

theorem trie_revertLast {e : JournalEntry} (h : l.revertLast e = some l') : l'.trie = l.trie := by
  obtain ⟨l₁, h₁, rfl⟩ := map_eq_some_iff.1 h
  cases e with
  | createObjectChange a | addLogChange a | resetObjectChange a prev => cases h₁; rfl
  | suicideChange a prev previd =>
    simp only [revertEntry] at h₁
    cases hobj : l.getLoadMapObject a <;> rw [hobj] at h₁ <;> cases h₁ <;> rfl
  | targetShardIDChange a prev =>
    obtain ⟨obj, -, rfl⟩ := map_eq_some_iff.1 h₁
    rfl

theorem trie_revertEntries {es : List JournalEntry} (h : l.revertEntries es = some l') :
    l'.trie = l.trie := by
  induction es generalizing l with
  | nil => cases h; rfl
  | cons e es ih =>
    obtain ⟨l₁, h₁, h₂⟩ := bind_eq_some_iff.1 h
    rw [ih h₂, trie_revertLast h₁]

theorem trie_revertToSnapshot {revid : ℕ} (h : l.revertToSnapshot revid = some l') :
    l'.trie = l.trie := by
  unfold revertToSnapshot at h
  dsimp only at h
  split at h
  · split at h
    · obtain ⟨l₁, h₁, rfl⟩ := map_eq_some_iff.1 h
      exact (trie_revertEntries h₁ : l₁.trie = _)
    · cases h
  · cases h

theorem trie_call {c : Call} (h : l.call c = some l') : l'.trie = l.trie := by
  cases c with
  | setTargetShardID a id => cases h; exact trie_setTargetShardID l a id
  | createMapAccount a => cases h; exact trie_createMapAccount l a
  | suicide a => cases h; exact trie_suicide l a
  | snapshot => cases h; rfl
  | revertToSnapshot revid => exact trie_revertToSnapshot h

@[simp] theorem trie_finalise (l : LoadMapDB) (del : Bool) : (l.finalise del).trie = l.trie := rfl

theorem trie_intermediateRoot_cases (l : LoadMapDB) (del : Bool) (a : Address) :
    (l.intermediateRoot del).trie a = l.trie a ∨ (l.intermediateRoot del).trie a = none ∨
      (l.intermediateRoot del).trie a = some (Rlp.encodeStruct []) := by
  simp only [intermediateRoot, trie_finalise]
  split
  · cases (l.finalise del).loadMapObjects a with
    | none => exact .inl rfl
    | some obj =>
      simp only [elim_some, trieEntry, encodeObject]
      split <;> simp
  · exact .inl rfl

/-! ## The stored values are blank -/

/-- Every value of the trie is the encoding of a struct without exported fields. -/
def Blank (t : Trie) : Prop := ∀ a, t a = none ∨ t a = some (Rlp.encodeStruct [])

/-- A blank value cannot be read back: `MapAccount` has one field. -/
theorem Blank.decode_eq_none {t : Trie} (h : Blank t) (a : Address) :
    (t a).bind decodeMapAccount = none := by
  rcases h a with ha | ha <;> rw [ha] <;> rfl

theorem blank_empty : Blank fun _ => none := fun _ => .inl rfl

theorem blank_intermediateRoot (h : Blank l.trie) (del : Bool) :
    Blank (l.intermediateRoot del).trie := by
  intro a
  rcases trie_intermediateRoot_cases l del a with ha | ha
  · rw [ha]
    exact h a
  · exact ha

theorem blank_step {act : Action} (h : Blank l.trie) (hs : l.step act = some l') :
    Blank l'.trie := by
  cases act with
  | call c => rw [trie_call hs]; exact h
  | addLog log | copy | finalise del | reopen => cases hs; exact h
  | intermediateRoot del | commit del => cases hs; exact blank_intermediateRoot h del

theorem Reachable.blank (h : l.Reachable) : Blank l.trie :=
  Reach.invariant (P := fun l => Blank l.trie) blank_empty (fun _ _ _ hl _ hs => blank_step hl hs) h

theorem blank_exec {cs : List Call} (h : Blank l.trie) (hr : exec call l cs = some l') :
    Blank l'.trie := by
  induction cs generalizing l with
  | nil => cases hr; exact h
  | cons c cs ih =>
    obtain ⟨l₁, h₁, h₂⟩ := bind_eq_some_iff.1 hr
    exact ih (by rw [trie_call h₁]; exact h) h₂

theorem getLoadMapObject_of_blank (h : Blank l.trie) (a : Address) :
    l.getLoadMapObject a = (l.loadMapObjects a).filter fun o => !o.deleted := by
  unfold getLoadMapObject getDeletedLoadMapObject
  cases l.loadMapObjects a with
  | none => simp [h.decode_eq_none a]
  | some obj => rfl

/-! ## The round trip -/

/-- Reopening the map after `Commit(del)` gives back the mapping it shows. -/
def RoundTrips (l : LoadMapDB) (del : Bool) : Prop :=
  ∀ a, (new (l.commit del).trie).getTargetShardID a = (l.commit del).getTargetShardID a ∧
    (new (l.commit del).trie).exist a = (l.commit del).exist a

/-- `Commit(del)` deletes the object: it is suicided, or empty and `del` is set. -/
def deletedBy (del : Bool) (obj : LoadMapObject) : Bool := obj.suicided || (del && obj.empty)

/-- Every entry the map still shows is in the journal and is deleted by `Commit(del)`. -/
def CommitLeavesNothing (l : LoadMapDB) (del : Bool) : Prop :=
  ∀ a obj, l.getLoadMapObject a = some obj → 0 < l.journal.dirties a ∧ deletedBy del obj

theorem loadMapObjects_commit (l : LoadMapDB) (del : Bool) (a : Address) :
    (l.commit del).loadMapObjects a =
      if 0 < l.journal.dirties a then (l.loadMapObjects a).map (finaliseObject del)
      else l.loadMapObjects a := by
  simp only [commit, intermediateRoot, finalise, clearJournalAndRefund, touched]
  rcases eq_none_or_eq_some (l.loadMapObjects a) with hobj | ⟨obj, hobj⟩ <;> simp [hobj]

theorem deleted_finaliseObject (del : Bool) (obj : LoadMapObject) :
    (finaliseObject del obj).deleted = (obj.deleted || deletedBy del obj) := by
  unfold finaliseObject deletedBy
  split <;> simp_all

theorem getLoadMapObject_commit_eq_none (h : Blank l.trie) (del : Bool) (a : Address) :
    (l.commit del).getLoadMapObject a = none ↔
      ∀ obj, l.getLoadMapObject a = some obj → 0 < l.journal.dirties a ∧ deletedBy del obj := by
  have hc : Blank (l.commit del).trie := blank_intermediateRoot h del
  rw [getLoadMapObject_of_blank hc, getLoadMapObject_of_blank h, loadMapObjects_commit]
  cases l.loadMapObjects a with
  | none => simp
  | some obj =>
    by_cases hd : 0 < l.journal.dirties a <;> cases hdel : obj.deleted <;>
      simp [Option.filter, deleted_finaliseObject, hd, hdel]

theorem getTargetShardID_of_none {a : Address} (h : l.getLoadMapObject a = none) :
    l.getTargetShardID a = iniShardID := by
  simp [getTargetShardID, h]

theorem exist_eq_false_iff (l : LoadMapDB) (a : Address) :
    l.exist a = false ↔ l.getLoadMapObject a = none := by
  simp [exist]

/-- **The round trip loses exactly what is there to lose**: everything stored is unreadable, so a
live entry is always lost. -/
theorem roundTrips_iff {l l' : LoadMapDB} {calls : List Call} {del : Bool} (hl : l.Reachable)
    (hr : exec call l calls = some l') : RoundTrips l' del ↔ CommitLeavesNothing l' del := by
  have hu : Blank l'.trie := blank_exec hl.blank hr
  have hnew : ∀ a, (new (l'.commit del).trie).getLoadMapObject a = none := fun a =>
    getLoadMapObject_of_blank (l := new _) (blank_intermediateRoot hu del) a
  constructor
  · intro h a
    -- the reopened map does not know `a`, so neither does the committed one
    have hex := (h a).2
    rw [(exist_eq_false_iff _ a).2 (hnew a)] at hex
    exact (getLoadMapObject_commit_eq_none hu del a).1 ((exist_eq_false_iff _ a).1 hex.symm)
  · intro h a
    have hnone : (l'.commit del).getLoadMapObject a = none :=
      (getLoadMapObject_commit_eq_none hu del a).2 (h a)
    exact ⟨by rw [getTargetShardID_of_none (hnew a), getTargetShardID_of_none hnone],
      by rw [(exist_eq_false_iff _ a).2 (hnew a), (exist_eq_false_iff _ a).2 hnone]⟩

/-- A mapping that is set and then cancelled by `Suicide` round-trips. -/
theorem roundTrips_set_suicide :
    ∃ l, exec call (new fun _ => none) [.setTargetShardID 1 2, .suicide 1] = some l ∧
      RoundTrips l true := by
  have hrun : exec call (new fun _ => none) [.setTargetShardID 1 2, .suicide 1] =
      some (((new fun _ => none).setTargetShardID 1 2).suicide 1).1 := rfl
  refine ⟨_, hrun, (roundTrips_iff Reach.refl hrun).2 ?_⟩
  intro a obj h
  by_cases ha : a = 1
  · subst ha
    cases h
    decide
  · rw [getLoadMapObject_congr (loadMapObjects_suicide_of_ne _ ha) (by rw [trie_suicide]),
      getLoadMapObject_congr (loadMapObjects_setTargetShardID_of_ne _ _ ha) (by simp)] at h
    cases h

/-- Address 1 is mapped to shard 2, and at the initial shard after reopening. -/
theorem setTargetShardID_lost :
    ∃ l, exec call (new fun _ => none) [.setTargetShardID 1 2] = some l ∧
      (l.commit true).getTargetShardID 1 = 2 ∧ (l.commit true).exist 1 = true ∧
      (new (l.commit true).trie).getTargetShardID 1 = iniShardID ∧
      (new (l.commit true).trie).exist 1 = false ∧ ¬ RoundTrips l true :=
  ⟨_, rfl, by decide, by decide, by decide, by decide, fun h => absurd (h 1).1 (by decide)⟩

end LoadMapDB

end DyShard.Load
