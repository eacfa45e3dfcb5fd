import DyShard.Load.Snapshot

/-!
# Copies of the load map

`Copy` takes over the trie and the objects that are marked.  `deepCopy` resets the target shard, an
unmarked object is left to the trie, which cannot give it back, and the journal is dropped.
-/

namespace DyShard.Load.LoadMapDB

open Transition Option LoadMapDB LoadMapObject

/-- The map and its copy answer alike, have the same next root, and run on their own steps alone. -/
structure CopyFaithful (l : LoadMapDB) (del : Bool) : Prop where
  getTargetShardID : ∀ a, l.copy.getTargetShardID a = l.getTargetShardID a
  exist : ∀ a, l.copy.exist a = l.exist a
  empty : ∀ a, l.copy.empty a = l.empty a
  intermediateRoot : (l.copy.intermediateRoot del).trie = (l.intermediateRoot del).trie
  independent : ∀ acts l' c', exec (both step step) (l, l.copy) acts = some (l', c') →
    exec step l (acts.filterMap Sum.getLeft?) = some l' ∧
      exec step l.copy (acts.filterMap Sum.getRight?) = some c'

/-- The address is one whose object `Copy` takes over. -/
def marked (l : LoadMapDB) (a : Address) : Bool :=
  l.touched a || l.loadMapObjectsPending a || l.loadMapObjectsDirty a

/-- Every address shown is marked and at the initial shard, and none is about to be deleted. -/
def NothingToLose (l : LoadMapDB) (del : Bool) : Prop :=
  ∀ a o, l.getLoadMapObject a = some o →
    l.marked a = true ∧ o.data.targetShardID = iniShardID ∧
      (0 < l.journal.dirties a → o.suicided = false ∧ del = false)

/-! ## What a copy shows -/

variable {l : LoadMapDB}

theorem getLoadMapObject_copy (h : Blank l.trie) (a : Address) :
    l.copy.getLoadMapObject a =
      if l.marked a then (l.getLoadMapObject a).map deepCopy else none := by
  have hcopy : Blank l.copy.trie := h
  rw [getLoadMapObject_of_blank hcopy, getLoadMapObject_of_blank h]
  have hobject : l.copy.loadMapObjects a =
      if l.marked a then (l.loadMapObjects a).map deepCopy else none := rfl
  rw [hobject]
  cases l.marked a with
  | false => rfl
  | true =>
    simp only [if_true, filter_map]
    rfl

theorem shows_copy_iff (h : Blank l.trie) (a : Address) :
    (l.copy.getTargetShardID a = l.getTargetShardID a ∧ l.copy.exist a = l.exist a ∧
        l.copy.empty a = l.empty a) ↔
      ∀ o, l.getLoadMapObject a = some o →
        l.marked a = true ∧ o.data.targetShardID = iniShardID := by
  simp only [getTargetShardID, exist, empty, getLoadMapObject_copy h]
  cases l.getLoadMapObject a with
  | none => simp
  | some o =>
    cases hm : l.marked a
    · simp
    · simp only [if_true, map_some, some.injEq, forall_eq']
      simp only [LoadMapObject.deepCopy, newObject, LoadMapObject.empty, isSome_some,
        true_and, beq_self_eq_true, Bool.true_eq, beq_iff_eq]
      exact ⟨fun h => h.2, fun h => ⟨h.symm, h⟩⟩

/-! ## The next root of a copy -/

theorem trie_intermediateRoot_eq (l : LoadMapDB) (del : Bool) (a : Address) :
    (l.intermediateRoot del).trie a =
      if l.loadMapObjectsPending a || l.touched a then
        (l.loadMapObjects a).elim (l.trie a) fun o =>
          trieEntry (if l.touched a then finaliseObject del o else o)
      else l.trie a := by
  simp only [intermediateRoot, finalise, clearJournalAndRefund]
  split
  · cases l.loadMapObjects a with
    | none => cases l.touched a <;> rfl
    | some o => cases l.touched a <;> rfl
  · rfl

theorem touched_copy (l : LoadMapDB) (a : Address) : l.copy.touched a = false := by
  simp [touched, copy]

theorem trie_copy_of_marked {a : Address} (del : Bool)
    (hp : (l.loadMapObjectsPending a || l.touched a) = true) :
    (l.copy.intermediateRoot del).trie a = (l.loadMapObjects a).elim (l.trie a) trieEntry := by
  rw [trie_intermediateRoot_eq, touched_copy]
  have hpending : l.copy.loadMapObjectsPending a = true := by
    simpa [copy, Bool.or_comm] using hp
  have hobject : l.copy.loadMapObjects a = (l.loadMapObjects a).map deepCopy := by
    simp only [copy]
    rw [if_pos]
    simp only [Bool.or_eq_true] at hp ⊢
    tauto
  simp only [hpending, hobject, Bool.true_or, if_true]
  cases l.loadMapObjects a <;> rfl

theorem trie_intermediateRoot_copy (h : Blank l.trie) (del : Bool) (a : Address) :
    (l.copy.intermediateRoot del).trie a = (l.intermediateRoot del).trie a ↔
      ∀ o, l.getLoadMapObject a = some o → 0 < l.journal.dirties a → deletedBy del o = false := by
  rw [getLoadMapObject_of_blank h]
  by_cases hp : (l.loadMapObjectsPending a || l.touched a) = true
  · rw [trie_copy_of_marked del hp, trie_intermediateRoot_eq, if_pos hp]
    cases hobj : l.loadMapObjects a with
    | none => simp
    | some o =>
      have htouched : l.touched a = decide (0 < l.journal.dirties a) := by simp [touched, hobj]
      rw [htouched]
      by_cases hd : 0 < l.journal.dirties a <;> cases hdel : o.deleted <;>
        cases hby : deletedBy del o <;>
        simp [trieEntry, encodeObject, deleted_finaliseObject, hd, hdel, hby, Option.filter]
  · have hnot : l.loadMapObjectsPending a = false ∧ l.touched a = false := by simpa using hp
    have hcopy : (l.copy.intermediateRoot del).trie a = l.trie a := by
      rw [trie_intermediateRoot_eq, touched_copy, if_neg]
      · rfl
      · simp [copy, hnot]
    rw [hcopy, trie_intermediateRoot_eq, if_neg hp]
    simp only [true_iff]
    intro o ho hd
    have hsome : (l.loadMapObjects a).isSome := by
      cases hobj : l.loadMapObjects a with
      | none => simp [hobj] at ho
      | some o => rfl
    simp [touched, hd, hsome] at hnot

/-! ## When a copy is faithful -/

/-- **A copy of the load map is faithful exactly when there is nothing to lose.** -/
theorem copyFaithful_iff_nothingToLose {l : LoadMapDB} (hl : l.Reachable) (del : Bool) :
    CopyFaithful l del ↔ NothingToLose l del := by
  have hblank := hl.blank
  constructor
  · intro hf a o ho
    obtain ⟨hmarked, htarget⟩ :=
      (shows_copy_iff hblank a).1 ⟨hf.getTargetShardID a, hf.exist a, hf.empty a⟩ o ho
    refine ⟨hmarked, htarget, fun hd => ?_⟩
    have hkept := (trie_intermediateRoot_copy hblank del a).1 (congrFun hf.intermediateRoot a) o ho hd
    -- an object at the initial shard is empty
    simpa [deletedBy, LoadMapObject.empty, htarget] using hkept
  · intro hn
    have hshows := fun a => (shows_copy_iff hblank a).2 fun o ho => ⟨(hn a o ho).1, (hn a o ho).2.1⟩
    refine ⟨fun a => (hshows a).1, fun a => (hshows a).2.1, fun a => (hshows a).2.2, ?_,
      fun _ _ _ => exec_both⟩
    funext a
    refine (trie_intermediateRoot_copy hblank del a).2 fun o ho hd => ?_
    obtain ⟨hsuicided, hdel⟩ := (hn a o ho).2.2 hd
    simp [deletedBy, hsuicided, hdel]

/-- A map with two new accounts. -/
def created : LoadMapDB := ((new fun _ => none).createMapAccount 1).createMapAccount 2

/-- Two accounts in the journal, at the initial shard, survive the copy. -/
theorem copyFaithful_created : created.Reachable ∧ created.copy.exist 1 = true ∧
    created.copy.exist 2 = true ∧ CopyFaithful created false := by
  have hrun : exec step (new fun _ => none) [.call (.createMapAccount 1),
      .call (.createMapAccount 2)] = some created := rfl
  have hreach : created.Reachable := reach_of_exec hrun
  refine ⟨hreach, by decide, by decide,
    (copyFaithful_iff_nothingToLose hreach false).2 fun a o ho => ?_⟩
  by_cases h₂ : a = 2
  · subst h₂
    cases ho
    exact ⟨rfl, rfl, fun _ => ⟨rfl, rfl⟩⟩
  by_cases h₁ : a = 1
  · subst h₁
    cases ho
    exact ⟨rfl, rfl, fun _ => ⟨rfl, rfl⟩⟩
  · -- the other addresses have no object
    rw [getLoadMapObject_of_blank hreach.blank, created, loadMapObjects_createMapAccount_of_ne _ h₂,
      loadMapObjects_createMapAccount_of_ne _ h₁] at ho
    cases ho

/-- Mapping address 1 to shard 2 gives a map whose copy sends the address to the initial
shard. -/
theorem copy_loses_target :
    ∃ l, l.Reachable ∧ l.getTargetShardID 1 = 2 ∧ l.copy.getTargetShardID 1 = iniShardID ∧
      ¬ CopyFaithful l true := by
  have hrun : step (new fun _ => none) (.call (.setTargetShardID 1 2)) =
      some ((new fun _ => none).setTargetShardID 1 2) := rfl
  refine ⟨_, Reach.refl.tail trivial hrun, by decide, by decide, fun hf => ?_⟩
  exact absurd (hf.getTargetShardID 1) (by decide)

end DyShard.Load.LoadMapDB
