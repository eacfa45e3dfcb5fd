import DyShard.Lib.History
import DyShard.Load.Persistence

/-!
# Snapshots of the load map

`RevertToSnapshot` replays the journal backwards, whatever objects were created, replaced or marked
in between.  The load map does to what it shows (`Shown`) what an undo log does.
-/

namespace DyShard.Load

open Client List Option Function

/-! ## What a load map shows -/

/-- The part of a load map that a revert puts back. -/
@[ext] structure Shown where
  objects : Address → Option LoadMapObject
  dirties : Address → ℕ
  logs : Word → List (List UInt8)
  logSize : ℕ

/-- The journalled writes of a load map. -/
inductive Write where
  | setTargetShardID (addr : Address) (id : ShardID)
  | createMapAccount (addr : Address)
  | suicide (addr : Address)
  | addLog (log : List UInt8)

/-- The writes as an interface; no one waits for an answer. -/
def interface : Interface where
  Call := Write
  Answer _ := Unit

/-- What `createObject` makes. -/
def LoadMapObject.fresh : LoadMapObject := (newObject ⟨0⟩).setTargetShardID iniShardID

namespace Shown

variable (s : Shown)

/-- The object of an address, hiding deleted ones. -/
def object (a : Address) : Option LoadMapObject :=
  (s.objects a).filter fun o => !o.deleted

/-- The dirty mark of an entry. -/
def mark (e : JournalEntry) : Shown :=
  { s with dirties := match e.dirtied with
      | some a => update s.dirties a (s.dirties a + 1)
      | none => s.dirties }

/-- The dirty mark of an entry is dropped. -/
def unmark (e : JournalEntry) : Shown :=
  { s with dirties := match e.dirtied with
      | some a => update s.dirties a (s.dirties a - 1)
      | none => s.dirties }

/-- A write of an object. -/
def put (a : Address) (o : LoadMapObject) : Shown :=
  { s with objects := update s.objects a (some o) }

/-- A journalled write of an object. -/
def update (a : Address) (e : JournalEntry) (o : LoadMapObject) :
    Shown × List JournalEntry := ((s.mark e).put a o, [e])

/-- The entry `createObject` logs. -/
def creation (a : Address) : JournalEntry :=
  match s.objects a with
  | none => .createObjectChange a
  | some prev => .resetObjectChange a prev

/-- `SetTargetShardID` of an object that is there. -/
def retarget (a : Address) (id : ShardID) (o : LoadMapObject) : Shown × List JournalEntry :=
  s.update a (.targetShardIDChange a o.data.targetShardID) (o.setTargetShardID id)

/-- One write, with the entries it logs. -/
def write (thash : Word) : Write → Shown × List JournalEntry
  | .setTargetShardID a id =>
    match s.object a with
    | some o => s.retarget a id o
    | none =>
      let eff := s.update a (s.creation a) .fresh
      ((eff.1.retarget a id .fresh).1, eff.2 ++ (eff.1.retarget a id .fresh).2)
  | .createMapAccount a =>
    s.update a (s.creation a)
      (LoadMapObject.fresh.setTargetShardID ((s.objects a).elim iniShardID fun o => o.data.targetShardID))
  | .suicide a =>
    match s.object a with
    | none => (s, [])
    | some o =>
      s.update a (.suicideChange a o.suicided o.data.targetShardID)
        { o.setTargetShardID iniShardID with suicided := true }
  | .addLog log =>
    ({ s with logs := Function.update s.logs thash (s.logs thash ++ [log])
              logSize := s.logSize + 1 }, [.addLogChange thash])

/-- `revert` of one journal entry. -/
def revertEntry : JournalEntry → Option Shown
  | .createObjectChange a => some { s with objects := Function.update s.objects a none }
  | .resetObjectChange a prev => some (s.put a prev)
  | .suicideChange a prev previd =>
    match s.object a with
    | some o => some (s.put a { o.setTargetShardID previd with suicided := prev })
    | none => some s
  | .targetShardIDChange a prev =>
    (s.object a).map fun o => s.put a (o.setTargetShardID prev)
  | .addLogChange h =>
    some { s with logs := Function.update s.logs h (s.logs h).dropLast
                  logSize := s.logSize - 1 }

/-- One turn of the loop of `journal.revert`. -/
def undo (e : JournalEntry) (s : Shown) : Option Shown :=
  (s.revertEntry e).map fun s => s.unmark e

/-! ## Undoing a write -/

/-- Undoing the entries of an effect, the latest first, gives `s`. -/
def Reverts (eff : Shown × List JournalEntry) : Prop :=
  unwind undo eff.2.reverse eff.1 = some s

theorem unmark_mark (e : JournalEntry) : (s.mark e).unmark e = s := by
  unfold mark unmark
  cases e.dirtied <;> simp

variable {s : Shown} {a : Address} {o : LoadMapObject} {o' : LoadMapObject}

theorem object_put (h : o.deleted = false) : (s.put a o).object a = some o := by
  simp [put, object, h]

theorem objects_of_object (h : s.object a = some o) : s.objects a = some o ∧ o.deleted = false := by
  simpa [object, filter_eq_some_iff] using h

theorem put_put_self (h : s.objects a = some o) :
    (s.put a o').put a o = s := by
  simp [put, ← h]

theorem reverts_single {s' : Shown} {e : JournalEntry} (h : undo e s' = some s) :
    Reverts s (s', [e]) := by
  simp [Reverts, unwind, h]

theorem Reverts.append {s' : Shown} {es : List JournalEntry} {eff : Shown × List JournalEntry}
    (h : Reverts s (s', es)) (h' : Reverts s' eff) : Reverts s (eff.1, es ++ eff.2) := by
  unfold Reverts at *
  rw [reverse_append, unwind_append, h']
  exact h

theorem reverts_update {e : JournalEntry} (ho : s.object a = some o)
    (hrevert : ((s.mark e).put a o').revertEntry e = some (((s.mark e).put a o').put a o)) :
    Reverts s (s.update a e o') := by
  refine reverts_single ?_
  have hmark : (s.mark e).objects a = some o := (objects_of_object ho).1
  simp only [undo, hrevert, map_some, put_put_self hmark, unmark_mark]

theorem reverts_creation (s : Shown) (a : Address) (o : LoadMapObject) :
    Reverts s (s.update a (s.creation a) o) := by
  refine reverts_single ?_
  rcases h : s.objects a with _ | prev
  · have hobjects : Function.update (Function.update s.objects a (some o)) a none = s.objects := by
      simp [← h]
    simp only [creation, h, undo, revertEntry, put, mark, map_some, hobjects]
    exact congrArg some (unmark_mark s (.createObjectChange a))
  · simp only [creation, h, undo, revertEntry, map_some]
    rw [put_put_self (show (s.mark (.resetObjectChange a prev)).objects a = some prev from h),
      unmark_mark]

theorem reverts_retarget (id : ShardID) (ho : s.object a = some o) :
    Reverts s (s.retarget a id o) := by
  refine reverts_update ho ?_
  have hlive : (o.setTargetShardID id).deleted = false := (objects_of_object ho).2
  simp only [revertEntry, object_put hlive, map_some]
  rfl

theorem reverts_suicide (ho : s.object a = some o) :
    Reverts s (s.update a (.suicideChange a o.suicided o.data.targetShardID)
      { o.setTargetShardID iniShardID with suicided := true }) := by
  refine reverts_update ho ?_
  have hlive : ({ o.setTargetShardID iniShardID with suicided := true } : LoadMapObject).deleted =
      false := (objects_of_object ho).2
  simp only [revertEntry, object_put hlive]
  rfl

/-- **Undoing what a write has logged puts back what was shown.** -/
theorem reverts_write (s : Shown) (thash : Word) (w : Write) : Reverts s (s.write thash w) := by
  cases w with
  | setTargetShardID a id =>
    simp only [write]
    split
    case h_1 o ho => exact reverts_retarget id ho
    case h_2 => exact (reverts_creation s a .fresh).append (reverts_retarget id (object_put rfl))
  | createMapAccount a => exact reverts_creation s a _
  | suicide a =>
    simp only [write]
    split
    · rfl
    case h_2 o ho => exact reverts_suicide ho
  | addLog log =>
    refine reverts_single ?_
    simp [undo, revertEntry, unmark, JournalEntry.dirtied]

end Shown

/-- What a load map shows, as an undo log.  The current transaction is what a revert
leaves alone. -/
def shown : Undo interface Shown Word JournalEntry where
  call w s thash := some ((), (s.write thash w).1, thash, (s.write thash w).2)
  undo := Shown.undo
  undo_call w s thash r s' thash' es h := by
    obtain ⟨-, hdata⟩ := Prod.mk.inj (some.inj h)
    obtain ⟨rfl, hrest⟩ := Prod.mk.inj hdata
    cases hrest
    exact s.reverts_write thash w

namespace LoadMapDB

/-! ## The load map shows it -/

/-- One journalled write. -/
def write (l : LoadMapDB) : Write → LoadMapDB
  | .setTargetShardID addr id => l.setTargetShardID addr id
  | .createMapAccount addr => l.createMapAccount addr
  | .suicide addr => (l.suicide addr).1
  | .addLog log => l.addLog log

/-- The load map as a state with snapshots. -/
def machine : Machine interface LoadMapDB where
  call w l := some ((), l.write w)
  snapshot := snapshot
  revert := revertToSnapshot

/-- What a load map shows. -/
def shown (l : LoadMapDB) : Shown where
  objects := l.getDeletedLoadMapObject
  dirties := l.journal.dirties
  logs := l.logs
  logSize := l.logSize

/-- What a load map shows, with its journal and its snapshots. -/
def view (l : LoadMapDB) : Log Shown Word JournalEntry where
  data := l.shown
  kept := l.thash
  entries := l.journal.entries
  revisions := l.validRevisions.map fun r => (r.id, r.journalIndex)
  nextId := l.nextRevisionId

/-- Nothing can be read from the trie under the address. -/
def Unstored (l : LoadMapDB) (a : Address) : Prop := (l.trie a).bind decodeMapAccount = none

/-- What the journal creates was neither in the trie nor marked, what is marked is in memory, and
the snapshots are numbered in order. -/
structure Sound (l : LoadMapDB) : Prop where
  created : ∀ a, .createObjectChange a ∈ l.journal.entries →
    l.Unstored a ∧ l.loadMapObjectsPending a = false ∧ l.loadMapObjectsDirty a = false
  present : ∀ a, l.loadMapObjectsPending a = true ∨ l.loadMapObjectsDirty a = true →
    (l.loadMapObjects a).isSome
  numbered : ∀ r ∈ l.validRevisions, r.id < l.nextRevisionId

/-- The step from `l` to `l'` shows as the effect `eff`. -/
structure Shows (l l' : LoadMapDB) (eff : Shown × List JournalEntry) : Prop where
  data : l'.shown = eff.1
  entries : l'.journal.entries = l.journal.entries ++ eff.2
  trie : l'.trie = l.trie
  thash : l'.thash = l.thash
  revisions : l'.validRevisions = l.validRevisions
  nextId : l'.nextRevisionId = l.nextRevisionId
  pending : l'.loadMapObjectsPending = l.loadMapObjectsPending
  dirty : l'.loadMapObjectsDirty = l.loadMapObjectsDirty
  live : ∀ a, (l.loadMapObjects a).isSome → (l'.loadMapObjects a).isSome
  created : ∀ a, .createObjectChange a ∈ eff.2 → l.getDeletedLoadMapObject a = none

theorem Shows.refl (l : LoadMapDB) : Shows l l (l.shown, []) where
  data := rfl
  entries := by simp
  trie := rfl
  thash := rfl
  revisions := rfl
  nextId := rfl
  pending := rfl
  dirty := rfl
  live _ h := h
  created a ha := by cases ha

variable {l l' : LoadMapDB} {es : List JournalEntry} {e : JournalEntry}

theorem unstored_of_none {a : Address} (h : l.getDeletedLoadMapObject a = none) :
    l.loadMapObjects a = none ∧ l.Unstored a := by
  unfold getDeletedLoadMapObject at h
  split at h
  · cases h
  case h_2 hobj => exact ⟨hobj, map_eq_none_iff.1 h⟩

variable {l'' : LoadMapDB} {eff : Shown × List JournalEntry}

theorem Shows.trans {s : Shown} (h : Shows l l' (s, es)) (h' : Shows l' l'' eff) :
    Shows l l'' (eff.1, es ++ eff.2) where
  data := h'.data
  entries := by rw [h'.entries, h.entries, append_assoc]
  trie := h'.trie.trans h.trie
  thash := h'.thash.trans h.thash
  revisions := h'.revisions.trans h.revisions
  nextId := h'.nextId.trans h.nextId
  pending := h'.pending.trans h.pending
  dirty := h'.dirty.trans h.dirty
  live a ha := h'.live a (h.live a ha)
  created a ha := by
    rcases mem_append.1 ha with ha | ha
    · exact h.created a ha
    · obtain ⟨hobj, hstored⟩ := unstored_of_none (h'.created a ha)
      have hnone : l.loadMapObjects a = none := by
        by_contra hsome
        have hlive := h.live a (isSome_iff_ne_none.2 hsome)
        simp [hobj] at hlive
      simp only [Unstored, h.trie] at hstored
      simp [getDeletedLoadMapObject, hnone, hstored]

theorem Shows.sound (h : Shows l l' eff) (hl : l.Sound) :
    l'.Sound where
  created a ha := by
    rw [h.entries] at ha
    unfold Unstored
    rw [h.trie, h.pending, h.dirty]
    rcases mem_append.1 ha with ha | ha
    · exact hl.created a ha
    · obtain ⟨hobj, hstored⟩ := unstored_of_none (h.created a ha)
      have hmarks : ¬(l.loadMapObjectsPending a = true ∨ l.loadMapObjectsDirty a = true) := by
        intro hm
        have hsome := hl.present a hm
        simp [hobj] at hsome
      exact ⟨hstored, by simpa using hmarks⟩
  present a ha := by
    rw [h.pending, h.dirty] at ha
    exact h.live a (hl.present a ha)
  numbered := by
    rw [h.revisions, h.nextId]
    exact hl.numbered

/-- `createObject`, `SetTargetShardID` and `Suicide` write one object each. -/
def update (l : LoadMapDB) (a : Address) (e : JournalEntry) (o : LoadMapObject) : LoadMapDB :=
  (l.journalAppend e).setLoadMapObject a o

theorem objects_setLoadMapObject (l : LoadMapDB) (a : Address) (o : LoadMapObject) :
    (l.setLoadMapObject a o).getDeletedLoadMapObject =
      Function.update l.getDeletedLoadMapObject a (some o) := by
  funext b
  by_cases hb : b = a
  · subst hb
    simp [getDeletedLoadMapObject, setLoadMapObject]
  · simp [getDeletedLoadMapObject, setLoadMapObject, hb]

theorem isSome_setLoadMapObject (l : LoadMapDB) (a : Address) (o : LoadMapObject) (b : Address)
    (hb : (l.loadMapObjects b).isSome) : ((l.setLoadMapObject a o).loadMapObjects b).isSome := by
  by_cases hba : b = a
  · simp [setLoadMapObject, hba]
  · simpa [setLoadMapObject, hba] using hb

theorem shows_update {a : Address} {o : LoadMapObject}
    (he : ∀ b, e = .createObjectChange b → l.getDeletedLoadMapObject b = none) :
    Shows l (l.update a e o) (l.shown.update a e o) where
  __ := Shows.refl l
  data := by
    simp only [update, shown, objects_setLoadMapObject, Shown.update, Shown.put, Shown.mark]
    rfl
  entries := rfl
  live b hb := isSome_setLoadMapObject _ a o b hb
  created b hb := he b (mem_singleton.1 hb).symm

section

variable (l : LoadMapDB) (a : Address)

theorem shows_creation (o : LoadMapObject) :
    Shows l (l.update a (l.shown.creation a) o) (l.shown.update a (l.shown.creation a) o) := by
  refine shows_update fun b hb => ?_
  unfold Shown.creation at hb
  split at hb
  · rename_i hnone
    cases hb
    exact hnone
  · cases hb

theorem createObject_eq :
    l.createObject a =
      (l.update a (l.shown.creation a) .fresh, .fresh, l.getDeletedLoadMapObject a) := by
  unfold createObject Shown.creation
  dsimp only [shown]
  cases l.getDeletedLoadMapObject a <;> rfl

theorem object_shown : l.shown.object a = l.getLoadMapObject a := rfl

theorem shows_retarget (id : ShardID) (o : LoadMapObject) :
    Shows l (l.update a (.targetShardIDChange a o.data.targetShardID) (o.setTargetShardID id))
      (l.shown.retarget a id o) :=
  shows_update fun _ hb => by cases hb

theorem shows_setTargetShardID (id : ShardID) :
    Shows l (l.setTargetShardID a id) (l.shown.write l.thash (.setTargetShardID a id)) := by
  simp only [setTargetShardID, getOrNewLoadMapObject, Shown.write, object_shown]
  cases l.getLoadMapObject a with
  | some o => exact shows_retarget l a id o
  | none =>
    simp only [createObject_eq]
    have hcreate := shows_creation l a .fresh
    have hretarget := shows_retarget (l.update a (l.shown.creation a) .fresh) a id .fresh
    rw [hcreate.data] at hretarget
    exact hcreate.trans hretarget

theorem shows_createMapAccount :
    Shows l (l.createMapAccount a) (l.shown.write l.thash (.createMapAccount a)) := by
  have hobj : l.shown.objects a = l.getDeletedLoadMapObject a := rfl
  simp only [createMapAccount, createObject_eq, Shown.write, hobj]
  cases l.getDeletedLoadMapObject a with
  | none => exact shows_creation l a .fresh
  | some prev =>
    -- the second write of the new object replaces the first
    have hidem : ∀ o o' : LoadMapObject, (l.update a (l.shown.creation a) o).setLoadMapObject a o' =
        l.update a (l.shown.creation a) o' := by
      intro o o'
      simp [update, setLoadMapObject]
    simp only [hidem]
    exact shows_creation l a _

theorem shows_suicide : Shows l (l.suicide a).1 (l.shown.write l.thash (.suicide a)) := by
  simp only [suicide, Shown.write, object_shown]
  cases l.getLoadMapObject a with
  | none => exact .refl l
  | some o => exact shows_update fun _ hb => by cases hb

end

theorem shows_addLog (l : LoadMapDB) (log : List UInt8) :
    Shows l (l.addLog log) (l.shown.write l.thash (.addLog log)) where
  __ := Shows.refl l
  data := rfl
  entries := rfl
  created _ ha := by cases mem_singleton.1 ha

theorem shows_write (l : LoadMapDB) (w : Write) :
    Shows l (l.write w) (l.shown.write l.thash w) := by
  cases w with
  | setTargetShardID a id => exact shows_setTargetShardID l a id
  | createMapAccount a => exact shows_createMapAccount l a
  | suicide a => exact shows_suicide l a
  | addLog log => exact shows_addLog l log

/-! ## Reverting shows as undoing -/

/-- What reverting the entries leaves alone. -/
structure Reverted (es : List JournalEntry) (l l' : LoadMapDB) : Prop where
  trie : l'.trie = l.trie
  thash : l'.thash = l.thash
  revisions : l'.validRevisions = l.validRevisions
  nextId : l'.nextRevisionId = l.nextRevisionId
  pending : l'.loadMapObjectsPending = l.loadMapObjectsPending
  dirty : ∀ a, l'.loadMapObjectsDirty a = true → l.loadMapObjectsDirty a = true
  live : ∀ a, .createObjectChange a ∉ es → (l.loadMapObjects a).isSome →
    (l'.loadMapObjects a).isSome

theorem Reverted.trans {es' : List JournalEntry} (h : Reverted es l l') (h' : Reverted es' l' l'') :
    Reverted (es ++ es') l l'' where
  trie := h'.trie.trans h.trie
  thash := h'.thash.trans h.thash
  revisions := h'.revisions.trans h.revisions
  nextId := h'.nextId.trans h.nextId
  pending := h'.pending.trans h.pending
  dirty a ha := h.dirty a (h'.dirty a ha)
  live a ha hsome := by
    rw [mem_append, not_or] at ha
    exact h'.live a ha.2 (h.live a ha.1 hsome)

theorem shown_setLoadMapObject (l : LoadMapDB) (a : Address) (o : LoadMapObject) :
    (l.setLoadMapObject a o).shown = l.shown.put a o := by
  simp only [shown, objects_setLoadMapObject, Shown.put]
  rfl

theorem revertEntry_shown (he : ∀ a, e = .createObjectChange a → l.Unstored a) :
    (l.revertEntry e).map shown = l.shown.revertEntry e := by
  cases e with
  | createObjectChange a =>
    have hobjects : ({ l with loadMapObjects := Function.update l.loadMapObjects a none
                              loadMapObjectsDirty :=
                                Function.update l.loadMapObjectsDirty a false } :
        LoadMapDB).getDeletedLoadMapObject = Function.update l.getDeletedLoadMapObject a none := by
      funext b
      by_cases hb : b = a
      · subst hb
        have hstored : (l.trie b).bind decodeMapAccount = none := he b rfl
        simp [getDeletedLoadMapObject, hstored]
      · simp [getDeletedLoadMapObject, hb]
    simp only [revertEntry, map_some, shown, hobjects, Shown.revertEntry]
  | resetObjectChange a prev => exact congrArg some (shown_setLoadMapObject l a prev)
  | suicideChange a prev previd =>
    simp only [revertEntry, Shown.revertEntry, object_shown]
    cases l.getLoadMapObject a with
    | none => rfl
    | some o => exact congrArg some (shown_setLoadMapObject l a _)
  | targetShardIDChange a prev =>
    simp only [revertEntry, Shown.revertEntry, object_shown, Option.map_map]
    exact congrArg (fun f => (l.getLoadMapObject a).map f)
      (funext fun o => shown_setLoadMapObject l a (o.setTargetShardID prev))
  | addLogChange h => rfl

theorem reverted_setLoadMapObject (es : List JournalEntry) (l : LoadMapDB) (a : Address)
    (o : LoadMapObject) : Reverted es l (l.setLoadMapObject a o) :=
  ⟨rfl, rfl, rfl, rfl, rfl, fun _ h => h, fun b _ hb => isSome_setLoadMapObject l a o b hb⟩

theorem reverted_revertEntry (h : l.revertEntry e = some l') :
    Reverted [e] l l' ∧ l'.journal = l.journal := by
  cases e with
  | createObjectChange a =>
    cases h
    refine ⟨⟨rfl, rfl, rfl, rfl, rfl, fun b hb => ?_, fun b hb hsome => ?_⟩, rfl⟩
    · by_cases hba : b = a
      · simp [hba] at hb
      · simpa [hba] using hb
    · have hba : b ≠ a := by simpa using hb
      simpa [hba] using hsome
  | resetObjectChange a prev =>
    cases h
    exact ⟨reverted_setLoadMapObject _ l a prev, rfl⟩
  | addLogChange a =>
    cases h
    exact ⟨⟨rfl, rfl, rfl, rfl, rfl, fun _ h => h, fun _ _ h => h⟩, rfl⟩
  | suicideChange a prev previd =>
    simp only [revertEntry] at h
    split at h <;> cases h
    · exact ⟨reverted_setLoadMapObject _ l a _, rfl⟩
    · exact ⟨⟨rfl, rfl, rfl, rfl, rfl, fun _ h => h, fun _ _ h => h⟩, rfl⟩
  | targetShardIDChange a prev =>
    obtain ⟨o, -, rfl⟩ := map_eq_some_iff.1 h
    exact ⟨reverted_setLoadMapObject _ l a _, rfl⟩

theorem revertLast_shown (he : ∀ a, e = .createObjectChange a → l.Unstored a) :
    (l.revertLast e).map shown = l.shown.undo e := by
  simp only [revertLast, Shown.undo, ← revertEntry_shown he, Option.map_map]
  cases l.revertEntry e <;> rfl

theorem reverted_revertLast (h : l.revertLast e = some l') :
    Reverted [e] l l' ∧ l'.journal.entries = l.journal.entries.dropLast := by
  obtain ⟨l₁, h₁, rfl⟩ := map_eq_some_iff.1 h
  obtain ⟨hr, hj⟩ := reverted_revertEntry h₁
  exact ⟨⟨hr.trie, hr.thash, hr.revisions, hr.nextId, hr.pending, hr.dirty, hr.live⟩, by rw [← hj]⟩

theorem revertEntries_shown (hes : ∀ a, .createObjectChange a ∈ es → l.Unstored a) :
    (l.revertEntries es).map shown = unwind Shown.undo es l.shown := by
  induction es generalizing l with
  | nil => rfl
  | cons e es ih =>
    have hlast := revertLast_shown (e := e) fun a ha => hes a (by simp [ha])
    simp only [revertEntries, unwind]
    rw [← hlast]
    cases h : l.revertLast e with
    | none => rfl
    | some l₁ =>
      refine ih fun a ha => ?_
      unfold Unstored
      rw [(reverted_revertLast h).1.trie]
      exact hes a (mem_cons_of_mem _ ha)

theorem reverted_revertEntries (h : l.revertEntries es = some l') :
    Reverted es l l' ∧
      l'.journal.entries = l.journal.entries.take (l.journal.entries.length - es.length) := by
  induction es generalizing l with
  | nil =>
    cases h
    exact ⟨⟨rfl, rfl, rfl, rfl, rfl, fun _ h => h, fun _ _ h => h⟩, by simp⟩
  | cons e es ih =>
    obtain ⟨l₁, h₁, h₂⟩ := bind_eq_some_iff.1 h
    obtain ⟨hr₁, he₁⟩ := reverted_revertLast h₁
    obtain ⟨hr₂, he₂⟩ := ih h₂
    refine ⟨hr₁.trans hr₂, ?_⟩
    rw [he₂, he₁, dropLast_eq_take, take_take, length_take, length_cons]
    congr 1
    omega

/-- **Reverting a load map shows as reverting what it shows.** -/
theorem revertToSnapshot_view (hl : l.Sound) (revid : ℕ) :
    (l.revertToSnapshot revid).map view = Load.shown.machine.revert l.view revid := by
  have hidx : (l.view.revisions.findIdx fun r => decide (revid ≤ r.1)) =
      l.validRevisions.findIdx fun r => decide (revid ≤ r.id) := by
    simp only [view, findIdx_map]
    rfl
  simp only [revertToSnapshot, Undo.machine, hidx]
  generalize l.validRevisions.findIdx (fun r => decide (revid ≤ r.id)) = idx
  have hget : l.view.revisions[idx]? =
      (l.validRevisions[idx]?).map fun r => (r.id, r.journalIndex) := by
    simp only [view, List.getElem?_map]
  rw [hget]
  cases l.validRevisions[idx]? with
  | none => rfl
  | some r =>
    simp only [map_some]
    split
    · have hes : ∀ a, .createObjectChange a ∈ (l.journal.entries.drop r.journalIndex).reverse →
          l.Unstored a := fun a ha =>
        (hl.created a (mem_of_mem_drop (mem_reverse.1 ha))).1
      have hshown : unwind Load.shown.undo (l.view.entries.drop r.journalIndex).reverse l.view.data =
          _ := (revertEntries_shown hes).symm
      rw [hshown, Option.map_map, Option.map_map]
      cases hr : l.revertEntries (l.journal.entries.drop r.journalIndex).reverse with
      | none => rfl
      | some l' =>
        obtain ⟨hframe, hentries⟩ := reverted_revertEntries hr
        have htake : l'.journal.entries = l.journal.entries.take r.journalIndex := by
          rw [hentries, length_reverse, length_drop]
          rcases Nat.le_total r.journalIndex l.journal.entries.length with h | h
          · congr 1
            omega
          · rw [take_of_length_le h, Nat.sub_eq_zero_of_le h, Nat.sub_zero, take_length]
        simp only [map_some, comp_apply, view, hframe.thash, hframe.revisions,
          hframe.nextId, htake, map_take]
        rfl
    · rfl

/-! ## Every reachable load map is sound -/

theorem sound_revertToSnapshot {revid : ℕ} (hl : l.Sound) (h : l.revertToSnapshot revid = some l') :
    l'.Sound := by
  simp only [revertToSnapshot] at h
  split at h
  · split at h
    · obtain ⟨l₁, h₁, rfl⟩ := map_eq_some_iff.1 h
      obtain ⟨hframe, hentries⟩ := reverted_revertEntries h₁
      refine ⟨fun a ha => ?_, fun a ha => ?_, fun r hr => ?_⟩
      · have ha' : .createObjectChange a ∈ l₁.journal.entries := ha
        rw [hentries] at ha'
        obtain ⟨hstored, hpending, hdirty⟩ := hl.created a (mem_of_mem_take ha')
        refine ⟨by simpa only [Unstored, hframe.trie] using hstored,
          by simpa only [hframe.pending] using hpending, ?_⟩
        by_contra htrue
        simp [hframe.dirty a (by simpa using htrue)] at hdirty
      · have hmarked : l.loadMapObjectsPending a = true ∨ l.loadMapObjectsDirty a = true :=
          ha.imp (fun h => by simpa only [hframe.pending] using h) (hframe.dirty a)
        refine hframe.live a (fun hmem => ?_) (hl.present a hmarked)
        obtain ⟨-, hpending, hdirty⟩ :=
          hl.created a (mem_of_mem_drop (mem_reverse.1 hmem))
        simp [hpending, hdirty] at hmarked
      · have hr' := mem_of_mem_take hr
        rw [hframe.revisions] at hr'
        simpa only [hframe.nextId] using hl.numbered r hr'
    · cases h
  · cases h

theorem sound_snapshot (hl : l.Sound) : l.snapshot.1.Sound where
  created := hl.created
  present := hl.present
  numbered r hr := by
    rcases mem_append.1 hr with hr | hr
    · exact Nat.lt_succ_of_lt (hl.numbered r hr)
    · cases mem_singleton.1 hr
      exact Nat.lt_succ_self _

theorem sound_of_cleared (hentries : l.journal.entries = []) (hrevisions : l.validRevisions = [])
    (hpresent : ∀ a, l.loadMapObjectsPending a = true ∨ l.loadMapObjectsDirty a = true →
      (l.loadMapObjects a).isSome) : l.Sound where
  created a ha := by simp [hentries] at ha
  present := hpresent
  numbered r hr := by simp [hrevisions] at hr

theorem entries_finalise (l : LoadMapDB) (del : Bool) : (l.finalise del).journal.entries = [] := by
  simp only [finalise, clearJournalAndRefund]
  split
  · assumption
  · rfl

theorem sound_finalise (hl : l.Sound) (del : Bool) : (l.finalise del).Sound := by
  refine sound_of_cleared (entries_finalise l del) rfl fun a ha => ?_
  have hlive : (l.loadMapObjects a).isSome → ((l.finalise del).loadMapObjects a).isSome := by
    intro h
    simp only [finalise, clearJournalAndRefund]
    split <;> simpa using h
  refine hlive ?_
  simp only [finalise, clearJournalAndRefund, Bool.or_eq_true] at ha
  rcases ha with (h | h) | (h | h)
  · exact hl.present a (.inl h)
  · exact (Bool.and_eq_true_iff.1 h).2
  · exact hl.present a (.inr h)
  · exact (Bool.and_eq_true_iff.1 h).2

theorem sound_copy (hl : l.Sound) : l.copy.Sound := by
  refine sound_of_cleared rfl rfl fun a ha => ?_
  simp only [copy, Bool.or_eq_true] at ha ⊢
  have hmarked : (l.touched a = true ∨ l.loadMapObjectsPending a = true) ∨
      l.loadMapObjectsDirty a = true := by tauto
  have hsome : (l.loadMapObjects a).isSome := by
    rcases hmarked with (h | h) | h
    · exact (Bool.and_eq_true_iff.1 h).2
    · exact hl.present a (.inl h)
    · exact hl.present a (.inr h)
  simpa [hmarked] using hsome

theorem sound_step {act : Action} (hl : l.Sound) (h : l.step act = some l') : l'.Sound := by
  cases act with
  | call c =>
    cases c with
    | setTargetShardID a id =>
      cases h
      exact (shows_setTargetShardID l a id).sound hl
    | createMapAccount a =>
      cases h
      exact (shows_createMapAccount l a).sound hl
    | suicide a =>
      cases h
      exact (shows_suicide l a).sound hl
    | snapshot =>
      cases h
      exact sound_snapshot hl
    | revertToSnapshot revid => exact sound_revertToSnapshot hl h
  | addLog log =>
    cases h
    exact (shows_addLog l log).sound hl
  | finalise del =>
    cases h
    exact sound_finalise hl del
  | intermediateRoot del =>
    cases h
    refine sound_of_cleared (entries_finalise l del) rfl fun a ha => ?_
    exact (sound_finalise hl del).present a (.inr (by simpa [intermediateRoot] using ha))
  | commit del =>
    cases h
    exact sound_of_cleared (entries_finalise l del) rfl fun a ha => by
      simp [commit, intermediateRoot] at ha
  | copy =>
    cases h
    exact sound_copy hl
  | reopen =>
    cases h
    exact sound_of_cleared rfl rfl fun a ha => by simp [new] at ha

theorem Reachable.sound (h : l.Reachable) : l.Sound :=
  Transition.Reach.invariant (sound_of_cleared rfl rfl fun a ha => by simp [new] at ha)
    (fun _ _ _ hl _ hs => sound_step hl hs) h

/-! ## Exactness -/

theorem shown_hom : machine.Hom Load.shown.machine Sound view where
  call w l _ := by
    have h := shows_write l w
    refine congrArg (fun j => some ((), j)) ?_
    simp only [view, h.data, h.entries, h.thash, h.revisions, h.nextId]
  snapshot l _ := by
    simp only [machine, Undo.machine, view, snapshot, Prod.map_apply, map_append]
    rfl
  revert l revid hl := revertToSnapshot_view hl revid
  call_inv w l _ l' hl h := by
    cases h
    exact (shows_write l w).sound hl
  snapshot_inv _ hl := sound_snapshot hl
  revert_inv _ _ _ hl h := sound_revertToSnapshot hl h

/-- The two load maps answer every reader alike and have the same logs and the same dirty
counts. -/
structure SameAs (l l' : LoadMapDB) : Prop where
  getTargetShardID : ∀ a, l.getTargetShardID a = l'.getTargetShardID a
  exist : ∀ a, l.exist a = l'.exist a
  hasSuicided : ∀ a, l.hasSuicided a = l'.hasSuicided a
  logs : l.logs = l'.logs
  logSize : l.logSize = l'.logSize
  dirties : l.journal.dirties = l'.journal.dirties

theorem sameAs_of_shown (h : l.shown = l'.shown) : l.SameAs l' := by
  have hobj : l.getLoadMapObject = l'.getLoadMapObject := by
    funext a
    exact congrArg (fun s : Shown => s.object a) h
  exact
    { getTargetShardID := fun a => by simp only [LoadMapDB.getTargetShardID, hobj]
      exist := fun a => by simp only [LoadMapDB.exist, hobj]
      hasSuicided := fun a => by simp only [LoadMapDB.hasSuicided, hobj]
      logs := congrArg Shown.logs h
      logSize := congrArg Shown.logSize h
      dirties := congrArg Shown.dirties h }

theorem Sound.numbered_view (hl : l.Sound) : ∀ r ∈ l.view.revisions, r.1 < l.view.nextId := by
  intro r hr
  obtain ⟨r', hr', rfl⟩ := mem_map.1 hr
  exact hl.numbered r' hr'

/-- **A revert to a snapshot of the load map is exact**, and it gets through unless a revert in
between went back to the snapshot or beyond it. -/
theorem revertToSnapshot_exact {l l' : LoadMapDB} {steps : List (Step interface)}
    (hl : l.Reachable) (hsteps : machine.exec l.snapshot.1 steps = some l') :
    (∀ l'', l'.revertToSnapshot l.snapshot.2 = some l'' → l''.SameAs l) ∧
      ((∀ n, Step.revert n ∈ steps → l.snapshot.2 < n) →
        ∃ l'', l'.revertToSnapshot l.snapshot.2 = some l'') := by
  refine ⟨fun l'' hrevert => sameAs_of_shown ?_, ?_⟩
  · exact congrArg Log.data
      (Undo.revert_refined shown_hom hl.sound hl.sound.numbered_view hsteps hrevert)
  · exact Undo.exists_revert_refined shown_hom hl.sound hl.sound.numbered_view hsteps

/-- A mapping is set, replaced and written again over two snapshots, one of them dropped. -/
theorem revertToSnapshot_exact_nested :
    ∃ l' l'', machine.exec (new fun _ => none).snapshot.1
        [.call (.setTargetShardID 1 2), .snapshot, .call (.suicide 1), .snapshot,
          .call (.createMapAccount 1), .revert 1, .call (.setTargetShardID 1 3)] = some l' ∧
      l'.getTargetShardID 1 = 3 ∧
      l'.revertToSnapshot (new fun _ => none).snapshot.2 = some l'' ∧
      l''.SameAs (new fun _ => none) := by
  have hrun : (machine.exec (new fun _ => none).snapshot.1
      [.call (.setTargetShardID 1 2), .snapshot, .call (.suicide 1), .snapshot,
        .call (.createMapAccount 1), .revert 1, .call (.setTargetShardID 1 3)]).map
      (fun l => l.getTargetShardID 1) = some 3 := by decide
  obtain ⟨l', hl', htarget⟩ := map_eq_some_iff.1 hrun
  obtain ⟨hexact, hsome⟩ := revertToSnapshot_exact Transition.Reach.refl hl'
  obtain ⟨l'', hl''⟩ := hsome (by
    intro n hn
    simp only [mem_cons, Step.revert.injEq, reduceCtorEq, false_or, not_mem_nil, or_false] at hn
    subst hn
    decide)
  exact ⟨l', l'', hl', htarget, hl'', hexact l'' hl''⟩

end LoadMapDB

end DyShard.Load
