import DyShard.State.Ledger

/-!
# The database shows a ledger

Every call, snapshot and revert of the database does to what it shows what the undo log of the
ledger does, as long as the objects in memory are `Sound`.
-/

namespace DyShard.State

open Function List Option Ledger Journal Nat DB JournalEntry

/-- An entry over other objects. -/
def JournalEntry.map {O O' : Type} (f : O → O') : JournalEntry O → JournalEntry O'
  | .createObjectChange a => .createObjectChange a
  | .resetObjectChange a prev => .resetObjectChange a (f prev)
  | .suicideChange a prev prevbalance => .suicideChange a prev prevbalance
  | .balanceChange a prev => .balanceChange a prev
  | .nonceChange a prev => .nonceChange a prev
  | .storageChange a key prevalue => .storageChange a key prevalue
  | .codeChange a prevcode => .codeChange a prevcode
  | .freezeChange a prev => .freezeChange a prev
  | .refundChange prev => .refundChange prev
  | .addLogChange h => .addLogChange h
  | .touchChange a => .touchChange a

@[simp] theorem JournalEntry.dirtied_map {O O' : Type} (f : O → O') (e : JournalEntry O) :
    (e.map f).dirtied = e.dirtied := by
  cases e <;> rfl

namespace DB

variable {W : Type}

/-- The ledger a database shows. -/
def ledger (db : DB W) : Ledger where
  cells a := (db.getDeletedStateObject a).map Object.cell
  dirties := db.journal.dirties
  refund := db.refund
  logs := db.logs
  logSize := db.logSize

/-- What a database keeps on a revert. -/
def kept (db : DB W) : Kept W where
  validators := db.stateValidators
  keys := db.validatorKeys
  forced := db.journal.forced
  thash := db.thash

/-- What a database shows. -/
def view (db : DB W) : Client.Log Ledger (Kept W) (JournalEntry Cell) where
  data := db.ledger
  kept := db.kept
  entries := db.journal.entries.map (.map Object.cell)
  revisions := db.validRevisions.map fun r => (r.id, r.journalIndex)
  nextId := db.nextRevisionID

/-- What the journal creates was neither in the trie nor in memory, what is to be written or marked
as modified is in memory, and the snapshots are numbered in order. -/
structure Sound (db : DB W) : Prop where
  fresh : ∀ a, .createObjectChange a ∈ db.journal.entries →
    db.trie a = none ∧ db.stateObjectsDirty a = false ∧ db.stateObjectsPending a = false
  present : ∀ a, db.stateObjectsDirty a = true ∨ db.stateObjectsPending a = true →
    (db.stateObjects a).isSome
  loaded : ∀ a, (db.trie a).isSome → db.journal.isDirty a = true → (db.stateObjects a).isSome
  numbered : ∀ r ∈ db.validRevisions, r.id < db.nextRevisionID

/-! ## Reading -/

theorem cell_ledger (db : DB W) (a : Address) :
    db.ledger.cell a = (db.getStateObject a).map Object.cell := by
  simp only [cell, ledger, getStateObject]
  cases db.getDeletedStateObject a with
  | none => rfl
  | some o => cases h : o.deleted <;> simp [Option.filter, Object.cell, h]

theorem code_ledger (db : DB W) (a : Address) : db.ledger.code a = db.getCode a := by
  simp only [code, cell_ledger, getCode]
  cases db.getStateObject a <;> rfl

theorem wrapperCopy_ledger (codec : WrapperCodec W) (db : DB W) (a : Address) :
    db.ledger.wrapperCopy codec a = db.validatorWrapperCopy codec a := by
  simp only [wrapperCopy, code_ledger, validatorWrapperCopy]

/-! ## Writing -/

/-- The step from `db` to `db'` shows as the effect `eff` and leaves `k` as what is kept. -/
structure Shows (db db' : DB W) (eff : Effect) (k : Kept W) : Prop where
  data : db'.ledger = eff.1
  entries : db'.journal.entries.map (.map Object.cell) =
    db.journal.entries.map (.map Object.cell) ++ eff.2
  kept : db'.kept = k
  trie : db'.trie = db.trie
  pending : db'.stateObjectsPending = db.stateObjectsPending
  dirty : db'.stateObjectsDirty = db.stateObjectsDirty
  revisions : db'.validRevisions = db.validRevisions
  nextId : db'.nextRevisionID = db.nextRevisionID
  created : ∀ a, .createObjectChange a ∈ db'.journal.entries →
    .createObjectChange a ∈ db.journal.entries ∨ db.getDeletedStateObject a = none
  live : ∀ a, (db.stateObjects a).isSome → (db'.stateObjects a).isSome
  marks : ∀ a, db'.journal.isDirty a = true →
    db.journal.isDirty a = true ∨ (db'.stateObjects a).isSome

theorem Shows.refl (db : DB W) : Shows db db (db.ledger, []) db.kept where
  data := rfl
  entries := by simp
  kept := rfl
  trie := rfl
  pending := rfl
  dirty := rfl
  revisions := rfl
  nextId := rfl
  created _ h := .inl h
  live _ h := h
  marks _ h := .inl h

variable {db db' : DB W} {eff : Effect} {k : Kept W} {e : JournalEntry Object}

theorem Shows.trans {db'' : DB W} {l : Ledger} {es : List (JournalEntry Cell)} {k' : Kept W}
    (h : Shows db db' (l, es) k) (h' : Shows db' db'' eff k') :
    Shows db db'' (eff.1, es ++ eff.2) k' where
  data := h'.data
  entries := by rw [h'.entries, h.entries, append_assoc]
  kept := h'.kept
  trie := h'.trie.trans h.trie
  pending := h'.pending.trans h.pending
  dirty := h'.dirty.trans h.dirty
  revisions := h'.revisions.trans h.revisions
  nextId := h'.nextId.trans h.nextId
  created a ha := by
    rcases h'.created a ha with ha | ha
    · exact h.created a ha
    · right
      obtain ⟨hobj, htrie⟩ := or_eq_none_iff.1 ha
      have hnone : db.stateObjects a = none := by
        by_contra hsome
        have hlive := h.live a (isSome_iff_ne_none.2 hsome)
        simp [hobj] at hlive
      rw [getDeletedStateObject, hnone, ← h.trie, htrie]
      rfl
  live a ha := h'.live a (h.live a ha)
  marks a ha := by
    rcases h'.marks a ha with ha | ha
    · exact (h.marks a ha).imp_right (h'.live a)
    · exact .inr ha

theorem Shows.sound (h : Shows db db' eff k) (hs : db.Sound) : db'.Sound where
  fresh a ha := by
    rw [h.trie, h.dirty, h.pending]
    rcases h.created a ha with ha | ha
    · exact hs.fresh a ha
    · obtain ⟨hobj, htrie⟩ := or_eq_none_iff.1 ha
      have hmarks : ¬(db.stateObjectsDirty a = true ∨ db.stateObjectsPending a = true) := by
        intro hm
        have := hs.present a hm
        simp [hobj] at this
      simpa [map_eq_none_iff.1 htrie] using hmarks
  present a ha := by
    rw [h.dirty, h.pending] at ha
    exact h.live a (hs.present a ha)
  loaded a htrie hd := by
    rw [h.trie] at htrie
    rcases h.marks a hd with hd | hd
    · exact h.live a (hs.loaded a htrie hd)
    · exact hd
  numbered := by
    rw [h.revisions, h.nextId]
    exact hs.numbered

theorem ledger_setStateObject (db : DB W) (a : Address) (o : Object) :
    (db.setStateObject a o).ledger = db.ledger.put a o.cell := by
  have h : (fun b => ((db.setStateObject a o).getDeletedStateObject b).map Object.cell) =
      Function.update (fun b => (db.getDeletedStateObject b).map Object.cell) a (some o.cell) := by
    funext b
    by_cases hb : b = a
    · subst hb
      simp [setStateObject, getDeletedStateObject]
    · simp [setStateObject, getDeletedStateObject, hb]
  simp only [ledger, h, put]
  rfl

theorem ledger_journalAppend (db : DB W) (e : JournalEntry Object) :
    (db.journalAppend e).ledger = db.ledger.mark (e.map Object.cell) := by
  simp only [ledger, journalAppend, append, mark, dirtied_map]
  rfl

theorem isDirty_append {j : Journal} {a b : Address} (he : ∀ b, e.dirtied = some b → b = a)
    (hb : (j.append e).isDirty b = true) : j.isDirty b = true ∨ b = a := by
  by_cases hba : b = a
  · exact .inr hba
  · left
    simp only [isDirty, append] at hb ⊢
    cases hd : e.dirtied with
    | none => simpa only [hd] using hb
    | some c =>
      cases he c hd
      simpa only [hd, update_of_ne hba] using hb

theorem isSome_setStateObject (db : DB W) (a : Address) (o : Object) (b : Address)
    (hb : b = a ∨ (db.stateObjects b).isSome) : ((db.setStateObject a o).stateObjects b).isSome := by
  by_cases hba : b = a
  · simp [setStateObject, hba]
  · simpa [setStateObject, hba] using hb

theorem shows_update (db : DB W) (a : Address) (e : JournalEntry Object) (o : Object)
    (he : ∀ b, e = .createObjectChange b → db.getDeletedStateObject b = none)
    (hd : ∀ b, e.dirtied = some b → b = a) :
    Shows db (db.update a e o) (db.ledger.update a (e.map Object.cell) o.cell) db.kept where
  __ := Shows.refl db
  data := by
    unfold update
    rw [ledger_setStateObject, ledger_journalAppend]
    rfl
  entries := by simp [update, setStateObject, journalAppend, append, Ledger.update]
  created b hb := by
    rcases mem_append.1 hb with hb | hb
    · exact .inl hb
    · exact .inr (he b (mem_singleton.1 hb).symm)
  live b hb := isSome_setStateObject _ a o b (.inr hb)
  marks b hb := (isDirty_append hd hb).imp_right fun h => isSome_setStateObject _ a o b (.inl h)

theorem shows_write (db : DB W) (a : Address) (e : JournalEntry Object) (o : Object)
    (he : ∀ b, e ≠ .createObjectChange b) (hd : e.dirtied = some a) :
    Shows db (db.update a e o) (db.ledger.update a (e.map Object.cell) o.cell) db.kept :=
  shows_update db a e o (fun b hb => absurd hb (he b)) fun _ hb => some.inj (hb.symm.trans hd)

/-- The entry `createObject` logs. -/
def creation (db : DB W) (a : Address) : JournalEntry Object :=
  match db.getDeletedStateObject a with
  | none => .createObjectChange a
  | some prev => .resetObjectChange a prev

section

variable (db : DB W) (a : Address)

theorem creation_ledger : db.ledger.creation a = (db.creation a).map Object.cell := by
  simp only [Ledger.creation, ledger, creation]
  cases db.getDeletedStateObject a <;> rfl

theorem createObject_eq :
    db.createObject a =
      (db.update a (db.creation a) (newObject .zero), newObject .zero,
        db.getDeletedStateObject a) := by
  unfold createObject creation update
  cases db.getDeletedStateObject a <;> rfl

theorem createAccount_eq :
    db.createAccount a = db.update a (db.creation a)
      ((newObject .zero).setBalance ((db.getDeletedStateObject a).elim 0 fun o => o.data.balance)) := by
  unfold createAccount
  rw [createObject_eq]
  cases db.getDeletedStateObject a with
  | none => rfl
  | some prev => simp [update, setStateObject]

theorem shows_creation (o : Object) :
    Shows db (db.update a (db.creation a) o) (db.ledger.update a (db.ledger.creation a) o.cell)
      db.kept := by
  rw [creation_ledger]
  refine shows_update db a _ o (fun b hb => ?_) fun b hb => ?_
  · unfold creation at hb
    cases hd : db.getDeletedStateObject a with
    | none =>
      rw [hd] at hb
      cases hb
      exact hd
    | some prev => simp [hd] at hb
  · unfold creation at hb
    cases hd : db.getDeletedStateObject a with
    | none =>
      rw [hd] at hb
      exact (some.inj hb).symm
    | some prev => simp [hd, dirtied] at hb

theorem shows_createAccount :
    Shows db (db.createAccount a) (db.ledger.createAccount a) db.kept := by
  rw [createAccount_eq]
  have hcell : (((newObject .zero).setBalance
      ((db.getDeletedStateObject a).elim 0 fun o => o.data.balance)).cell) =
      { Cell.zero with balance := (db.ledger.cells a).elim 0 Cell.balance } := by
    simp only [cell_setBalance, ledger, Cell.zero]
    cases db.getDeletedStateObject a <;> rfl
  have h := shows_creation db a
    ((newObject .zero).setBalance ((db.getDeletedStateObject a).elim 0 fun o => o.data.balance))
  rwa [hcell] at h

theorem shows_getOrNew :
    Shows db (db.getOrNewStateObject a).1 (db.ledger.fetch a).1 db.kept ∧
      (db.getOrNewStateObject a).2.cell = (db.ledger.fetch a).2 := by
  unfold getOrNewStateObject fetch
  rw [cell_ledger]
  cases db.getStateObject a with
  | some o => exact ⟨.refl db, rfl⟩
  | none =>
    simp only [createObject_eq, map_none]
    exact ⟨shows_creation db a _, rfl⟩

variable {write : DB W → Object → DB W} {write' : Ledger → Cell → Effect}

/-- A setter shows as the setter of the ledger if its write does; `f` is what the write does
to what is kept. -/
theorem shows_unlessFrozen_kept {f : Kept W → Cell → Kept W}
    (hwrite : ∀ db o, Shows db (write db o) (write' db.ledger o.cell) (f db.kept o.cell)) :
    Shows db (db.unlessFrozen a write) (db.ledger.unlessFrozen a write')
      (if (db.ledger.fetch a).2.freeze then db.kept else f db.kept (db.ledger.fetch a).2) := by
  obtain ⟨hshow, hcell⟩ := shows_getOrNew db a
  unfold unlessFrozen Ledger.unlessFrozen
  generalize db.getOrNewStateObject a = r at hshow hcell ⊢
  obtain ⟨db₁, o⟩ := r
  generalize db.ledger.fetch a = r' at hshow hcell ⊢
  obtain ⟨⟨l, es⟩, c⟩ := r'
  dsimp only at hshow hcell ⊢
  subst hcell
  have hfreeze : o.cell.freeze = o.freeze := rfl
  rw [hfreeze]
  split
  · exact hshow
  · cases hshow.data
    have h := hwrite db₁ o
    rw [hshow.kept] at h
    exact hshow.trans h

theorem shows_unlessFrozen
    (hwrite : ∀ db o, Shows db (write db o) (write' db.ledger o.cell) db.kept) :
    Shows db (db.unlessFrozen a write) (db.ledger.unlessFrozen a write') db.kept := by
  have h := shows_unlessFrozen_kept (f := fun k _ => k) db a hwrite
  rwa [ite_self] at h

end

theorem shows_objectSetBalance (a : Address) (amount : ℤ) (db : DB W) (o : Object) :
    Shows db (objectSetBalance a amount db o) (Ledger.setBalance a amount db.ledger o.cell)
      db.kept :=
  shows_write db a _ _ nofun rfl

section

variable (db : DB W) (a : Address)

theorem shows_setBalance (amount : ℤ) :
    Shows db (db.setBalance a amount) (db.ledger.unlessFrozen a (Ledger.setBalance a amount))
      db.kept :=
  shows_unlessFrozen db a (shows_objectSetBalance a amount)

theorem shows_subBalance (amount : ℤ) :
    Shows db (db.subBalance a amount) (db.ledger.unlessFrozen a (Ledger.subBalance a amount))
      db.kept := by
  refine shows_unlessFrozen db a fun db o => ?_
  unfold objectSubBalance Ledger.subBalance
  split
  · exact .refl db
  · exact shows_objectSetBalance a _ db o

theorem shows_setNonce (nonce : UInt64) :
    Shows db (db.setNonce a nonce) (db.ledger.unlessFrozen a (Ledger.setNonce a nonce)) db.kept :=
  shows_unlessFrozen db a fun db _ => shows_write db a _ _ nofun rfl

theorem shows_setCode (code : List UInt8) :
    Shows db (db.setCode a code) (db.ledger.unlessFrozen a (Ledger.setCode a code)) db.kept :=
  shows_unlessFrozen db a fun db _ => shows_write db a _ _ nofun rfl

theorem shows_setState (key value : Word) :
    Shows db (db.setState a key value) (db.ledger.unlessFrozen a (Ledger.setState a key value))
      db.kept := by
  refine shows_unlessFrozen db a fun db o => ?_
  unfold objectSetState Ledger.setState
  have hcur : o.cell.current = o.getState := rfl
  rw [hcur]
  split
  · exact .refl db
  · have h := shows_write db a (.storageChange a key (o.getState key)) (o.setState key value)
      nofun rfl
    rwa [cell_setState] at h

end

theorem shows_touch (a : Address) (db : DB W) (o : Object) :
    Shows db (touch a db o) (db.ledger.update a (.touchChange a) o.cell)
      (if a = ripemd then { db.kept with forced := Function.update db.kept.forced a (db.kept.forced a + 1) }
        else db.kept) := by
  have h := shows_write db a (.touchChange a) o nofun rfl
  unfold touch
  split
  · refine ⟨h.data, h.entries, rfl, h.trie, h.pending, h.dirty, h.revisions, h.nextId, h.created,
      h.live, fun b hb => ?_⟩
    by_cases hba : b = a
    · exact .inr (isSome_setStateObject _ a o b (.inl hba))
    · refine h.marks b ?_
      simpa only [isDirty, dirty, update_of_ne hba] using hb
  · exact h

/-- What `AddBalance` of an object does to what is kept. -/
def touchKept (a : Address) (amount : ℤ) (k : Kept W) (c : Cell) : Kept W :=
  if a = ripemd ∧ amount = 0 ∧ c.empty then
    { k with forced := Function.update k.forced a (k.forced a + 1) }
  else k

theorem shows_objectAddBalance (a : Address) (amount : ℤ) (db : DB W) (o : Object) :
    Shows db (objectAddBalance a amount db o) (Ledger.addBalance a amount db.ledger o.cell)
      (touchKept a amount db.kept o.cell) := by
  unfold objectAddBalance Ledger.addBalance touchKept
  by_cases h0 : amount = 0
  · by_cases he : o.empty = true
    · simpa [h0, he] using shows_touch a db o
    · simpa [h0, he] using Shows.refl db
  · simp only [h0, if_false, false_and, and_false]
    exact shows_objectSetBalance a _ db o

theorem shows_addBalance (db : DB W) (a : Address) (amount : ℤ) :
    Shows db (db.addBalance a amount) (db.ledger.unlessFrozen a (Ledger.addBalance a amount))
      (db.kept.touch a amount (db.ledger.fetch a).2) := by
  have h := shows_unlessFrozen_kept db a (shows_objectAddBalance a amount)
  have hk : db.kept.touch a amount (db.ledger.fetch a).2 =
      if (db.ledger.fetch a).2.freeze then db.kept
      else touchKept a amount db.kept (db.ledger.fetch a).2 := by
    unfold Kept.touch touchKept
    cases (db.ledger.fetch a).2.freeze <;> simp
  rw [hk]
  exact h

theorem shows_setFreezeState (db : DB W) (a : Address) (b : Bool) :
    Shows db (db.setFreezeState a b) (db.ledger.setFreezeState a b) db.kept := by
  obtain ⟨hshow, hcell⟩ := shows_getOrNew db a
  unfold setFreezeState Ledger.setFreezeState
  generalize db.getOrNewStateObject a = r at hshow hcell ⊢
  obtain ⟨db₁, o⟩ := r
  generalize db.ledger.fetch a = r' at hshow hcell ⊢
  obtain ⟨⟨l, es⟩, c⟩ := r'
  subst hcell
  cases hshow.data
  have h := shows_write db₁ a (.freezeChange a o.freeze) (o.setFreezeState b) nofun rfl
  rw [hshow.kept] at h
  exact hshow.trans h

theorem shows_suicide (db : DB W) (a : Address) :
    Shows db (db.suicide a).1 (db.ledger.suicide a) db.kept := by
  unfold suicide Ledger.suicide
  rw [cell_ledger]
  cases db.getStateObject a with
  | none => exact .refl db
  | some o => exact shows_write db a _ _ nofun rfl

theorem shows_journalAppend (db : DB W) (hd : e.dirtied = none)
    (he : ∀ b, e ≠ .createObjectChange b) :
    Shows db (db.journalAppend e) (db.ledger, [e.map Object.cell]) db.kept where
  __ := Shows.refl db
  data := by simp [ledger_journalAppend, mark, hd]
  entries := by simp [journalAppend, append]
  created b hb := by
    rcases mem_append.1 hb with hb | hb
    · exact .inl hb
    · exact absurd (mem_singleton.1 hb).symm (he b)
  marks _ hb := .inl (by simpa [journalAppend, append, isDirty, hd] using hb)

theorem shows_addLog (db : DB W) (log : EventLog) :
    Shows db (db.addLog log) (db.ledger.addLog db.kept.thash log) db.kept :=
  { shows_journalAppend db (e := .addLogChange db.thash) rfl nofun with data := rfl }

theorem shows_setRefund (db : DB W) (refund : UInt64) :
    Shows db { db.journalAppend (.refundChange db.refund) with refund }
      (db.ledger.setRefund refund) db.kept :=
  { shows_journalAppend db (e := .refundChange db.refund) rfl nofun with data := rfl }

theorem shows_cacheValidator (h : Shows db db' eff k) (a : Address) (val : W) :
    Shows db (db'.cacheValidator a val) eff (k.putValidator a val) := by
  cases h.kept
  exact ⟨h.data, h.entries, rfl, h.trie, h.pending, h.dirty, h.revisions, h.nextId, h.created,
    h.live, h.marks⟩

/-! ## Calls -/

/-- A call on the database and the same call on the ledger. -/
inductive Agrees (codec : WrapperCodec W) (c : Call W) (db : DB W) : Prop
  | crash (hdb : call codec c db = none) (hl : Ledger.call codec c db.ledger db.kept = none)
  | answer (r : c.Answer) (db' : DB W) (eff : Effect) (k : Kept W)
      (hdb : call codec c db = some (r, db'))
      (hl : Ledger.call codec c db.ledger db.kept = some (r, eff.1, k, eff.2))
      (hshow : Shows db db' eff k)

theorem agrees_of_read (codec : WrapperCodec W) {c : Call W} (r r' : c.Answer)
    (hdb : call codec c db = some (r, db))
    (hl : Ledger.call codec c db.ledger db.kept = some (r', db.ledger, db.kept, [])) (hr : r' = r) :
    Agrees codec c db :=
  .answer r db (db.ledger, []) db.kept hdb (hr ▸ hl) (.refl db)

theorem agrees (codec : WrapperCodec W) (c : Call W) (db : DB W) : Agrees codec c db := by
  have hcell := fun a => cell_ledger db a
  cases c with
  | exist a | empty a | getBalance a | getNonce a | getState a _ | getCommittedState a _
  | hasSuicided a =>
    refine agrees_of_read codec _ _ rfl rfl ?_
    simp only [Ledger.balance, Ledger.nonce, Ledger.state, Ledger.committedState, hcell, exist,
      empty, getBalance, getNonce, getState, getCommittedState, hasSuicided]
    cases db.getStateObject a <;> rfl
  | getCode a => exact agrees_of_read codec _ _ rfl rfl (code_ledger db a)
  | getRefund => exact agrees_of_read codec _ _ rfl rfl rfl
  | createAccount a => exact .answer _ _ _ _ rfl rfl (shows_createAccount db a)
  | addBalance a amount => exact .answer _ _ _ _ rfl rfl (shows_addBalance db a amount)
  | subBalance a amount => exact .answer _ _ _ _ rfl rfl (shows_subBalance db a amount)
  | setNonce a nonce => exact .answer _ _ _ _ rfl rfl (shows_setNonce db a nonce)
  | setCode a code => exact .answer _ _ _ _ rfl rfl (shows_setCode db a code)
  | setState a key value => exact .answer _ _ _ _ rfl rfl (shows_setState db a key value)
  | suicide a =>
    refine .answer (db.ledger.cell a).isSome _ _ _ ?_ rfl (shows_suicide db a)
    simp only [call, hcell, suicide]
    cases db.getStateObject a <;> rfl
  | addRefund gas => exact .answer _ _ _ _ rfl rfl (shows_setRefund db _)
  | subRefund gas =>
    by_cases h : db.refund < gas
    · exact .crash (by simp [call, subRefund, h]) (by simp [Ledger.call, ledger, h])
    · exact .answer () _ (db.ledger.setRefund (db.refund - gas)) db.kept
        (by simp [call, subRefund, h]) (by simp [Ledger.call, ledger, h, Ledger.writes])
        (shows_setRefund db _)
  | addLog log => exact .answer _ _ _ _ rfl rfl (shows_addLog db log)
  | validatorWrapper a =>
    have hval : db.kept.validators a = db.stateValidators a := rfl
    rcases hc : db.stateValidators a with _ | val
    · rcases hw : db.validatorWrapperCopy codec a with _ | val
      · exact agrees_of_read codec (none : Option W) (none : Option W)
          (by simp only [call, validatorWrapper, hc, hw])
          (by simp only [Ledger.call, hval, hc, wrapperCopy_ledger, hw, Ledger.reads]) rfl
      · refine .answer (some val) (db.cacheValidator a val) (db.ledger, [])
          (db.kept.putValidator a val) ?_ ?_ (shows_cacheValidator (.refl db) a val)
        · simp only [call, validatorWrapper, hc, hw]
        · simp only [Ledger.call, hval, hc, wrapperCopy_ledger, hw, Ledger.reads]
    · exact agrees_of_read codec (some val : Option W) (some val : Option W)
        (by simp only [call, validatorWrapper, hc])
        (by simp only [Ledger.call, hval, hc, Ledger.reads]) rfl
  | putValidator a val =>
    exact .answer () (db.cacheValidator a val) (db.ledger, []) (db.kept.putValidator a val) rfl rfl
      (shows_cacheValidator (.refl db) a val)
  | updateValidatorWrapper a val =>
    rcases hw : wrapperBytes codec val with _ | code
    · exact agrees_of_read codec false false
        (by simp only [call, updateValidatorWrapper, hw])
        (by simp only [Ledger.call, hw, Ledger.reads]) rfl
    · refine .answer true _ _ (db.kept.putValidator a val) ?_ ?_
        (shows_cacheValidator (shows_setCode db a code) a val)
      · simp only [call, updateValidatorWrapper, hw]
      · simp only [Ledger.call, hw, Ledger.writes]

theorem Shows.view (h : Shows db db' eff k) :
    db'.view = { db.view with data := eff.1, kept := k, entries := db.view.entries ++ eff.2 } := by
  simp only [DB.view, h.data, h.kept, h.entries, h.revisions, h.nextId]

theorem call_view (codec : WrapperCodec W) (c : Call W) (db : DB W) :
    (DB.call codec c db).map (Prod.map id view) = (State.ledger codec).machine.call c db.view := by
  rcases agrees codec c db with ⟨hdb, hl⟩ | ⟨r, db', eff, k, hdb, hl, hshow⟩
  · have hm : (State.ledger codec).call c db.view.data db.view.kept = none := hl
    simp only [hdb, Client.Undo.machine, hm]
    rfl
  · have hm : (State.ledger codec).call c db.view.data db.view.kept =
        some (r, eff.1, k, eff.2) := hl
    simp only [hdb, Client.Undo.machine, hm, map_some, Prod.map_apply, id, hshow.view]

variable {codec : WrapperCodec W} {pre : List (JournalEntry Object)}

theorem shows_of_call {c : Call W} {r : c.Answer} (h : call codec c db = some (r, db')) :
    ∃ eff k,
      Ledger.call codec c db.ledger db.kept = some (r, eff.1, k, eff.2) ∧ Shows db db' eff k := by
  rcases agrees codec c db with ⟨hdb, -⟩ | ⟨r₁, db₁, eff, k, hdb, hl, hshow⟩
  · rw [hdb] at h
    cases h
  · rw [hdb] at h
    cases h
    exact ⟨eff, k, hl, hshow⟩

theorem call_sound {c : Call W} {r : c.Answer} (hs : db.Sound)
    (h : call codec c db = some (r, db')) : db'.Sound := by
  obtain ⟨eff, k, -, hshow⟩ := shows_of_call h
  exact hshow.sound hs

/-! ## Reverting -/

theorem revertObject_ledger (db : DB W) (a : Address) {f : Object → Object} {f' : Cell → Cell}
    (hf : ∀ o, (f o).cell = f' o.cell) :
    (db.revertObject a f).map ledger = db.ledger.revertCell a f' := by
  simp only [revertObject, revertCell, cell_ledger, Option.map_map]
  refine congrFun (congrArg _ (funext fun o => ?_)) _
  simp only [comp, ledger_setStateObject, hf]

theorem revertEntry_ledger (db : DB W) (e : JournalEntry Object)
    (he : ∀ a, e = .createObjectChange a → db.trie a = none) :
    (db.revertEntry e).map ledger = db.ledger.revertEntry (e.map Object.cell) := by
  cases e with
  | createObjectChange a =>
    have htrie := he a rfl
    have h : (fun b => ((Function.update db.stateObjects a none b).or
        ((db.trie b).map newObject)).map Object.cell) =
        Function.update (fun b => (db.getDeletedStateObject b).map Object.cell) a none := by
      funext b
      by_cases hb : b = a
      · subst hb
        simp [htrie]
      · simp [hb, getDeletedStateObject]
    simp only [revertEntry, map_some, JournalEntry.map, Ledger.revertEntry, ledger,
      getDeletedStateObject, h]
  | resetObjectChange a prev =>
    simp only [revertEntry, map_some, JournalEntry.map, Ledger.revertEntry, ledger_setStateObject]
  | suicideChange a prev prevbalance =>
    simp only [revertEntry, JournalEntry.map, Ledger.revertEntry, cell_ledger]
    cases db.getStateObject a with
    | none => rfl
    | some o => exact congrArg some (ledger_setStateObject db a _)
  | balanceChange a prev | nonceChange a prev | codeChange a prevcode | freezeChange a prev =>
    exact revertObject_ledger db a fun _ => rfl
  | storageChange a key prevalue =>
    exact revertObject_ledger db a fun o => cell_setState o key prevalue
  | refundChange prev => rfl
  | addLogChange h => rfl
  | touchChange a => rfl

/-- What a revert leaves alone. -/
structure Reverted (db db' : DB W) : Prop where
  trie : db'.trie = db.trie
  kept : db'.kept = db.kept
  pending : db'.stateObjectsPending = db.stateObjectsPending
  dirty : db'.stateObjectsDirty = db.stateObjectsDirty
  revisions : db'.validRevisions = db.validRevisions
  nextId : db'.nextRevisionID = db.nextRevisionID
  entries : ∀ e ∈ db'.journal.entries, e ∈ db.journal.entries
  dirties : ∀ a, db'.journal.dirties a ≤ db.journal.dirties a
  live : ∀ a, (db.stateObjects a).isSome →
    (db'.stateObjects a).isSome ∨ .createObjectChange a ∈ db.journal.entries

theorem Reverted.refl (db : DB W) : Reverted db db where
  trie := rfl
  kept := rfl
  pending := rfl
  dirty := rfl
  revisions := rfl
  nextId := rfl
  entries _ he := he
  dirties _ := le_refl _
  live _ ha := .inl ha

theorem Reverted.trans {db'' : DB W} (h : Reverted db db') (h' : Reverted db' db'') :
    Reverted db db'' where
  trie := h'.trie.trans h.trie
  kept := h'.kept.trans h.kept
  pending := h'.pending.trans h.pending
  dirty := h'.dirty.trans h.dirty
  revisions := h'.revisions.trans h.revisions
  nextId := h'.nextId.trans h.nextId
  entries e he := h.entries e (h'.entries e he)
  dirties a := le_trans (h'.dirties a) (h.dirties a)
  live a ha := by
    rcases h.live a ha with ha | ha
    · exact (h'.live a ha).imp_right (h.entries _)
    · exact .inr ha

theorem Reverted.sound (h : Reverted db db') (hs : db.Sound) : db'.Sound where
  fresh a ha := by
    rw [h.trie, h.dirty, h.pending]
    exact hs.fresh a (h.entries _ ha)
  present a ha := by
    rw [h.dirty, h.pending] at ha
    rcases h.live a (hs.present a ha) with hl | hl
    · exact hl
    · obtain ⟨-, hd, hp⟩ := hs.fresh a hl
      simp [hd, hp] at ha
  loaded a htrie hd := by
    rw [h.trie] at htrie
    have hforced : db'.journal.forced = db.journal.forced := congrArg Kept.forced h.kept
    have hd' : db.journal.isDirty a = true := by
      have := h.dirties a
      simp only [isDirty, decide_eq_true_eq, hforced] at hd ⊢
      omega
    rcases h.live a (hs.loaded a htrie hd') with hl | hl
    · exact hl
    · simp [(hs.fresh a hl).1] at htrie
  numbered := by
    rw [h.revisions, h.nextId]
    exact hs.numbered

theorem reverted_setStateObject (db : DB W) (a : Address) (o : Object) :
    Reverted db (db.setStateObject a o) :=
  { Reverted.refl db with live := fun b hb => .inl (isSome_setStateObject db a o b (.inr hb)) }

theorem reverted_revertEntry (hs : db.Sound) (he : e ∈ db.journal.entries)
    (h : db.revertEntry e = some db') : Reverted db db' ∧ db'.journal = db.journal := by
  have hset : ∀ a o, Reverted db (db.setStateObject a o) ∧
      (db.setStateObject a o).journal = db.journal :=
    fun a o => ⟨reverted_setStateObject db a o, rfl⟩
  have hobj : ∀ a f, db.revertObject a f = some db' →
      Reverted db db' ∧ db'.journal = db.journal := by
    intro a f h
    obtain ⟨o, -, rfl⟩ := map_eq_some_iff.1 h
    exact hset a _
  have hsame : some { db with refund := db.refund } = some db' →
      Reverted db db' ∧ db'.journal = db.journal := by
    intro h
    cases h
    exact ⟨.refl db, rfl⟩
  cases e with
  | createObjectChange a =>
    cases h
    have hclean : Function.update db.stateObjectsDirty a false = db.stateObjectsDirty := by
      rw [← (hs.fresh a he).2.1, update_eq_self]
    refine ⟨{ Reverted.refl db with dirty := hclean, live := fun b hb => ?_ }, rfl⟩
    by_cases hba : b = a
    · exact .inr (hba ▸ he)
    · exact .inl (by simpa [hba] using hb)
  | resetObjectChange a prev =>
    cases h
    exact hset a prev
  | suicideChange a prev prevbalance =>
    simp only [revertEntry] at h
    split at h
    · cases h
      exact hset a _
    · exact hsame h
  | balanceChange a _ | nonceChange a _ | storageChange a _ _ | codeChange a _
  | freezeChange a _ => exact hobj a _ h
  | refundChange prev | addLogChange t =>
    cases h
    exact ⟨{ Reverted.refl db with }, rfl⟩
  | touchChange a => exact hsame h

theorem revertLast_ledger (db : DB W) (e : JournalEntry Object)
    (he : ∀ a, e = .createObjectChange a → db.trie a = none) :
    (db.revertLast e).map ledger = undo (e.map Object.cell) db.ledger := by
  simp only [revertLast, undo, ← revertEntry_ledger db e he, Option.map_map]
  refine congrFun (congrArg _ (funext fun db' => ?_)) _
  simp only [comp, unmark, dirtied_map]
  rfl

theorem reverted_revertLast (hs : db.Sound) (he : e ∈ db.journal.entries)
    (h : db.revertLast e = some db') :
    Reverted db db' ∧ db'.journal.entries = db.journal.entries.dropLast := by
  obtain ⟨db₁, h₁, rfl⟩ := map_eq_some_iff.1 h
  obtain ⟨hr, hj⟩ := reverted_revertEntry hs he h₁
  refine ⟨{ hr with kept := ?_, entries := ?_, dirties := ?_ }, by rw [hj]⟩
  · rw [← hr.kept]
    rfl
  · intro e' he'
    rw [hj] at he'
    exact dropLast_subset _ he'
  · intro a
    rw [hj]
    cases e.dirtied with
    | none => exact le_refl _
    | some b =>
      by_cases hab : a = b
      · subst hab
        simp
      · simp [update_of_ne hab]

theorem revertEntries_ledger (es : List (JournalEntry Object)) (hs : db.Sound)
    (hpre : db.journal.entries = pre ++ es.reverse) :
    (db.revertEntries es).map ledger =
      Client.unwind undo (es.map (.map Object.cell)) db.ledger := by
  induction es generalizing db with
  | nil => rfl
  | cons e es ih =>
    have hmem : e ∈ db.journal.entries := by simp [hpre]
    have he := revertLast_ledger db e fun a ha => (hs.fresh a (ha ▸ hmem)).1
    simp only [revertEntries, map_cons, Client.unwind, ← he]
    rcases hr : db.revertLast e with _ | db'
    · rfl
    · obtain ⟨hrev, hentries⟩ := reverted_revertLast hs hmem hr
      refine ih (hrev.sound hs) ?_
      rw [hentries, hpre, reverse_cons, ← append_assoc, dropLast_concat]

theorem reverted_revertEntries {es : List (JournalEntry Object)} (hs : db.Sound)
    (hpre : db.journal.entries = pre ++ es.reverse) (h : db.revertEntries es = some db') :
    Reverted db db' ∧ db'.journal.entries = pre := by
  induction es generalizing db with
  | nil =>
    obtain rfl := some.inj h
    exact ⟨.refl db, by simpa using hpre⟩
  | cons e es ih =>
    obtain ⟨db₁, h₁, h₂⟩ := bind_eq_some_iff.1 h
    obtain ⟨hr₁, hentries⟩ := reverted_revertLast hs (by simp [hpre]) h₁
    have hpre₁ : db₁.journal.entries = pre ++ es.reverse := by
      rw [hentries, hpre, reverse_cons, ← append_assoc, dropLast_concat]
    obtain ⟨hr₂, hdone⟩ := ih (hr₁.sound hs) hpre₁ h₂
    exact ⟨hr₁.trans hr₂, hdone⟩

theorem reverted_revertToSnapshot {n : ℕ} (hs : db.Sound) (h : db.revertToSnapshot n = some db') :
    Reverted { db with validRevisions := db'.validRevisions } db' ∧
      ∀ r ∈ db'.validRevisions, r ∈ db.validRevisions := by
  unfold revertToSnapshot at h
  dsimp only at h
  split at h
  · split at h
    · rename_i r _ _
      obtain ⟨db₁, h₁, rfl⟩ := map_eq_some_iff.1 h
      have hpre : db.journal.entries = db.journal.entries.take r.journalIndex ++
          (db.journal.entries.drop r.journalIndex).reverse.reverse := by simp
      have hr := (reverted_revertEntries hs hpre h₁).1
      refine ⟨⟨hr.trie, hr.kept, hr.pending, hr.dirty, rfl, hr.nextId, hr.entries, hr.dirties,
        hr.live⟩, fun r' hr' => ?_⟩
      rw [← hr.revisions]
      exact mem_of_mem_take hr'
    · cases h
  · cases h

theorem findIdx_view (db : DB W) (n : ℕ) :
    db.view.revisions.findIdx (fun r => decide (n ≤ r.1)) =
      db.validRevisions.findIdx fun r => decide (n ≤ r.id) := by
  simp only [view, findIdx_map]
  rfl

theorem revertToSnapshot_view (codec : WrapperCodec W) (n : ℕ) (hs : db.Sound) :
    (db.revertToSnapshot n).map view = (State.ledger codec).machine.revert db.view n := by
  simp only [revertToSnapshot, Client.Undo.machine, findIdx_view]
  generalize hidx : db.validRevisions.findIdx (fun r => decide (n ≤ r.id)) = idx
  have hget : db.view.revisions[idx]? =
      (db.validRevisions[idx]?).map fun r => (r.id, r.journalIndex) := by
    simp [view]
  rw [hget]
  rcases db.validRevisions[idx]? with _ | r
  · rfl
  · simp only [map_some]
    split
    · have hpre : db.journal.entries = db.journal.entries.take r.journalIndex ++
          (db.journal.entries.drop r.journalIndex).reverse.reverse := by simp
      have hl := revertEntries_ledger _ hs hpre
      have hdrop : (db.view.entries.drop r.journalIndex).reverse =
          (db.journal.entries.drop r.journalIndex).reverse.map (.map Object.cell) := by
        simp only [view, map_drop, map_reverse]
      have hundo : (State.ledger codec).undo = undo := rfl
      have hdata : db.view.data = db.ledger := rfl
      rw [hdrop, hundo, hdata, ← hl]
      rcases hr : db.revertEntries (db.journal.entries.drop r.journalIndex).reverse with _ | db'
      · rfl
      · obtain ⟨hrev, hent⟩ := reverted_revertEntries hs hpre hr
        simp only [map_some, some.injEq, view, hent, hrev.nextId, map_take, hrev.revisions]
        rw [← hrev.kept]
        rfl
    · rfl

/-! ## Clients -/

theorem sound_snapshot (hs : db.Sound) : db.snapshot.1.Sound := by
  refine ⟨hs.fresh, hs.present, hs.loaded, fun r hr => ?_⟩
  rcases mem_append.1 hr with hr | hr
  · exact lt_succ_of_lt (hs.numbered r hr)
  · cases mem_singleton.1 hr
    exact lt_succ_self _

theorem sound_revertToSnapshot {n : ℕ} (hs : db.Sound) (h : db.revertToSnapshot n = some db') :
    db'.Sound := by
  obtain ⟨hrev, hsub⟩ := reverted_revertToSnapshot hs h
  exact hrev.sound ⟨hs.fresh, hs.present, hs.loaded, fun r hr => hs.numbered r (hsub r hr)⟩

/-- The database refines the ledger with its undo log. -/
theorem view_hom (codec : WrapperCodec W) :
    (machine codec).Hom (State.ledger codec).machine Sound view where
  call c db _ := call_view codec c db
  snapshot db _ := by
    have hl : db.snapshot.1.ledger = db.ledger := rfl
    have hk : db.snapshot.1.kept = db.kept := rfl
    simp only [machine, Prod.map, view, hl, hk, Client.Undo.machine]
    simp [snapshot]
  revert db n hs := revertToSnapshot_view codec n hs
  call_inv _ _ _ _ hs h := call_sound hs h
  snapshot_inv _ hs := sound_snapshot hs
  revert_inv _ _ _ hs h := sound_revertToSnapshot hs h

theorem numbered_view (hs : db.Sound) : ∀ r ∈ db.view.revisions, r.1 < db.view.nextId := by
  intro r hr
  obtain ⟨r', hr', rfl⟩ := mem_map.1 hr
  exact hs.numbered r' hr'

/-- What a client leaves alone: everything that has been finalised. -/
structure Framed (db db' : DB W) : Prop where
  trie : db'.trie = db.trie
  pending : db'.stateObjectsPending = db.stateObjectsPending
  dirty : db'.stateObjectsDirty = db.stateObjectsDirty

theorem run_framed {α : Type} (p : Client W α) {x : α} (hs : db.Sound)
    (hrun : run codec p db = some (x, db')) : db'.Sound ∧ Framed db db' := by
  refine (machine codec).run_inv (P := fun db' => db'.Sound ∧ Framed db db') ?_ ?_ ?_ p
    ⟨hs, rfl, rfl, rfl⟩ hrun
  · rintro c db₁ r db₂ ⟨hs₁, hf⟩ hc
    refine ⟨call_sound hs₁ hc, ?_⟩
    obtain ⟨eff, k, -, hshow⟩ := shows_of_call hc
    exact ⟨hshow.trie.trans hf.trie, hshow.pending.trans hf.pending, hshow.dirty.trans hf.dirty⟩
  · rintro db₁ ⟨hs₁, hf⟩
    exact ⟨sound_snapshot hs₁, hf.trie, hf.pending, hf.dirty⟩
  · rintro db₁ n db₂ ⟨hs₁, hf⟩ hr
    have hrev := (reverted_revertToSnapshot hs₁ hr).1
    exact ⟨sound_revertToSnapshot hs₁ hr, hrev.trie.trans hf.trie, hrev.pending.trans hf.pending,
      hrev.dirty.trans hf.dirty⟩

end DB

end DyShard.State
