import DyShard.State.Accounts
import DyShard.State.Settle

/-!
# What is not written is stored

An account that is not marked as changed shows what the trie stores, so a database that is opened
on the trie again shows the accounts of the old one.
-/

namespace DyShard.State.DB

open Option Journal JournalEntry

variable {W : Type} {codec : WrapperCodec W} {db db' : DB W} {a b : Address}

/-- An account that is neither in the journal nor pending is the one in the trie. -/
def Backed (db : DB W) : Prop :=
  ∀ a, db.touched a = false → db.stateObjectsPending a = false →
    (db.face a).account = ((new db.trie : DB W).face a).account

theorem face_new (trie : Address → Option Account) (a : Address) :
    (new trie : DB W).face a = (trie a).elim .zero fun acct => (newObject acct).face := by
  unfold face getStateObject getDeletedStateObject new
  dsimp only
  cases trie a <;> rfl

theorem backed_new (trie : Address → Option Account) : (new trie : DB W).Backed :=
  fun _ _ _ => rfl

/-! ## Setters -/

/-- A step that writes one account: it marks the account or leaves it as it is. -/
structure Marks (b : Address) (db db' : DB W) : Prop where
  away : ∀ a, b ≠ a → Away a db db'
  trie : db'.trie b = db.trie b
  pending : db'.stateObjectsPending b = db.stateObjectsPending b
  self : db'.touched b = true ∨
    db'.touched b = db.touched b ∧ (db'.face b).account = (db.face b).account

theorem Marks.refl (b : Address) (db : DB W) : Marks b db db :=
  ⟨fun _ _ => .refl db, rfl, rfl, .inr ⟨rfl, rfl⟩⟩

theorem Away.touched (h : Away a db db') : db'.touched a = db.touched a := by
  unfold DB.touched
  rw [h.isDirty, h.object]

theorem Backed.marks (h : db.Backed) (hmarks : Marks b db db') : db'.Backed := by
  intro a htouched hpending
  by_cases ha : b = a
  · subst ha
    obtain hself | ⟨hsame, hface⟩ := hmarks.self
    · rw [hself] at htouched
      cases htouched
    · rw [hsame] at htouched
      rw [hmarks.pending] at hpending
      rw [hface, h b htouched hpending, face_new, face_new, hmarks.trie]
  · have haway := hmarks.away a ha
    rw [haway.touched] at htouched
    rw [haway.pending] at hpending
    rw [face_away haway, h a htouched hpending, face_new, face_new, haway.trie]

theorem marks_update (db : DB W) {e : JournalEntry Object} (he : e.dirtied = some b)
    (o : Object) : Marks b db (db.update b e o) where
  away _ ha := away_update db o ha (account_of_dirtied he)
  trie := rfl
  pending := rfl
  self := by
    left
    simp [touched, update, journalAppend, append, he, isDirty, setStateObject]

/-- A missing object is created: the journal marks it, unless the old one was deleted in memory. -/
theorem marks_getOrNew (db : DB W) (b : Address) : Marks b db (db.getOrNewStateObject b).1 := by
  cases hget : db.getStateObject b with
  | some o =>
    rw [getOrNewStateObject_eq hget]
    exact .refl b db
  | none =>
    have heq : (db.getOrNewStateObject b).1 = db.update b (db.creation b) (newObject .zero) := by
      simp [getOrNewStateObject, hget, createObject_eq]
    rw [heq]
    unfold creation
    cases hprev : db.getDeletedStateObject b with
    | none => exact marks_update db rfl _
    | some p =>
      have hdeleted : p.deleted = true := by
        simpa [getStateObject, hprev, Option.filter] using hget
      have hobject : db.stateObjects b = some p := by
        unfold getDeletedStateObject at hprev
        cases hobj : db.stateObjects b with
        | some o => rwa [hobj, some_or] at hprev
        | none =>
          rw [hobj, none_or] at hprev
          obtain ⟨acct, -, rfl⟩ := map_eq_some_iff.1 hprev
          cases hdeleted
      refine ⟨fun a ha => away_update db _ ha rfl, rfl, rfl, .inr ⟨?_, ?_⟩⟩
      · simp [touched, update, journalAppend, append, dirtied, isDirty, setStateObject, hobject]
      · rw [face_update_self db _ rfl, face, hget]
        rfl

theorem Marks.trans {db'' : DB W} (h : Marks b db db') (h' : Marks b db' db'') :
    Marks b db db'' where
  away a ha := (h.away a ha).trans (h'.away a ha)
  trie := h'.trie.trans h.trie
  pending := h'.pending.trans h.pending
  self := by
    obtain hself' | ⟨hsame', hface'⟩ := h'.self
    · exact .inl hself'
    · refine h.self.imp (fun hself => hsame'.trans hself) fun ⟨hsame, hface⟩ => ?_
      exact ⟨hsame'.trans hsame, hface'.trans hface⟩

theorem marks_write {o : Object} (hw : Write b db o db') : Marks b db db' := by
  cases hw with
  | same => exact .refl b db
  | touch =>
    have hupdate := marks_update db (e := .touchChange b) rfl o
    unfold DB.touch
    split
    · refine hupdate.trans ⟨fun a ha => ?_, rfl, rfl, .inl ?_⟩
      · refine ⟨rfl, rfl, rfl, rfl, ?_, fun _ he => .inl he⟩
        simp [dirty, Function.update_of_ne (Ne.symm ha)]
      · simp [touched, DB.update, setStateObject, dirty, isDirty]
    · exact hupdate
  | update e he o' => exact marks_update db he o'

/-- **A setter marks what it changes.** -/
theorem marks_unlessFrozen {write : DB W → Object → DB W}
    (hwrite : ∀ db o, Write b db o (write db o)) (db : DB W) :
    Marks b db (db.unlessFrozen b write) := by
  have hnew := marks_getOrNew db b
  unfold unlessFrozen
  dsimp only
  split
  · exact hnew
  · exact hnew.trans (marks_write (hwrite _ _))

theorem marks_setCode (db : DB W) (b : Address) (code : List UInt8) :
    Marks b db (db.setCode b code) := marks_unlessFrozen (fun _ _ => .update _ rfl _) db

theorem marks_setState (db : DB W) (b : Address) (key value : Word) :
    Marks b db (db.setState b key value) := marks_unlessFrozen (writes_setState key value) db

theorem marks_setFreezeState (db : DB W) (b : Address) (isFreeze : Bool) :
    Marks b db (db.setFreezeState b isFreeze) :=
  (marks_getOrNew db b).trans (marks_update _ rfl _)

theorem Backed.cacheValidator (h : db.Backed) (b : Address) (val : W) :
    (db.cacheValidator b val).Backed := h

theorem Backed.updateValidatorWrapper (h : db.Backed) (codec : WrapperCodec W) (b : Address)
    (val : W) : (db.updateValidatorWrapper codec b val).1.Backed := by
  unfold DB.updateValidatorWrapper
  split
  · exact h
  · exact (h.marks (marks_setCode db b _)).cacheValidator b val

/-! ## Settling -/

theorem face_finalise (o : Object) : o.finalise.face = o.face := by
  have hstate : o.finalise.getState = o.getState := by
    funext k
    simp only [Object.getState, Object.getCommittedState, Object.finalise]
    cases o.dirtyStorage k <;> rfl
  unfold Object.face
  rw [hstate]
  rfl

theorem face_updateRoot (o : Object) : o.updateRoot.face = o.face := by
  have hstate : o.updateRoot.getState = o.finalise.getState := rfl
  refine Eq.trans ?_ (face_finalise o)
  unfold Object.face
  rfl

theorem face_writePending (hpresent : ∀ a, db.stateObjectsPending a = true →
    (db.stateObjects a).isSome) (a : Address) : db.writePending.face a = db.face a := by
  unfold face getStateObject getDeletedStateObject writePending
  by_cases hpending : db.stateObjectsPending a = true
  · obtain ⟨o, ho⟩ := isSome_iff_exists.1 (hpresent a hpending)
    simp only [hpending, if_true, ho, map_some, some_or]
    cases hdeleted : o.deleted with
    | true => simp [Option.filter, hdeleted]
    | false =>
      have hlive : o.updateRoot.deleted = false := hdeleted
      simp [Option.filter, hdeleted, hlive, face_updateRoot]
  · simp [hpending]

theorem stored_finalise (h : db.Backed) (d : Bool)
    (hpending : (db.finalise codec d).stateObjectsPending a = false) :
    ((db.finalise codec d).face a).account =
      ((new (db.finalise codec d).trie : DB W).face a).account := by
  have hflush : (db.flushValidators codec).Backed :=
    flushValidators_inv h fun _ b val h _ => h.updateValidatorWrapper codec b val
  have hunmarked : (db.flushValidators codec).stateObjectsPending a = false ∧
      (db.flushValidators codec).touched a = false := Bool.or_eq_false_iff.1 hpending
  have hface : (db.finalise codec d).face a = (db.flushValidators codec).face a := by
    have hobject : (db.finalise codec d).stateObjects a =
        (db.flushValidators codec).stateObjects a :=
      if_neg (by rw [hunmarked.2]; exact Bool.false_ne_true)
    unfold face getStateObject getDeletedStateObject
    rw [hobject]
    rfl
  rw [hface]
  exact hflush a hunmarked.2 hunmarked.1

theorem stored_writePending (hpresent : ∀ a, db.stateObjectsPending a = true →
    (db.stateObjects a).isSome) (hstored : db.stateObjectsPending a = false →
      (db.face a).account = ((new db.trie : DB W).face a).account) :
    (db.writePending.face a).account = ((new db.writePending.trie : DB W).face a).account := by
  rw [face_writePending hpresent, face_new]
  cases hpending : db.stateObjectsPending a with
  | false =>
    have htrie : db.writePending.trie a = db.trie a := by simp [writePending, hpending]
    rw [hstored hpending, face_new, htrie]
  | true =>
    obtain ⟨o, ho⟩ := isSome_iff_exists.1 (hpresent a hpending)
    have htrie : db.writePending.trie a = trieEntry o := by simp [writePending, hpending, ho]
    have hface : db.face a = if o.deleted then .zero else o.face := by
      unfold face getStateObject getDeletedStateObject
      rw [ho, some_or]
      cases hdeleted : o.deleted <;> simp [Option.filter, hdeleted]
    rw [htrie, hface]
    unfold trieEntry
    split_ifs
    · rfl
    · exact (congrArg Face.account (face_updateRoot o)).symm

/-- **A database that is opened on the trie of a commit** shows its accounts; the flags are gone. -/
theorem face_reopen (h : db.Backed) (hsound : db.Sound) (d : Bool) (a : Address) :
    (new (db.commit codec d).trie : DB W).face a =
      ⟨((db.intermediateRoot codec d).face a).account, false, false⟩ := by
  have hflags : ((new (db.commit codec d).trie : DB W).face a).frozen = false ∧
      ((new (db.commit codec d).trie : DB W).face a).suicided = false := by
    rw [face_new]
    cases (db.commit codec d).trie a <;> exact ⟨rfl, rfl⟩
  have hpresent : ∀ b, (db.finalise codec d).stateObjectsPending b = true →
      ((db.finalise codec d).stateObjects b).isSome :=
    fun b hb => (sound_finalise hsound d).present b (.inr hb)
  have haccount := stored_writePending (a := a) hpresent (stored_finalise h d)
  exact Face.ext haccount.symm hflags.1 hflags.2

end DyShard.State.DB
