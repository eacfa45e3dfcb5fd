import DyShard.State.Holding

/-!
# Finalising and hashing as clients see them

How settling shows in the ledger and in the trie, and that it keeps a database sound.
-/

namespace DyShard.State

open DB

/-! ## Cells -/

namespace Cell

/-- What `Finalise` does with the cell of a dirty account. -/
def finalise (deleteEmptyObjects : Bool) (c : Cell) : Cell :=
  if c.suicided || (deleteEmptyObjects && c.empty) then { c with deleted := true }
  else { c with stored := c.current }

/-- What the trie stores for a cell. -/
def account (c : Cell) : Option Account :=
  if c.deleted then none
  else some { nonce := c.nonce, balance := c.balance, storage := c.current, code := c.code }

end Cell

theorem cell_finalise (o : Object) : o.finalise.cell = { o.cell with stored := o.cell.current } := by
  have hstored : o.finalise.getCommittedState = o.getState := by
    funext k
    simp only [Object.getCommittedState, Object.getState, Object.finalise]
    cases o.dirtyStorage k <;> rfl
  have hcurrent : o.finalise.getState = o.getState := by
    rw [← hstored]
    rfl
  simp only [Object.cell, hstored, hcurrent]
  rfl

theorem cell_finaliseObject (d : Bool) (o : Object) :
    (finaliseObject d o).cell = o.cell.finalise d := by
  have hcond : (o.cell.suicided || (d && o.cell.empty)) = (o.suicided || (d && o.empty)) := rfl
  unfold finaliseObject Cell.finalise
  rw [hcond]
  split
  · rfl
  · exact cell_finalise o

theorem trieEntry_cell (o : Object) : trieEntry o = o.cell.account := by
  unfold trieEntry Cell.account
  rw [updateRoot_data]
  rfl

namespace DB

variable {W : Type} {codec : WrapperCodec W}

/-! ## Settling shows in the ledger -/

theorem isDirty_ledger (db : DB W) (a : Address) :
    db.journal.isDirty a = decide (0 < db.ledger.dirties a + db.kept.forced a) := rfl

variable {db : DB W}

theorem cells_of_object {a : Address} {o : Object} (h : db.stateObjects a = some o) :
    db.ledger.cells a = some o.cell := by
  simp [ledger, getDeletedStateObject, h]

theorem cells_of_no_object {a : Address} (h : db.stateObjects a = none) :
    db.ledger.cells a = (db.trie a).map fun acct => (newObject acct).cell := by
  simp [ledger, getDeletedStateObject, h, Function.comp_def]

theorem touched_ledger (hs : db.Sound) (a : Address) :
    db.touched a = (db.journal.isDirty a && (db.ledger.cells a).isSome) := by
  unfold touched
  cases hd : db.journal.isDirty a with
  | false => rfl
  | true =>
    cases hobj : db.stateObjects a with
    | some o => rw [cells_of_object hobj]; rfl
    | none =>
      cases htrie : db.trie a with
      | none => rw [cells_of_no_object hobj, htrie]; rfl
      | some acct =>
        have hload := hs.loaded a (by simp [htrie]) hd
        simp [hobj] at hload

theorem ledger_finaliseObjects (hs : db.Sound) (d : Bool) :
    (db.finaliseObjects d).ledger = { db.ledger with
      cells := fun a => if db.journal.isDirty a then (db.ledger.cells a).map (Cell.finalise d)
        else db.ledger.cells a } := by
  have hcells : ∀ a, (db.finaliseObjects d).ledger.cells a =
      if db.journal.isDirty a then (db.ledger.cells a).map (Cell.finalise d)
      else db.ledger.cells a := by
    intro a
    have htouched := touched_ledger hs a
    cases hobj : db.stateObjects a with
    | none =>
      have hobj' : (db.finaliseObjects d).stateObjects a = none := by simp [finaliseObjects, hobj]
      have hnot : db.touched a = false := by simp [touched, hobj]
      have hsame : (db.finaliseObjects d).ledger.cells a = db.ledger.cells a := by
        rw [cells_of_no_object hobj', cells_of_no_object hobj]
        rfl
      rw [hsame]
      split
      · next hd =>
        rw [hnot, hd, Bool.true_and] at htouched
        have hnone : db.ledger.cells a = none := by simpa using htouched.symm
        rw [hnone]
        rfl
      · rfl
    | some o =>
      rw [cells_of_object hobj] at htouched ⊢
      cases hd : db.journal.isDirty a with
      | true =>
        have hobj' : (db.finaliseObjects d).stateObjects a = some (finaliseObject d o) := by
          simp [finaliseObjects, htouched, hd, hobj]
        rw [cells_of_object hobj', cell_finaliseObject]
        rfl
      | false =>
        have hobj' : (db.finaliseObjects d).stateObjects a = some o := by
          simp [finaliseObjects, htouched, hd, hobj]
        rw [cells_of_object hobj']
        rfl
  exact congrArg (fun cells => { db.ledger with cells }) (funext hcells)

/-- **The root is a function of the ledger**, of the trie and of what is pending. -/
theorem trie_writePending (hs : db.Sound) (a : Address) :
    db.writePending.trie a =
      if db.stateObjectsPending a then (db.ledger.cells a).bind Cell.account else db.trie a := by
  cases hp : db.stateObjectsPending a with
  | true =>
    obtain ⟨o, hobj⟩ := Option.isSome_iff_exists.1 (hs.present a (.inr hp))
    rw [cells_of_object hobj]
    simp [writePending, hp, hobj, trieEntry_cell]
  | false => simp [writePending, hp]

/-! ## Settling keeps databases sound -/

theorem isSome_finaliseObjects (db : DB W) (d : Bool) (a : Address) :
    ((db.finaliseObjects d).stateObjects a).isSome = (db.stateObjects a).isSome := by
  simp only [finaliseObjects]
  split <;> simp

theorem isSome_writePending (db : DB W) (a : Address) :
    (db.writePending.stateObjects a).isSome = (db.stateObjects a).isSome := by
  simp only [writePending]
  split <;> simp

theorem sound_finaliseObjects (hs : db.Sound) (d : Bool) :
    (db.finaliseObjects d).clearJournalAndRefund.Sound where
  fresh a ha := by
    have hentries : db.journal.entries = [] ∨
        (db.finaliseObjects d).clearJournalAndRefund.journal = {} := by
      by_cases hnil : db.journal.entries = []
      · exact .inl hnil
      · exact .inr (by simp [clearJournalAndRefund, finaliseObjects, hnil])
    rcases hentries with hnil | hclear
    · simp [clearJournalAndRefund, finaliseObjects, hnil] at ha
    · simp [hclear] at ha
  present a ha := by
    refine (isSome_finaliseObjects db d a).trans ?_
    have hmarks : (db.stateObjectsDirty a || db.touched a) = true ∨
        (db.stateObjectsPending a || db.touched a) = true := ha
    have htouched : db.touched a = true → (db.stateObjects a).isSome = true := fun h =>
      (Bool.and_eq_true_iff.1 h).2
    rw [Bool.or_eq_true, Bool.or_eq_true] at hmarks
    rcases hmarks with (hm | hm) | (hm | hm)
    · exact hs.present a (.inl hm)
    · exact htouched hm
    · exact hs.present a (.inr hm)
    · exact htouched hm
  loaded a htrie hd := by
    refine (isSome_finaliseObjects db d a).trans (hs.loaded a htrie ?_)
    by_cases hnil : db.journal.entries = []
    · simpa [clearJournalAndRefund, finaliseObjects, hnil] using hd
    · simp [clearJournalAndRefund, finaliseObjects, hnil, Journal.isDirty] at hd
  numbered r hr := by simp [clearJournalAndRefund] at hr

theorem sound_writePending (hs : db.Sound) : db.writePending.Sound where
  fresh a ha := by
    obtain ⟨htrie, hdirty, hpending⟩ := hs.fresh a ha
    exact ⟨by simp [writePending, hpending, htrie], hdirty, rfl⟩
  present a ha := by
    rw [isSome_writePending]
    exact hs.present a (ha.imp_right fun h => by simp [writePending] at h)
  loaded a htrie hd := by
    rw [isSome_writePending]
    cases hp : db.stateObjectsPending a with
    | true => exact hs.present a (.inr hp)
    | false => exact hs.loaded a (by simpa [writePending, hp] using htrie) hd
  numbered := hs.numbered

/-- The first loop of `Finalise` as a client. -/
def flushing (stateValidators : Address → Option W) : List Address → Client W Unit
  | [] => .ret ()
  | a :: as =>
    match stateValidators a with
    | some val => .call (Call.updateValidatorWrapper a val) fun _ => flushing stateValidators as
    | none => flushing stateValidators as

theorem run_flushing (codec : WrapperCodec W) (stateValidators : Address → Option W)
    (keys : List Address) (db : DB W) :
    run codec (flushing stateValidators keys) db =
      some ((), keys.foldl (storeValidator codec stateValidators) db) := by
  induction keys generalizing db with
  | nil => rfl
  | cons a as ih =>
    rw [List.foldl_cons, ← ih]
    cases hval : stateValidators a with
    | none => simp only [flushing, storeValidator, hval]
    | some val =>
      simp only [flushing, storeValidator, hval]
      rfl

theorem run_flushValidators (codec : WrapperCodec W) (db : DB W) :
    run codec (flushing db.stateValidators db.validatorKeys) db =
      some ((), db.flushValidators codec) :=
  run_flushing codec db.stateValidators db.validatorKeys db

theorem sound_finalise (hs : db.Sound) (d : Bool) : (db.finalise codec d).Sound :=
  sound_finaliseObjects (run_framed _ hs (run_flushValidators codec db)).1 d

theorem sound_intermediateRoot (hs : db.Sound) (d : Bool) :
    (db.intermediateRoot codec d).Sound := sound_writePending (sound_finalise hs d)

end DB

end DyShard.State
