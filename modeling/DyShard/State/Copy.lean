import DyShard.State.Snapshot

/-!
# Copies of the database

`Copy` takes over the trie, the refund counter, the logs and the marked objects.  It leaves behind
the freeze flags, the cached wrappers, the unmarked objects and the journal itself.
-/

namespace DyShard.State

open Transition Option Ledger Cell

/-- A cell without its freeze flag. -/
def Cell.thawed (c : Cell) : Cell := { c with freeze := false }

/-- The cell of an account as the trie stores it. -/
def Account.cell (acct : Account) : Cell := (newObject acct).cell

namespace DB

variable {W : Type} {codec : WrapperCodec W} {fields : WrapperFields W}

/-- The address is one whose object `Copy` takes over. -/
def marked (db : DB W) (a : Address) : Bool :=
  db.touched a || db.stateObjectsPending a || db.stateObjectsDirty a

/-- What the next `IntermediateRoot` stores under an address if it finalises nothing. -/
def entry (db : DB W) (a : Address) : Option Account :=
  if db.touched a || db.stateObjectsPending a then (db.ledger.cells a).bind Cell.account
  else db.trie a

/-- The database and its copy answer alike, have the same next root, and run on their own steps
alone. -/
structure CopyFaithful (codec : WrapperCodec W) (fields : WrapperFields W) (db : DB W)
    (d : Bool) : Prop where
  same : SameAs codec db.copy db
  intermediateRoot : (db.copy.intermediateRoot codec d).trie = (db.intermediateRoot codec d).trie
  independent : ∀ acts db' c',
    exec (both (step codec fields) (step codec fields)) (db, db.copy) acts = some (db', c') →
    exec (step codec fields) db (acts.filterMap Sum.getLeft?) = some db' ∧
      exec (step codec fields) db.copy (acts.filterMap Sum.getRight?) = some c'

/-- Nothing is left behind by a copy.

* No account is frozen, and an account that is in memory but not marked is as it is stored.
* A cached wrapper is the one its account holds as code, and storing it again changes
  nothing.
* No account in the journal is about to be deleted. -/
structure CopySafe (codec : WrapperCodec W) (db : DB W) (d : Bool) : Prop where
  thawed : ∀ a, (db.getFreezeState a).2 = false
  stored : ∀ a, db.marked a = false → db.ledger.cell a = (db.trie a).map Account.cell
  cached : ∀ a val, db.stateValidators a = some val → db.validatorWrapperCopy codec a = some val
  restored : ∀ a val code o, db.stateValidators a = some val → wrapperBytes codec val = some code →
    db.getStateObject a = some o → db.entry a = ((o.setCode code).cell.finalise d).account
  kept : ∀ a o, db.touched a = true → db.getStateObject a = some o →
    o.suicided = false ∧ (d = true → o.empty = false)

/-! ## What a copy shows -/

variable {db db' : DB W} {a : Address}

theorem isSome_of_marked (hs : db.Sound) (h : db.marked a = true) : (db.stateObjects a).isSome := by
  simp only [marked, Bool.or_eq_true] at h
  rcases h with (h | h) | h
  · exact (Bool.and_eq_true_iff.1 h).2
  · exact hs.present a (.inr h)
  · exact hs.present a (.inl h)

theorem cells_copy (hs : db.Sound) (a : Address) :
    db.copy.ledger.cells a =
      if db.marked a then (db.ledger.cells a).map thawed
      else (db.trie a).map Account.cell := by
  have hobject : db.copy.stateObjects a =
      if db.marked a then (db.stateObjects a).map Object.deepCopy else none := rfl
  cases hm : db.marked a with
  | true =>
    obtain ⟨o, ho⟩ := isSome_iff_exists.1 (isSome_of_marked hs hm)
    rw [hm, ho] at hobject
    rw [cells_of_object hobject, cells_of_object ho]
    rfl
  | false =>
    rw [hm] at hobject
    rw [cells_of_no_object hobject]
    rfl

theorem cell_copy (hs : db.Sound) (a : Address) :
    db.copy.ledger.cell a =
      if db.marked a then (db.ledger.cell a).map thawed
      else (db.trie a).map Account.cell := by
  simp only [cell, cells_copy hs]
  split
  · rw [filter_map]
    rfl
  · cases db.trie a <;> rfl

theorem freeze_eq (db : DB W) (a : Address) :
    (db.getFreezeState a).2 = (db.ledger.cell a).any freeze := by
  rw [getFreezeState_eq, cell_ledger]
  cases db.getStateObject a <;> rfl

/-- **When an account is copied faithfully**: it is not frozen and, if unmarked, as it is stored. -/
theorem sameAccount_copy_iff (hs : db.Sound) (a : Address) :
    SameAccount db.copy db a ↔
      (db.getFreezeState a).2 = false ∧
        (db.marked a = false → db.ledger.cell a = (db.trie a).map Account.cell) := by
  rw [sameAccount_iff, cell_copy hs, freeze_eq]
  cases hm : db.marked a with
  | true =>
    simp only [if_true, Bool.true_eq_false, false_imp_iff, and_true]
    cases hc : db.ledger.cell a with
    | none => simp
    | some c =>
      simp only [map_some, some.injEq, any_some]
      constructor
      · intro h
        rw [← h]
        rfl
      · intro h
        simp only [thawed, ← h]
  | false =>
    simp only [Bool.false_eq_true, if_false, true_imp_iff]
    constructor
    · intro h
      refine ⟨?_, h.symm⟩
      rw [← h]
      cases db.trie a <;> rfl
    · exact fun h => h.2.symm

theorem code_eq_of_sameAccount (h : SameAccount db db' a) :
    db.ledger.wrapperCopy codec a = db'.ledger.wrapperCopy codec a := by
  simp only [wrapperCopy_ledger, validatorWrapperCopy, h.getCode]

theorem sameAs_copy_iff (hs : db.Sound) :
    SameAs codec db.copy db ↔
      (∀ a, (db.getFreezeState a).2 = false) ∧
      (∀ a, db.marked a = false → db.ledger.cell a = (db.trie a).map Account.cell) ∧
      ∀ a val, db.stateValidators a = some val → db.validatorWrapperCopy codec a = some val := by
  constructor
  · intro h
    have haccount := fun a => (sameAccount_copy_iff hs a).1 (h.account a)
    refine ⟨fun a => (haccount a).1, fun a => (haccount a).2, fun a val hval => ?_⟩
    have hwrapper := h.validatorWrapper a
    rw [validatorWrapper_eq, validatorWrapper_eq, code_eq_of_sameAccount (h.account a), hval,
      wrapperCopy_ledger] at hwrapper
    exact hwrapper
  · rintro ⟨hthawed, hstored, hcached⟩
    have haccount := fun a => (sameAccount_copy_iff hs a).2 ⟨hthawed a, hstored a⟩
    refine ⟨haccount, fun a => ?_, rfl, rfl, rfl⟩
    rw [validatorWrapper_eq, validatorWrapper_eq, code_eq_of_sameAccount (haccount a),
      wrapperCopy_ledger]
    cases hval : db.stateValidators a with
    | none => rfl
    | some val => exact hcached a val hval

/-! ## The next root -/

/-- What `IntermediateRoot` stores, in terms of the database with its wrappers flushed. -/
theorem trie_intermediateRoot_eq (hs : db.Sound) (d : Bool) (a : Address) :
    (db.intermediateRoot codec d).trie a =
      if (db.flushValidators codec).touched a || (db.flushValidators codec).stateObjectsPending a
      then (if (db.flushValidators codec).journal.isDirty a then
          ((db.flushValidators codec).ledger.cells a).map (Cell.finalise d)
        else (db.flushValidators codec).ledger.cells a).bind Cell.account
      else (db.flushValidators codec).trie a := by
  have hflush := (run_framed _ hs (run_flushValidators codec db)).1
  have hcells : (db.finalise codec d).ledger.cells a =
      ((db.flushValidators codec).finaliseObjects d).ledger.cells a := rfl
  have hpending : (db.finalise codec d).stateObjectsPending a =
      ((db.flushValidators codec).stateObjectsPending a || (db.flushValidators codec).touched a) :=
    rfl
  have htrie : (db.finalise codec d).trie = (db.flushValidators codec).trie := rfl
  rw [intermediateRoot, trie_writePending (sound_finalise hs d), hcells, hpending, htrie,
    ledger_finaliseObjects hflush, Bool.or_comm]

/-- **The next root of a copy** stores the accounts as they are. -/
theorem trie_intermediateRoot_copy (codec : WrapperCodec W) (hs : db.Sound) (d : Bool) (a : Address) :
    (db.copy.intermediateRoot codec d).trie a = db.entry a := by
  have hflush : db.copy.flushValidators codec = db.copy := rfl
  have htouched : db.copy.touched a = false := rfl
  have hdirty : db.copy.journal.isDirty a = false := rfl
  have hpending : db.copy.stateObjectsPending a = (db.touched a || db.stateObjectsPending a) := rfl
  rw [trie_intermediateRoot_eq (sound_copy hs), hflush, htouched, hdirty, hpending, Bool.false_or,
    entry]
  split
  · next hp =>
    have hmarked : db.marked a = true := by simp [marked, hp]
    rw [if_neg Bool.false_ne_true, cells_copy hs, if_pos hmarked]
    cases db.ledger.cells a with
    | none | some c => rfl
  · rfl

/-! ### Flushing the wrappers -/

/-- The code that `Finalise` stores for a cached wrapper. -/
def stores (codec : WrapperCodec W) (vals : Address → Option W) (a : Address) :
    Option (List UInt8) := (vals a).bind (wrapperBytes codec)

/-- A cell with the code stored, if there is one to store. -/
def flushCell (code : Option (List UInt8)) (c : Option Cell) : Option Cell :=
  code.elim c fun code => c.map fun c => { c with code }

theorem flushCell_flushCell (code : Option (List UInt8)) (c : Option Cell) :
    flushCell code (flushCell code c) = flushCell code c := by
  cases code <;> cases c <;> rfl

/-- Every account a wrapper is stored in is there and not frozen. -/
def Storable (codec : WrapperCodec W) (vals : Address → Option W) (db : DB W) : Prop :=
  ∀ a code, stores codec vals a = some code → ∃ c, db.ledger.cell a = some c ∧ c.freeze = false

/-- What the first loop of `Finalise` does over the given addresses. -/
structure Flushes (codec : WrapperCodec W) (vals : Address → Option W) (keys : List Address)
    (db db' : DB W) : Prop where
  cells : ∀ a, db'.ledger.cells a =
    if a ∈ keys then flushCell (stores codec vals a) (db.ledger.cells a) else db.ledger.cells a
  isDirty : ∀ a, db'.journal.isDirty a =
    (db.journal.isDirty a || (decide (a ∈ keys) && (stores codec vals a).isSome))
  trie : db'.trie = db.trie
  pending : db'.stateObjectsPending = db.stateObjectsPending

theorem storeValidator_eq (codec : WrapperCodec W) (vals : Address → Option W) (db : DB W) (b : Address) :
    (stores codec vals b = none ∧ storeValidator codec vals db b = db) ∨
      ∃ code val, stores codec vals b = some code ∧
        storeValidator codec vals db b = (db.setCode b code).cacheValidator b val := by
  unfold storeValidator stores
  cases vals b with
  | none => exact .inl ⟨rfl, rfl⟩
  | some val =>
    simp only [bind_some]
    unfold updateValidatorWrapper
    cases wrapperBytes codec val with
    | none => exact .inl ⟨rfl, rfl⟩
    | some code => exact .inr ⟨code, val, rfl, rfl⟩

theorem ledger_setCode {b : Address} {c : Cell} (code : List UInt8) (hc : db.ledger.cell b = some c)
    (hfreeze : c.freeze = false) :
    (db.setCode b code).ledger = (db.ledger.mark (.codeChange b c.code)).put b { c with code } := by
  rw [(shows_setCode db b code).data]
  simp only [Ledger.unlessFrozen, Ledger.fetch, hc]
  rw [if_neg (by simp [hfreeze])]
  rfl

theorem flushes_single {vals : Address → Option W} (b : Address) (h : Storable codec vals db) :
    Flushes codec vals [b] db (storeValidator codec vals db b) := by
  rcases storeValidator_eq codec vals db b with ⟨hnone, heq⟩ | ⟨code, val, hsome, heq⟩
  · rw [heq]
    refine ⟨fun a => ?_, fun a => ?_, rfl, rfl⟩
    · split
      · next ha =>
        cases List.mem_singleton.1 ha
        rw [hnone]
        rfl
      · rfl
    · by_cases ha : a = b
      · subst ha
        simp [hnone]
      · simp [ha]
  · obtain ⟨c, hc, hfreeze⟩ := h b code hsome
    have hshow := shows_setCode db b code
    have hledger := ledger_setCode code hc hfreeze
    rw [heq]
    refine ⟨fun a => ?_, fun a => ?_, hshow.trie, hshow.pending⟩
    · have hcells : ((db.setCode b code).cacheValidator b val).ledger.cells a =
          Function.update db.ledger.cells b (some { c with code }) a :=
        congrArg (fun l => l.cells a) hledger
      rw [hcells]
      by_cases ha : a = b
      · subst ha
        simp [hsome, flushCell, (cells_of_cell hc).1]
      · simp [ha]
    · have hdirties : ((db.setCode b code).cacheValidator b val).ledger.dirties a =
          Function.update db.ledger.dirties b (db.ledger.dirties b + 1) a :=
        congrArg (fun l => l.dirties a) hledger
      have hforced : ((db.setCode b code).cacheValidator b val).kept.forced a = db.kept.forced a :=
        congrArg (fun k => k.forced a) hshow.kept
      rw [isDirty_ledger, isDirty_ledger, hdirties, hforced]
      by_cases ha : a = b
      · subst ha
        simp [hsome]
      · simp [ha]

theorem Flushes.storable {vals : Address → Option W} {keys : List Address}
    (hf : Flushes codec vals keys db db') (h : Storable codec vals db) :
    Storable codec vals db' := by
  intro a code ha
  obtain ⟨c, hc, hfreeze⟩ := h a code ha
  obtain ⟨hcells, hlive⟩ := cells_of_cell hc
  by_cases hmem : a ∈ keys
  · refine ⟨{ c with code }, ?_, hfreeze⟩
    simp [cell, hf.cells a, hmem, ha, flushCell, hcells, hlive]
  · refine ⟨c, ?_, hfreeze⟩
    simp [cell, hf.cells a, hmem, hcells, hlive]

theorem flushes_foldl (vals : Address → Option W) (keys : List Address) (h : Storable codec vals db) :
    Flushes codec vals keys db (keys.foldl (storeValidator codec vals) db) := by
  induction keys generalizing db with
  | nil => exact ⟨fun a => by simp, fun a => by simp, rfl, rfl⟩
  | cons b keys ih =>
    have h₁ := flushes_single b h
    have h₂ := ih (h₁.storable h)
    refine ⟨fun a => ?_, fun a => ?_, h₂.trie.trans h₁.trie, h₂.pending.trans h₁.pending⟩
    · rw [List.foldl_cons, h₂.cells a, h₁.cells a]
      by_cases ha : a = b <;> by_cases hmem : a ∈ keys <;>
        simp [ha, hmem, flushCell_flushCell]
    · have hmem : decide (a ∈ b :: keys) = (decide (a ∈ [b]) || decide (a ∈ keys)) := by simp
      rw [List.foldl_cons, h₂.isDirty a, h₁.isDirty a, hmem, Bool.and_or_distrib_right,
        Bool.or_assoc]

/-! ### The roots agree -/

/-- The keys of the cached wrappers are all known. -/
def Keyed (k : Kept W) : Prop := ∀ a, (k.validators a).isSome → a ∈ k.keys

theorem flushes_all (hkeyed : Keyed db.kept) (h : Storable codec db.stateValidators db)
    (a : Address) :
    (db.flushValidators codec).ledger.cells a =
        flushCell (stores codec db.stateValidators a) (db.ledger.cells a) ∧
      (db.flushValidators codec).journal.isDirty a =
        (db.journal.isDirty a || (stores codec db.stateValidators a).isSome) := by
  have hf : Flushes codec db.stateValidators db.validatorKeys db (db.flushValidators codec) :=
    flushes_foldl _ _ h
  have hmem : (stores codec db.stateValidators a).isSome → a ∈ db.validatorKeys := by
    intro hsome
    refine hkeyed a ?_
    obtain ⟨code, hcode⟩ := isSome_iff_exists.1 hsome
    obtain ⟨val, hval, -⟩ := bind_eq_some_iff.1 hcode
    exact isSome_iff_exists.2 ⟨val, hval⟩
  rw [hf.cells a, hf.isDirty a]
  cases hsome : stores codec db.stateValidators a with
  | none => simp [flushCell]
  | some code => simp [hmem (by simp [hsome])]

section Roots

variable {db : DB W} {d : Bool} {a : Address}

theorem root_of_stores (hs : db.Sound) (hkeyed : Keyed db.kept)
    (h : Storable codec db.stateValidators db) {code : List UInt8} {o : Object}
    (hcode : stores codec db.stateValidators a = some code) (ho : db.getStateObject a = some o) :
    (db.intermediateRoot codec d).trie a = ((o.setCode code).cell.finalise d).account := by
  have hcell : db.ledger.cell a = some o.cell := by rw [cell_ledger, ho, map_some]
  obtain ⟨hcells, hdirty⟩ := flushes_all hkeyed h a
  rw [hcode, (cells_of_cell hcell).1] at hcells
  rw [hcode, isSome_some, Bool.or_true] at hdirty
  have hflush := (run_framed _ hs (run_flushValidators codec db)).1
  rw [trie_intermediateRoot_eq hs, touched_ledger hflush, hdirty, hcells]
  rfl

theorem root_of_not_stores (hs : db.Sound) (hkeyed : Keyed db.kept)
    (h : Storable codec db.stateValidators db) (hcode : stores codec db.stateValidators a = none) :
    (db.intermediateRoot codec d).trie a =
      if db.touched a then (db.ledger.cells a).bind fun c => (c.finalise d).account
      else db.entry a := by
  obtain ⟨hcells, hdirty⟩ := flushes_all hkeyed h a
  rw [hcode] at hcells
  rw [hcode, isSome_none, Bool.or_false] at hdirty
  have hflush := run_framed _ hs (run_flushValidators codec db)
  have hcells' : (db.flushValidators codec).ledger.cells a = db.ledger.cells a := hcells
  have htouched : (db.flushValidators codec).touched a = db.touched a := by
    rw [touched_ledger hflush.1, touched_ledger hs, hdirty, hcells']
  rw [trie_intermediateRoot_eq hs, htouched, hdirty, hcells', hflush.2.pending, hflush.2.trie]
  cases ht : db.touched a with
  | true =>
    have hd : db.journal.isDirty a = true := (Bool.and_eq_true_iff.1 ht).1
    simp [hd, bind_map]
  | false =>
    simp only [entry, ht, Bool.false_or, Bool.false_eq_true, if_false]
    cases hp : db.stateObjectsPending a with
    | false => simp
    | true =>
      -- a pending account is in memory, so it would be touched if it were dirty
      have hsome := hs.present a (.inr hp)
      have hclean : db.journal.isDirty a = false := by
        simpa [touched, hsome] using ht
      simp [hclean]

variable {c : Cell}

theorem account_finalise_iff (hlive : c.deleted = false) :
    c.account = (c.finalise d).account ↔ c.suicided = false ∧ (d = true → c.empty = false) := by
  unfold Cell.finalise
  cases hsuicided : c.suicided <;> cases hempty : c.empty <;> cases d <;>
    simp [Cell.account, hlive]

theorem account_finalise_of_suicided (h : c.suicided = true) : (c.finalise d).account = none := by
  simp [Cell.finalise, Cell.account, h]

theorem account_finalise_of_deleted (h : c.deleted = true) :
    (c.finalise d).account = c.account := by
  unfold Cell.finalise
  split <;> simp [Cell.account, h]

end Roots

theorem stores_eq_some {code : List UInt8} :
    stores codec db.stateValidators a = some code ↔
      ∃ val, db.stateValidators a = some val ∧ wrapperBytes codec val = some code :=
  bind_eq_some_iff

theorem exists_of_wrapperCopy {val : W} (h : db.validatorWrapperCopy codec a = some val) :
    ∃ o, db.getStateObject a = some o ∧ o.data.code ≠ [] := by
  have hcode : db.getCode a ≠ [] := by
    intro hnil
    simp [validatorWrapperCopy, hnil] at h
  cases ho : db.getStateObject a with
  | none => simp [getCode, ho] at hcode
  | some o =>
    simp only [getCode, ho, elim_some] at hcode
    exact ⟨o, rfl, hcode⟩

/-- **When the roots agree**: storing the wrappers changes nothing and no account is deleted. -/
theorem root_copy_iff (hs : db.Sound) (hkeyed : Keyed db.kept) (d : Bool)
    (hthawed : ∀ a, (db.getFreezeState a).2 = false)
    (hcached : ∀ a val, db.stateValidators a = some val →
      db.validatorWrapperCopy codec a = some val) :
    (db.copy.intermediateRoot codec d).trie = (db.intermediateRoot codec d).trie ↔
      (∀ a val code o, db.stateValidators a = some val → wrapperBytes codec val = some code →
        db.getStateObject a = some o → db.entry a = ((o.setCode code).cell.finalise d).account) ∧
      ∀ a o, db.touched a = true → db.getStateObject a = some o →
        o.suicided = false ∧ (d = true → o.empty = false) := by
  have hstorable : Storable codec db.stateValidators db := by
    intro a code hcode
    obtain ⟨val, hval, -⟩ := stores_eq_some.1 hcode
    obtain ⟨o, ho, -⟩ := exists_of_wrapperCopy (hcached a val hval)
    refine ⟨o.cell, by rw [cell_ledger, ho, map_some], ?_⟩
    have hfreeze := hthawed a
    rwa [getFreezeState_eq, ho] at hfreeze
  have hcells : ∀ {a o}, db.getStateObject a = some o → db.ledger.cells a = some o.cell := by
    intro a o ho
    have hcell : db.ledger.cell a = some o.cell := by rw [cell_ledger, ho, map_some]
    exact (cells_of_cell hcell).1
  have hentry : ∀ {a o}, db.touched a = true → db.getStateObject a = some o →
      db.entry a = o.cell.account := by
    intro a o ht ho
    simp [entry, ht, hcells ho]
  constructor
  · intro h
    have hroot : ∀ a, db.entry a = (db.intermediateRoot codec d).trie a := fun a => by
      rw [← trie_intermediateRoot_copy codec hs d a, h]
    have hrestored : ∀ a val code o, db.stateValidators a = some val →
        wrapperBytes codec val = some code → db.getStateObject a = some o →
          db.entry a = ((o.setCode code).cell.finalise d).account :=
      fun a val code o hval hcode ho => (hroot a).trans
        (root_of_stores hs hkeyed hstorable (stores_eq_some.2 ⟨val, hval, hcode⟩) ho)
    refine ⟨hrestored, fun a o ht ho => ?_⟩
    have hlive : o.cell.deleted = false := live_of_getStateObject ho
    cases hcode : stores codec db.stateValidators a with
    | none =>
      have hnext := (hroot a).trans (root_of_not_stores hs hkeyed hstorable hcode)
      rw [hentry ht ho, if_pos ht, hcells ho, bind_some] at hnext
      exact (account_finalise_iff hlive).1 hnext
    | some code =>
      -- the account holds a wrapper, so it is not empty with its code nor with the new one
      obtain ⟨val, hval, hbytes⟩ := stores_eq_some.1 hcode
      obtain ⟨o', ho', hne⟩ := exists_of_wrapperCopy (hcached a val hval)
      cases ho.symm.trans ho'
      have hnext := hrestored a val code o hval hbytes ho
      rw [hentry ht ho] at hnext
      refine ⟨?_, fun _ => by simp [Object.empty, hne]⟩
      by_contra hsuicided
      have htrue : (o.setCode code).cell.suicided = true := Bool.eq_true_of_not_eq_false hsuicided
      rw [account_finalise_of_suicided htrue] at hnext
      simp [Cell.account, hlive] at hnext
  · rintro ⟨hrestored, hkept⟩
    funext a
    rw [trie_intermediateRoot_copy codec hs]
    cases hcode : stores codec db.stateValidators a with
    | some code =>
      obtain ⟨val, hval, hbytes⟩ := stores_eq_some.1 hcode
      obtain ⟨o, ho, -⟩ := exists_of_wrapperCopy (hcached a val hval)
      rw [root_of_stores hs hkeyed hstorable hcode ho]
      exact hrestored a val code o hval hbytes ho
    | none =>
      rw [root_of_not_stores hs hkeyed hstorable hcode]
      split
      · next ht =>
        obtain ⟨c, hc⟩ : ∃ c, db.ledger.cells a = some c := by
          rw [touched_ledger hs, Bool.and_eq_true] at ht
          exact isSome_iff_exists.1 ht.2
        have hnow : db.entry a = c.account := by simp [entry, ht, hc]
        rw [hnow, hc, bind_some]
        cases hdel : c.deleted with
        | true => exact (account_finalise_of_deleted hdel).symm
        | false =>
          have hcell : (db.getStateObject a).map Object.cell = some c := by
            rw [← cell_ledger, cell, hc]
            simp [hdel]
          obtain ⟨o, ho, rfl⟩ := map_eq_some_iff.1 hcell
          exact (account_finalise_iff hdel).2 (hkept a o ht ho)
      · rfl

/-! ## When a copy is faithful -/

theorem cacheInv_keyed : CacheInv (Keyed (W := W)) where
  put k a val h b hb := by
    by_cases hba : b = a
    · subst hba
      simp only [Kept.putValidator]
      split
      · next hcached => exact h b hcached
      · exact List.mem_cons_self
    · have hmem := h b (by simpa [Kept.putValidator, hba] using hb)
      simp only [Kept.putValidator]
      split
      · exact hmem
      · exact List.mem_cons_of_mem _ hmem
  congr k k' hv hk h a ha := by
    rw [hv] at ha
    rw [hk]
    exact h a ha

theorem keyed_flush (h : Keyed db.kept) : Keyed (db.flushValidators codec).kept := by
  refine flushValidators_inv (P := fun db => Keyed db.kept) h fun db' b val h _ => ?_
  unfold updateValidatorWrapper
  split
  · exact h
  case h_2 code _ =>
    rw [(shows_cacheValidator (shows_setCode db' b code) b val).kept]
    exact cacheInv_keyed.put _ _ _ h

theorem keyed_step {act : Action W} (hs : db.Sound) (h : Keyed db.kept)
    (hstep : db.step codec fields act = some db') : Keyed db'.kept := by
  have hfinalise : ∀ d, Keyed (db.finalise codec d).kept := fun d =>
    cacheInv_keyed.congr (db.flushValidators codec).kept _ rfl rfl (keyed_flush h)
  cases act with
  | set s =>
    have hview : (settersLog codec fields).machine.step db.view s = some db'.view := by
      rw [← setters_hom.step_map hs s]
      exact congrArg (Option.map view) hstep
    exact cacheInv_keyed.step h hview
  | finalise d =>
    cases hstep
    exact hfinalise d
  | intermediateRoot d | commit d =>
    cases hstep
    exact cacheInv_keyed.congr (db.finalise codec d).kept _ rfl rfl (hfinalise d)
  | copy | reopen =>
    cases hstep
    exact fun a ha => by cases ha

theorem Reachable.keyed (h : db.Reachable codec fields) : Keyed db.kept := by
  obtain ⟨trie, hreach⟩ := h
  refine (hreach.invariant (P := fun db => db.Sound ∧ Keyed db.kept)
    ⟨sound_new trie, fun a ha => by cases ha⟩ ?_).2
  rintro db act db' ⟨hs, hk⟩ - hstep
  exact ⟨sound_step hs hstep, keyed_step hs hk hstep⟩

/-- **A copy is faithful exactly when nothing is left behind**, for every database a node can
hold. -/
theorem copyFaithful_iff {db : DB W} (h : db.Reachable codec fields) (d : Bool) :
    CopyFaithful codec fields db d ↔ CopySafe codec db d := by
  have hs := h.sound
  constructor
  · intro hf
    obtain ⟨hthawed, hstored, hcached⟩ := (sameAs_copy_iff hs).1 hf.same
    obtain ⟨hrestored, hkept⟩ :=
      (root_copy_iff hs h.keyed d hthawed hcached).1 hf.intermediateRoot
    exact ⟨hthawed, hstored, hcached, hrestored, hkept⟩
  · intro hsafe
    exact
      { same := (sameAs_copy_iff hs).2 ⟨hsafe.thawed, hsafe.stored, hsafe.cached⟩
        intermediateRoot := (root_copy_iff hs h.keyed d hsafe.thawed hsafe.cached).2
          ⟨hsafe.restored, hsafe.kept⟩
        independent := fun _ _ _ => exec_both }

/-- Account 1 has received 7, which is in memory only. -/
def paid : DB UInt8 :=
  (new fun a => if a = 1 then some { Account.zero with balance := 5 } else none).addBalance 1 7

theorem copySafe_paid : CopySafe byteCodec paid true := by
  have hobject : ∀ a, a ≠ 1 → paid.getStateObject a = none := by
    intro a ha
    have hobjects : paid.stateObjects a = none := Function.update_of_ne ha _ _
    have htrie : paid.trie a = none := if_neg ha
    simp [getStateObject, getDeletedStateObject, hobjects, htrie]
  have hwrappers : paid.stateValidators = fun _ => none := rfl
  refine ⟨fun a => ?_, fun a hmark => ?_, by simp [hwrappers], by simp [hwrappers],
    fun a o _ ho => ?_⟩
  · by_cases ha : a = 1
    · subst ha
      decide
    · rw [getFreezeState_eq, hobject a ha]
      rfl
  · by_cases ha : a = 1
    · subst ha
      cases hmark
    · have htrie : paid.trie a = none := if_neg ha
      rw [cell_ledger, hobject a ha, htrie]
      rfl
  · by_cases ha : a = 1
    · subst ha
      cases ho
      decide
    · rw [hobject a ha] at ho
      cases ho

/-- An account that has been changed in memory is copied with the change. -/
theorem copyFaithful_paid : paid.Reachable byteCodec byteFields ∧ paid.marked 1 = true ∧
    paid.copy.getBalance 1 = 12 ∧ CopyFaithful byteCodec byteFields paid true := by
  have hreach : paid.Reachable byteCodec byteFields := by
    have hstep : step byteCodec byteFields
        (new fun a => if a = 1 then some { Account.zero with balance := 5 } else none)
        (.set (.call (.base (.addBalance 1 7)))) = some paid := rfl
    exact ⟨_, Reach.refl.tail trivial hstep⟩
  exact ⟨hreach, by decide, by decide, (copyFaithful_iff hreach true).2 copySafe_paid⟩

/-- An account that is frozen is not frozen in the copy. -/
theorem copy_thaws :
    ∃ db : DB UInt8, db.Reachable byteCodec byteFields ∧ (db.getFreezeState 1).2 = true ∧
      (db.copy.getFreezeState 1).2 = false ∧ ¬ CopyFaithful byteCodec byteFields db true := by
  have hstep : step byteCodec byteFields (new fun _ => none)
      (.set (.call (.setFreezeState 1 true))) =
        some ((new fun _ => none : DB UInt8).setFreezeState 1 true) := rfl
  refine ⟨_, ⟨_, Reach.refl.tail trivial hstep⟩, by decide, by decide, fun hf => ?_⟩
  exact absurd (hf.same.account 1).getFreezeState (by decide)

end DB

end DyShard.State
