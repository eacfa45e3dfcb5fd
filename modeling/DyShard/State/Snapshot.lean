import DyShard.State.History

/-!
# Snapshots of the database

The journal covers the accounts, the refund counter and the logs.  The wrappers are cached in
`stateValidators`, which is neither journalled nor cleared.
-/

namespace DyShard.State

open Option DB Ledger

namespace DB

variable {W : Type} {codec : WrapperCodec W} {fields : WrapperFields W}
  {es : List (JournalEntry Cell)}

/-! ## What a reader sees -/

/-- The two databases answer every question about the account alike. -/
structure SameAccount (db db' : DB W) (a : Address) : Prop where
  exist : db.exist a = db'.exist a
  empty : db.empty a = db'.empty a
  getBalance : db.getBalance a = db'.getBalance a
  getNonce : db.getNonce a = db'.getNonce a
  getCode : db.getCode a = db'.getCode a
  getState : ∀ key, db.getState a key = db'.getState a key
  getCommittedState : ∀ key, db.getCommittedState a key = db'.getCommittedState a key
  hasSuicided : db.hasSuicided a = db'.hasSuicided a
  getFreezeState : (db.getFreezeState a).2 = (db'.getFreezeState a).2

/-- The two databases answer every reader alike. -/
structure SameAs (codec : WrapperCodec W) (db db' : DB W) : Prop where
  account : ∀ a, SameAccount db db' a
  validatorWrapper : ∀ a, (db.validatorWrapper codec a).2 = (db'.validatorWrapper codec a).2
  logs : db.logs = db'.logs
  logSize : db.logSize = db'.logSize
  getRefund : db.refund = db'.refund

theorem getFreezeState_eq (db : DB W) (a : Address) :
    (db.getFreezeState a).2 = (db.getStateObject a).any Object.freeze := by
  unfold getFreezeState getOrNewStateObject
  cases db.getStateObject a with
  | none => rfl
  | some o => rfl

theorem live_of_getStateObject {db : DB W} {a : Address} {o : Object}
    (h : db.getStateObject a = some o) : o.deleted = false := by
  have hlive := (filter_eq_some_iff.1 h).2
  simpa using hlive

/-- **Two accounts are told apart by their cells and by nothing else.** -/
theorem sameAccount_iff {db db' : DB W} {a : Address} :
    SameAccount db db' a ↔ db.ledger.cell a = db'.ledger.cell a := by
  rw [cell_ledger, cell_ledger]
  constructor
  · intro h
    have hexist : (db.getStateObject a).isSome = (db'.getStateObject a).isSome := h.exist
    have hbalance := h.getBalance
    have hnonce := h.getNonce
    have hcode := h.getCode
    have hstate := h.getState
    have hcommitted := h.getCommittedState
    have hsuicided := h.hasSuicided
    have hfreeze := h.getFreezeState
    rw [getFreezeState_eq, getFreezeState_eq] at hfreeze
    simp only [getBalance, getNonce, getCode, getState, getCommittedState,
      hasSuicided] at hbalance hnonce hcode hstate hcommitted hsuicided
    cases ho : db.getStateObject a with
    | none =>
      rw [ho] at hexist
      rw [isSome_eq_false_iff.1 hexist.symm |> isNone_iff_eq_none.1]
    | some o =>
      rw [ho] at hexist
      obtain ⟨o', ho'⟩ := isSome_iff_exists.1 hexist.symm
      have hlive := live_of_getStateObject ho
      have hlive' := live_of_getStateObject ho'
      simp only [ho, ho', any_some] at hbalance hnonce hcode hstate hcommitted hsuicided hfreeze
      rw [ho', map_some, map_some]
      simp only [Object.cell, some.injEq, Cell.mk.injEq]
      exact ⟨hnonce, hbalance, hcode, funext hcommitted, funext hstate, hfreeze, hsuicided,
        hlive.trans hlive'.symm⟩
  · intro h
    cases ho : db.getStateObject a with
    | none =>
      rw [ho, map_none] at h
      have ho' := map_eq_none_iff.1 h.symm
      constructor <;>
        simp [exist, empty, getBalance, getNonce, getCode, getState,
          getCommittedState, hasSuicided, getFreezeState_eq, ho, ho']
    | some o =>
      rw [ho, map_some] at h
      obtain ⟨o', ho', hcell⟩ := map_eq_some_iff.1 h.symm
      simp only [Object.cell, Cell.mk.injEq] at hcell
      obtain ⟨hnonce, hbalance, hcode, hcommitted, hstate, hfreeze, hsuicided, -⟩ := hcell
      constructor <;>
        simp [exist, empty, Object.empty, getBalance, getNonce, getCode,
          getState, getCommittedState, hasSuicided, getFreezeState_eq, ho, ho', hnonce,
          hbalance, hcode, hcommitted, hstate, hfreeze, hsuicided]

theorem validatorWrapper_eq (codec : WrapperCodec W) (db : DB W) (a : Address) :
    (db.validatorWrapper codec a).2 =
      (db.stateValidators a).or (db.ledger.wrapperCopy codec a) := by
  rw [wrapperCopy_ledger]
  unfold validatorWrapper
  cases db.stateValidators a with
  | some val => rfl
  | none => cases db.validatorWrapperCopy codec a <;> rfl

/-- Databases that show the same ledger can only be told apart by a wrapper. -/
theorem sameAs_iff_of_ledger {db db' : DB W} (h : db.ledger = db'.ledger) :
    SameAs codec db db' ↔ ∀ a, (db.validatorWrapper codec a).2 = (db'.validatorWrapper codec a).2 :=
  ⟨SameAs.validatorWrapper, fun hval =>
    { account := fun a => sameAccount_iff.2 (by rw [h])
      validatorWrapper := hval
      logs := congrArg Ledger.logs h
      logSize := congrArg Ledger.logSize h
      getRefund := congrArg Ledger.refund h }⟩

/-! ## What becomes of the cached wrappers -/

/-- A property of the cached wrappers that every write to the cache keeps. -/
structure CacheInv (P : Kept W → Prop) : Prop where
  put : ∀ k a val, P k → P (k.putValidator a val)
  congr : ∀ k k', k'.validators = k.validators → k'.keys = k.keys → P k → P k'

theorem kept_of_reads {α : Type} {x r : α} {l l' : Ledger} {k k' : Kept W}
    (h : reads x l k = some (r, l', k', es)) : k' = k := by
  simp only [reads, some.injEq, Prod.mk.injEq] at h
  exact h.2.2.1.symm

theorem kept_of_writes {α : Type} {x r : α} {eff : Effect} {l' : Ledger} {k k' : Kept W}
    (h : writes x eff k = some (r, l', k', es)) : k' = k := by
  simp only [writes, some.injEq, Prod.mk.injEq] at h
  exact h.2.2.1.symm

section CacheInv

variable {P : Kept W → Prop} {l l' : Ledger} {k k' : Kept W} {es : List (JournalEntry Cell)}

theorem CacheInv.call (hP : CacheInv P) {c : Call W} {r : c.Answer} (hk : P k)
    (h : Ledger.call codec c l k = some (r, l', k', es)) : P k' := by
  cases c with
  | addBalance a amount =>
    cases kept_of_writes h
    unfold Kept.touch
    split
    · exact hP.congr k _ rfl rfl hk
    · exact hk
  | subRefund gas =>
    simp only [Ledger.call] at h
    split at h
    · cases h
    · cases kept_of_writes h
      exact hk
  | validatorWrapper a =>
    simp only [Ledger.call] at h
    split at h
    · cases kept_of_reads h
      exact hk
    · split at h
      · cases kept_of_reads h
        exact hP.put k a _ hk
      · cases kept_of_reads h
        exact hk
  | putValidator a val =>
    cases kept_of_reads h
    exact hP.put k a val hk
  | updateValidatorWrapper a val =>
    simp only [Ledger.call] at h
    split at h
    · cases kept_of_reads h
      exact hk
    · cases kept_of_writes h
      exact hP.put k a val hk
  | exist a | empty a | getBalance a | getNonce a | getCode a | getState a key
  | getCommittedState a key | hasSuicided a | getRefund =>
    cases kept_of_reads h
    exact hk
  | _ =>
    cases kept_of_writes h
    exact hk

theorem CacheInv.set (hP : CacheInv P) {c : Setter W} {r : c.Answer} (hk : P k)
    (h : Ledger.set codec fields c l k = some (r, l', k', es)) : P k' := by
  cases c with
  | base c => exact hP.call hk h
  | prepare thash txIndex =>
    cases kept_of_reads h
    exact hP.congr k _ rfl rfl hk
  | addReward snapshot reward shareLookup =>
    simp only [Ledger.set] at h
    split at h
    · cases kept_of_reads h
      exact hk
    · obtain ⟨⟨val, l₁, k₁, es₁⟩, hval, hrest⟩ := bind_eq_some_iff.1 h
      obtain ⟨⟨ok, w⟩, -, hs⟩ := map_eq_some_iff.1 hrest
      obtain ⟨-, hdata⟩ := Prod.mk.inj hs
      obtain ⟨-, hkept⟩ := Prod.mk.inj hdata
      cases hkept
      have hload : P k₁ := hP.call hk hval
      cases w with
      | none => exact hload
      | some w => exact hP.put k₁ _ w hload
  | _ =>
    cases kept_of_writes h
    exact hk

/-- **What every write to the cache keeps, every history keeps**; a revert leaves the cache
alone. -/
theorem CacheInv.step (hP : CacheInv P) {j j' : Client.Log Ledger (Kept W) (JournalEntry Cell)}
    {x : Client.Step (setterInterface W)} (hj : P j.kept)
    (h : (settersLog codec fields).machine.step j x = some j') : P j'.kept := by
  cases x with
  | call c =>
    obtain ⟨⟨r, j₁⟩, hc, rfl⟩ := map_eq_some_iff.1 h
    obtain ⟨⟨r', l', k', es⟩, hset, hj₁⟩ := map_eq_some_iff.1 hc
    cases hj₁
    exact hP.set hj hset
  | snapshot =>
    cases h
    exact hj
  | revert n =>
    obtain ⟨idx, m, u, -, -, rfl⟩ := Client.Undo.revert_eq_some h
    exact hj

end CacheInv

/-- What is cached stays cached, if perhaps as another wrapper. -/
def Caches (k k' : Kept W) : Prop := ∀ a, (k.validators a).isSome → (k'.validators a).isSome

theorem cacheInv_caches (k : Kept W) : CacheInv (Caches k) where
  put k' a val h b hb := by
    by_cases hba : b = a
    · simp [Kept.putValidator, hba]
    · simpa [Kept.putValidator, hba] using h b hb
  congr k' k'' hv _ h b hb := by
    rw [hv]
    exact h b hb

/-! ## Exactness -/

/-- **A revert puts the ledger back and leaves the cached wrappers.** -/
theorem revertToSnapshot_ledger {db db' db'' : DB W} {steps : List (Client.Step (setterInterface W))}
    (hs : db.Sound) (hsteps : (setters codec fields).exec db.snapshot.1 steps = some db')
    (hrevert : db'.revertToSnapshot db.snapshot.2 = some db'') :
    db''.ledger = db.ledger ∧ db''.stateValidators = db'.stateValidators ∧
      Caches db.kept db'.kept := by
  have hhom : (setters codec fields).Hom _ Sound view := setters_hom
  have hview := Client.Undo.revert_refined hhom hs (numbered_view hs) hsteps hrevert
  refine ⟨congrArg Client.Log.data hview, ?_, ?_⟩
  · exact congrArg (fun j => j.kept.validators) hview
  · have hexec := hhom.exec_map (sound_snapshot hs) hsteps
    exact (Transition.reach_of_exec hexec).invariant (P := fun j => Caches db.kept j.kept)
      (fun _ ha => ha) fun _ _ _ hc _ hx => (cacheInv_caches db.kept).step hc hx

/-- Every wrapper that is cached at the revert is the one that was shown at the snapshot. -/
def NoStaleWrapper (codec : WrapperCodec W) (db db' : DB W) : Prop :=
  ∀ a val, db'.stateValidators a = some val → (db.validatorWrapper codec a).2 = some val

/-- **A revert to a snapshot is exact precisely when no stale wrapper is cached.**  It gets through
unless one in between went back to the snapshot or beyond it. -/
theorem revertToSnapshot_same_iff {db db' : DB W} {steps : List (Client.Step (setterInterface W))}
    (hdb : db.Reachable codec fields)
    (hsteps : (DB.setters codec fields).exec db.snapshot.1 steps = some db') :
    (∀ db'', db'.revertToSnapshot db.snapshot.2 = some db'' →
        (SameAs codec db'' db ↔ NoStaleWrapper codec db db')) ∧
      ((∀ n, Client.Step.revert n ∈ steps → db.snapshot.2 < n) →
        ∃ db'', db'.revertToSnapshot db.snapshot.2 = some db'') := by
  have hs := hdb.sound
  constructor
  · intro db'' hrevert
    obtain ⟨hledger, hcache, hgrows⟩ := revertToSnapshot_ledger hs hsteps hrevert
    rw [sameAs_iff_of_ledger hledger]
    simp only [validatorWrapper_eq, hledger, hcache, NoStaleWrapper]
    constructor
    · intro h a val hval
      rw [← h a, hval]
      rfl
    · intro h a
      cases hval : db'.stateValidators a with
      | some val => exact (h a val hval).symm
      | none =>
        -- nothing was cached at the snapshot either
        have hnone : db.stateValidators a = none := by
          by_contra hsome
          have hcached := hgrows a (isSome_iff_ne_none.2 hsome)
          have hval' : db'.kept.validators a = none := hval
          simp [hval'] at hcached
        rw [hnone]
  · exact Client.Undo.exists_revert_refined setters_hom hs (numbered_view hs) hsteps

/-! ### A wrapper that survives a revert -/

/-- Wrappers that are one byte. -/
def byteCodec : WrapperCodec UInt8 where
  sanityCheck _ := true
  encode val := some [val]
  decode by_ := by_.head?
  decode_encode val by_ h := by
    cases h
    rfl
  encode_ne_nil val by_ h := by
    cases h
    simp

/-- A wrapper of one byte has no delegation; the byte is its block reward. -/
def byteFields : WrapperFields UInt8 where
  get val := { address := 1, banned := false, rate := .zeroDec, blockReward := val.toNat
               delegations := [] }
  put _ v := .ofNat v.blockReward.toNat

/-- Balances, freezing and self-destruction under two snapshots, one of them dropped. -/
theorem revertToSnapshot_same_setters :
    ∃ db' db'', (DB.setters byteCodec byteFields).exec (new fun _ => none).snapshot.1
        [.call (.setBalance 1 5), .snapshot, .call (.base (.suicide 1)), .revert 1,
          .call (.setFreezeState 1 true), .call (.base (.addRefund 3))] = some db' ∧
      db'.getBalance 1 = 5 ∧ (db'.getFreezeState 1).2 = true ∧
      db'.revertToSnapshot 0 = some db'' ∧ SameAs byteCodec db'' (new fun _ => none) := by
  have hrun : ((setters byteCodec byteFields).exec (new fun _ => none).snapshot.1
      [.call (.setBalance 1 5), .snapshot, .call (.base (.suicide 1)), .revert 1,
        .call (.setFreezeState 1 true), .call (.base (.addRefund 3))]).map
      (fun db => (db.getBalance 1, (db.getFreezeState 1).2, db.stateValidators)) =
        some (5, true, fun _ => none) := rfl
  obtain ⟨db', hdb', hshown⟩ := map_eq_some_iff.1 hrun
  simp only [Prod.mk.injEq] at hshown
  obtain ⟨hbalance, hfreeze, hcache⟩ := hshown
  obtain ⟨hsame, hsome⟩ := revertToSnapshot_same_iff (reachable_new _) hdb'
  obtain ⟨db'', hdb''⟩ := hsome (by
    intro n hn
    simp only [List.mem_cons, Client.Step.revert.injEq, reduceCtorEq, false_or, List.not_mem_nil,
      or_false] at hn
    subst hn
    decide)
  refine ⟨db', db'', hdb', hbalance, hfreeze, hdb'', (hsame db'' hdb'').2 ?_⟩
  intro a val hval
  simp [hcache] at hval

/-- The code of the account is taken back, but `ValidatorWrapper` answers with the new wrapper. -/
theorem updateValidatorWrapper_survives :
    ∃ db db' db'' : DB UInt8, db.Reachable byteCodec byteFields ∧
      (DB.setters byteCodec byteFields).exec db.snapshot.1
        [.call (.base (.updateValidatorWrapper 1 7))] = some db' ∧
      db'.revertToSnapshot db.snapshot.2 = some db'' ∧
      db''.getCode 1 = db.getCode 1 ∧
      (db.validatorWrapper byteCodec 1).2 = some 5 ∧
      (db''.validatorWrapper byteCodec 1).2 = some 7 ∧ ¬ SameAs byteCodec db'' db := by
  let db : DB UInt8 := new fun a => if a = 1 then some { Account.zero with code := [5] } else none
  have hrun : (((setters byteCodec byteFields).exec db.snapshot.1
      [.call (.base (.updateValidatorWrapper 1 7))]).bind fun db' =>
        (db'.revertToSnapshot db.snapshot.2).map fun db'' =>
          (db''.getCode 1, (db''.validatorWrapper byteCodec 1).2)) = some ([5], some 7) := rfl
  obtain ⟨db', hdb', hrest⟩ := bind_eq_some_iff.1 hrun
  obtain ⟨db'', hdb'', hshown⟩ := map_eq_some_iff.1 hrest
  obtain ⟨hcode, hval⟩ := Prod.mk.inj hshown
  have hbefore : (db.validatorWrapper byteCodec 1).2 = some 5 := rfl
  refine ⟨db, db', db'', reachable_new _, hdb', hdb'', hcode, hbefore, hval, fun hsame => ?_⟩
  have heq := hsame.validatorWrapper 1
  rw [hval, hbefore] at heq
  exact absurd (some.inj heq) (by decide)

end DB

end DyShard.State
