import DyShard.Core.BlockFrame

/-!
# How long a freeze lasts

The freeze flag lives in the object in memory: it is gone when the next block opens the state, and
an account that is empty when it is frozen is deleted at once.
-/

namespace DyShard.Core

open Outcome State List DB

open State (DB Client Account)
open State.DB (Holds Frozen Away)
open Atomic (StateTransferTransaction)
open Load (LoadMapDB)

variable {W H : Type} {chain : Chain W H}

/-! ## Chains of blocks -/

/-- What the two roots of a block stand for. -/
structure Tip where
  state : Address → Option Account
  loadMap : Load.Trie

/-- The account in the state that is opened from the root. -/
def Tip.account (tip : Tip) (a : Address) : Account := (tip.state a).getD .zero

/-- The tip after a block: the roots that the validator compares with the header. -/
def extend (chain : Chain W H) (tip : Tip) (block : Block H) : Outcome Err Tip := do
  let isS3 := chain.config.isS3 block.header.epoch
  let q ← process1 chain block (new tip.state) (LoadMapDB.new tip.loadMap)
  pure ⟨(q.db.intermediateRoot chain.codec isS3).trie, (q.loadmapdb.intermediateRoot isS3).trie⟩

/-- Blocks each of which meets `C` on the tip it is built on.  Each comes with the chain it is
executed on: committees and validators change from block to block. -/
def Runs (C : Chain W H → Tip → Block H → Prop) : List (Chain W H × Block H) → Tip → Tip → Prop
  | [], tip, tip' => tip' = tip
  | (chain, block) :: blocks, tip, tip' =>
    ∃ tip₁, C chain tip block ∧ extend chain tip block = .ok tip₁ ∧ Runs C blocks tip₁ tip'

/-- Nothing in the block touches the account. -/
structure Leaves (chain : Chain W H) (a : Address) (tip : Tip) (block : Block H) : Prop where
  clients : process1On chain (locked chain.codec a) block (new tip.state)
    (LoadMapDB.new tip.loadMap) ≠ .panic
  transfers : ∀ stx ∈ block.stateTransferTransactions, stx.address = a →
    writesAccount block.header.shardID stx = false
  receipts : ∀ cxp ∈ block.incomingReceipts, ∀ c ∈ cxp, ∀ cx ∈ c.receipts, ∀ r ∈ cx,
    r.recipient ≠ some a

variable {a : Address}

variable {block : Block H} {tip tip' : Tip} {o : State.Object} {db : DB W} {k : ℕ}
  {p : Progress W H} {stx : StateTransferTransaction} {e : JournalEntry Object}

theorem leaves_extend (h : Leaves chain a tip block) (hext : extend chain tip block = .ok tip') :
    tip'.state a = tip.state a := by
  obtain ⟨q, hq, hext⟩ := bind_eq_ok.1 hext
  cases hext
  -- the run on the locked machine is the run
  have hlocked : process1On chain (locked chain.codec a) block (new tip.state)
      (LoadMapDB.new tip.loadMap) = .ok q :=
    ((process1On_restrict _ block _ _).resolve_left h.clients).trans hq
  have hrest : Holds a (tip.state a) q.db := by
    refine process1On_inv (keeps_holds _) (fun stx hstx db lm r hdb hstep => ?_)
      (fun cxp hcxp c hc cx hcx db db' hdb hstep => ?_) (holds_new tip.state a) hlocked
    · refine (holds_applyStateTransferTransaction hdb ?_ hstep).1
      by_cases hadr : stx.1.address = a
      · exact .inr (h.transfers stx.1 (fst_mem_of_mem_zipIdx hstx) hadr)
      · exact .inl hadr
    · exact (holds_applyCXReceipt hdb (fun r hr =>
        .inl (h.receipts cxp hcxp c hc cx hcx r hr)) hstep).1
  exact (hrest.intermediateRoot chain.codec _).2.1

theorem leaves_runs {blocks : List (Chain W H × Block H)}
    (h : Runs (fun chain => Leaves chain a) blocks tip tip') : tip'.state a = tip.state a := by
  induction blocks generalizing tip with
  | nil => rw [h]
  | cons block blocks ih =>
    obtain ⟨tip₁, hleaves, hext, hrest⟩ := h
    exact (ih hrest).trans (leaves_extend hleaves hext)

/-! ## The freeze transaction -/

section

variable (db : DB W) (a : Address)

theorem getStateObject_createAccount :
    (db.createAccount a).getStateObject a = some ((newObject .zero).setBalance
      ((db.getDeletedStateObject a).elim 0 fun o => o.data.balance)) := by
  rw [createAccount_eq]
  exact getStateObject_update db _ rfl

theorem stateValidators_createAccount :
    (db.createAccount a).stateValidators = db.stateValidators := by
  rw [createAccount_eq]
  rfl

theorem getStateObject_of_exist :
    (∃ o, db.getStateObject a = some o ∧ db.exist a = true) ∨
      (db.getStateObject a = none ∧ db.exist a = false) := by
  unfold exist
  cases db.getStateObject a with
  | none => exact .inr ⟨rfl, rfl⟩
  | some o => exact .inl ⟨o, rfl, rfl⟩

theorem freezeAccount_eq : ∃ (db₀ : DB W) (o : Object),
    freezeAccount db a = db₀.update a (.freezeChange a o.freeze) (o.setFreezeState true) ∧
      db₀.stateValidators = db.stateValidators ∧ db₀.getStateObject a = some o ∧
      o.updateRoot.data = db.account a ∧
      ((∀ o', db.getStateObject a = some o' → o'.suicided = false) → o.suicided = false) := by
  unfold freezeAccount
  rcases getStateObject_of_exist db a with ⟨o, hget, hexist⟩ | ⟨hget, hexist⟩
  · rw [hexist, if_pos rfl, setFreezeState_eq hget]
    exact ⟨db, o, rfl, rfl, hget, (account_of_getStateObject hget).symm, fun h => h o hget⟩
  · rw [hexist, if_neg Bool.false_ne_true]
    have hnew := getStateObject_createAccount db a
    have hset := setBalance_eq hnew rfl 0
    have hget' : ((db.createAccount a).setBalance a 0).getStateObject a =
        some (newObject .zero) := by
      rw [hset]
      exact getStateObject_update _ _ rfl
    refine ⟨_, _, setFreezeState_eq hget' true, ?_, hget', ?_, fun _ => rfl⟩
    · rw [hset]
      exact stateValidators_createAccount db a
    · rw [account_of_not_exist hget, updateRoot_data]
      rfl

end

theorem stateValidators_updateValidatorWrapper (codec : WrapperCodec W) (db : DB W)
    (b : Address) (val : W) (h : (db.updateValidatorWrapper codec b val).1.stateValidators a = none) :
    db.stateValidators a = none := by
  unfold updateValidatorWrapper at h
  split at h
  · exact h
  · next code _ =>
    have hv : (db.setCode b code).stateValidators = db.stateValidators :=
      congrArg Kept.validators (shows_setCode db b code).kept
    by_cases hba : a = b
    · simp [cacheValidator, hba] at h
    · simpa [cacheValidator, Function.update_of_ne hba, hv] using h

theorem stateValidators_finalise (codec : WrapperCodec W) (db : DB W) (d : Bool)
    (h : (db.finalise codec d).stateValidators a = none) : db.stateValidators a = none := by
  have hflush : (db.flushValidators codec).stateValidators a = none → db.stateValidators a = none :=
    flushValidators_inv (P := fun db' => db'.stateValidators a = none → _) id
      fun db' addr val ih _ h => ih (stateValidators_updateValidatorWrapper codec db' addr val h)
  exact hflush h

theorem object_settle {db₀ : DB W} (epoch : ℕ) (he : e.dirtied = some a)
    (hguard : db₀.stateValidators a = none ∨ o.freeze = true ∧ o.deleted = false) :
    ∃ o', (chain.settle epoch (db₀.update a e o)).1.stateObjects a = some o' ∧
      o'.deleted = (finaliseObject (chain.config.isS3 epoch) o).deleted ∧
      o'.freeze = (finaliseObject (chain.config.isS3 epoch) o).freeze := by
  unfold Chain.settle
  cases chain.config.isS3 epoch with
  | true => exact ⟨_, object_finalise he hguard, rfl, rfl⟩
  | false =>
    have hfin : ((db₀.update a e o).finalise chain.codec false).stateObjects a =
        some (finaliseObject false o) := object_finalise he hguard
    obtain ⟨o', hobj, -, -, hdel, hfreeze⟩ := object_writePending hfin
    exact ⟨o', hobj, hdel, hfreeze⟩

theorem holds_settle_update {db₀ : DB W} (epoch : ℕ) (he : e.dirtied = some a)
    (hcached : db₀.stateValidators a = none ∨
      o.freeze = true ∧ (finaliseObject (chain.config.isS3 epoch) o).deleted = false) :
    Holds a (trieEntry (finaliseObject (chain.config.isS3 epoch) o))
      (chain.settle epoch (db₀.update a e o)).1 := by
  unfold Chain.settle
  cases hs3 : chain.config.isS3 epoch with
  | true => exact holds_finalise he (hs3 ▸ hcached)
  | false => exact (holds_finalise he (hs3 ▸ hcached)).writePending.1

theorem stateValidators_settle (epoch : ℕ) (db : DB W)
    (h : (chain.settle epoch db).1.stateValidators a = none) : db.stateValidators a = none := by
  unfold Chain.settle at h
  split at h
  · exact stateValidators_finalise chain.codec db true h
  · exact stateValidators_finalise chain.codec db false h

theorem exist_iff_of_object (h : db.stateObjects a = some o) :
    db.exist a = true ↔ o.deleted = false := by
  cases hdel : o.deleted <;> simp [exist, getStateObject, getDeletedStateObject, h, hdel]

/-- **The freeze puts the account to rest**, frozen unless it was empty and has been
deleted. -/
theorem holds_freeze (epoch : ℕ)
    (hcached : (chain.settle epoch (freezeAccount db a)).1.exist a = true ∨
      (chain.settle epoch (freezeAccount db a)).1.stateValidators a = none) :
    ∃ x, Holds a x (chain.settle epoch (freezeAccount db a)).1 ∧
      ((chain.settle epoch (freezeAccount db a)).1.exist a = true →
        Frozen a (chain.settle epoch (freezeAccount db a)).1) := by
  obtain ⟨db₀, o, heq, hval, hget, -⟩ := freezeAccount_eq db a
  rw [heq] at hcached ⊢
  have hdel : (o.setFreezeState true).deleted = false := (getStateObject_eq_some hget).2
  have hdirtied : (JournalEntry.freezeChange a o.freeze :
      JournalEntry Object).dirtied = some a := rfl
  have hguard : db₀.stateValidators a = none ∨
      (o.setFreezeState true).freeze = true ∧ (o.setFreezeState true).deleted = false :=
    .inr ⟨rfl, hdel⟩
  obtain ⟨o', hobj, hdel', hfreeze⟩ : ∃ o', (chain.settle epoch (db₀.update a
      (.freezeChange a o.freeze) (o.setFreezeState true))).1.stateObjects a = some o' ∧ _ :=
    object_settle epoch hdirtied hguard
  rw [exist_iff_of_object hobj] at hcached ⊢
  cases hlive : (finaliseObject (chain.config.isS3 epoch) (o.setFreezeState true)).deleted with
  | false =>
    refine ⟨_, holds_settle_update epoch hdirtied (.inr ⟨rfl, hlive⟩), fun _ => ?_⟩
    refine ⟨o', hobj, hfreeze.trans ?_, hdel'.trans hlive⟩
    rw [(finaliseObject_of_live hlive).1]
    rfl
  | true =>
    rw [hdel', hlive] at hcached ⊢
    have hnone := stateValidators_settle epoch _ (hcached.resolve_left (by simp))
    exact ⟨_, holds_settle_update epoch hdirtied (.inl hnone), fun h => by cases h⟩

/-! ## The block of the freeze -/

/-- The execution of a block up to its first `k` state-transfer transactions. -/
def executeUpTo (chain : Chain W H) (block : Block H) (k : ℕ) (tip : Tip) :
    Outcome Err (Progress W H) := do
  let p ← executeTransactions chain (machine chain.codec) block (new tip.state)
    (LoadMapDB.new tip.loadMap)
  (block.transfers.take k).foldlM (processStateTransferTransaction chain block.header.toPreamble) p

/-- The engine finalises the block without a call that `M` does not have. -/
def FinalizesOn (chain : Chain W H) (M : StateMachine W) (tip : Tip) (block : Block H) : Prop :=
  ∀ p, executeBlock chain (machine chain.codec) block (new tip.state)
    (LoadMapDB.new tip.loadMap) = .ok p → finalizeBlock chain M block p ≠ .panic

/-- What the rest of a block may do once `k` state transfers have led to `p`: no other one writes to
the account; the engine does not re-create or destroy it, nor touch it if it was deleted. -/
structure Guards (chain : Chain W H) (a : Address) (tip : Tip) (block : Block H) (k : ℕ)
    (p : Progress W H) : Prop where
  transfers : ∀ stx ∈ block.transfers.drop k, stx.1.address = a →
    writesAccount block.header.shardID stx.1 = false
  existing : p.db.exist a = true → FinalizesOn chain (sparing chain.codec a) tip block
  deleted : p.db.exist a = false → p.db.stateValidators a = none ∧
    FinalizesOn chain (locked chain.codec a) tip block ∧
    ∀ cxp ∈ block.incomingReceipts, ∀ c ∈ cxp, ∀ cx ∈ c.receipts, ∀ r ∈ cx, r.recipient ≠ some a

theorem rest_of_block {M : StateMachine W} {P : DB W → Prop}
    (hk : Keeps chain M block.header.epoch P)
    (hM : ∀ p q, finalizeBlock chain (machine chain.codec) block p = .ok q →
      finalizeBlock chain M block p ≠ .panic → finalizeBlock chain M block p = .ok q)
    (hfin : FinalizesOn chain M tip block)
    (hstx : ∀ stx ∈ block.transfers.drop k, ∀ db lm r, P db →
      applyStateTransferTransaction chain db block.header.toPreamble lm stx.1 = some r → P r.1)
    (hcx : ∀ cxp ∈ block.incomingReceipts, ∀ c ∈ cxp, ∀ cx ∈ c.receipts, ∀ db db', P db →
      applyCXReceipt chain block.header.toPreamble db cx = .ok db' → P db')
    (hp : executeUpTo chain block k tip = .ok p) (hP : P p.db)
    (hext : extend chain tip block = .ok tip') :
    ∃ db, P db ∧ tip'.state =
      (db.intermediateRoot chain.codec (chain.config.isS3 block.header.epoch)).trie := by
  obtain ⟨q, hq, hext⟩ := bind_eq_ok.1 hext
  cases hext
  obtain ⟨p₃, hexec, hq⟩ := bind_eq_ok.1 hq
  obtain ⟨p₁, h₁, hrest⟩ := bind_eq_ok.1 hexec
  obtain ⟨p₂, h₂, h₃⟩ := bind_eq_ok.1 hrest
  -- the loop over the transfers goes through `p`
  obtain ⟨p₁', h₁', hp⟩ := bind_eq_ok.1 hp
  cases h₁.symm.trans h₁'
  rw [← take_append_drop k block.transfers, foldlM_append, hp, ok_bind] at h₂
  have hP₂ : P p₂.db := transfers_inv hk hstx hP h₂
  have hP₃ : P p₃.db := receipts_inv hcx hP₂ h₃
  exact ⟨q.db, finalizeBlock_inv hk hP₃ (hM p₃ q hq (hfin p₃ hexec)), rfl⟩

theorem finalizeBlock_of_restrict (ok : Call W → Bool) (block : Block H)
    (p : Progress W H) (q : Processed W H)
    (hq : finalizeBlock chain (machine chain.codec) block p = .ok q)
    (h : finalizeBlock chain ((machine chain.codec).restrict ok) block p ≠ .panic) :
    finalizeBlock chain ((machine chain.codec).restrict ok) block p = .ok q :=
  ((finalizeBlock_restrict ok block p).resolve_left h).trans hq

theorem executeUpTo_succ (hstx : block.stateTransferTransactions[k]? = some stx)
    (hp : executeUpTo chain block (k + 1) tip = .ok p) : ∃ db lm r,
      applyStateTransferTransaction chain db block.header.toPreamble lm stx = some r ∧
        p.db = r.1 := by
  obtain ⟨p₁, -, hp⟩ := bind_eq_ok.1 hp
  have hget : block.transfers[k]? =
      some (stx, block.transactions.length + block.stakingTransactions.length + k) := by
    simp [Block.transfers, getElem?_zipIdx, hstx]
  rw [take_add_one, hget, Option.toList_some, foldlM_append] at hp
  obtain ⟨p₂, -, hp⟩ := bind_eq_ok.1 hp
  rw [foldlM_cons, bind_eq_ok] at hp
  obtain ⟨p₃, hstep, hp⟩ := hp
  cases hp
  obtain ⟨r, hr, hstep⟩ := bind_eq_ok.1 hstep
  cases hstep
  rw [ofOption_eq_ok] at hr
  exact ⟨_, _, r, hr, rfl⟩

/-- A freeze transaction on the source shard. -/
structure IsFreeze (a : Address) (shardID : ShardID) (stx : StateTransferTransaction) : Prop where
  address : stx.address = a
  source : stx.sourceShardID = shardID
  toFreeze : stx.toFreeze = true

theorem apply_freeze {header : Preamble} {lm : LoadMapDB} {r : DB W × LoadMapDB × Receipt H}
    (hf : IsFreeze a header.shardID stx)
    (h : applyStateTransferTransaction chain db header lm stx = some r) :
    r.1 = (chain.settle header.epoch (freezeAccount db a)).1 := by
  unfold applyStateTransferTransaction at h
  rw [if_pos hf.source.symm, if_pos hf.toFreeze, hf.address] at h
  cases h
  rfl

/-- **The freeze holds to the end of its block.** -/
theorem frozen_block (hstx : block.stateTransferTransactions[k]? = some stx)
    (hfreeze : IsFreeze a block.header.shardID stx)
    (hp : executeUpTo chain block (k + 1) tip = .ok p) (hguard : Guards chain a tip block (k + 1) p)
    (hext : extend chain tip block = .ok tip') : tip'.account a = p.db.account a := by
  obtain ⟨db, lm, r, hr, hdb⟩ := executeUpTo_succ hstx hp
  have hsettled := hdb.trans (apply_freeze hfreeze hr)
  have hcached : p.db.exist a = true ∨ p.db.stateValidators a = none := by
    cases hex : p.db.exist a with
    | true => exact .inl rfl
    | false => exact .inr (hguard.deleted hex).1
  obtain ⟨x, hrest, hfrozen⟩ : ∃ x, Holds a x p.db ∧ (p.db.exist a = true → Frozen a p.db) := by
    rw [hsettled] at hcached ⊢
    exact holds_freeze _ hcached
  have hne : ∀ stx ∈ block.transfers.drop (k + 1),
      stx.1.address ≠ a ∨ writesAccount block.header.shardID stx.1 = false := by
    intro stx hmem
    by_cases hadr : stx.1.address = a
    · exact .inr (hguard.transfers stx hmem hadr)
    · exact .inl hadr
  have hvalue : tip'.state a = x := by
    cases hex : p.db.exist a with
    | true =>
      obtain ⟨db', hdb', htip⟩ := rest_of_block (keeps_frozen _) (finalizeBlock_of_restrict _ block)
        (hguard.existing hex)
        (fun stx hmem db lm r hP hstep =>
          have h := holds_applyStateTransferTransaction hP.1 (hne stx hmem) hstep
          ⟨h.1, h.2 hP.2⟩)
        (fun cxp _ c _ cx _ db db' hP hstep =>
          have h := holds_applyCXReceipt hP.1 (fun _ _ => .inr hP.2) hstep
          ⟨h.1, h.2 hP.2⟩) hp ⟨hrest, hfrozen hex⟩ hext
      rw [htip]
      exact (hdb'.1.intermediateRoot chain.codec _).2.1
    | false =>
      obtain ⟨-, hfin, hcx⟩ := hguard.deleted hex
      obtain ⟨db', hdb', htip⟩ := rest_of_block (keeps_holds _) (finalizeBlock_of_restrict _ block)
        hfin
        (fun stx hmem db lm r hP hstep =>
          (holds_applyStateTransferTransaction hP (hne stx hmem) hstep).1)
        (fun cxp hcxp c hc cx hcxm db db' hP hstep =>
          (holds_applyCXReceipt hP (fun r hr => .inl (hcx cxp hcxp c hc cx hcxm r hr)) hstep).1)
        hp hrest hext
      rw [htip]
      exact (hdb'.intermediateRoot chain.codec _).2.1
  rw [Tip.account, hvalue, hrest.account_eq]

/-- **An account keeps the value it was frozen with** to the end of the block under the guard of the
flag, and later for as long as nothing touches it. -/
theorem freeze_persists {tip tip₁ tip' : Tip} {block : Block H}
    {blocks : List (Chain W H × Block H)} {k : ℕ} {p : Progress W H} {stx : StateTransferTransaction}
    (hstx : block.stateTransferTransactions[k]? = some stx)
    (hfreeze : IsFreeze a block.header.shardID stx)
    (hp : executeUpTo chain block (k + 1) tip = .ok p)
    (hguard : Guards chain a tip block (k + 1) p) (hext : extend chain tip block = .ok tip₁)
    (hruns : Runs (fun chain => Leaves chain a) blocks tip₁ tip') :
    tip'.account a = p.db.account a := by
  have hlater : tip'.account a = tip₁.account a := by
    rw [Tip.account, Tip.account, leaves_runs hruns]
  rw [hlater, frozen_block hstx hfreeze hp hguard hext]

/-! ## A quiet shard

A shard of the staking era other than the beacon chain, whose EVM and staking code do
nothing: what happens there is due to the receipts and the state-transfer
transactions. -/

/-- The engine of the shard. -/
def quietEngine (shardID : ShardID) : Engine Unit where
  fields := {
    delegations := fun _ => []
    setDelegations := fun _ w => w
    lastEpochInCommittee := fun _ => 0
    setLastEpochInCommittee := fun _ w => w
    raiseRate := id
    isBanned := fun _ => false
    updateEPOSStatus := fun _ w => w }
  shardID
  readValidatorList := some []
  stakedValidators _ := some (0, [])
  currentValidators := some []
  readValidatorSnapshot _ := none
  firstElectionEpochKey := 0
  numberOf _ := some 0
  signers _ := .ok []
  stakingReward _ := .ret none
  applySlashes _ _ := .ret none

/-- The chain of the shard, with a given hash of the state. -/
def quietChain {H : Type} (shardID : ShardID) (stateRoot : (Address → Option Account) → H)
    (zero : H) : Chain Unit H where
  config := .forked 0
  codec := .empty
  evm := {
    create := fun _ _ _ gas _ => .ret ⟨gas, UInt64.le_refl _, none⟩
    call := fun _ _ _ _ gas _ => .ret ⟨gas, UInt64.le_refl _, none⟩ }
  staking := {
    decode := fun _ _ => .error .invalidStakingKind
    verifyAndApply := fun _ _ _ => .ret none }
  engine := quietEngine shardID
  hashing := {
    stateRoot
    loadMapRoot := fun _ => zero
    emptyRootHash := zero
    deriveSha := fun _ => zero
    createBloom := fun _ => 0
    computeMerkleRoot := fun _ => zero
    deriveMultipleShardsSha := fun _ => zero
    stateTransferTxHash := fun _ => 0
    deriveSha_nil := rfl
    createBloom_nil := rfl }
  numShards _ := 2
  createAddress a _ := a
  committeeMember _ _ coinbase := .ok coinbase

/-- The chain of a shard whose hashes tell nothing. -/
abbrev quietShard (shardID : ShardID) : Chain Unit Unit := quietChain shardID (fun _ => ()) ()

/-- A block of state-transfer transactions and incoming receipts. -/
def quietBlock (shardID : ShardID) (number : ℕ) (stxs : List StateTransferTransaction)
    (cxs : List CXReceipt) : Block Unit where
  header := {
    parentHash := 0
    number
    epoch := 1
    shardID
    time := 0
    gasLimit := 80000000
    vrf := []
    coinbase := 0
    lastCommitBitmap := []
    crossLinks := []
    shardState := []
    slashes := some []
    viewID := 0
    gasUsed := 0
    root := ()
    loadMapRoot := ()
    receiptHash := ()
    outgoingReceiptHash := ()
    bloom := 0 }
  transactions := []
  stakingTransactions := []
  stateTransferTransactions := stxs
  incomingReceipts := [some ⟨cxs.map some⟩]

/-- The migration of account `0xaa` from shard 1 to shard 2. -/
def migration (toFreeze : Bool) (balance : Option ℤ) : StateTransferTransaction where
  sourceShardID := 1
  targetShardID := 2
  sourceHeight := 0
  address := 0xaa
  balance
  nonce := 0
  data := []
  toFreeze
  index := 0

/-- A shard on which account `0xaa` has some balance. -/
def holding (balance : ℤ) : Tip where
  state a := if a = 0xaa then some { Account.zero with balance } else none
  loadMap _ := none

/-- A receipt that credits the account. -/
def credit : CXReceipt := ⟨0, 0, some 0xaa, 0, 1, 1⟩

/-- The balances of the account after one block and after a second one. -/
def balances (chain : Chain W H) (tip : Tip) (b b' : Block H) : Outcome Err (ℤ × ℤ) := do
  let tip₁ ← extend chain tip b
  let tip₂ ← extend chain tip₁ b'
  pure ((tip₁.account 0xaa).balance, (tip₂.account 0xaa).balance)

theorem balances_eq_ok {b b' : Block H} {x y : ℤ} (h : balances chain tip b b' = .ok (x, y)) :
    ∃ tip₁ tip₂, extend chain tip b = .ok tip₁ ∧
      extend chain tip₁ b' = .ok tip₂ ∧ (tip₁.account 0xaa).balance = x ∧
      (tip₂.account 0xaa).balance = y := by
  obtain ⟨tip₁, h₁, h⟩ := bind_eq_ok.1 h
  obtain ⟨tip₂, h₂, h⟩ := bind_eq_ok.1 h
  cases h
  exact ⟨tip₁, tip₂, h₁, h₂, rfl, rfl⟩

/-- **The freeze is gone in the next block**: a receipt makes five six. -/
theorem credited_after_freeze : ∃ tip₁ tip₂,
    extend (quietShard 1) (holding 5) (quietBlock 1 1 [migration true none] []) = .ok tip₁ ∧
    extend (quietShard 1) tip₁ (quietBlock 1 2 [] [credit]) = .ok tip₂ ∧
    (tip₁.account 0xaa).balance = 5 ∧ (tip₂.account 0xaa).balance = 6 := by
  apply balances_eq_ok
  decide +kernel

/-- The freeze, and a receipt for the account in the same block. -/
abbrev freezeBlock : Block Unit := quietBlock 1 1 [migration true none] [credit]

/-- A frozen account of five, and a later block that leaves it alone. -/
theorem freeze_persists_quiet : ∃ p tip₁ tip',
    executeUpTo (quietShard 1) freezeBlock 1 (holding 5) = .ok p ∧
    extend (quietShard 1) (holding 5) freezeBlock = .ok tip₁ ∧
    extend (quietShard 1) tip₁ (quietBlock 1 2 [] []) = .ok tip' ∧
    tip'.account 0xaa = p.db.account 0xaa ∧ (p.db.account 0xaa).balance = 5 := by
  -- each run is evaluated once, with what is needed of it
  have hup : (executeUpTo (quietShard 1) freezeBlock 1 (holding 5) >>= fun p =>
      pure (p.db.exist 0xaa, (p.db.account 0xaa).balance)) = .ok (true, 5) := by decide +kernel
  have hfin : (executeBlock (quietShard 1) (machine (quietShard 1).codec) freezeBlock
      (new (holding 5).state) (LoadMapDB.new (holding 5).loadMap) >>= fun p =>
      finalizeBlock (quietShard 1) (sparing (quietShard 1).codec 0xaa) freezeBlock p >>= fun q =>
      pure q.usedGas) = .ok 0 := by
    decide +kernel
  have hruns : (extend (quietShard 1) (holding 5) freezeBlock >>= fun tip₁ =>
      extend (quietShard 1) tip₁ (quietBlock 1 2 [] []) >>= fun _ =>
      process1On (quietShard 1) (locked (quietShard 1).codec 0xaa)
        (quietBlock 1 2 [] []) (new tip₁.state) (LoadMapDB.new tip₁.loadMap) >>= fun q =>
      pure q.usedGas) = .ok 0 := by
    decide +kernel
  obtain ⟨p, hp, hpv⟩ := bind_eq_ok.1 hup
  obtain ⟨hex, hbal⟩ := Prod.mk.inj (ok.inj hpv)
  obtain ⟨tip₁, h₁, hruns⟩ := bind_eq_ok.1 hruns
  obtain ⟨tip', h₂, hruns⟩ := bind_eq_ok.1 hruns
  obtain ⟨q, hq, -⟩ := bind_eq_ok.1 hruns
  have hguard : Guards (quietShard 1) 0xaa (holding 5) freezeBlock 1 p := {
    transfers := by simp [Block.transfers, quietBlock]
    existing := by
      intro _ p' hp'
      rw [hp', ok_bind] at hfin
      obtain ⟨q', hq', -⟩ := bind_eq_ok.1 hfin
      exact ne_panic_of_ok hq'
    deleted := fun hdel => absurd (hex.symm.trans hdel) (by decide) }
  have hleaves : Leaves (quietShard 1) 0xaa tip₁ (quietBlock 1 2 [] []) := {
    clients := ne_panic_of_ok hq
    transfers := by simp [quietBlock]
    receipts := by
      intro cxp hcxp c hc cx hcx
      cases mem_singleton.1 hcxp
      cases hc
      cases hcx }
  have hrun : Runs (fun chain => Leaves chain 0xaa)
      [(quietShard 1, quietBlock 1 2 [] [])] tip₁ tip' := ⟨tip', hleaves, h₂, rfl⟩
  have hfreeze : IsFreeze 0xaa 1 (migration true none) := ⟨rfl, rfl, rfl⟩
  exact ⟨p, tip₁, tip', hp, h₁, h₂, freeze_persists rfl hfreeze hp hguard h₁ hrun, hbal⟩

end DyShard.Core
