import DyShard.Staking.Conservation

/-!
# Payouts of undelegations

What the engine reads and writes of a wrapper, and the run of `payoutUndelegations`, which leaves
the tokens as they are.
-/

namespace DyShard.Staking

open List Option Function Delegation

open State (DB)
open Numeric (Dec)
open DyShard.Core (Undelegation)

variable {rlp : WrapperRlp} {db db' : DB ValidatorWrapper}
  {remove : List Undelegation → ℤ × List Undelegation}

/-! ## Fields -/

/-- `availability.measure`. -/
def measure : Dec := ⟨666666666666666667⟩

example : (Dec.newDec 2).quo (.newDec 3) = some measure := by decide +kernel

/-- `ComputeCurrentSigning`, of which only the comparison with the threshold is used. -/
def isBelowThreshold (snapshot wrapper : ValidatorWrapper) : Bool :=
  let signed := wrapper.numBlocksSigned - snapshot.numBlocksSigned
  let toSign := wrapper.numBlocksToSign - snapshot.numBlocksToSign
  if toSign = 0 then true
  else ((Dec.newDec signed).quo (.newDec toSign)).any fun percentage =>
    decide (percentage.int ≤ measure.int)

/-- A delegation as the engine sees it. -/
def Delegation.toCore (d : Delegation) : Core.Delegation := ⟨d.delegatorAddress, d.undelegations⟩

/-- The engine writes the undelegations only. -/
def ValidatorWrapper.setUndelegations (ds : List Core.Delegation) (w : ValidatorWrapper) :
    ValidatorWrapper :=
  { w with delegations := List.zipWith (fun (d : Delegation) (c : Core.Delegation) =>
      { d with undelegations := c.undelegations }) w.delegations ds }

/-- The fields of a wrapper for the engine. -/
def fields : Core.WrapperFields ValidatorWrapper where
  delegations w := w.delegations.map toCore
  setDelegations := ValidatorWrapper.setUndelegations
  lastEpochInCommittee w := w.lastEpochInCommittee
  setLastEpochInCommittee epoch w := { w with lastEpochInCommittee := epoch }
  raiseRate w := if w.rates.rate.int < minCommissionRate.int then
    { w with rates := { w.rates with rate := minCommissionRate } } else w
  isBanned w := w.status = .banned
  updateEPOSStatus snapshot w :=
    if isBelowThreshold snapshot w then { w with status := .inactive } else w

/-! ## Paying out -/

/-- What a list of delegations is paid. -/
def withdrawn (remove : List Undelegation → ℤ × List Undelegation) (ds : List Core.Delegation) : ℤ :=
  (ds.map fun d => (remove d.undelegations).1).sum

/-- The delegations after the payout. -/
def paidOut (remove : List Undelegation → ℤ × List Undelegation) (ds : List Core.Delegation) :
    List Core.Delegation :=
  ds.map fun d => { d with undelegations := (remove d.undelegations).2 }

theorem run_payoutDelegations (rlp : WrapperRlp) (remove : List Undelegation → ℤ × List Undelegation)
    (ds : List Core.Delegation) (hthawed : db.Thawed) :
    ∃ db', DB.run rlp.codec (Core.payoutDelegations remove ds) db = some (paidOut remove ds, db') ∧
      DB.SameStaking rlp.codec db db' ∧
      ∑ a, db'.getBalance a = ∑ a, db.getBalance a + withdrawn remove ds := by
  induction ds generalizing db with
  | nil => exact ⟨db, rfl, .refl db, (add_zero _).symm⟩
  | cons d ds ih =>
    by_cases hzero : (remove d.undelegations).1 = 0
    · obtain ⟨db', hrun, hsame, hsum⟩ := ih hthawed
      refine ⟨db', ?_, hsame, ?_⟩
      · simp only [Core.payoutDelegations, hzero, ne_eq, not_true_eq_false, if_false, DB.run_bind,
          hrun, bind_some, DB.run_pure]
        rfl
      · rw [hsum, withdrawn, withdrawn, map_cons, sum_cons, hzero, zero_add]
    · have hsame₁ : DB.SameStaking rlp.codec db
          (db.addBalance d.delegatorAddress (remove d.undelegations).1) := .addBalance db _ _
      obtain ⟨db', hrun, hsame, hsum⟩ := ih (hsame₁.thawed hthawed)
      refine ⟨db', ?_, hsame₁.trans hsame, ?_⟩
      · simp only [Core.payoutDelegations, ne_eq, hzero, not_false_eq_true, if_true, DB.run_bind,
          DB.run_addBalance, bind_some, hrun, DB.run_pure]
        rfl
      · rw [hsum, sum_balance_addBalance hthawed, withdrawn, withdrawn, map_cons,
          sum_cons, add_assoc]

theorem total_paidOut
    (hremove : ∀ us, (remove us).1 + inUndelegation (remove us).2 = inUndelegation us)
    (w : ValidatorWrapper) :
    (w.setUndelegations (paidOut remove (fields.delegations w))).total +
      withdrawn remove (fields.delegations w) = w.total := by
  unfold ValidatorWrapper.setUndelegations ValidatorWrapper.total fields paidOut withdrawn
  dsimp only
  induction w.delegations with
  | nil => rfl
  | cons d ds ih =>
    have hd := hremove d.undelegations
    simp only [map_cons, zipWith_cons_cons, sum_cons, total, toCore] at ih ⊢
    linarith

theorem tokens_cacheValidator {v : Address} {w : ValidatorWrapper} (hflag : Flagged db v)
    (hcurrent : current rlp db v = some w) (w' : ValidatorWrapper) :
    tokens rlp (db.cacheValidator v w') + w.total = tokens rlp db + w'.total := by
  have hheld : held rlp (db.cacheValidator v w') = Function.update (held rlp db) v w'.total := by
    funext x
    by_cases hx : x = v
    · subst hx
      have hflag' : Flagged (db.cacheValidator x w') x := hflag
      rw [update_self, held, if_pos hflag', current]
      simp [DB.cacheValidator]
    · rw [update_of_ne hx]
      refine held_congr Iff.rfl ?_
      simp only [current, DB.cacheValidator, update_of_ne hx]
      rfl
  have hold : held rlp db v = w.total := by simp [held, hflag, hcurrent]
  have hsum := sum_update_add (f := held rlp db) v w'.total
  have hbalance : ∀ a, (db.cacheValidator v w').getBalance a = db.getBalance a := fun _ => rfl
  unfold tokens
  rw [hheld, Finset.sum_congr rfl fun a _ => hbalance a]
  linarith

/-- A payout keeps the tokens; the flags and the frozen accounts stay too. -/
structure Pays (rlp : WrapperRlp) (db db' : DB ValidatorWrapper) : Prop where
  tokens : tokens rlp db' = tokens rlp db
  storage : db'.getState = db.getState
  thawed : db'.Thawed

theorem Pays.trans {db'' : DB ValidatorWrapper} (h : Pays rlp db db') (h' : Pays rlp db' db'') :
    Pays rlp db db'' :=
  ⟨h'.tokens.trans h.tokens, h'.storage.trans h.storage, h'.thawed⟩

theorem current_cacheValidator (db : DB ValidatorWrapper) (v : Address) (w : ValidatorWrapper) :
    current rlp (db.cacheValidator v w) v = some w := by
  simp [current, DB.cacheValidator]

theorem pays_validatorWrapper (rlp : WrapperRlp) {v : Address} (hflag : Flagged db v)
    (hthawed : db.Thawed) :
    Pays rlp db (db.validatorWrapper rlp.codec v).1 ∧
      ∀ w, (db.validatorWrapper rlp.codec v).2 = some w →
        current rlp (db.validatorWrapper rlp.codec v).1 v = some w := by
  unfold DB.validatorWrapper
  cases hcached : db.stateValidators v with
  | some w =>
    refine ⟨⟨rfl, rfl, hthawed⟩, fun x hx => ?_⟩
    cases hx
    simp [current, hcached]
  | none =>
    cases hcopy : db.validatorWrapperCopy rlp.codec v with
    | none => exact ⟨⟨rfl, rfl, hthawed⟩, fun x hx => by cases hx⟩
    | some w =>
      have hcurrent : current rlp db v = some w := by simp [current, hcached, hcopy]
      have hload := tokens_cacheValidator hflag hcurrent w
      refine ⟨⟨by linarith, rfl, hthawed⟩, fun x hx => ?_⟩
      cases hx
      exact current_cacheValidator db v w

theorem pays_paidOut
    (hremove : ∀ us, (remove us).1 + inUndelegation (remove us).2 = inUndelegation us)
    {v : Address} {w : ValidatorWrapper} (hflag : Flagged db v) (hthawed : db.Thawed)
    (hcurrent : current rlp db v = some w) :
    ∃ db₁, DB.run rlp.codec (Core.payoutDelegations remove (fields.delegations w)) db =
        some (paidOut remove (fields.delegations w), db₁) ∧
      Pays rlp db (db₁.cacheValidator v
        (w.setUndelegations (paidOut remove (fields.delegations w)))) := by
  obtain ⟨db₁, hrun, hsame, hsum⟩ :=
    run_payoutDelegations rlp remove (fields.delegations w) hthawed
  have hcurrent₁ : current rlp db₁ v = some w := by
    rw [← hcurrent, current, current, hsame.cached, hsame.wrapper]
  have hflag₁ : Flagged db₁ v := by rwa [Flagged, hsame.storage]
  have htokens : tokens rlp db₁ = tokens rlp db + withdrawn remove (fields.delegations w) := by
    rw [tokens, tokens, hsum, held_same hsame]
    ring
  have hput := tokens_cacheValidator hflag₁ hcurrent₁
    (w.setUndelegations (paidOut remove (fields.delegations w)))
  have htotal := total_paidOut hremove w
  exact ⟨db₁, hrun, by linarith, hsame.storage, hsame.thawed hthawed⟩

theorem pays_untilErr {f : Address → State.Client ValidatorWrapper (Option Core.Err)}
    (hf : ∀ (db : DB ValidatorWrapper) (v : Address), Flagged db v → db.Thawed →
      ∃ r db', DB.run rlp.codec (f v) db = some (r, db') ∧ Pays rlp db db')
    {vs : List Address} (hflags : ∀ v ∈ vs, Flagged db v) (hthawed : db.Thawed) :
    ∃ r db', DB.run rlp.codec (Core.untilErr f vs) db = some (r, db') ∧ Pays rlp db db' := by
  induction vs generalizing db with
  | nil => exact ⟨none, db, rfl, rfl, rfl, hthawed⟩
  | cons v vs ih =>
    obtain ⟨r, db₁, hrun, hpays⟩ := hf db v (hflags v mem_cons_self) hthawed
    rw [Core.untilErr, DB.run_bind, hrun, bind_some]
    cases r with
    | some e => exact ⟨some e, db₁, rfl, hpays⟩
    | none =>
      have hflags₁ : ∀ x ∈ vs, Flagged db₁ x := by
        intro x hx
        rw [Flagged, hpays.storage]
        exact hflags x (mem_cons_of_mem _ hx)
      obtain ⟨r, db', hrest, hpays'⟩ := ih hflags₁ hpays.thawed
      exact ⟨r, db', hrest, hpays.trans hpays'⟩

/-- **Every run of the payout keeps the tokens**, also one that stops at a validator that cannot
be loaded. -/
theorem pays_payoutUndelegations (rlp : WrapperRlp) (config : Core.ChainConfig)
    (engine : Core.Engine ValidatorWrapper) (hfields : engine.fields = fields)
    (header : Core.Preamble) (hthawed : db.Thawed)
    (hlist : ∀ vs, engine.readValidatorList = some vs → ∀ v ∈ vs, Flagged db v) :
    ∃ r db', DB.run rlp.codec (Core.payoutUndelegations config engine header) db =
      some (r, db') ∧ Pays rlp db db' := by
  unfold Core.payoutUndelegations
  cases hvalidators : engine.readValidatorList with
  | none => exact ⟨_, db, rfl, rfl, rfl, hthawed⟩
  | some vs =>
    refine pays_untilErr (fun db₁ v hflag hthawed₁ => ?_) (hlist vs hvalidators) hthawed
    obtain ⟨hload, hcurrent⟩ := pays_validatorWrapper rlp hflag hthawed₁
    rw [DB.run_bind, DB.run_validatorWrapper, bind_some, hfields]
    cases hw : (db₁.validatorWrapper rlp.codec v).2 with
    | none => exact ⟨_, _, rfl, hload⟩
    | some w =>
      have hflag₁ : Flagged (db₁.validatorWrapper rlp.codec v).1 v := by
        rwa [Flagged, hload.storage]
      obtain ⟨db₂, hrun, hpays⟩ := pays_paidOut
        (sum_removeUnlocked header.epoch (fields.lastEpochInCommittee w)
          (Core.getLockPeriodInEpoch config header.epoch) (config.isNoEarlyUnlock header.epoch))
        hflag₁ hload.thawed (hcurrent w hw)
      refine ⟨none, _, ?_, hload.trans hpays⟩
      rw [DB.run_bind, hrun]
      rfl

/-! ## Conservation -/

theorem WellFormed.same (h : WellFormed rlp db) (hsame : DB.SameStaking rlp.codec db db') :
    WellFormed rlp db' where
  thawed := hsame.thawed h.thawed
  coherent := hsame.coherent h.coherent
  proper v w hflag hcopy := by
    rw [Flagged, hsame.storage] at hflag
    rw [hsame.wrapper] at hcopy
    exact h.proper v w hflag hcopy

theorem tokens_bought (msg : Core.Message) (hthawed : db.Thawed) :
    tokens rlp (Core.bought msg db) = tokens rlp db - msg.gas.toNat * msg.gasPrice := by
  unfold Core.bought
  rw [tokens_same (DB.SameStaking.setNonce _ _ _) fun a => DB.getBalance_setNonce _ _ a _,
    tokens_subBalance hthawed]

theorem tokens_stakingTransitionDb {bc : ChainContext} {config : Core.ChainConfig}
    {decodeMsg : Core.TransactionType → List UInt8 → Except Core.Err StakeMsg}
    {ctx : Core.EVMContext} {msg : Core.Message} {gp used : UInt64} {spent : Core.Spent UInt64}
    (hdb : WellFormed rlp db)
    (hindex : ∀ delegator es, bc.readDelegationsByDelegator delegator = .ok es →
      ListsValidators db es)
    (hrun : DB.run rlp.codec (Core.stakingTransitionDb config (staking rlp bc decodeMsg) ctx msg gp)
      db = some (spent, db')) (hok : spent.result = .ok used) :
    tokens rlp db' = tokens rlp db - used.toNat * msg.gasPrice := by
  obtain ⟨stkMsg, db₁, left, -, -, happlied, hleft, rfl, rfl⟩ :=
    transition_of_run hdb.thawed hrun hok
  have hbought : DB.SameStaking rlp.codec db (Core.bought msg db) := sameStaking_bought msg db
  have hlists : ∀ delegator es, bc.readDelegationsByDelegator delegator = .ok es →
      ListsValidators (Core.bought msg db) es := by
    intro delegator es hes
    refine ⟨(hindex delegator es hes).distinct, fun e he => ?_⟩
    rw [Flagged, hbought.storage]
    exact (hindex delegator es hes).flagged e he
  have htokens := tokens_applied (hdb.same hbought) hlists happlied
  have hgas : ((msg.gas - left).toNat : ℤ) = msg.gas.toNat - left.toNat := by
    rw [UInt64.toNat_sub_of_le _ _ hleft]
    exact Nat.cast_sub (UInt64.le_iff_toNat_le.1 hleft)
  rw [tokens_addBalance (happlied.thawed (hbought.thawed hdb.thawed)), htokens,
    tokens_bought msg hdb.thawed, hgas]
  ring

/-- **Staking conserves tokens**: a successful staking transaction takes the fee, a payout of
undelegations nothing. -/
theorem staking_conserves_tokens (rlp : WrapperRlp) :
    (∀ (bc : ChainContext) (config : Core.ChainConfig)
      (decodeMsg : Core.TransactionType → List UInt8 → Except Core.Err StakeMsg)
      (ctx : Core.EVMContext) (msg : Core.Message) (gp : UInt64) (db db' : DB ValidatorWrapper)
      (spent : Core.Spent UInt64) (used : UInt64),
      WellFormed rlp db →
      (∀ delegator es, bc.readDelegationsByDelegator delegator = .ok es →
        FaithfulIndex rlp db delegator es) →
      DB.run rlp.codec (Core.stakingTransitionDb config (staking rlp bc decodeMsg) ctx msg gp) db =
        some (spent, db') → spent.result = .ok used →
      tokens rlp db' = tokens rlp db - used.toNat * msg.gasPrice) ∧
    ∀ (config : Core.ChainConfig) (engine : Core.Engine ValidatorWrapper)
      (header : Core.Preamble) (db : DB ValidatorWrapper),
      engine.fields = fields → db.Thawed →
      (∀ vs, engine.readValidatorList = some vs → ∀ v ∈ vs, Flagged db v) →
      ∃ r db', DB.run rlp.codec (Core.payoutUndelegations config engine header) db =
        some (r, db') ∧ tokens rlp db' = tokens rlp db := by
  refine ⟨?_, ?_⟩
  · intro bc config decodeMsg ctx msg gp db db' spent used hdb hindex hrun hok
    exact tokens_stakingTransitionDb hdb (fun delegator es hes => (hindex delegator es hes).lists)
      hrun hok
  · intro config engine header db hfields hthawed hlist
    obtain ⟨r, db', hrun, hpays⟩ :=
      pays_payoutUndelegations rlp config engine hfields header hthawed hlist
    exact ⟨r, db', hrun, hpays.tokens⟩

/-! ## A creation -/

/-- A library that knows some wrappers, and writes each as its number. -/
def tableRlp (ws : List ValidatorWrapper) : WrapperRlp where
  encode w := if w ∈ ws then some (List.replicate (ws.idxOf w + 1) 0) else none
  decode code := ws[code.length - 1]?
  decode_encode w c h := by
    split_ifs at h with hmem
    cases h
    simp [List.getElem?_eq_getElem (idxOf_lt_length_of_mem hmem)]
  encode_ne_nil w c h := by
    split_ifs at h
    cases h
    simp
  err := .msg "rlp: value is not known"

namespace Sample

/-- Every fork is active. -/
def config : Core.ChainConfig := .forked 0

variable (validator : Address)

/-- A validator with key 5 that stakes the smallest amount. -/
def create : CreateValidator where
  validatorAddress := validator
  description := ⟨"", "keybase", "", "", ""⟩
  rates := ⟨⟨10 ^ 17⟩, ⟨10 ^ 17⟩, ⟨10 ^ 17⟩⟩
  minSelfDelegation := minimumStake
  maxTotalDelegation := minimumStake
  slotPubKeys := [5]
  slotKeySigs := [0]
  amount := minimumStake

/-- The wrapper of the validator. -/
def wrapper : ValidatorWrapper where
  address := validator
  slotPubKeys := [5]
  lastEpochInCommittee := 0
  minSelfDelegation := minimumStake
  maxTotalDelegation := minimumStake
  status := .active
  rates := ⟨⟨10 ^ 17⟩, ⟨10 ^ 17⟩, ⟨10 ^ 17⟩⟩
  updateHeight := 1
  description := ⟨"", "keybase", "", "", ""⟩
  creationHeight := 1
  delegations := [newDelegation validator minimumStake]
  numBlocksToSign := 0
  numBlocksSigned := 0
  blockReward := 0

/-- The library knows the wrappers of accounts `0xaa` and `0xbb`. -/
def table : WrapperRlp := tableRlp [wrapper 0xaa, wrapper 0xbb]

/-- A chain without validators. -/
def chain : ChainContext where
  config := config
  isMinDelegation100 _ := true
  readValidatorList := .ok []
  readDelegationsByDelegator _ := .ok []
  readValidatorSnapshot _ := .error (.msg "not found")
  hmyKeys _ := []
  verifyBLSKey _ _ := .ok ()

/-- Accounts `0xaa` and `0xbb` are rich. -/
def genesis : DB ValidatorWrapper where
  trie a := if a = 0xaa ∨ a = 0xbb then
    some { State.Account.zero with balance := minimumStake + 10 ^ 9 } else none

/-- The message of a creation, for any data. -/
def decodeMsg (_ : Core.TransactionType) (_ : List UInt8) :
    Except Core.Err StakeMsg := .ok (.createValidator (create validator))

/-- The transaction of a creation. -/
def msg : Core.Message where
  sender := validator
  recipient := none
  nonce := 0
  value := 0
  gas := 10 ^ 7
  gasPrice := 1
  data := []
  checkNonce := true
  type := some .stakeCreateVal
  blockNum := 1

/-- The block of the creation. -/
def ctx : Core.EVMContext where
  origin := validator
  coinbase := 0xcc
  parentHash := 0
  blockNumber := 1
  epochNumber := 1
  vrf := []
  time := 0
  gasLimit := 10 ^ 8
  gasPrice := 1
  txType := .stakeCreateVal

theorem face_genesis (a : Address) :
    (genesis.face a).account.storage = (fun _ => 0) ∧ (genesis.face a).frozen = false := by
  unfold DB.face DB.getStateObject DB.getDeletedStateObject genesis
  by_cases ha : a = 0xaa ∨ a = 0xbb
  · simp only [if_pos ha]
    exact ⟨rfl, rfl⟩
  · simp only [if_neg ha]
    exact ⟨rfl, rfl⟩

theorem getState_genesis (a : Address) (key : Word) : genesis.getState a key = 0 := by
  rw [DB.getState_eq_face, (face_genesis a).1]

theorem thawed_genesis : genesis.Thawed := fun a => (face_genesis a).2

theorem wellFormed_genesis : WellFormed table genesis where
  thawed := thawed_genesis
  coherent a val h := by cases h
  proper v w hflag := absurd (getState_genesis v _) hflag

theorem run_create : ((DB.run table.codec (Core.stakingTransitionDb config
    (staking table chain (decodeMsg 0xaa)) (ctx 0xaa) (msg 0xaa) (10 ^ 8)) genesis).map
      fun r => r.1.result) = some (.ok 5300000) := by
  decide +kernel

/-- The wrapper of validator `0xaa` after it has undelegated 5 in epoch 1. -/
def leaving : ValidatorWrapper :=
  { wrapper 0xaa with delegations := [⟨0xaa, minimumStake, 0, [⟨5, 1⟩]⟩] }

/-- Validator `0xaa` is stored, and its account is empty. -/
def stored : DB ValidatorWrapper where
  trie a := if a = 0xaa then some { State.Account.zero with
      storage := fun key => if key = Core.isValidatorKey then isValidatorValue else 0
      code := [0] } else none

theorem thawed_stored : stored.Thawed := by
  intro a
  unfold DB.face DB.getStateObject DB.getDeletedStateObject stored
  by_cases ha : a = 0xaa
  · simp only [if_pos ha]
    rfl
  · simp only [if_neg ha]
    rfl

/-- An engine whose chain has validator `0xaa`. -/
def engine : Core.Engine ValidatorWrapper where
  fields := fields
  shardID := 0
  readValidatorList := some [0xaa]
  stakedValidators _ := none
  currentValidators := none
  readValidatorSnapshot _ := none
  firstElectionEpochKey := firstElectionEpochKey
  numberOf _ := none
  signers _ := .ok []
  stakingReward _ := .ret none
  applySlashes _ _ := .ret none

/-- A header of epoch 8, when what was undelegated in epoch 1 is unlocked. -/
def header : Core.Preamble where
  parentHash := 0
  number := 1
  epoch := 8
  shardID := 0
  time := 0
  gasLimit := 10 ^ 8
  vrf := []
  coinbase := 0xcc
  lastCommitBitmap := []
  crossLinks := []
  shardState := []
  slashes := none

end Sample

open Sample

/-- Account `0xaa` becomes a validator; seven epochs after undelegating 5 it has them back. -/
theorem staking_conserves_tokens_sample :
    (∃ spent db', DB.run table.codec (Core.stakingTransitionDb config
        (staking table chain (decodeMsg 0xaa)) (ctx 0xaa)
        (msg 0xaa) (10 ^ 8)) genesis = some (spent, db') ∧
      spent.result = .ok 5300000 ∧
      tokens table db' = tokens table genesis - 5300000) ∧
    ∃ db', DB.run (tableRlp [leaving]).codec (Core.payoutUndelegations config engine header) stored =
        some (none, db') ∧ stored.getBalance 0xaa = 0 ∧ db'.getBalance 0xaa = 5 ∧
      tokens (tableRlp [leaving]) db' = tokens (tableRlp [leaving]) stored := by
  refine ⟨?_, ?_⟩
  · obtain ⟨⟨spent, db'⟩, hrun, hok⟩ := map_eq_some_iff.1 run_create
    refine ⟨spent, db', hrun, hok, ?_⟩
    have htokens := (staking_conserves_tokens table).1 _ _ _ _ _ _ _ _ _ _ wellFormed_genesis
      (fun delegator es hes => ?_) hrun hok
    · simpa [msg] using htokens
    · obtain rfl : [] = es := Except.ok.inj hes
      exact ⟨nodup_nil, fun e he => absurd he not_mem_nil,
        fun v w hflag => absurd (getState_genesis v _) hflag⟩
  · have hrun : ((DB.run (tableRlp [leaving]).codec (Core.payoutUndelegations config engine header)
        stored).map fun r => (r.1, r.2.getBalance 0xaa)) = some (none, 5) := by decide +kernel
    obtain ⟨r, db', hpaid, htokens⟩ := (staking_conserves_tokens (tableRlp [leaving])).2 config engine
      header stored rfl thawed_stored fun vs hvs v hv => by
        cases hvs
        cases mem_singleton.1 hv
        decide +kernel
    rw [hpaid, map_some] at hrun
    obtain ⟨rfl, hbalance⟩ := Prod.mk.inj (some.inj hrun)
    exact ⟨db', hpaid, rfl, hbalance, htokens⟩

end DyShard.Staking
