import DyShard.Core.Transfer
import DyShard.Lib.Check
import DyShard.Staking.Wrapper
import DyShard.State.Wrappers

/-!
# The staking messages: `core/staking_verifier.go`

Each of the five messages is verified by a check that only reads the state, and applied if nothing
refuses it.  Integers are there, as they are after decoding, and an error is its cause, without the
context that `errors.Wrapf` puts before it.
-/

namespace DyShard.Staking

open Numeric (Dec)
open DyShard.Core (ChainConfig Err EVMContext TransactionType isValidator)
open State (WrapperCodec)
open State.Client (getBalance getState setState subBalance addBalance addLog
  updateValidatorWrapper getCode)

/-! ## Messages and the chain -/

/-- `bls.SerializedSignature`. -/
abbrev BLSSignature := BitVec 768

/-- `CreateValidator`. -/
structure CreateValidator where
  validatorAddress : Address
  description : Description
  rates : CommissionRates
  minSelfDelegation : ℤ
  maxTotalDelegation : ℤ
  slotPubKeys : List BLSKey
  slotKeySigs : List BLSSignature
  amount : ℤ

/-- `EditValidator`. -/
structure EditValidator where
  validatorAddress : Address
  description : Description
  commissionRate : Option Dec
  minSelfDelegation : Option ℤ
  maxTotalDelegation : Option ℤ
  slotKeyToRemove : Option BLSKey
  slotKeyToAdd : Option BLSKey
  slotKeyToAddSig : Option BLSSignature
  eposStatus : Eligibility

/-- `Delegate` and `Undelegate`. -/
structure Delegate where
  delegatorAddress : Address
  validatorAddress : Address
  amount : ℤ

/-- A staking message. -/
inductive StakeMsg where
  | createValidator (msg : CreateValidator)
  | editValidator (msg : EditValidator)
  | delegate (msg : Delegate)
  | undelegate (msg : Delegate)
  | collectRewards (delegatorAddress : Address)

/-- The address that has to sign the message. -/
def StakeMsg.signer : StakeMsg → Address
  | .createValidator msg => msg.validatorAddress
  | .editValidator msg => msg.validatorAddress
  | .delegate msg => msg.delegatorAddress
  | .undelegate msg => msg.delegatorAddress
  | .collectRewards delegatorAddress => delegatorAddress

/-- `DelegationIndex`. -/
structure DelegationIndex where
  validatorAddress : Address
  index : ℕ
  blockNum : ℕ
  deriving DecidableEq

/-- What the verification reads from the chain. -/
structure ChainContext where
  config : ChainConfig
  /-- `Config().IsMinDelegation100`. -/
  isMinDelegation100 : ℕ → Bool
  readValidatorList : Except Err (List Address)
  readDelegationsByDelegator : Address → Except Err (List DelegationIndex)
  /-- The wrapper of `ReadValidatorSnapshot`. -/
  readValidatorSnapshot : Address → Except Err ValidatorWrapper
  /-- The keys of `HmyAccounts` in an epoch. -/
  hmyKeys : ℕ → List BLSKey
  /-- `VerifyBLSKey`, of a signature of the fixed message.  A signature that cannot be read has
  an error of its own. -/
  verifyBLSKey : BLSKey → BLSSignature → Except Err Unit

/-- The RLP library on wrappers. -/
structure WrapperRlp where
  encode : ValidatorWrapper → Option (List UInt8)
  decode : List UInt8 → Option ValidatorWrapper
  decode_encode : ∀ w c, encode w = some c → decode c = some w
  encode_ne_nil : ∀ w c, encode w = some c → c ≠ []
  /-- The error for a value that the library does not read or write. -/
  err : Err

/-- What the database uses of wrappers. -/
def WrapperRlp.codec (rlp : WrapperRlp) : WrapperCodec ValidatorWrapper where
  sanityCheck w := w.sanityCheck.isOk
  encode := rlp.encode
  decode := rlp.decode
  decode_encode := rlp.decode_encode
  encode_ne_nil := rlp.encode_ne_nil

/-- A check of a staking message. -/
abbrev Check (α : Type) := Client.Check (State.interface ValidatorWrapper) Err α

variable (rlp : WrapperRlp) (bc : ChainContext)

/-- `ValidatorWrapperCopy`. -/
def validatorWrapperCopy (addr : Address) : Check ValidatorWrapper := do
  let code ← liftM (getCode (W := ValidatorWrapper) addr)
  if code = [] then throw (.msg "address not present in state")
  else
    match rlp.decode code with
    | none => throw rlp.err
    | some wrapper => pure wrapper

/-- An error of a sanity check. -/
def sanityErr (e : SanityError) : Err := .msg e.text

/-- The wrapper passes its sanity check. -/
def sane (w : ValidatorWrapper) : Check Unit := .ofExcept (w.sanityCheck.mapError sanityErr)

/-! ## Creating and editing -/

/-- The loop of `checkDuplicateFields`. -/
def checkDuplicates (validator : Address) (identity : String) (blsKeys : List BLSKey) :
    List Address → Check Unit
  | [] => pure ()
  | addr :: addrs =>
    if validator = addr then checkDuplicates validator identity blsKeys addrs
    else do
      let wrapper ← validatorWrapperCopy rlp addr
      if identity ≠ "" ∧ wrapper.description.identity = identity then
        throw (.msg "validator identity exists")
      else if ∃ key ∈ wrapper.slotPubKeys, key ∈ blsKeys then throw (.msg "BLS key exists")
      else checkDuplicates validator identity blsKeys addrs

/-- `checkDuplicateFields`. -/
def checkDuplicateFields (validator : Address) (identity : String) (blsKeys : List BLSKey) :
    Check Unit := do
  let addrs ← .ofExcept bc.readValidatorList
  checkDuplicates rlp validator identity blsKeys addrs

variable (epoch : ℕ)

/-- `matchesHarmonyBLSKey`. -/
def matchesHarmonyBLSKey (key : BLSKey) : Except Err Unit :=
  if key ∈ bc.hmyKeys epoch then .error (.msg "slot keys can not have duplicates") else .ok ()

/-- `VerifyBLSKeys`. -/
def verifyBLSKeys (pubKeys : List BLSKey) (pubKeySigs : List BLSSignature) : Except Err Unit :=
  if pubKeys.length ≠ pubKeySigs.length then
    .error (.msg "bls keys and corresponding signatures could not be verified")
  else (pubKeys.zip pubKeySigs).forM fun p => bc.verifyBLSKey p.1 p.2

/-- `CreateValidatorFromNewMsg`. -/
def createValidatorFromNewMsg (val : CreateValidator) (blockNum epoch : ℕ) :
    Except Err Validator := do
  (val.description.ensureLength).mapError sanityErr
  val.slotPubKeys.forM (matchesHarmonyBLSKey bc epoch)
  verifyBLSKeys bc val.slotPubKeys val.slotKeySigs
  return {
    address := val.validatorAddress
    slotPubKeys := val.slotPubKeys
    lastEpochInCommittee := 0
    minSelfDelegation := val.minSelfDelegation
    maxTotalDelegation := val.maxTotalDelegation
    status := .active
    rates := val.rates
    updateHeight := blockNum
    description := val.description
    creationHeight := blockNum }

/-- `VerifyAndCreateValidatorFromMsg`. -/
def verifyAndCreateValidatorFromMsg (blockNum : ℕ) (msg : CreateValidator) :
    Check ValidatorWrapper :=
  if msg.amount < 0 then throw (.msg "amount can not be negative")
  else do
    let exists_ ← liftM (isValidator (W := ValidatorWrapper) msg.validatorAddress)
    if exists_ = true then throw (.msg "staking validator already exists")
    else do
      checkDuplicateFields rlp bc msg.validatorAddress msg.description.identity msg.slotPubKeys
      let balance ← liftM (getBalance (W := ValidatorWrapper) msg.validatorAddress)
      if balance < msg.amount then throw (.msg "insufficient balance to stake")
      else do
        let v ← .ofExcept (createValidatorFromNewMsg bc msg blockNum epoch)
        let wrapper : ValidatorWrapper := {
          toValidator := v
          delegations := [newDelegation v.address msg.amount]
          numBlocksToSign := 0
          numBlocksSigned := 0
          blockReward := 0 }
        sane wrapper
        pure wrapper

/-- `UpdateDescription`: empty fields are not updated. -/
def updateDescription (d1 d2 : Description) : Except SanityError Description := do
  let newDesc : Description := {
    name := if d2.name ≠ "" then d2.name else d1.name
    identity := if d2.identity ≠ "" then d2.identity else d1.identity
    website := if d2.website ≠ "" then d2.website else d1.website
    securityContact := if d2.securityContact ≠ "" then d2.securityContact else d1.securityContact
    details := if d2.details ≠ "" then d2.details else d1.details }
  newDesc.ensureLength
  return newDesc

/-- An optional amount replaces the old one, unless it is zero. -/
def replaceAmount (new : Option ℤ) (old : ℤ) : ℤ :=
  match new with
  | some amount => if amount ≠ 0 then amount else old
  | none => old

/-- The part of `UpdateValidatorFromEditMsg` that removes a key. -/
def removeKey (key : Option BLSKey) (keys : List BLSKey) : Except Err (List BLSKey) :=
  match key with
  | none => .ok keys
  | some key =>
    if key ∈ keys then .ok (keys.erase key) else .error (.msg "slot key to remove not found")

/-- A key is added in `UpdateValidatorFromEditMsg`; one without signature is a nil dereference. -/
def addKey (key : Option BLSKey) (sig : Option BLSSignature) (keys : List BLSKey) :
    Except Err (List BLSKey) :=
  match key with
  | none => .ok keys
  | some key =>
    if key ∈ keys then .error (.msg "slot key to add already exists")
    else
      do
        matchesHarmonyBLSKey bc epoch key
        match sig with
        | none => throw (.msg "invalid memory address or nil pointer dereference")
        | some sig => bc.verifyBLSKey key sig
        return keys ++ [key]

/-- `UpdateValidatorFromEditMsg`. -/
def updateValidatorFromEditMsg (v : Validator) (edit : EditValidator) (epoch : ℕ) :
    Except Err Validator := do
  if v.address ≠ edit.validatorAddress then throw (.msg "validator key not match")
  let description ← (updateDescription v.description edit.description).mapError sanityErr
  let keys ← removeKey edit.slotKeyToRemove v.slotPubKeys
  let keys ← addKey bc epoch edit.slotKeyToAdd edit.slotKeyToAddSig keys
  if v.status = .banned then throw (.msg "cannot change validator banned status")
  return { v with
    description
    rates := { v.rates with rate := edit.commissionRate.getD v.rates.rate }
    minSelfDelegation := replaceAmount edit.minSelfDelegation v.minSelfDelegation
    maxTotalDelegation := replaceAmount edit.maxTotalDelegation v.maxTotalDelegation
    slotPubKeys := keys
    status := if edit.eposStatus = .active ∨ edit.eposStatus = .inactive then edit.eposStatus
      else v.status }

/-- `availability.MinCommissionRate`. -/
def minCommissionRate : Dec := ⟨5 * 10 ^ 16⟩

/-- `staking.FirstElectionEpochKey`. -/
def firstElectionEpochKey : Word :=
  0x76a6520f8e61245027e5f9fb30ba1bcaf232614c0f98c90ddae13627a573789b

/-- The minimal commission rate: the first election is read only below it. -/
def checkPromoPeriod (newRate : Dec) (validator : Address) : Check Unit :=
  if bc.config.isMinCommissionRate epoch = true ∧ newRate.int < minCommissionRate.int then do
    let firstEpoch ← liftM (getState (W := ValidatorWrapper) validator firstElectionEpochKey)
    if Core.PromoOver bc.config epoch firstEpoch.toNat then
      throw (.msg "commission rate can not be lower than min rate of 5%")
    else pure ()
  else pure ()

/-- The difference of two rates; one that is too large is a panic. -/
def rateChange (newRate oldRate : Dec) : Except Err Dec :=
  match newRate.sub oldRate with
  | none => .error (.msg "Int overflow")
  | some change => .ok change

/-- `VerifyAndEditValidatorFromMsg`. -/
def verifyAndEditValidatorFromMsg (blockNum : ℕ) (msg : EditValidator) :
    Check ValidatorWrapper := do
  let exists_ ← liftM (isValidator (W := ValidatorWrapper) msg.validatorAddress)
  if exists_ = false then throw (.msg "staking validator does not exist")
  else do
    checkDuplicateFields rlp bc msg.validatorAddress msg.description.identity
      msg.slotKeyToAdd.toList
    let wrapper ← validatorWrapperCopy rlp msg.validatorAddress
    let v ← .ofExcept (updateValidatorFromEditMsg bc wrapper.toValidator msg epoch)
    if v.rates.maxRate.int < v.rates.rate.int then
      throw (.msg "commission rate can not be higher than maximum commission rate")
    else do
      checkPromoPeriod bc epoch v.rates.rate msg.validatorAddress
      let snapshot ← .ofExcept (bc.readValidatorSnapshot v.address)
      let change ← .ofExcept (rateChange v.rates.rate snapshot.rates.rate)
      if v.rates.maxChangeRate.int < |change.int| then
        throw (.msg "change on commission rate can not be more than max change rate within the same epoch")
      else do
        let wrapper : ValidatorWrapper := { wrapper with
          toValidator := { v with updateHeight :=
            if snapshot.rates.rate.int ≠ v.rates.rate.int then blockNum else v.updateHeight } }
        sane wrapper
        pure wrapper

/-! ## Delegating -/

/-- `minimumDelegation`. -/
def minimumDelegation : ℤ := one * 1000

/-- `minimumDelegationV2`. -/
def minimumDelegationV2 : ℤ := one * 100

/-- The test of the smallest delegation. -/
def checkMinimum (amount : ℤ) : Except Err Unit :=
  if minimumDelegation ≤ amount then .ok ()
  else if bc.isMinDelegation100 epoch = true then
    if amount < minimumDelegationV2 then
      .error (.msg "minimum delegation amount for a delegator has to be greater than or equal to 100 ONE")
    else .ok ()
  else
    .error (.msg "minimum delegation amount for a delegator has to be greater than or equal to 1000 ONE")

/-- The wrapper with another delegation at the index. -/
def ValidatorWrapper.setDelegation (w : ValidatorWrapper) (i : ℕ) (d : Delegation) :
    ValidatorWrapper :=
  { w with delegations := w.delegations.set i d }

/-- `delegateBalance`, `updatedValidatorWrappers`, the position of `delegateeWrapper` in them, and
`fromLockedTokens`, later writes first. -/
structure Redelegation where
  balance : ℤ
  wrappers : List ValidatorWrapper
  delegatee : Option ℕ
  fromLocked : List (Address × ℤ)

/-- One delegation of the redelegation loop. -/
def redelegateFrom (validator : Address) (r : Redelegation) (at_ : DelegationIndex) :
    Check Redelegation := do
  let wrapper ← validatorWrapperCopy rlp at_.validatorAddress
  match wrapper.delegations[at_.index]? with
  | none => throw (.msg "Delegation index out of bound")
  | some delegation =>
    let (rest, kept) := drain epoch r.balance delegation.undelegations
    if rest < r.balance then do
      let wrapper := wrapper.setDelegation at_.index { delegation with undelegations := kept }
      sane wrapper
      pure {
        balance := rest
        wrappers := r.wrappers ++ [wrapper]
        delegatee := if at_.validatorAddress = validator then some r.wrappers.length
          else r.delegatee
        fromLocked := (at_.validatorAddress, r.balance - rest) :: r.fromLocked }
    else pure { r with balance := rest }

/-- The redelegation loop. -/
def redelegate (epoch : ℕ) (validator : Address) :
    Redelegation → List DelegationIndex → Check Redelegation
  | r, [] => pure r
  | r, at_ :: rest => do
    let r ← redelegateFrom rlp epoch validator r at_
    redelegate epoch validator r rest

/-- The loop that adds to the existing delegations.  It does not stop at the first, and the wrapper
is checked after each addition. -/
def creditFrom (delegator : Address) (amount : ℤ) (w : ValidatorWrapper) :
    (done rest : List Delegation) → (found : Bool) → Check (List Delegation × Bool)
  | done, [], found => pure (done, found)
  | done, d :: rest, found =>
    if d.delegatorAddress = delegator then do
      let d := { d with amount := d.amount + amount }
      sane { w with delegations := done ++ d :: rest }
      creditFrom delegator amount w (done ++ [d]) rest true
    else creditFrom delegator amount w (done ++ [d]) rest found

/-- The delegation is added to the delegatee. -/
def credit (delegator : Address) (amount : ℤ) (w : ValidatorWrapper) : Check ValidatorWrapper := do
  let r ← creditFrom delegator amount w [] w.delegations false
  if r.2 = true then pure { w with delegations := r.1 }
  else do
    let w := { w with delegations := r.1 ++ [newDelegation delegator amount] }
    sane w
    pure w

/-- The delegatee of the redelegation loop, or a fresh copy put behind the other wrappers. -/
def delegateeOf (validator : Address) (r : Redelegation) :
    Check (ValidatorWrapper × ℕ × List ValidatorWrapper) :=
  match r.delegatee.bind fun i => (r.wrappers[i]?).map fun w => (w, i) with
  | some (w, i) => pure (w, i, r.wrappers)
  | none => do
    let w ← validatorWrapperCopy rlp validator
    pure (w, r.wrappers.length, r.wrappers ++ [w])

/-- `VerifyAndDelegateFromMsg`: the wrappers, the balance and the locked tokens used. -/
def verifyAndDelegateFromMsg (msg : Delegate) (delegations : List DelegationIndex) :
    Check (List ValidatorWrapper × ℤ × List (Address × ℤ)) := do
  let exists_ ← liftM (isValidator (W := ValidatorWrapper) msg.validatorAddress)
  if exists_ = false then throw (.msg "staking validator does not exist")
  else if msg.amount < 0 then throw (.msg "amount can not be negative")
  else do
    .ofExcept (checkMinimum bc epoch msg.amount)
    let r ← redelegate rlp epoch msg.validatorAddress ⟨msg.amount, [], none, []⟩
      (if bc.config.isRedelegation epoch = true then delegations else [])
    let (delegatee, i, wrappers) ← delegateeOf rlp msg.validatorAddress r
    let delegatee ← credit msg.delegatorAddress msg.amount delegatee
    let wrappers := wrappers.set i delegatee
    if r.balance = 0 then pure (wrappers, 0, r.fromLocked)
    else do
      let balance ← liftM (getBalance (W := ValidatorWrapper) msg.delegatorAddress)
      if balance < r.balance then throw (.msg "insufficient balance to stake")
      else pure (wrappers, r.balance, r.fromLocked)

/-- An error of `Undelegate`. -/
def UndelegateError.err : UndelegateError → Err
  | .invalidAmount => .msg "invalid amount, must be positive"
  | .insufficientBalance => .msg "insufficient balance to undelegate"

/-- The wrapper after an undelegation: a self delegation below the minimum makes the validator
inactive. -/
def afterUndelegation (w : ValidatorWrapper) : Except Err ValidatorWrapper :=
  match w.sanityCheck with
  | .ok () => .ok w
  | .error .invalidSelfDelegation => .ok { w with status := .inactive }
  | .error e => .error (sanityErr e)

/-- `VerifyAndUndelegateFromMsg`. -/
def verifyAndUndelegateFromMsg (msg : Delegate) : Check ValidatorWrapper :=
  if msg.amount < 0 then throw (.msg "amount can not be negative")
  else do
    let exists_ ← liftM (isValidator (W := ValidatorWrapper) msg.validatorAddress)
    if exists_ = false then throw (.msg "staking validator does not exist")
    else do
      let wrapper ← validatorWrapperCopy rlp msg.validatorAddress
      let i := wrapper.delegations.findIdx fun d => d.delegatorAddress = msg.delegatorAddress
      match wrapper.delegations[i]? with
      | none => throw (.msg "no delegation to undelegate")
      | some d => do
        let d ← .ofExcept ((d.undelegate epoch msg.amount).mapError UndelegateError.err)
        .ofExcept (afterUndelegation (wrapper.setDelegation i d))

/-- The loop of `VerifyAndCollectRewardsFromDelegation`. -/
def collectFrom : (wrappers : List ValidatorWrapper) → (total : ℤ) → List DelegationIndex →
    Check (List ValidatorWrapper × ℤ)
  | wrappers, total, [] => pure (wrappers, total)
  | wrappers, total, at_ :: rest => do
    let wrapper ← validatorWrapperCopy rlp at_.validatorAddress
    match wrapper.delegations[at_.index]? with
    | none => throw (.msg "Delegation index out of bound")
    | some d =>
      if 0 < d.reward then
        collectFrom (wrappers ++ [wrapper.setDelegation at_.index { d with reward := 0 }])
          (total + d.reward) rest
      else collectFrom (wrappers ++ [wrapper]) total rest

/-- `VerifyAndCollectRewardsFromDelegation`; `Int64` of the total looks at its low 64 bits. -/
def verifyAndCollectRewardsFromDelegation (delegations : List DelegationIndex) :
    Check (List ValidatorWrapper × ℤ) := do
  let r ← collectFrom rlp [] 0 delegations
  if r.2 % 2 ^ 64 = 0 then throw (.msg "no rewards to collect") else pure r

/-! ## Applying a message -/

/-- `staking.IsValidator`, the value of the flag. -/
def isValidatorValue : Word := 0xdfb3c29a9b31d09777eaed3365c8f8bd976e5aa5658b151f0e3e8da7ed2ac99d

/-- `staking.DelegateTopic`. -/
def delegateTopic : Word := 0xa36cd118fa621634099632ba926f0f75121af3d58601d88d9dfb7a35a73c895f

/-- `staking.CollectRewardsTopic`. -/
def collectRewardsTopic : Word :=
  0xef0a8d7b9b8cbde3c16f5ea86afc300881518ffc9f6e8c8f6984e0037eec16fb

/-- The error of `UpdateValidatorWrapper`: the sanity check comes first. -/
def updateErr (w : ValidatorWrapper) : Err :=
  match w.sanityCheck with
  | .error e => sanityErr e
  | .ok () => rlp.err

/-- `UpdateValidatorWrapper` at the address of the wrapper. -/
def update (w : ValidatorWrapper) : Check Unit := do
  let ok ← liftM (updateValidatorWrapper w.address w)
  if ok = false then throw (updateErr rlp w) else pure ()

/-- The wrappers are stored one after the other. -/
def updateAll : List ValidatorWrapper → Check Unit
  | [] => pure ()
  | w :: ws => do
    update rlp w
    updateAll ws

/-- `common.Address.Bytes`. -/
def addressBytes (a : Address) : List UInt8 :=
  (List.range 20).map fun i => UInt8.ofNat (a.toNat / 256 ^ (19 - i))

/-- The locked tokens that were used, by address: a later write to the map replaces an earlier. -/
def lockedEntries (fromLocked : List (Address × ℤ)) : List (Address × ℤ) :=
  ((fromLocked.map (·.1)).dedup.mergeSort fun a b => a.toNat ≤ b.toNat).filterMap fun a =>
    (fromLocked.lookup a).map fun amount => (a, amount)

/-- The log of a redelegation. -/
def redelegationLog (delegator : Address) (entry : Address × ℤ) : State.EventLog :=
  ⟨delegator, [delegateTopic], addressBytes entry.1 ++ Rlp.natBytes entry.2.natAbs⟩

/-- The logs are added one after the other. -/
def addLogs : List State.EventLog → Check Unit
  | [] => pure ()
  | log :: logs => do
    liftM (addLog (W := ValidatorWrapper) log)
    addLogs logs

/-- The `verifyAndApply…Tx` of the message. -/
def applyMsg (blockNum : ℕ) : StakeMsg → Check Unit
  | .createValidator msg => do
    let wrapper ← verifyAndCreateValidatorFromMsg rlp bc epoch blockNum msg
    update rlp wrapper
    liftM (setState (W := ValidatorWrapper) msg.validatorAddress Core.isValidatorKey
      isValidatorValue)
    liftM (subBalance (W := ValidatorWrapper) msg.validatorAddress msg.amount)
  | .editValidator msg => do
    let wrapper ← verifyAndEditValidatorFromMsg rlp bc epoch blockNum msg
    update rlp wrapper
  | .delegate msg => do
    let delegations ← .ofExcept (bc.readDelegationsByDelegator msg.delegatorAddress)
    let r ← verifyAndDelegateFromMsg rlp bc epoch msg delegations
    updateAll rlp r.1
    liftM (subBalance (W := ValidatorWrapper) msg.delegatorAddress r.2.1)
    addLogs ((lockedEntries r.2.2).map (redelegationLog msg.delegatorAddress))
  | .undelegate msg => do
    let wrapper ← verifyAndUndelegateFromMsg rlp epoch msg
    update rlp wrapper
  | .collectRewards delegatorAddress => do
    let delegations ← .ofExcept (bc.readDelegationsByDelegator delegatorAddress)
    let r ← verifyAndCollectRewardsFromDelegation rlp delegations
    updateAll rlp r.1
    liftM (addBalance (W := ValidatorWrapper) delegatorAddress r.2)
    addLogs [⟨delegatorAddress, [collectRewardsTopic], Rlp.natBytes r.2.natAbs⟩]

/-- The staking code of `StakingTransitionDb`, over the decoder of messages. -/
def staking (decodeMsg : TransactionType → List UInt8 → Except Err StakeMsg) :
    Core.Staking ValidatorWrapper where
  decode type data := (decodeMsg type data).map StakeMsg.signer
  verifyAndApply ctx msg type :=
    match decodeMsg type msg.data with
    | .error e => pure (some e)
    | .ok stkMsg => do
      match ← (applyMsg rlp bc ctx.epochNumber msg.blockNum stkMsg).run with
      | .error e => return some e
      | .ok () => return none

end DyShard.Staking
