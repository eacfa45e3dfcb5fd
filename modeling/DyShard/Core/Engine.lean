import DyShard.Core.Types

/-!
# Finalising a block: `internal/chain`

Payouts, elections, rewards and slashes as one client of the state, which the proposer runs on a
copy and the validator on its state.  The chain that the engine reads, the reward of the staking
era and the slashes are parameters, and so are the fields of a wrapper.
-/

namespace DyShard.Core

open State (Client)

variable {W : Type}

/-- `staking.Undelegation`. -/
structure Undelegation where
  amount : ℤ
  epoch : ℤ

/-- `staking.Delegation`, without the amounts that finalising a block does not touch. -/
structure Delegation where
  delegatorAddress : Address
  undelegations : List Undelegation

/-- `Int64` of a big integer: its low 64 bits. -/
def int64 (x : ℤ) : ℤ := x.bmod (2 ^ 64)

/-- `RemoveUnlockedUndelegations`: the amount that is unlocked and what stays. -/
def removeUnlockedUndelegations (curEpoch lastEpochInCommittee lockPeriod : ℤ)
    (noEarlyUnlock : Bool) : List Undelegation → ℤ × List Undelegation
  | [] => (0, [])
  | u :: us =>
    if int64 (curEpoch - u.epoch) ≥ lockPeriod ∨
        (!noEarlyUnlock ∧ int64 (curEpoch - lastEpochInCommittee) ≥ lockPeriod) then
      let r := removeUnlockedUndelegations curEpoch lastEpochInCommittee lockPeriod noEarlyUnlock us
      (u.amount + r.1, r.2)
    else (0, u :: us)

/-- What the engine reads and writes in a validator wrapper. -/
structure WrapperFields (W : Type) where
  delegations : W → List Delegation
  setDelegations : List Delegation → W → W
  lastEpochInCommittee : W → ℤ
  setLastEpochInCommittee : ℤ → W → W
  /-- The commission rate is raised to the minimum. -/
  raiseRate : W → W
  isBanned : W → Bool
  /-- The validator is made inactive if it has signed too little since the snapshot. -/
  updateEPOSStatus : (snapshot : W) → W → W

/-- The engine with the chain it reads. -/
structure Engine (W : Type) where
  fields : WrapperFields W
  /-- The shard of the chain. -/
  shardID : ShardID
  readValidatorList : Option (List Address)
  /-- The staked validators of a decoded shard state, with its epoch. -/
  stakedValidators : (shardState : List UInt8) → Option (ℤ × List Address)
  /-- The staked validators of the current epoch. -/
  currentValidators : Option (List Address)
  readValidatorSnapshot : Address → Option W
  firstElectionEpochKey : Word
  /-- The number of the block with a given hash. -/
  numberOf : Word → Option ℕ
  /-- The signers of the parent block, by the bitmap in the header. -/
  signers : Preamble → Except Err (List Address)
  /-- The reward of the staking era. -/
  stakingReward : Preamble → Client W (Option Err)
  /-- `applySlashes`. -/
  applySlashes : Preamble → List SlashRecord → Client W (Option Err)

/-- A loop that stops at the first error. -/
def untilErr {α : Type} (f : α → Client W (Option Err)) : List α → Client W (Option Err)
  | [] => return none
  | a :: as => do
    match ← f a with
    | some e => return some e
    | none => untilErr f as

/-- The error of a validator without a wrapper. -/
def failedToGetValidator : Err :=
  .msg "[Finalize] failed to get validator from state to finalize"

/-! ## The end of an epoch -/

/-- `staking.LockPeriodInEpoch`. -/
def lockPeriodInEpoch : ℤ := 7

/-- `staking.LockPeriodInEpochV2`. -/
def lockPeriodInEpochV2 : ℤ := 0

variable (config : ChainConfig)

/-- `GetLockPeriodInEpoch`. -/
def getLockPeriodInEpoch (epoch : ℕ) : ℤ :=
  if config.isRedelegation epoch then lockPeriodInEpoch
  else if config.isQuickUnlock epoch then lockPeriodInEpochV2
  else lockPeriodInEpoch

/-- The inner loop of `payoutUndelegations`, over the delegations of a validator. -/
def payoutDelegations (remove : List Undelegation → ℤ × List Undelegation) :
    List Delegation → Client W (List Delegation)
  | [] => return []
  | d :: ds => do
    let totalWithdraw := (remove d.undelegations).1
    if totalWithdraw ≠ 0 then Client.addBalance d.delegatorAddress totalWithdraw
    let ds ← payoutDelegations remove ds
    return { d with undelegations := (remove d.undelegations).2 } :: ds

/-- `payoutUndelegations`. -/
def payoutUndelegations (engine : Engine W) (header : Preamble) : Client W (Option Err) :=
  match engine.readValidatorList with
  | none => return some (.msg "[Finalize] failed to read all validators")
  | some validators =>
    let lockPeriod := getLockPeriodInEpoch config header.epoch
    let noEarlyUnlock := config.isNoEarlyUnlock header.epoch
    validators |> untilErr fun validator => do
      match ← Client.validatorWrapper validator with
      | none => return some failedToGetValidator
      | some wrapper =>
        let remove := removeUnlockedUndelegations header.epoch
          (engine.fields.lastEpochInCommittee wrapper) lockPeriod noEarlyUnlock
        let delegations ← payoutDelegations remove (engine.fields.delegations wrapper)
        Client.putValidator validator (engine.fields.setDelegations delegations wrapper)
        return none

/-- `SetValidatorFirstElectionEpoch`: only the first one is set. -/
def setValidatorFirstElectionEpoch (key : Word) (addr : Address) (epoch : ℤ) : Client W Unit := do
  let firstEpoch ← Client.getState addr key
  if firstEpoch.setWidth 64 = 0 then Client.setState addr key (.ofInt 256 epoch)

/-- The validator has been elected, and the period has passed since the first election. -/
def PromoOver (epoch firstElectionEpoch : ℤ) : Prop :=
  firstElectionEpoch % 2 ^ 64 ≠ 0 ∧
    int64 (epoch - firstElectionEpoch) ≥ int64 config.minCommissionPromoPeriod

instance {epoch firstElectionEpoch : ℤ} : Decidable (PromoOver config epoch firstElectionEpoch) :=
  inferInstanceAs (Decidable (_ ∧ _))

/-- `UpdateMinimumCommissionFee`. -/
def updateMinimumCommissionFee (engine : Engine W) (electionEpoch : ℤ) (addr : Address) :
    Client W (Option Err) := do
  match ← Client.validatorWrapper addr with
  | none => return some failedToGetValidator
  | some wrapper =>
    let firstElectionEpoch ← Client.getState addr engine.firstElectionEpochKey
    if PromoOver config electionEpoch firstElectionEpoch.toNat then
      Client.putValidator addr (engine.fields.raiseRate wrapper)
    return none

/-- The body of the loop in `setElectionEpochAndMinFee`. -/
def electValidator (engine : Engine W) (epoch : ℤ) (addr : Address) : Client W (Option Err) := do
  match ← Client.validatorWrapper addr with
  | none => return some failedToGetValidator
  | some wrapper =>
    Client.putValidator addr (engine.fields.setLastEpochInCommittee epoch wrapper)
    if config.isMinCommissionRate epoch.toNat then
      setValidatorFirstElectionEpoch engine.firstElectionEpochKey addr epoch
      updateMinimumCommissionFee config engine epoch addr
    else return none

/-- `setElectionEpochAndMinFee`. -/
def setElectionEpochAndMinFee (engine : Engine W) (header : Preamble) : Client W (Option Err) :=
  match engine.stakedValidators header.shardState with
  | none => return some (.msg "[Finalize] failed to read shard state")
  | some (epoch, addrs) => untilErr (electValidator config engine epoch) addrs

/-- `ComputeAndMutateEPOSStatus`. -/
def computeAndMutateEPOSStatus (engine : Engine W) (addr : Address) : Client W (Option Err) := do
  match ← Client.validatorWrapper addr with
  | none => return some failedToGetValidator
  | some wrapper =>
    if engine.fields.isBanned wrapper then return none
    match engine.readValidatorSnapshot addr with
    | none => return some (.msg "no validator snapshot")
    | some snapshot =>
      Client.putValidator addr (engine.fields.updateEPOSStatus snapshot wrapper)
      return none

/-- `IsCommitteeSelectionBlock`. -/
def isCommitteeSelectionBlock (header : Preamble) : Bool :=
  header.shardID == beaconChainShardID && header.isLastBlockInEpoch &&
    config.isPreStaking header.epoch

/-- What `Finalize1` does in a committee selection block. -/
def selectCommittee (engine : Engine W) (header : Preamble) :
    Client W (Option Err) := do
  match ← payoutUndelegations config engine header with
  | some e => return some e
  | none =>
    match ← setElectionEpochAndMinFee config engine header with
    | some e => return some e
    | none =>
      match engine.currentValidators with
      | none => return some (.msg "cannot read shard state")
      | some addrs => untilErr (computeAndMutateEPOSStatus engine) addrs

/-! ## Rewards -/

/-- `stakingReward.PreStakedBlocks`. -/
def preStakedBlocks : ℤ := 24 * 10 ^ 18

/-- The loop that splits the reward among the signers, returning the total amount. -/
def payEvenly (count : ℤ) : (i : ℕ) → (last totalAmount : ℤ) → List Address → Client W ℤ
  | _, _, totalAmount, [] => return totalAmount
  | i, last, totalAmount, account :: signers => do
    let cur := preStakedBlocks * (i + 1) / count
    let diff := cur - last
    Client.addBalance account diff
    payEvenly count (i + 1) cur (totalAmount + diff) signers

/-- `AccumulateRewardsAndCountSigs`; `sigsReady` tells whether the commit signatures have
arrived. -/
def accumulateRewardsAndCountSigs (engine : Engine W) (header : Preamble) (sigsReady : Bool) :
    Client W (Option Err) := do
  let noSigs := Err.msg "Failed to get commit sigs"
  if header.number = 0 ∨ (config.isStaking header.epoch ∧ engine.shardID ≠ beaconChainShardID) then
    return if sigsReady then none else some noSigs
  else if config.isStaking header.epoch then
    if sigsReady then engine.stakingReward header else return some noSigs
  else
    match engine.numberOf header.parentHash with
    | none => return some (.msg "cannot find parent block header in DB")
    | some 0 => return none
    | some _ =>
      if !sigsReady then return some noSigs
      match engine.signers header with
      | .error e => return some e
      | .ok signers =>
        let totalAmount ← payEvenly signers.length 0 0 0 signers
        return if totalAmount = preStakedBlocks then none
          else some (.msg "total payout not equal to blockreward")

/-- The part of `Finalize1` that works on the state. -/
def Engine.finalizeState (engine : Engine W) (config : ChainConfig) (header : Preamble)
    (doubleSigners : List SlashRecord) (sigsReady : Bool) : Client W (Option Err) := do
  let isBeaconChain := header.shardID == beaconChainShardID
  let inStakingEra := config.isStaking header.epoch
  let err ← if isCommitteeSelectionBlock config header then selectCommittee config engine header
    else pure none
  match err with
  | some e => return some e
  | none =>
    match ← accumulateRewardsAndCountSigs config engine header sigsReady with
    | some e => return some e
    | none =>
      if doubleSigners = [] then return none
      else if isBeaconChain && inStakingEra then engine.applySlashes header doubleSigners
      else return some (.msg "slashes proposed in non-beacon chain or non-staking epoch")

end DyShard.Core
