import DyShard.Atomic.Transaction
import DyShard.Load.LoadMapDB
import DyShard.State.DB

/-!
# Transactions, receipts, headers and blocks

The records that the execution of a block reads and writes.  The hash functions are parameters
(`Hashing`), what the source keeps encoded is kept decoded where it is decoded, and a signature is
the address it recovers to.

Left out: the hashes of the block body and the proofs of receipts, which are checked before.
-/

namespace DyShard.Core

/-! ## Configuration -/

/-- `params.ChainConfig`: the epochs of the forks that the modelled functions ask for. -/
structure ChainConfig where
  chainID : ℕ
  ethCompatibleChainID : ℕ
  s3Epoch : ℕ
  istanbulEpoch : ℕ
  eip155Epoch : ℕ
  ethCompatibleEpoch : ℕ
  crossTxEpoch : ℕ
  preStakingEpoch : ℕ
  stakingEpoch : ℕ
  redelegationEpoch : ℕ
  quickUnlockEpoch : ℕ
  noEarlyUnlockEpoch : ℕ
  minCommissionRateEpoch : ℕ
  minCommissionPromoPeriod : ℤ
  receiptLogEpoch : ℕ

/-- The forks have happened, those of staking at `epoch`. -/
def ChainConfig.forked (epoch : ℕ) : ChainConfig :=
  ⟨1, 2, 0, 0, 0, 0, 0, epoch, epoch, epoch, epoch, epoch, epoch, 0, 0⟩

/-- `isForked`. -/
def isForked (s epoch : ℕ) : Bool := decide (s ≤ epoch)

namespace ChainConfig

variable (c : ChainConfig) (epoch : ℕ)

/-- `IsS3`. -/
def isS3 : Bool := isForked c.s3Epoch epoch

/-- `IsIstanbul`. -/
def isIstanbul : Bool := isForked c.istanbulEpoch epoch

/-- `IsEIP155`. -/
def isEIP155 : Bool := isForked c.eip155Epoch epoch

/-- `IsEthCompatible`. -/
def isEthCompatible : Bool := isForked c.ethCompatibleEpoch epoch

/-- `AcceptsCrossTx`: one epoch after `CrossTxEpoch`. -/
def acceptsCrossTx : Bool := isForked (c.crossTxEpoch + 1) epoch

/-- `IsPreStaking`. -/
def isPreStaking : Bool := isForked c.preStakingEpoch epoch

/-- `IsStaking`. -/
def isStaking : Bool := isForked c.stakingEpoch epoch

/-- `IsRedelegation`. -/
def isRedelegation : Bool := isForked c.redelegationEpoch epoch

/-- `IsQuickUnlock`. -/
def isQuickUnlock : Bool := isForked c.quickUnlockEpoch epoch

/-- `IsNoEarlyUnlock`. -/
def isNoEarlyUnlock : Bool := isForked c.noEarlyUnlockEpoch epoch

/-- `IsMinCommissionRate`. -/
def isMinCommissionRate : Bool := isForked c.minCommissionRateEpoch epoch

/-- `IsReceiptLog`. -/
def isReceiptLog : Bool := isForked c.receiptLogEpoch epoch

end ChainConfig

/-- The errors of the execution: the ones the source compares with, and texts. -/
inductive Err where
  | nonceTooHigh
  | nonceTooLow
  | insufficientBalanceForGas
  | gasLimitReached
  | outOfGas
  | insufficientBalance
  | invalidSigner
  | invalidStakingKind
  | nilReceipt
  | msg (text : String)
  deriving DecidableEq

/-! ## Transactions -/

/-- `types.TransactionType`. -/
inductive TransactionType where
  | sameShardTx
  | subtractionOnly
  | invalidTx
  | stakeCreateVal
  | stakeEditVal
  | delegate
  | undelegate
  | collectRewards
  deriving DecidableEq

/-- `types.Signer`. -/
inductive Signer where
  | eip155 (chainID : ℕ)
  | frontier

/-- `MakeSigner`. -/
def makeSigner (config : ChainConfig) (epoch : ℕ) : Signer :=
  if config.isEIP155 epoch then .eip155 config.chainID else .frontier

/-- `types.Transaction`. -/
structure Transaction where
  hash : Word
  nonce : UInt64
  gasPrice : ℤ
  gasLimit : UInt64
  recipient : Option Address
  value : ℤ
  data : List UInt8
  shardID : ShardID
  toShardID : ShardID
  isEthCompatible : Bool
  isProtected : Bool
  /-- The address the signature recovers to, if it does. -/
  sender : Signer → Except Err Address

/-- `staking.StakingTransaction`; `stakingType` is its type under `StakingTypeMap`. -/
structure StakingTransaction where
  hash : Word
  nonce : UInt64
  gasPrice : ℤ
  gasLimit : UInt64
  stakingType : Option TransactionType
  payload : Except Err (List UInt8)
  isProtected : Bool
  senderAddress : Except Err Address

/-- `types.Message`; the type is set for staking messages only. -/
structure Message where
  sender : Address
  recipient : Option Address
  nonce : UInt64
  value : ℤ
  gas : UInt64
  gasPrice : ℤ
  data : List UInt8
  checkNonce : Bool
  type : Option TransactionType
  blockNum : ℕ

/-- `Transaction.AsMessage`. -/
def Transaction.asMessage (tx : Transaction) (s : Signer) : Except Err Message := do
  let sender ← tx.sender s
  pure {
    sender
    recipient := tx.recipient
    nonce := tx.nonce
    value := tx.value
    gas := tx.gasLimit
    gasPrice := tx.gasPrice
    data := tx.data
    checkNonce := true
    type := none
    blockNum := 0 }

/-- `StakingToMessage`. -/
def stakingToMessage (tx : StakingTransaction) (blockNum : ℕ) : Except Err Message := do
  let data ← tx.payload
  let sender ← tx.senderAddress
  match tx.stakingType with
  | none => throw .invalidStakingKind
  | some type =>
    pure {
      sender
      recipient := none
      nonce := tx.nonce
      value := 0
      gas := tx.gasLimit
      gasPrice := tx.gasPrice
      data
      checkNonce := true
      type := some type
      blockNum }

/-! ## Receipts -/

/-- A Bloom filter. -/
abbrev Bloom := BitVec 2048

/-- `types.Receipt`.  A root that was not computed is `none`. -/
structure Receipt (H : Type) where
  postState : Option H
  failed : Bool
  cumulativeGasUsed : UInt64
  bloom : Bloom := 0
  logs : List State.EventLog := []
  txHash : Word
  contractAddress : Option Address := none
  gasUsed : UInt64

/-- `types.CXReceipt`. -/
structure CXReceipt where
  txHash : Word
  sender : Address
  recipient : Option Address
  shardID : ShardID
  toShardID : ShardID
  amount : ℤ

/-- `types.CXReceiptsProof`: its receipts, each of which may be nil. -/
structure CXReceiptsProof where
  receipts : List (Option CXReceipt)

/-- The hash functions of a block. -/
structure Hashing (H : Type) where
  stateRoot : (Address → Option State.Account) → H
  loadMapRoot : Load.Trie → H
  emptyRootHash : H
  deriveSha : List (Receipt H) → H
  createBloom : List (Receipt H) → Bloom
  computeMerkleRoot : List CXReceipt → H
  deriveMultipleShardsSha : List CXReceipt → H
  stateTransferTxHash : Atomic.StateTransferTransaction → Word
  deriveSha_nil : deriveSha [] = emptyRootHash
  createBloom_nil : createBloom [] = 0

/-! ## Blocks -/

/-- A slash record, by its encoding. -/
abbrev SlashRecord := List UInt8

/-- The header fields before the block is finalised; `slashes` is `none` if it does not decode. -/
structure Preamble where
  parentHash : Word
  number : ℕ
  epoch : ℕ
  shardID : ShardID
  time : ℕ
  gasLimit : UInt64
  vrf : List UInt8
  coinbase : Address
  lastCommitBitmap : List UInt8
  crossLinks : List UInt8
  shardState : List UInt8
  slashes : Option (List SlashRecord)

/-- `IsLastBlockInEpoch`. -/
def Preamble.isLastBlockInEpoch (h : Preamble) : Bool := h.shardState ≠ []

/-- `block.Header`. -/
structure Header (H : Type) extends Preamble where
  viewID : UInt64
  gasUsed : UInt64
  root : H
  loadMapRoot : H
  receiptHash : H
  outgoingReceiptHash : H
  bloom : Bloom

/-- `types.Block`. -/
structure Block (H : Type) where
  header : Header H
  transactions : List Transaction
  stakingTransactions : List StakingTransaction
  stateTransferTransactions : List Atomic.StateTransferTransaction
  incomingReceipts : List (Option CXReceiptsProof)

end DyShard.Core
