import DyShard.Core.Engine
import DyShard.Core.StateTransition
import DyShard.Lib.Outcome
import DyShard.Load.Binding

/-!
# Executing a block: `core/state_processor.go` and `core/block_validator.go`

The clients of the state run on a machine `M`.  The code runs them on the database itself; a
restriction of that machine says that its clients keep away from an account.  An error comes with
the state and the gas pool as they are then, because the proposer goes on with them.
-/

namespace DyShard.Core

open State

open State (DB Client)
open Atomic (StateTransferTransaction)
open Load (LoadMapDB)

variable {W H : Type}

/-- The chain a block is executed on. -/
structure Chain (W H : Type) where
  config : ChainConfig
  codec : WrapperCodec W
  evm : EVM W
  staking : Staking W
  engine : Engine W
  hashing : Hashing H
  /-- `shard.Schedule.InstanceForEpoch(epoch).NumShards()`. -/
  numShards : ℕ → UInt32
  /-- `crypto.CreateAddress`. -/
  createAddress : Address → UInt64 → Address
  /-- The member of a committee that a coinbase address belongs to. -/
  committeeMember : (epoch : ℕ) → ShardID → (coinbase : Address) → Except Err Address

/-- Where the clients of the state run. -/
abbrev StateMachine (W : Type) := Client.Machine (interface W) (DB W)

namespace Chain

variable (chain : Chain W H)

/-- `GetECDSAFromCoinbase`. -/
def getECDSAFromCoinbase (header : Preamble) : Except Err Address :=
  if chain.config.isStaking header.epoch then
    chain.committeeMember header.epoch header.shardID header.coinbase
  else .ok header.coinbase

/-- The end of a transaction: after S3 the state is finalised, before that its root is
computed. -/
def settle (epoch : ℕ) (db : DB W) : DB W × Option H :=
  if chain.config.isS3 epoch then (db.finalise chain.codec true, none)
  else
    let db := db.intermediateRoot chain.codec false
    (db, some (chain.hashing.stateRoot db.trie))

end Chain

/-! ## Transactions -/

variable (chain : Chain W H)

/-- `getTransactionType`. -/
def getTransactionType (header : Preamble) (tx : Transaction) : TransactionType :=
  if header.shardID = tx.shardID ∧
      (!chain.config.acceptsCrossTx header.epoch ∨ tx.shardID = tx.toShardID) then .sameShardTx
  else if tx.shardID ≠ tx.toShardID ∧ header.shardID = tx.shardID ∧
      tx.toShardID < chain.numShards header.epoch then .subtractionOnly
  else .invalidTx

/-- The checks of `ApplyTransaction` that come before the EVM. -/
def toMessage (header : Preamble) (tx : Transaction) : Except Err (TransactionType × Message) :=
  let txType := getTransactionType chain header tx
  if txType = .invalidTx then .error (.msg "Invalid Transaction Type")
  else if txType ≠ .sameShardTx ∧ !chain.config.acceptsCrossTx header.epoch then
    .error (.msg "cannot handle cross-shard transaction")
  else if tx.isEthCompatible ∧ !chain.config.isEthCompatible header.epoch then
    .error (.msg "ethereum compatible transactions not supported at current epoch")
  else
    let signer :=
      if tx.isEthCompatible then .eip155 chain.config.ethCompatibleChainID
      else makeSigner chain.config header.epoch
    (tx.asMessage signer).map fun msg => (txType, msg)

/-- The state, the gas pool and the result of applying a transaction. -/
structure Applied (W β : Type) where
  db : DB W
  gp : UInt64
  result : Except Err β

/-- A transition is run; without an error the state is settled and `finish` builds the result. -/
def applyTransition {β γ : Type} (M : StateMachine W) (epoch : ℕ)
    (transition : UInt64 → Client W (Spent β)) (finish : DB W → Option H → β → γ) (gp : UInt64)
    (db : DB W) : Option (Applied W γ) := do
  let (spent, db) ← M.run (transition gp) db
  let gp ← spent.pool gp
  match spent.result with
  | .error e => some ⟨db, gp, .error e⟩
  | .ok b =>
    let (db, root) := chain.settle epoch db
    some ⟨db, gp, .ok (finish db root b)⟩

/-- The receipt of a plain transaction. -/
def txReceipt (header : Preamble) (tx : Transaction) (msg : Message) (usedGas : UInt64) (db : DB W)
    (root : Option H) (result : ExecutionResult) : Receipt H :=
  let receipt : Receipt H := {
    postState := root
    failed := result.vmErr.isSome
    cumulativeGasUsed := usedGas
    txHash := tx.hash
    gasUsed := result.usedGas
    contractAddress :=
      if msg.recipient.isNone then some (chain.createAddress msg.sender tx.nonce) else none
    logs := if chain.config.isReceiptLog header.epoch then db.getLogs tx.hash else [] }
  { receipt with bloom := chain.hashing.createBloom [receipt] }

/-- The cross-shard receipt of a plain transaction. -/
def cxReceipt (txType : TransactionType) (tx : Transaction) (msg : Message)
    (result : ExecutionResult) : Option CXReceipt :=
  if txType = .subtractionOnly ∧ result.vmErr.isNone then
    some ⟨tx.hash, msg.sender, msg.recipient, tx.shardID, tx.toShardID, msg.value⟩
  else none

/-- `ApplyTransaction`, returning the receipt, the cross-shard receipt and the new
`*usedGas`. -/
def applyTransaction (M : StateMachine W) (author : Address) (gp : UInt64) (db : DB W)
    (header : Preamble) (tx : Transaction) (usedGas : UInt64) :
    Option (Applied W (Receipt H × Option CXReceipt × UInt64)) :=
  match toMessage chain header tx with
  | .error e => some ⟨db, gp, .error e⟩
  | .ok (txType, msg) =>
    let ctx := newEVMContext msg header author txType
    applyTransition chain M header.epoch (transitionDb chain.config chain.evm ctx msg)
      (fun db root result =>
        let usedGas := usedGas + result.usedGas
        (txReceipt chain header tx msg usedGas db root result, cxReceipt txType tx msg result,
          usedGas)) gp db

/-- The receipt of a staking transaction; its Bloom filter is not set. -/
def stakingReceipt (header : Preamble) (tx : StakingTransaction) (usedGas : UInt64) (db : DB W)
    (root : Option H) (gas : UInt64) : Receipt H where
  postState := root
  failed := false
  cumulativeGasUsed := usedGas
  txHash := tx.hash
  gasUsed := gas
  logs := if chain.config.isReceiptLog header.epoch then db.getLogs tx.hash else []

/-- `ApplyStakingTransaction`, returning the receipt and the new `*usedGas`. -/
def applyStakingTransaction (M : StateMachine W) (author : Address) (gp : UInt64) (db : DB W)
    (header : Preamble) (tx : StakingTransaction) (usedGas : UInt64) :
    Option (Applied W (Receipt H × UInt64)) :=
  match stakingToMessage tx header.number with
  | .error e => some ⟨db, gp, .error e⟩
  | .ok msg =>
    let ctx := newEVMContext msg header author .sameShardTx
    applyTransition chain M header.epoch (stakingTransitionDb chain.config chain.staking ctx msg)
      (fun db root gas =>
        (stakingReceipt chain header tx (usedGas + gas) db root gas, usedGas + gas)) gp db

/-! ## Incoming receipts -/

/-- One turn of the loop of `ApplyIncomingReceipt`. -/
def applyCXReceipt (header : Preamble) (db : DB W) (cx : Option CXReceipt) : Outcome Err (DB W) :=
  match cx with
  | none => .error (.msg "ApplyIncomingReceipts: Invalid incomingReceipt!")
  | some cx =>
    match cx.recipient with
    | none => .error (.msg "ApplyIncomingReceipts: Invalid incomingReceipt!")
    | some to_ =>
      let db := if db.exist to_ then db else db.createAccount to_
      let db := db.addBalance to_ cx.amount
      .ok (db.intermediateRoot chain.codec (chain.config.isS3 header.epoch))

/-- `ApplyIncomingReceipt`. -/
def applyIncomingReceipt (header : Preamble) (db : DB W) (cxp : Option CXReceiptsProof) :
    Outcome Err (DB W) :=
  match cxp with
  | none => .ok db
  | some cxp => cxp.receipts.foldlM (applyCXReceipt chain header) db

/-! ## State-transfer transactions -/

/-- The receipt of a state-transfer transaction. -/
def stateTransferReceipt (stx : StateTransferTransaction) (root : Option H) :
    Receipt H where
  postState := root
  failed := false
  cumulativeGasUsed := 0
  txHash := chain.hashing.stateTransferTxHash stx
  gasUsed := 0

/-- The freeze of an account on its source shard. -/
def freezeAccount (db : DB W) (addr : Address) : DB W :=
  let db := if db.exist addr then db else (db.createAccount addr).setBalance addr 0
  db.setFreezeState addr true

/-- The account on the target shard takes over the balance and the nonce of the commit. -/
def installAccount (db : DB W) (addr : Address) (balance : ℤ) (nonce : UInt64) : DB W :=
  let db := if db.exist addr then db else db.createAccount addr
  ((db.setFreezeState addr false).setBalance addr balance).setNonce addr nonce

/-- The entry of the load map. -/
def mapAccount (lm : LoadMapDB) (stx : StateTransferTransaction) : LoadMapDB :=
  let lm := if lm.exist stx.address then lm else lm.createMapAccount stx.address
  lm.setTargetShardID stx.address stx.targetShardID

/-- `ApplyStateTransferTransaction`, without errors.  A commit without a balance leaves a nil
pointer: `Finalise(true)` dereferences it if the nonce is zero, otherwise it is stored as zero. -/
def applyStateTransferTransaction (db : DB W) (header : Preamble) (lm : LoadMapDB)
    (stx : StateTransferTransaction) : Option (DB W × LoadMapDB × Receipt H) :=
  let isS3 := chain.config.isS3 header.epoch
  let receipt := stateTransferReceipt chain stx
  if header.shardID = stx.sourceShardID then
    if stx.toFreeze then
      let (db, root) := chain.settle header.epoch (freezeAccount db stx.address)
      some (db, lm, receipt root)
    else
      let lm := mapAccount lm stx
      if isS3 then some (db, lm.finalise true, receipt none)
      else
        let lm := lm.intermediateRoot false
        some (db, lm, receipt (some (chain.hashing.loadMapRoot lm.trie)))
  else if header.shardID = stx.targetShardID then
    if stx.toFreeze then
      let (db, root) := chain.settle header.epoch db
      some (db, lm, receipt root)
    else if isS3 && stx.nonce == 0 && stx.balance.isNone then none
    else
      let (db, root) := chain.settle header.epoch
        (installAccount db stx.address (stx.balance.getD 0) stx.nonce)
      let lm := mapAccount lm stx
      some (db, if isS3 then lm.finalise true else lm, receipt root)
  else some (db, lm, receipt none)

/-! ## Finalising -/

/-- `NewBlock1`; the block is nil if the receipts do not match the transactions. -/
def newBlock1 (header : Header H) (txs : List Transaction) (receipts : List (Receipt H))
    (outcxs : List CXReceipt) (incxs : List (Option CXReceiptsProof))
    (stks : List StakingTransaction) (sttxs : List StateTransferTransaction) : Option (Block H) :=
  if receipts.length ≠ txs.length + stks.length + sttxs.length then none
  else some {
    header := { header with
      receiptHash :=
        if receipts = [] then chain.hashing.emptyRootHash else chain.hashing.deriveSha receipts
      bloom := if receipts = [] then header.bloom else chain.hashing.createBloom receipts
      outgoingReceiptHash := chain.hashing.computeMerkleRoot outcxs }
    transactions := txs
    stakingTransactions := stks
    stateTransferTransactions := sttxs
    incomingReceipts := incxs }

/-- The state and the load map after `Finalize1`, and its block. -/
structure Finalized (W H : Type) where
  db : DB W
  loadmapdb : LoadMapDB
  block : Option (Block H)

/-- `Finalize1`. -/
def finalize1 (M : StateMachine W) (header : Header H) (db : DB W) (lm : LoadMapDB)
    (txs : List Transaction) (receipts : List (Receipt H)) (outcxs : List CXReceipt)
    (incxs : List (Option CXReceiptsProof)) (stks : List StakingTransaction)
    (sttxs : List StateTransferTransaction) (doubleSigners : List SlashRecord) (sigsReady : Bool)
    (viewID : UInt64) :
    Outcome Err (Finalized W H) := do
  let isS3 := chain.config.isS3 header.epoch
  let (err, db) ← .ofOption <|
    M.run (chain.engine.finalizeState chain.config header.toPreamble doubleSigners sigsReady) db
  match err with
  | some e => .error e
  | none =>
    let db := db.intermediateRoot chain.codec isS3
    let lm := lm.intermediateRoot isS3
    let header := { header with
      viewID
      root := chain.hashing.stateRoot db.trie
      loadMapRoot := chain.hashing.loadMapRoot lm.trie }
    pure ⟨db, lm, newBlock1 chain header txs receipts outcxs incxs stks sttxs⟩

/-! ## Process1 -/

/-- The variables of `Process1`. -/
structure Progress (W H : Type) where
  db : DB W
  loadmapdb : LoadMapDB
  gp : UInt64
  usedGas : UInt64 := 0
  receipts : List (Receipt H) := []
  outcxs : List CXReceipt := []
  allLogs : List EventLog := []

/-- One turn of the loop over the transactions. -/
def processTransaction (M : StateMachine W) (beneficiary : Address) (header : Preamble)
    (p : Progress W H) (tx : Transaction × ℕ) : Outcome Err (Progress W H) := do
  let applied ← .ofOption <| applyTransaction chain M beneficiary p.gp
    (p.db.prepare tx.1.hash tx.2) header tx.1 p.usedGas
  let (receipt, cx, usedGas) ← .ofExcept applied.result
  pure { p with
    db := applied.db
    gp := applied.gp
    usedGas
    receipts := p.receipts ++ [receipt]
    outcxs := p.outcxs ++ cx.toList
    allLogs := p.allLogs ++ receipt.logs }

/-- One turn of the loop over the staking transactions. -/
def processStakingTransaction (M : StateMachine W) (beneficiary : Address) (header : Preamble)
    (p : Progress W H) (tx : StakingTransaction × ℕ) :
    Outcome Err (Progress W H) := do
  let applied ← .ofOption <| applyStakingTransaction chain M beneficiary p.gp
    (p.db.prepare tx.1.hash tx.2) header tx.1 p.usedGas
  let (receipt, usedGas) ← .ofExcept applied.result
  pure { p with
    db := applied.db
    gp := applied.gp
    usedGas
    receipts := p.receipts ++ [receipt]
    allLogs := p.allLogs ++ receipt.logs }

/-- One turn of the loop over the state-transfer transactions. -/
def processStateTransferTransaction (header : Preamble) (p : Progress W H)
    (stx : StateTransferTransaction × ℕ) : Outcome Err (Progress W H) := do
  let (db, loadmapdb, receipt) ← .ofOption <| applyStateTransferTransaction chain
    (p.db.prepare (chain.hashing.stateTransferTxHash stx.1) stx.2) header p.loadmapdb stx.1
  pure { p with
    db
    loadmapdb
    receipts := p.receipts ++ [receipt]
    allLogs := p.allLogs ++ receipt.logs }

/-- One turn of the loop over the incoming receipts. -/
def processIncomingReceipt (header : Preamble) (p : Progress W H) (cx : Option CXReceiptsProof) :
    Outcome Err (Progress W H) :=
  match applyIncomingReceipt chain header p.db cx with
  | .panic => .panic
  | .error _ => .error (.msg "[Process] Cannot apply incoming receipts")
  | .ok db => .ok { p with db }

/-- What `Process1` leaves and returns. -/
structure Processed (W H : Type) where
  db : DB W
  loadmapdb : LoadMapDB
  receipts : List (Receipt H)
  cxReceipts : List CXReceipt
  allLogs : List EventLog
  usedGas : UInt64

/-- The first loops of `Process1`: the plain and the staking transactions. -/
def executeTransactions (M : StateMachine W) (block : Block H) (db : DB W) (lm : LoadMapDB) :
    Outcome Err (Progress W H) := do
  let header := block.header.toPreamble
  let beneficiary ← .ofExcept (chain.getECDSAFromCoinbase header)
  let p : Progress W H := { db, loadmapdb := lm, gp := header.gasLimit }
  let p ← block.transactions.zipIdx.foldlM (processTransaction chain M beneficiary header) p
  (block.stakingTransactions.zipIdx block.transactions.length).foldlM
    (processStakingTransaction chain M beneficiary header) p

/-- The state-transfer transactions of a block with their indices. -/
def Block.transfers (block : Block H) : List (StateTransferTransaction × ℕ) :=
  block.stateTransferTransactions.zipIdx
    (block.transactions.length + block.stakingTransactions.length)

/-- The loops of `Process1`. -/
def executeBlock (M : StateMachine W) (block : Block H) (db : DB W) (lm : LoadMapDB) :
    Outcome Err (Progress W H) := do
  let header := block.header.toPreamble
  let p ← executeTransactions chain M block db lm
  let p ← block.transfers.foldlM (processStateTransferTransaction chain header) p
  block.incomingReceipts.foldlM (processIncomingReceipt chain header) p

/-- The end of `Process1`: the slashes are decoded and the block is finalised. -/
def finalizeBlock (M : StateMachine W) (block : Block H) (p : Progress W H) :
    Outcome Err (Processed W H) :=
  match block.header.slashes with
  | none => .error (.msg "[Process] Cannot finalize block")
  | some slashes =>
    match finalize1 chain M block.header p.db p.loadmapdb block.transactions p.receipts p.outcxs
      block.incomingReceipts block.stakingTransactions block.stateTransferTransactions slashes true
      block.header.viewID with
    | .panic => .panic
    | .error _ => .error (.msg "[Process] Cannot finalize block")
    | .ok f => .ok ⟨f.db, f.loadmapdb, p.receipts, p.outcxs, p.allLogs, p.usedGas⟩

/-- `Process1` with the clients of the state run on `M`. -/
def process1On (M : StateMachine W) (block : Block H) (db : DB W) (lm : LoadMapDB) :
    Outcome Err (Processed W H) := do
  let p ← executeBlock chain M block db lm
  finalizeBlock chain M block p

/-- `Process1`. -/
def process1 (block : Block H) (db : DB W) (lm : LoadMapDB) :
    Outcome Err (Processed W H) := process1On chain (DB.machine chain.codec) block db lm

/-! ## Validation -/

/-- `ValidateState`. -/
def validateState [DecidableEq H] (block : Block H) (db : DB W) (receipts : List (Receipt H))
    (cxReceipts : List CXReceipt) (usedGas : UInt64) : Except Err Unit :=
  let header := block.header
  if header.gasUsed ≠ usedGas then .error (.msg "invalid gas used")
  else if header.bloom ≠ chain.hashing.createBloom receipts then .error (.msg "invalid bloom")
  else if header.receiptHash ≠ chain.hashing.deriveSha receipts then
    .error (.msg "invalid receipt root hash")
  else if chain.config.acceptsCrossTx header.epoch ∧
      header.outgoingReceiptHash ≠ chain.hashing.computeMerkleRoot cxReceipts ∧
      header.outgoingReceiptHash ≠ chain.hashing.deriveMultipleShardsSha cxReceipts then
    .error (.msg "invalid cross shard receipt root hash")
  else if header.root ≠ chain.hashing.stateRoot
      (db.intermediateRoot chain.codec (chain.config.isS3 header.epoch)).trie then
    .error (.msg "invalid merkle root of StateDB")
  else .ok ()

/-- A block is executed and both of its roots are validated. -/
def accepts [DecidableEq H] (block : Block H) (db : DB W) (lm : LoadMapDB) : Bool :=
  match process1 chain block db lm with
  | .ok p =>
    (validateState chain block p.db p.receipts p.cxReceipts p.usedGas).isOk &&
      (p.loadmapdb.validateLoadMapState chain.hashing.loadMapRoot block.header.loadMapRoot
        (chain.config.isS3 block.header.epoch)).isOk
  | _ => false

end DyShard.Core
