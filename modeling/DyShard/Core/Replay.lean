import DyShard.Core.Freeze

/-!
# How often a migration is executed

A node accepts a block that is new, linked, hashed rightly and executed to the roots in its header.
Nothing looks at the index of a state-transfer transaction.
-/

namespace DyShard.Core

open State (DB Account)
open Atomic (StateTransferTransaction)
open Load (LoadMapDB)
open Transition List

variable {W H : Type}

/-! ## Acceptance of a block -/

/-- A block with the hashes of its transactions, which are part of its header. -/
structure SealedBlock (H : Type) extends Block H where
  txHash : H
  stateTransferTxHash : H

/-- The hash functions of headers and transactions. -/
structure BodyHashing (H : Type) where
  headerHash : Header H → H → H → Word
  deriveShaTransactions : List Transaction → List StakingTransaction → H
  deriveShaTransfers : List StateTransferTransaction → H

/-- The blocks of a node, the newest first, and the roots that the databases have. -/
structure BlockChain (H : Type) where
  blocks : List (SealedBlock H × Tip)
  states : List H
  loadMaps : List H

/-- `Block.Hash`. -/
def SealedBlock.hash (hashing : BodyHashing H) (b : SealedBlock H) : Word :=
  hashing.headerHash b.header b.txHash b.stateTransferTxHash

namespace BlockChain

variable (hashing : BodyHashing H) (bc : BlockChain H) (hash : Word) (number : ℕ)

/-- `GetBlock`, with the state. -/
def getBlock : Option (SealedBlock H × Tip) :=
  bc.blocks.find? fun b => b.1.hash hashing = hash ∧ b.1.header.number = number

/-- `HasBlock`. -/
def hasBlock : Bool := (bc.getBlock hashing hash number).isSome

variable [DecidableEq H]

/-- `HasBlockAndState`. -/
def hasBlockAndState : Bool :=
  match bc.getBlock hashing hash number with
  | none => false
  | some b => b.1.header.root ∈ bc.states

/-- `HasBlockAndLoadMapState`. -/
def hasBlockAndLoadMapState : Bool :=
  match bc.getBlock hashing hash number with
  | none => false
  | some b => b.1.header.loadMapRoot ∈ bc.loadMaps

end BlockChain

section Insert

variable [DecidableEq H] (chain : Chain W H) (hashing : BodyHashing H)

/-- `ValidateBody`. -/
def validateBody (bc : BlockChain H) (b : SealedBlock H) : Except Err Unit :=
  let hash := b.hash hashing
  let parentHash := b.header.parentHash
  let number := b.header.number
  if bc.hasBlockAndState hashing hash number then .error (.msg "block already known")
  else if !bc.hasBlockAndState hashing parentHash (number - 1) then
    if !bc.hasBlock hashing parentHash (number - 1) then .error (.msg "unknown ancestor")
    else .error (.msg "pruned ancestor")
  else if bc.hasBlockAndLoadMapState hashing hash number then .error (.msg "block already known")
  else if !bc.hasBlockAndLoadMapState hashing parentHash (number - 1) then
    .error (.msg "pruned ancestor")
  else if hashing.deriveShaTransactions b.transactions b.stakingTransactions ≠ b.txHash then
    .error (.msg "transaction root hash mismatch")
  else if hashing.deriveShaTransfers b.stateTransferTransactions ≠ b.stateTransferTxHash then
    .error (.msg "stateTransferTransaction root hash mismatch")
  else .ok ()

/-- `insertChain` for one block: it is validated, executed and written with its state. -/
def insertBlock (bc : BlockChain H) (b : SealedBlock H) : Outcome Err (BlockChain H) := do
  .ofExcept (validateBody hashing bc b)
  let parent ← .ofOption (bc.getBlock hashing b.header.parentHash (b.header.number - 1))
  let isS3 := chain.config.isS3 b.header.epoch
  let q ← process1 chain b.toBlock (DB.new parent.2.state) (LoadMapDB.new parent.2.loadMap)
  .ofExcept (validateState chain b.toBlock q.db q.receipts q.cxReceipts q.usedGas)
  .ofExcept <| (q.loadmapdb.validateLoadMapState chain.hashing.loadMapRoot b.header.loadMapRoot
    isS3).mapError fun _ => .msg "invalid merkle root of LoadMapState"
  let tip : Tip :=
    ⟨(q.db.intermediateRoot chain.codec isS3).trie, (q.loadmapdb.intermediateRoot isS3).trie⟩
  pure
    { blocks := (b, tip) :: bc.blocks
      states := b.header.root :: bc.states
      loadMaps := b.header.loadMapRoot :: bc.loadMaps }

/-- A chain grows by a block that is accepted on its head: there are no forks. -/
def grow (bc : BlockChain H) (b : SealedBlock H) : Option (BlockChain H) :=
  if bc.blocks.head?.map (fun h => h.1.hash hashing) = some b.header.parentHash then
    match insertBlock chain hashing bc b with
    | .ok bc => some bc
    | _ => none
  else none

end Insert

/-! ## What a chain executes -/

/-- The state-transfer transactions that a block executes: those from or to its shard. -/
def SealedBlock.applied (b : SealedBlock H) : List StateTransferTransaction :=
  b.stateTransferTransactions.filter fun stx =>
    b.header.shardID = stx.sourceShardID ∨ b.header.shardID = stx.targetShardID

/-- The state-transfer transactions that a chain has executed, in order. -/
def BlockChain.applied (bc : BlockChain H) : List StateTransferTransaction :=
  bc.blocks.reverse.flatMap fun b => b.1.applied

/-- The freeze and the commit belong to one migration. -/
def Precedes (f c : StateTransferTransaction) : Prop :=
  f.toFreeze = true ∧ f.index = c.index ∧ f.address = c.address ∧
    f.sourceShardID = c.sourceShardID ∧ f.targetShardID = c.targetShardID

instance : DecidableRel Precedes := fun f c => by unfold Precedes; infer_instance

/-- At most one freeze and one commit of each index, and a commit after its freeze. -/
structure Once (txs : List StateTransferTransaction) : Prop where
  unique : txs.Pairwise fun a b => ¬ (a.index = b.index ∧ a.toFreeze = b.toFreeze)
  frozen : ∀ before tx after, txs = before ++ tx :: after → tx.toFreeze = false →
    ∃ f ∈ before, Precedes f tx

theorem Once.append {txs l : List StateTransferTransaction} (h : Once txs)
    (hnew : (txs ++ l).Pairwise fun a b => ¬ (a.index = b.index ∧ a.toFreeze = b.toFreeze))
    (hfrozen : ∀ tx ∈ l, tx.toFreeze = false → ∃ f ∈ txs, Precedes f tx) : Once (txs ++ l) := by
  refine ⟨hnew, fun before c after heq hc => ?_⟩
  -- the commit is one of the old transactions or one of the new ones
  rcases append_eq_append_iff.1 heq with ⟨l', rfl, rfl⟩ | ⟨txs', rfl, htxs'⟩
  · obtain ⟨f, hf, hprec⟩ := hfrozen c (by simp) hc
    exact ⟨f, mem_append_left _ hf, hprec⟩
  · cases txs' with
    | nil =>
      obtain rfl : c :: after = l := htxs'
      obtain ⟨f, hf, hprec⟩ := hfrozen c mem_cons_self hc
      exact ⟨f, by simpa using hf, hprec⟩
    | cons c' txs' =>
      obtain ⟨rfl, -⟩ := cons.inj htxs'
      exact h.frozen before c txs' rfl hc

section Chains

variable [DecidableEq H] {chain : Chain W H} {hashing : BodyHashing H} {bc bc' : BlockChain H}

/-- An accepted block is written whatever its state-transfer transactions are. -/
theorem blocks_grow {b : SealedBlock H} (h : grow chain hashing bc b = some bc') :
    ∃ tip, bc'.blocks = (b, tip) :: bc.blocks := by
  unfold grow at h
  split at h
  case isFalse => cases h
  case isTrue =>
    cases hi : insertBlock chain hashing bc b with
    | panic | error => simp [hi] at h
    | ok bc₁ =>
      obtain rfl : bc₁ = bc' := by simpa [hi] using h
      unfold insertBlock at hi
      obtain ⟨-, -, hi⟩ := Outcome.bind_eq_ok.1 hi
      obtain ⟨parent, -, hi⟩ := Outcome.bind_eq_ok.1 hi
      obtain ⟨q, -, hi⟩ := Outcome.bind_eq_ok.1 hi
      obtain ⟨-, -, hi⟩ := Outcome.bind_eq_ok.1 hi
      obtain ⟨-, -, hi⟩ := Outcome.bind_eq_ok.1 hi
      cases hi
      exact ⟨_, rfl⟩

/-! ## Sample chains

The shards of `quietChain`, with hashes that tell the balance of account `0xaa` and the
state-transfer transactions apart. -/

/-- A hash. -/
inductive Digest where
  | zero
  | state (balance : ℤ)
  | transfers (stxs : List StateTransferTransaction)
  deriving DecidableEq

/-- A shard whose state root is the balance of the account. -/
def balanceChain (shardID : ShardID) : Chain Unit Digest :=
  quietChain shardID (fun trie => .state ((trie 0xaa).getD .zero).balance) .zero

/-- A header is known by its number. -/
def sampleHashing : BodyHashing Digest where
  headerHash h _ _ := BitVec.ofNat 256 h.number
  deriveShaTransactions _ _ := .zero
  deriveShaTransfers := .transfers

/-- A block of state-transfer transactions and receipts, after which the account has the
balance. -/
def sampleBlock (shardID : ShardID) (number : ℕ) (stxs : List StateTransferTransaction)
    (cxs : List CXReceipt) (balance : ℤ) : SealedBlock Digest where
  header := {
    parentHash := BitVec.ofNat 256 (number - 1)
    number
    epoch := 1
    shardID
    time := 0
    gasLimit := 80000000
    vrf := []
    coinbase := 0
    lastCommitBitmap := []
    crossLinks := []
    shardState := []
    slashes := some []
    viewID := 0
    gasUsed := 0
    root := .state balance
    loadMapRoot := .zero
    receiptHash := .zero
    outgoingReceiptHash := .zero
    bloom := 0 }
  transactions := []
  stakingTransactions := []
  stateTransferTransactions := stxs
  incomingReceipts := [some ⟨cxs.map some⟩]
  txHash := .zero
  stateTransferTxHash := .transfers stxs

/-- The chain of a genesis block. -/
def sampleGenesis (shardID : ShardID) (balance : ℤ) : BlockChain Digest where
  blocks := [(sampleBlock shardID 0 [] [] balance, holding balance)]
  states := [.state balance]
  loadMaps := [.zero]

/-- **A commit is replayed**: a chain is accepted in which the same commit stands in two blocks, and
its freeze in none. -/
theorem commit_replayed :
    ∃ bc, Reach (grow (balanceChain 2) sampleHashing) anyStep (sampleGenesis 2 0) bc ∧
      bc.applied = [migration false (some 5), migration false (some 5)] ∧
      bc.blocks.map (fun b => b.1.header.root) = [.state 5, .state 6, .state 0] ∧
      ¬ Once bc.applied := by
  have hrun : (exec (grow (balanceChain 2) sampleHashing) (sampleGenesis 2 0)
      [sampleBlock 2 1 [migration false (some 5)] [⟨0, 0, some 0xaa, 0, 2, 1⟩] 6,
        sampleBlock 2 2 [migration false (some 5)] [] 5]).map (fun bc =>
          (bc.applied, bc.blocks.map fun b => b.1.header.root)) =
      some ([migration false (some 5), migration false (some 5)],
        [.state 5, .state 6, .state 0]) := by decide +kernel
  obtain ⟨bc, hbc, happlied, hroots⟩ := facts_of_map hrun
  refine ⟨bc, reach_of_exec hbc, happlied, hroots, ?_⟩
  intro h
  rw [happlied] at h
  obtain ⟨f, hf, -⟩ := h.frozen [] _ _ rfl rfl
  cases hf

end Chains

end DyShard.Core
