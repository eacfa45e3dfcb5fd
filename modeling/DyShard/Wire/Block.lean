import DyShard.Atomic.Transaction
import DyShard.Wire.Header

/-!
# Blocks on the wire: `Block.EncodeRLP` and `Block.DecodeRLP`

The version of the header selects one of three layouts.  Only the last one has staking and
state-transfer transactions.
-/

namespace DyShard.Wire

open Codec Rlp Atomic Option

/-! ## Transactions -/

/-- `txdata` of a `types.Transaction`. -/
structure Transaction where
  accountNonce : UInt64
  price : ℤ
  gasLimit : UInt64
  shardID : ShardID
  toShardID : ShardID
  recipient : Option Address
  amount : ℤ
  payload : List UInt8
  v : ℤ
  r : ℤ
  s : ℤ
  deriving DecidableEq

/-- `txdata` of a `staking.StakingTransaction`; the message is kept as its RLP item. -/
structure StakingTransaction where
  directive : UInt8
  stakeMsg : Item
  accountNonce : UInt64
  price : ℤ
  gasLimit : UInt64
  v : ℤ
  r : ℤ
  s : ℤ

theorem isEmpty_of_encode_address (a : Address) (w : Item) (h : address.encode a = some w) :
    isEmpty w = false := by
  obtain ⟨bs, rfl, hbs⟩ := length_of_encode_fixed h
  cases bs with
  | nil => simp at hbs
  | cons b bs => rfl

/-- A recipient, with `rlp:"nil"`. -/
def recipientCodec : Codec (Option Address) Item :=
  optional address (.str []) rfl isEmpty_of_encode_address

instance : Exact recipientCodec := exact_optional

/-- `Transaction.EncodeRLP`. -/
def transactionCodec : Codec Transaction Item :=
  (record (field uint64 <| field int <| field uint64 <| field uint32 <| field uint32 <|
    field recipientCodec <| field int <|
    field bytes <| field int <| field int <| field int nil)).conv
  (fun tx => (tx.accountNonce, tx.price, tx.gasLimit, tx.shardID, tx.toShardID, tx.recipient,
    tx.amount, tx.payload, tx.v, tx.r, tx.s, ()))
  (fun (accountNonce, price, gasLimit, shardID, toShardID, recipient, amount, payload, v, r, s,
    ()) =>
    { accountNonce, price, gasLimit, shardID, toShardID, recipient, amount, payload, v, r, s })

/-- `StakingTransaction.EncodeRLP`. -/
def stakingTransactionCodec : Codec StakingTransaction Item :=
  (record (field uint8 <| field any <| field uint64 <| field int <| field uint64 <| field int <|
    field int <| field int nil)).conv
  (fun tx => (tx.directive, tx.stakeMsg, tx.accountNonce, tx.price, tx.gasLimit, tx.v, tx.r,
    tx.s, ()))
  (fun (directive, stakeMsg, accountNonce, price, gasLimit, v, r, s, ()) =>
    { directive, stakeMsg, accountNonce, price, gasLimit, v, r, s })

/-- `StateTransferTransaction.EncodeRLP`. -/
def stateTransferTransactionCodec : Codec StateTransferTransaction Item :=
  (record (field uint32 <| field uint32 <| field uint64 <| field address <| field bigInt <|
    field uint64 <| field bytes <| field bool <| field uint64 nil)).conv
  (fun tx => (tx.sourceShardID, tx.targetShardID, tx.sourceHeight, tx.address, tx.balance,
    tx.nonce, tx.data, tx.toFreeze, tx.index, ()))
  (fun (sourceShardID, targetShardID, sourceHeight, address, balance, nonce, data, toFreeze,
    index, ()) =>
    { sourceShardID, targetShardID, sourceHeight, address, balance, nonce, data, toFreeze, index })

instance : Exact transactionCodec := exact_conv fun _ => rfl

instance : Exact stakingTransactionCodec := exact_conv fun _ => rfl

theorem keeps_stateTransferTransaction {tx : StateTransferTransaction} :
    stateTransferTransactionCodec.Keeps tx ↔ tx.balance.isSome = true := by
  rw [stateTransferTransactionCodec, keeps_conv (fun _ => rfl) (fun _ => rfl), keeps_record]
  simp only [keeps_field, keeps_bigInt, keeps_iff_true, true_and, and_true]

/-! ## Receipts of other shards -/

/-- `CXReceipt`. -/
structure CXReceipt where
  txHash : Word
  sender : Address
  recipient : Option Address
  shardID : ShardID
  toShardID : ShardID
  amount : ℤ
  deriving DecidableEq

/-- `CXMerkleProof`. -/
structure CXMerkleProof where
  blockNum : ℤ
  blockHash : Word
  shardID : ShardID
  cxReceiptHash : Word
  shardIDs : List ShardID
  cxShardHashes : List Word
  deriving DecidableEq

/-- `CXReceiptsProof`: receipts and Merkle proof are pointers. -/
structure CXReceiptsProof where
  receipts : List (Option CXReceipt)
  merkleProof : Option CXMerkleProof
  header : Header
  commitSig : List UInt8
  commitBitmap : List UInt8
  deriving DecidableEq

/-- The record of a `CXReceipt`.  The recipient is a pointer without `rlp:"nil"`. -/
def cxReceiptCodec : Codec CXReceipt Item :=
  (record (field hash <| field address <| field (pointer address (.str [])) <| field uint32 <|
    field uint32 <| field int nil)).conv
  (fun cx => (cx.txHash, cx.sender, cx.recipient, cx.shardID, cx.toShardID, cx.amount, ()))
  (fun (txHash, sender, recipient, shardID, toShardID, amount, ()) =>
    { txHash, sender, recipient, shardID, toShardID, amount })

/-- The record of a `CXMerkleProof`. -/
def cxMerkleProofCodec : Codec CXMerkleProof Item :=
  (record (field int <| field hash <| field uint32 <| field hash <| field uint32.list <|
    field hash.list nil)).conv
  (fun p => (p.blockNum, p.blockHash, p.shardID, p.cxReceiptHash, p.shardIDs, p.cxShardHashes, ()))
  (fun (blockNum, blockHash, shardID, cxReceiptHash, shardIDs, cxShardHashes, ()) =>
    { blockNum, blockHash, shardID, cxReceiptHash, shardIDs, cxShardHashes })

/-- The record of a `CXReceiptsProof`. -/
def cxReceiptsProofCodec : Codec CXReceiptsProof Item :=
  (record (field (pointer cxReceiptCodec (.list [])).list <|
    field (pointer cxMerkleProofCodec (.list [])) <| field headerCodec <| field bytes <|
    field bytes nil)).conv
  (fun p => (p.receipts, p.merkleProof, p.header, p.commitSig, p.commitBitmap, ()))
  (fun (receipts, merkleProof, header, commitSig, commitBitmap, ()) =>
    { receipts, merkleProof, header, commitSig, commitBitmap })

instance : Exact cxMerkleProofCodec := exact_conv fun _ => rfl

instance : Strict cxReceiptCodec := by
  have hrecipient : Strict (pointer address (.str [])) := strict_pointer rfl
  exact strict_conv fun _ => rfl

instance : Strict cxReceiptsProofCodec := by
  have hreceipt : Strict (pointer cxReceiptCodec (.list [])) := strict_pointer rfl
  have hproof : Strict (pointer cxMerkleProofCodec (.list [])) := strict_pointer rfl
  exact strict_conv fun _ => rfl

/-- No pointer of the proof is nil. -/
def CXReceiptsProof.Whole (p : CXReceiptsProof) : Prop :=
  (∀ r ∈ p.receipts, ∃ cx, r = some cx ∧ cx.recipient.isSome = true) ∧ p.merkleProof.isSome = true

theorem keeps_cxReceipt {cx : CXReceipt} :
    cxReceiptCodec.Keeps cx ↔ cx.recipient.isSome = true := by
  rw [cxReceiptCodec, keeps_conv (fun _ => rfl) (fun _ => rfl), keeps_record]
  simp only [keeps_field, keeps_pointer, keeps_iff_true, true_and, and_true, isSome_iff_exists]

theorem keeps_cxReceiptsProof {p : CXReceiptsProof} :
    cxReceiptsProofCodec.Keeps p ↔ p.Whole := by
  rw [cxReceiptsProofCodec, keeps_conv (fun _ => rfl) (fun _ => rfl), keeps_record]
  simp only [keeps_field, keeps_list, keeps_pointer, keeps_cxReceipt, keeps_iff_true, and_true,
    CXReceiptsProof.Whole, isSome_iff_exists]

/-! ## Blocks -/

/-- `types.Block`. -/
structure Block where
  header : Header
  transactions : List Transaction
  stakingTransactions : List StakingTransaction
  uncles : List Header
  incomingReceipts : List CXReceiptsProof
  stateTransferTransactions : List StateTransferTransaction

/-- `extblock`. -/
structure ExtBlock where
  header : Header
  txs : List Transaction
  uncles : List Header

/-- `extblockV1`. -/
structure ExtBlockV1 where
  header : Header
  txs : List Transaction
  uncles : List Header
  incomingReceipts : List CXReceiptsProof

/-- `extblockV2`. -/
structure ExtBlockV2 where
  header : Header
  txs : List Transaction
  stks : List StakingTransaction
  uncles : List Header
  incomingReceipts : List CXReceiptsProof
  stateTransferTxs : List StateTransferTransaction

/-- The record of an `extblock`. -/
def extBlockCodec : Codec ExtBlock Item :=
  (record (field headerCodec <| field transactionCodec.list <| field headerCodec.list nil)).conv
  (fun eb => (eb.header, eb.txs, eb.uncles, ()))
  (fun (header, txs, uncles, ()) => { header, txs, uncles })

/-- The record of an `extblockV1`. -/
def extBlockV1Codec : Codec ExtBlockV1 Item :=
  (record (field headerCodec <| field transactionCodec.list <| field headerCodec.list <|
    field cxReceiptsProofCodec.list nil)).conv
  (fun eb => (eb.header, eb.txs, eb.uncles, eb.incomingReceipts, ()))
  (fun (header, txs, uncles, incomingReceipts, ()) => { header, txs, uncles, incomingReceipts })

/-- The record of an `extblockV2`. -/
def extBlockV2Codec : Codec ExtBlockV2 Item :=
  (record (field headerCodec <| field transactionCodec.list <|
    field stakingTransactionCodec.list <| field headerCodec.list <|
    field cxReceiptsProofCodec.list <| field stateTransferTransactionCodec.list nil)).conv
  (fun eb => (eb.header, eb.txs, eb.stks, eb.uncles, eb.incomingReceipts, eb.stateTransferTxs, ()))
  (fun (header, txs, stks, uncles, incomingReceipts, stateTransferTxs, ()) =>
    { header, txs, stks, uncles, incomingReceipts, stateTransferTxs })

theorem open_of_encode_extBlock (eb : ExtBlock) (w : Item) (hw : extBlockCodec.encode eb = some w) :
    openEnvelope envelopeSig w = none := by
  obtain ⟨xs₀, h₀, rfl⟩ := list_of_encode hw
  obtain ⟨x, xs₁, hx, -, rfl⟩ := cons_of_encode h₀
  obtain ⟨ys, rfl⟩ := list_of_encode_header hx
  rfl

/-- `blockRegistry`. -/
def blockRegistry : Codec ((ExtBlockV1 ⊕ ExtBlockV2) ⊕ ExtBlock) Item :=
  registry envelopeSig extBlockCodec
    (register (ascii "v1") extBlockV1Codec (extBlockV2Codec.tagged (ascii "v2"))
      fun _ _ hw => by rw [tag_of_encode hw]; decide)
    open_of_encode_extBlock

namespace Block

/-- The layout that `EncodeRLP` selects. -/
def layout (b : Block) : Option ((ExtBlockV1 ⊕ ExtBlockV2) ⊕ ExtBlock) :=
  match b.header with
  | .v3 _ => some (.inl (.inr ⟨b.header, b.transactions, b.stakingTransactions, b.uncles,
      b.incomingReceipts, b.stateTransferTransactions⟩))
  | .v2 _ | .v1 _ => some (.inl (.inl ⟨b.header, b.transactions, b.uncles, b.incomingReceipts⟩))
  | .v0 _ =>
    -- "incomingReceipts unsupported in v0 block"
    if 0 < b.incomingReceipts.length then none
    else some (.inr ⟨b.header, b.transactions, b.uncles⟩)

/-- What `DecodeRLP` makes of each layout; the other fields of a new block are nil. -/
def ofLayout : (ExtBlockV1 ⊕ ExtBlockV2) ⊕ ExtBlock → Block
  | .inl (.inr eb) =>
    { header := eb.header, transactions := eb.txs, stakingTransactions := eb.stks,
      uncles := eb.uncles, incomingReceipts := eb.incomingReceipts,
      stateTransferTransactions := eb.stateTransferTxs }
  | .inl (.inl eb) =>
    { header := eb.header, transactions := eb.txs, stakingTransactions := [],
      uncles := eb.uncles, incomingReceipts := eb.incomingReceipts,
      stateTransferTransactions := [] }
  | .inr eb =>
    { header := eb.header, transactions := eb.txs, stakingTransactions := [],
      uncles := eb.uncles, incomingReceipts := [], stateTransferTransactions := [] }

end Block

open Block

/-- `Block.EncodeRLP` and `Block.DecodeRLP`. -/
def blockCodec : Codec Block Item := blockRegistry.convOption layout ofLayout

/-! ## What the layouts carry -/

theorem keeps_extBlock {eb : ExtBlock} : extBlockCodec.Keeps eb ↔ True := by
  rw [extBlockCodec, keeps_conv (fun _ => rfl) (fun _ => rfl), keeps_iff_true]

theorem keeps_extBlockV1 {eb : ExtBlockV1} :
    extBlockV1Codec.Keeps eb ↔ ∀ p ∈ eb.incomingReceipts, p.Whole := by
  rw [extBlockV1Codec, keeps_conv (fun _ => rfl) (fun _ => rfl), keeps_record]
  simp only [keeps_field, keeps_list, keeps_cxReceiptsProof, keeps_iff_true, true_and, and_true]

theorem keeps_extBlockV2 {eb : ExtBlockV2} :
    extBlockV2Codec.Keeps eb ↔ (∀ p ∈ eb.incomingReceipts, p.Whole) ∧
      ∀ tx ∈ eb.stateTransferTxs, tx.balance.isSome = true := by
  rw [extBlockV2Codec, keeps_conv (fun _ => rfl) (fun _ => rfl), keeps_record]
  simp only [keeps_field, keeps_list, keeps_cxReceiptsProof, keeps_stateTransferTransaction,
    keeps_iff_true, true_and, and_true]

/-- All that the block holds has a place in the layout of its version, and no pointer is nil. -/
def Block.Carried (b : Block) : Prop :=
  match b.header with
  | .v3 _ => (∀ p ∈ b.incomingReceipts, p.Whole) ∧
      ∀ tx ∈ b.stateTransferTransactions, tx.balance.isSome = true
  | .v2 _ | .v1 _ => (∀ p ∈ b.incomingReceipts, p.Whole) ∧ b.stakingTransactions = [] ∧
      b.stateTransferTransactions = []
  | .v0 _ => b.stakingTransactions = [] ∧ b.stateTransferTransactions = []

theorem keeps_of_layoutV2 {b : Block}
    (h : b.layout = some (.inl (.inr ⟨b.header, b.transactions, b.stakingTransactions, b.uncles,
      b.incomingReceipts, b.stateTransferTransactions⟩))) :
    blockCodec.Keeps b ↔ (∀ p ∈ b.incomingReceipts, p.Whole) ∧
      ∀ tx ∈ b.stateTransferTransactions, tx.balance.isSome = true := by
  rw [blockCodec, keeps_convOption h]
  constructor
  · rintro ⟨a, ha, rfl⟩
    obtain ⟨eb, heb, rfl⟩ : ∃ eb, extBlockV2Codec.norm _ = some eb ∧ .inl (.inr eb) = a := by
      simpa [blockRegistry, registry, register, sum, envelope, tagged, wrap] using ha
    exact keeps_extBlockV2.1 heb
  · intro hcarried
    exact ⟨_, keeps_registry_inl.2 (keeps_register_inr.2 (keeps_tagged.2
      (keeps_extBlockV2.2 hcarried))), rfl⟩

theorem keeps_of_layoutV1 {b : Block}
    (h : b.layout = some (.inl (.inl ⟨b.header, b.transactions, b.uncles, b.incomingReceipts⟩))) :
    blockCodec.Keeps b ↔ (∀ p ∈ b.incomingReceipts, p.Whole) ∧ b.stakingTransactions = [] ∧
      b.stateTransferTransactions = [] := by
  rw [blockCodec, keeps_convOption h]
  constructor
  · rintro ⟨a, ha, rfl⟩
    obtain ⟨eb, heb, rfl⟩ : ∃ eb, extBlockV1Codec.norm _ = some eb ∧ .inl (.inl eb) = a := by
      simpa [blockRegistry, registry, register, sum, envelope, tagged, wrap] using ha
    exact ⟨keeps_extBlockV1.1 heb, rfl, rfl⟩
  · rintro ⟨hwhole, hstks, hstxs⟩
    refine ⟨_, keeps_registry_inl.2 (keeps_register_inl.2 (keeps_extBlockV1.2 hwhole)), ?_⟩
    cases b
    simp_all [ofLayout]

theorem keeps_of_layoutV0 {b : Block}
    (h : b.layout = some (.inr ⟨b.header, b.transactions, b.uncles⟩))
    (hreceipts : b.incomingReceipts = []) :
    blockCodec.Keeps b ↔ b.stakingTransactions = [] ∧ b.stateTransferTransactions = [] := by
  rw [blockCodec, keeps_convOption h]
  constructor
  · rintro ⟨a, ha, rfl⟩
    obtain ⟨eb, heb, rfl⟩ : ∃ eb, extBlockCodec.norm _ = some eb ∧ .inr eb = a := by
      simpa [blockRegistry, registry, register, sum, envelope, tagged, wrap] using ha
    exact ⟨rfl, rfl⟩
  · rintro ⟨hstks, hstxs⟩
    refine ⟨_, keeps_registry_inr.2 (keeps_extBlock.2 trivial), ?_⟩
    cases b
    simp_all [ofLayout]

theorem keeps_block {b : Block} {a} (h : b.layout = some a) :
    blockCodec.Keeps b ↔ b.Carried := by
  unfold Carried
  cases hv : b.header with
  | v3 _ => exact keeps_of_layoutV2 (by simp [layout, hv])
  | v2 _ | v1 _ => exact keeps_of_layoutV1 (by simp [layout, hv])
  | v0 _ =>
    have hreceipts : b.incomingReceipts = [] := by
      by_contra hne
      simp [layout, hv, List.length_pos_iff.2 hne] at h
    exact keeps_of_layoutV0 (by simp [layout, hv, hreceipts]) hreceipts

/-- The wire format loses nothing of the block. -/
structure Block.LosesNothing (b : Block) : Prop where
  lossless : blockCodec.serial.Lossless b
  stateTransfers : ∀ bs b', blockCodec.serial.encode b = some bs →
    blockCodec.serial.decode bs = some b' → b'.stateTransferTransactions = [] →
    b.stateTransferTransactions = []

/-- **What the wire format carries**: the block is refused or has a place in its layout. -/
theorem losesNothing_iff_carried (b : Block) :
    b.LosesNothing ↔ blockCodec.serial.encode b = none ∨ b.Carried := by
  have hiff : blockCodec.serial.Lossless b ↔ blockCodec.serial.encode b = none ∨ b.Carried := by
    rw [lossless_iff, keeps_serial]
    cases hl : b.layout with
    | none =>
      have hnone : blockCodec.serial.encode b = none := by
        simp [serial, wrap, blockCodec, convOption, hl]
      simp [hnone]
    | some a => rw [keeps_block hl]
  rw [← hiff]
  constructor
  · exact fun h => h.lossless
  · intro h
    refine ⟨h, ?_⟩
    intro bs b' hbs hb' hnil
    obtain rfl : b = b' := some.inj ((h bs hbs).symm.trans hb')
    exact hnil

/-- The fields of a header, all zero. -/
def HeaderFields.zero : HeaderFields where
  parentHash := 0
  coinbase := 0
  root := 0
  txHash := 0
  receiptHash := 0
  bloom := 0
  number := 0
  gasLimit := 0
  gasUsed := 0
  time := 0
  extra := []
  mixDigest := 0
  viewID := 0
  epoch := 0
  shardID := 0
  lastCommitSignature := 0
  lastCommitBitmap := []
  shardState := []
  loadMapRoot := 0
  stateTransferTxHash := 0

/-- A block with the header and one state-transfer transaction. -/
def migrationBlock (header : Header) : Block where
  header
  transactions := []
  stakingTransactions := []
  uncles := []
  incomingReceipts := []
  stateTransferTransactions := [⟨0, 1, 0, 0xaa, some 5, 0, [], false, 0⟩]

/-- A header of version 2. -/
def zeroV2 : Header :=
  .v2 { HeaderFields.zero with
    outgoingReceiptHash := 0, incomingReceiptHash := 0, shardStateHash := 0, vrf := [], vdf := [],
    crossLinks := [] }

/-- **A migration gets lost on the wire**: a block of version 2 is read back without it. -/
theorem stateTransfer_dropped :
    ∃ bs b, blockCodec.serial.encode (migrationBlock zeroV2) = some bs ∧
      blockCodec.serial.decode bs = some b ∧ b.stateTransferTransactions = [] ∧
      ¬ (migrationBlock zeroV2).LosesNothing := by
  have hencode : (blockCodec.serial.encode (migrationBlock zeroV2)).isSome = true := by
    decide +kernel
  obtain ⟨bs, hbs⟩ := isSome_iff_exists.1 hencode
  have hdecode : blockCodec.serial.decode bs =
      some { migrationBlock zeroV2 with stateTransferTransactions := [] } := by
    rw [blockCodec.serial.decode_encode _ _ hbs]
    rfl
  refine ⟨bs, _, hbs, hdecode, rfl, ?_⟩
  intro h
  exact absurd (h.stateTransfers bs _ hbs hdecode rfl) (by simp [migrationBlock])

end DyShard.Wire
