import DyShard.Wire.Block

/-!
# Blocks in the database: `core/rawdb`, `types.Body`

A body is filled through setters that copy what they are given and emptied through getters that
copy again, so a stored block goes through four copies of its parts, and once through the encoding.
-/

namespace DyShard.Wire

open Codec Rlp Atomic Function Option UInt64 CXReceiptsProof

/-! ## Copies -/

/-- `Transaction.Copy`. -/
def Transaction.copy (tx : Transaction) : Transaction :=
  { accountNonce := tx.accountNonce, price := tx.price, gasLimit := tx.gasLimit,
    shardID := tx.shardID, toShardID := tx.toShardID, recipient := tx.recipient,
    amount := tx.amount, payload := tx.payload, v := tx.v, r := tx.r, s := tx.s }

/-- `StakingTransaction.Copy`, which leaves the item of the message as it is. -/
def StakingTransaction.copy (tx : StakingTransaction) : StakingTransaction :=
  { directive := tx.directive, accountNonce := tx.accountNonce, price := tx.price,
    gasLimit := tx.gasLimit, stakeMsg := tx.stakeMsg, v := tx.v, r := tx.r, s := tx.s }

/-- `CXReceiptsProof.Copy`: the bitmap is copied from the signature. -/
def CXReceiptsProof.copy (p : CXReceiptsProof) : CXReceiptsProof :=
  { receipts := p.receipts, merkleProof := p.merkleProof, header := p.header,
    commitSig := p.commitSig, commitBitmap := p.commitSig }

/-- `CopyHeader`. -/
def copyHeader (h : Header) : Header := h

@[simp] theorem Transaction.copy_eq (tx : Transaction) : tx.copy = tx := rfl

@[simp] theorem StakingTransaction.copy_eq (tx : StakingTransaction) : tx.copy = tx := rfl

@[simp] theorem CXReceiptsProof.copy_copy (p : CXReceiptsProof) : p.copy.copy = p.copy := rfl

theorem CXReceiptsProof.copy_eq_self {p : CXReceiptsProof} :
    p.copy = p ↔ p.commitBitmap = p.commitSig := by
  cases p
  simp [copy, eq_comm]

theorem copy_eq_self {tx : StateTransferTransaction} : tx.copy = tx ↔ tx.balance = none := by
  cases tx
  simp [StateTransferTransaction.copy, eq_comm]

@[simp] theorem copyHeader_eq (h : Header) : copyHeader h = h := rfl

@[simp] theorem map_copyHeader (hs : List Header) : hs.map copyHeader = hs := List.map_id hs

theorem map_eq_self {α : Type} {f : α → α} {l : List α} : l.map f = l ↔ ∀ a ∈ l, f a = a := by
  induction l with
  | nil => simp
  | cons a l ih => simp [ih]

/-! ## Bodies -/

/-- `bodyFieldsV0`. -/
structure BodyFieldsV0 where
  transactions : List Transaction
  uncles : List Header
  stateTransferTransactions : List StateTransferTransaction

/-- `bodyFieldsV1`. -/
structure BodyFieldsV1 where
  transactions : List Transaction
  uncles : List Header
  incomingReceipts : List CXReceiptsProof
  stateTransferTransactions : List StateTransferTransaction

/-- `bodyFieldsV2`. -/
structure BodyFieldsV2 where
  transactions : List Transaction
  stakingTransactions : List StakingTransaction
  uncles : List Header
  incomingReceipts : List CXReceiptsProof
  stateTransferTransactions : List StateTransferTransaction

/-- `types.Body`. -/
inductive Body where
  | v0 (f : BodyFieldsV0)
  | v1 (f : BodyFieldsV1)
  | v2 (f : BodyFieldsV2)

/-- `NewBodyForMatchingHeader`. -/
def newBodyForMatchingHeader : Header → Body
  | .v3 _ => .v2 ⟨[], [], [], [], []⟩
  | .v2 _ | .v1 _ => .v1 ⟨[], [], [], []⟩
  | .v0 _ => .v0 ⟨[], [], []⟩

namespace Body

/-- `SetTransactions`. -/
def setTransactions (txs : List Transaction) : Body → Body
  | .v0 f => .v0 { f with transactions := txs.map .copy }
  | .v1 f => .v1 { f with transactions := txs.map .copy }
  | .v2 f => .v2 { f with transactions := txs.map .copy }

/-- `SetStakingTransactions`, which only the last version supports. -/
def setStakingTransactions (txs : List StakingTransaction) : Body → Body
  | .v0 f => .v0 f
  | .v1 f => .v1 f
  | .v2 f => .v2 { f with stakingTransactions := txs.map .copy }

/-- `SetUncles`. -/
def setUncles (uncles : List Header) : Body → Body
  | .v0 f => .v0 { f with uncles := uncles.map copyHeader }
  | .v1 f => .v1 { f with uncles := uncles.map copyHeader }
  | .v2 f => .v2 { f with uncles := uncles.map copyHeader }

/-- `SetIncomingReceipts`; version 0 warns and drops them. -/
def setIncomingReceipts (cxs : List CXReceiptsProof) : Body → Body
  | .v0 f => .v0 f
  | .v1 f => .v1 { f with incomingReceipts := cxs.map .copy }
  | .v2 f => .v2 { f with incomingReceipts := cxs.map .copy }

/-- `SetStateTransferTransactions`. -/
def setStateTransferTransactions (txs : List StateTransferTransaction) : Body → Body
  | .v0 f => .v0 { f with stateTransferTransactions := txs.map .copy }
  | .v1 f => .v1 { f with stateTransferTransactions := txs.map .copy }
  | .v2 f => .v2 { f with stateTransferTransactions := txs.map .copy }

/-- `Transactions`. -/
def transactions : Body → List Transaction
  | .v0 f => f.transactions.map .copy
  | .v1 f => f.transactions.map .copy
  | .v2 f => f.transactions.map .copy

/-- `StakingTransactions`. -/
def stakingTransactions : Body → List StakingTransaction
  | .v0 _ | .v1 _ => []
  | .v2 f => f.stakingTransactions.map .copy

/-- `Uncles`. -/
def uncles : Body → List Header
  | .v0 f => f.uncles.map copyHeader
  | .v1 f => f.uncles.map copyHeader
  | .v2 f => f.uncles.map copyHeader

/-- `IncomingReceipts`. -/
def incomingReceipts : Body → List CXReceiptsProof
  | .v0 _ => []
  | .v1 f => f.incomingReceipts.map .copy
  | .v2 f => f.incomingReceipts.map .copy

/-- `StateTransferTransactions`. -/
def stateTransferTransactions : Body → List StateTransferTransaction
  | .v0 f => f.stateTransferTransactions.map .copy
  | .v1 f => f.stateTransferTransactions.map .copy
  | .v2 f => f.stateTransferTransactions.map .copy

end Body

/-- `Block.Body`. -/
def Block.body (b : Block) : Body :=
  (newBodyForMatchingHeader b.header).setTransactions b.transactions
    |>.setStakingTransactions b.stakingTransactions
    |>.setUncles b.uncles
    |>.setIncomingReceipts b.incomingReceipts
    |>.setStateTransferTransactions b.stateTransferTransactions

/-- `NewBlockWithHeader` and `WithBody1`. -/
def withBody1 (header : Header) (transactions : List Transaction)
    (stakingTxns : List StakingTransaction) (uncles : List Header)
    (incomingReceipts : List CXReceiptsProof) (stateTransferTxs : List StateTransferTransaction) :
    Block where
  header := copyHeader (copyHeader header)
  transactions
  stakingTransactions := stakingTxns
  uncles := uncles.map copyHeader
  incomingReceipts
  stateTransferTransactions := stateTransferTxs

/-- The record of `bodyFieldsV0`. -/
def bodyV0Codec : Codec BodyFieldsV0 Item :=
  (record (field transactionCodec.list <| field headerCodec.list <|
    field stateTransferTransactionCodec.list nil)).conv
  (fun f => (f.transactions, f.uncles, f.stateTransferTransactions, ()))
  (fun (transactions, uncles, stateTransferTransactions, ()) =>
    { transactions, uncles, stateTransferTransactions })

/-- The record of `bodyFieldsV1`. -/
def bodyV1Codec : Codec BodyFieldsV1 Item :=
  (record (field transactionCodec.list <| field headerCodec.list <|
    field cxReceiptsProofCodec.list <| field stateTransferTransactionCodec.list nil)).conv
  (fun f => (f.transactions, f.uncles, f.incomingReceipts, f.stateTransferTransactions, ()))
  (fun (transactions, uncles, incomingReceipts, stateTransferTransactions, ()) =>
    { transactions, uncles, incomingReceipts, stateTransferTransactions })

/-- The record of `bodyFieldsV2`. -/
def bodyV2Codec : Codec BodyFieldsV2 Item :=
  (record (field transactionCodec.list <| field stakingTransactionCodec.list <|
    field headerCodec.list <| field cxReceiptsProofCodec.list <|
    field stateTransferTransactionCodec.list nil)).conv
  (fun f => (f.transactions, f.stakingTransactions, f.uncles, f.incomingReceipts,
    f.stateTransferTransactions, ()))
  (fun (transactions, stakingTransactions, uncles, incomingReceipts, stateTransferTransactions,
    ()) =>
    { transactions, stakingTransactions, uncles, incomingReceipts, stateTransferTransactions })

theorem open_of_encode_bodyV0 (f : BodyFieldsV0) (w : Item) (hw : bodyV0Codec.encode f = some w) :
    openEnvelope envelopeSig w = none := by
  obtain ⟨xs₀, h₀, rfl⟩ := list_of_encode hw
  obtain ⟨x, xs₁, hx, -, rfl⟩ := cons_of_encode h₀
  obtain ⟨ys, -, rfl⟩ := list_of_encode hx
  rfl

/-- `Body.EncodeRLP` and `Body.DecodeRLP`: the `BodyRegistry`. -/
def bodyCodec : Codec Body Item :=
  (registry envelopeSig bodyV0Codec
    (register (ascii "v1") bodyV1Codec (bodyV2Codec.tagged (ascii "v2"))
      fun _ _ hw => by rw [tag_of_encode hw]; decide)
    open_of_encode_bodyV0).conv
    (fun
      | .v0 f => .inr f
      | .v1 f => .inl (.inl f)
      | .v2 f => .inl (.inr f))
    (fun
      | .inr f => .v0 f
      | .inl (.inl f) => .v1 f
      | .inl (.inr f) => .v2 f)

/-! ## The database -/

/-- The tables of the database that blocks are stored in. -/
structure Database where
  headerNumber : Word → Option UInt64
  header : UInt64 → Word → Option (List UInt8)
  blockBody : UInt64 → Word → Option (List UInt8)

section Database

variable (keccak : List UInt8 → Word)

/-- `Header.Hash`: `hash.FromRLP` drops the error of an encoding that fails. -/
def Header.hash (h : Header) : Word := keccak ((headerCodec.serial.encode h).getD [])

/-- `Block.Hash`. -/
def Block.hash (b : Block) : Word := b.header.hash keccak

/-- `Block.NumberU64`: the low 64 bits. -/
def Block.numberU64 (b : Block) : UInt64 := ofNat b.header.fields.number.natAbs

variable (db : Database)

/-- `WriteHeader`. -/
def writeHeader (h : Header) : Option Database :=
  let hash := h.hash keccak
  let number := ofNat h.fields.number.natAbs
  (headerCodec.serial.encode h).map fun data =>
    { db with
      headerNumber := update db.headerNumber hash (some number)
      header := update db.header number (update (db.header number) hash (some data)) }

/-- `ReadHeader`. -/
def readHeader (hash : Word) (number : UInt64) : Option Header :=
  (db.header number hash).bind headerCodec.serial.decode

/-- `WriteBody`. -/
def writeBody (hash : Word) (number : UInt64) (body : Body) : Option Database :=
  (bodyCodec.serial.encode body).map fun data =>
    { db with
      blockBody := update db.blockBody number (update (db.blockBody number) hash (some data)) }

/-- `ReadBody`. -/
def readBody (hash : Word) (number : UInt64) : Option Body :=
  (db.blockBody number hash).bind bodyCodec.serial.decode

/-- `WriteBlock`; the commit signature has a table of its own. -/
def writeBlock (b : Block) : Option Database :=
  (writeBody db (b.hash keccak) b.numberU64 b.body).bind fun db =>
    writeHeader keccak db (copyHeader b.header)

/-- `ReadBlock`. -/
def readBlock (hash : Word) (number : UInt64) : Option Block :=
  (readHeader db hash number).bind fun header =>
    (readBody db hash number).map fun body =>
      withBody1 header body.transactions body.stakingTransactions body.uncles
        body.incomingReceipts body.stateTransferTransactions

end Database

/-! ## What comes back of a body -/

/-- What the encoding makes of a state-transfer transaction: a nil balance becomes zero. -/
def filled (tx : StateTransferTransaction) : StateTransferTransaction :=
  { tx with balance := some (tx.balance.getD 0) }

@[simp] theorem copy_filled (tx : StateTransferTransaction) : (filled tx.copy).copy = tx.copy := rfl

theorem norm_stateTransferTransaction (tx : StateTransferTransaction) :
    stateTransferTransactionCodec.norm tx = some (filled tx) := by
  rw [stateTransferTransactionCodec, norm_conv (fun _ => rfl) (fun _ => rfl), norm_record]
  simp only [norm_field, norm_eq_of_strict, norm_bigInt, keeps_iff_true, filled, and_self]

theorem norm_stateTransferTransactions (txs : List StateTransferTransaction) :
    stateTransferTransactionCodec.list.norm txs = some (txs.map filled) := by
  show List.mapM stateTransferTransactionCodec.norm txs = some (txs.map filled)
  induction txs with
  | nil => rfl
  | cons tx txs ih => simp [List.mapM_cons, norm_stateTransferTransaction, ih]

/-- A body of the last version comes back with its nil balances filled in, if no pointer of a
receipt is nil. -/
theorem norm_bodyV2 {f : BodyFieldsV2} {body : Body} :
    bodyCodec.norm (.v2 f) = some body ↔ (∀ p ∈ f.incomingReceipts, p.Whole) ∧
      body = .v2 { f with
        stateTransferTransactions := f.stateTransferTransactions.map filled } := by
  have hrecord : ∀ f', bodyV2Codec.norm f = some f' ↔ (∀ p ∈ f.incomingReceipts, p.Whole) ∧
      f' = { f with stateTransferTransactions := f.stateTransferTransactions.map filled } := by
    intro f'
    rw [bodyV2Codec, norm_conv (fun _ => rfl) (fun _ => rfl), norm_record]
    simp only [norm_field, norm_eq_of_strict, norm_stateTransferTransactions, keeps_iff_true,
      keeps_list, keeps_cxReceiptsProof]
    cases f'
    grind
  constructor
  · intro h
    obtain ⟨f', hf', rfl⟩ : ∃ f', bodyV2Codec.norm f = some f' ∧ .v2 f' = body := by
      simpa [bodyCodec, conv, registry, register, sum, envelope, tagged, wrap] using h
    obtain ⟨hwhole, rfl⟩ := (hrecord f').1 hf'
    exact ⟨hwhole, rfl⟩
  · rintro ⟨hwhole, rfl⟩
    have hf' := (hrecord _).2 ⟨hwhole, rfl⟩
    simp [bodyCodec, conv, registry, register, sum, envelope, tagged, wrap, hf']

/-! ## Reading what was written -/

section Read

variable {keccak : List UInt8 → Word} {db db' : Database} {b : Block}

theorem readHeader_writeHeader {h : Header} (hw : writeHeader keccak db h = some db') :
    readHeader db' (h.hash keccak) (ofNat h.fields.number.natAbs) = some h ∧
      db'.blockBody = db.blockBody := by
  obtain ⟨data, hdata, rfl⟩ := map_eq_some_iff.1 hw
  refine ⟨?_, rfl⟩
  have hkeeps : headerCodec.serial.Keeps h := Exact.keeps (c := headerCodec) h
  simpa [readHeader] using (lossless_iff headerCodec.serial h).2 (.inr hkeeps) data hdata

theorem readBody_writeBody {hash : Word} {number : UInt64} {body : Body}
    (hw : writeBody db hash number body = some db') :
    readBody db' hash number = bodyCodec.norm body := by
  obtain ⟨data, hdata, rfl⟩ := map_eq_some_iff.1 hw
  have hread : bodyCodec.serial.decode data = bodyCodec.norm body :=
    bodyCodec.serial.decode_encode body data hdata
  simpa [readBody] using hread

theorem readBlock_writeBlock (hw : writeBlock keccak db b = some db') :
    readBlock db' (b.hash keccak) b.numberU64 = (bodyCodec.norm b.body).map fun body =>
      withBody1 b.header body.transactions body.stakingTransactions body.uncles
        body.incomingReceipts body.stateTransferTransactions := by
  obtain ⟨db₁, hbody, hheader⟩ := bind_eq_some_iff.1 hw
  obtain ⟨hread, hkept⟩ := readHeader_writeHeader hheader
  have hread : readHeader db' (b.hash keccak) b.numberU64 = some b.header := hread
  have hreadBody : readBody db' (b.hash keccak) b.numberU64 = bodyCodec.norm b.body := by
    rw [← readBody_writeBody hbody, readBody, readBody, hkept]
  rw [readBlock, hread, hreadBody, bind_some]

theorem readBlock_eq_some {h : HeaderV3} (hv : b.header = .v3 h)
    (hw : writeBlock keccak db b = some db') {b' : Block} :
    readBlock db' (b.hash keccak) b.numberU64 = some b' ↔ (∀ p ∈ b.incomingReceipts, p.Whole) ∧
      b' = { b with
        incomingReceipts := b.incomingReceipts.map .copy
        stateTransferTransactions := b.stateTransferTransactions.map .copy } := by
  have hbody : b.body = .v2 ⟨b.transactions.map .copy, b.stakingTransactions.map .copy,
      b.uncles.map copyHeader, b.incomingReceipts.map .copy,
      b.stateTransferTransactions.map .copy⟩ := by
    rw [Block.body, hv]
    rfl
  have hwhole : (∀ p ∈ b.incomingReceipts.map copy, p.Whole) ↔
      ∀ p ∈ b.incomingReceipts, p.Whole := List.forall_mem_map
  have hassembled : ∀ f : BodyFieldsV2, f = ⟨b.transactions.map .copy,
      b.stakingTransactions.map .copy, b.uncles.map copyHeader, b.incomingReceipts.map .copy,
      (b.stateTransferTransactions.map .copy).map filled⟩ →
      withBody1 b.header (Body.v2 f).transactions (Body.v2 f).stakingTransactions
        (Body.v2 f).uncles (Body.v2 f).incomingReceipts (Body.v2 f).stateTransferTransactions =
      { b with
        incomingReceipts := b.incomingReceipts.map .copy
        stateTransferTransactions := b.stateTransferTransactions.map .copy } := by
    rintro f rfl
    simp [withBody1, Body.transactions, Body.stakingTransactions, Body.uncles,
      Body.incomingReceipts, Body.stateTransferTransactions, Function.comp_def]
  rw [readBlock_writeBlock hw, hbody, map_eq_some_iff, ← hwhole]
  constructor
  · rintro ⟨body, hnorm, rfl⟩
    obtain ⟨hwhole, rfl⟩ := norm_bodyV2.1 hnorm
    exact ⟨hwhole, hassembled _ rfl⟩
  · rintro ⟨hwhole, rfl⟩
    exact ⟨_, norm_bodyV2.2 ⟨hwhole, rfl⟩, hassembled _ rfl⟩

/-- The block that is read has the header hash, transactions and receipts that were written. -/
structure SameContents (keccak : List UInt8 → Word) (b b' : Block) : Prop where
  hash : b'.hash keccak = b.hash keccak
  transactions : b'.transactions = b.transactions
  stakingTransactions : b'.stakingTransactions = b.stakingTransactions
  incomingReceipts : b'.incomingReceipts = b.incomingReceipts
  stateTransferTransactions : b'.stateTransferTransactions = b.stateTransferTransactions
  committed : ∀ deriveSha : List StateTransferTransaction → Word,
    b.header.fields.stateTransferTxHash = deriveSha b.stateTransferTransactions →
    b'.header.fields.stateTransferTxHash = deriveSha b'.stateTransferTransactions

/-- A block that is stored reads back unchanged. -/
def ReadsBack (keccak : List UInt8 → Word) (db : Database) (b : Block) : Prop :=
  ∀ db', writeBlock keccak db b = some db' → ∃ b',
    readBlock db' (b.hash keccak) b.numberU64 = some b' ∧ SameContents keccak b b'

/-- The copies and the encoding leave all parts of the block as they are. -/
structure Block.Durable (b : Block) : Prop where
  receipts : ∀ p ∈ b.incomingReceipts, p.Whole ∧ p.commitBitmap = p.commitSig
  stateTransfers : ∀ tx ∈ b.stateTransferTransactions, tx.balance = none

/-- **What reads back**: a block of version 3 that cannot be written or that the copies leave alone.
-/
theorem readsBack_iff {h : HeaderV3} (hv : b.header = .v3 h) :
    ReadsBack keccak db b ↔ writeBlock keccak db b = none ∨ b.Durable := by
  cases hw : writeBlock keccak db b with
  | none =>
    refine iff_of_true ?_ (.inl rfl)
    intro db' hdb'
    rw [hw] at hdb'
    cases hdb'
  | some db' =>
    have hcopies : b.incomingReceipts.map CXReceiptsProof.copy = b.incomingReceipts ↔
        ∀ p ∈ b.incomingReceipts, p.commitBitmap = p.commitSig := by
      simp only [map_eq_self, CXReceiptsProof.copy_eq_self]
    have hbalances : b.stateTransferTransactions.map StateTransferTransaction.copy =
        b.stateTransferTransactions ↔
        ∀ tx ∈ b.stateTransferTransactions, tx.balance = none := by
      simp only [map_eq_self, copy_eq_self]
    simp only [reduceCtorEq, false_or]
    constructor
    · intro hread
      obtain ⟨b', hb', hsame⟩ := hread db' hw
      obtain ⟨hwhole, rfl⟩ := (readBlock_eq_some hv hw).1 hb'
      exact ⟨fun p hp => ⟨hwhole p hp, hcopies.1 hsame.incomingReceipts p hp⟩,
        hbalances.1 hsame.stateTransferTransactions⟩
    · intro hdurable
      have hb : b = { b with
          incomingReceipts := b.incomingReceipts.map .copy
          stateTransferTransactions := b.stateTransferTransactions.map .copy } := by
        rw [hcopies.2 fun p hp => (hdurable.receipts p hp).2, hbalances.2 hdurable.stateTransfers]
      intro db'' hdb''
      obtain rfl : db' = db'' := some.inj (hw.symm.trans hdb'')
      exact ⟨b, (readBlock_eq_some hv hw).2 ⟨fun p hp => (hdurable.receipts p hp).1, hb⟩,
        rfl, rfl, rfl, rfl, rfl, fun _ h => h⟩

/-- A header of version 3. -/
def zeroV3 : HeaderV3 :=
  { HeaderFields.zero with
    outgoingReceiptHash := 0, incomingReceiptHash := 0, vrf := [], vdf := [], crossLinks := [],
    slashes := [] }

/-- The block of `migrationBlock`, with a state-transfer transaction that has no balance. -/
def copiedBlock : Block :=
  let b := migrationBlock (.v3 zeroV3)
  { b with stateTransferTransactions := b.stateTransferTransactions.map .copy }

theorem isSome_writeBlock (hbody : (bodyCodec.serial.encode b.body).isSome = true)
    (hheader : (headerCodec.serial.encode b.header).isSome = true) :
    (writeBlock keccak db b).isSome = true := by
  simp [writeBlock, writeBody, writeHeader, isSome_bind, hbody, hheader]

/-- A block whose transaction has no balance can be stored, and reads back. -/
theorem readsBack_copied :
    (∀ db, (writeBlock (fun _ => 0) db copiedBlock).isSome = true) ∧
      ∀ db, ReadsBack (fun _ => 0) db copiedBlock := by
  refine ⟨fun db => isSome_writeBlock (by decide +kernel) (by decide +kernel), fun db => ?_⟩
  refine (readsBack_iff rfl).2 (.inr ⟨?_, ?_⟩)
  · exact List.forall_mem_nil _
  · exact List.forall_mem_singleton.2 rfl

/-- **The balance is lost**: the block is stored without an error, and its commit has none when
read. -/
theorem balance_lost :
    ∃ b : Block, b.header = .v3 zeroV3 ∧
      b.stateTransferTransactions.map (·.balance) = [some 5] ∧
      ∀ keccak db, (∃ db' b', writeBlock keccak db b = some db' ∧
          readBlock db' (b.hash keccak) b.numberU64 = some b' ∧
          b'.stateTransferTransactions.map (·.balance) = [none] ∧
          b'.stateTransferTransactions.map stateTransferTransactionCodec.serial.encode ≠
            b.stateTransferTransactions.map stateTransferTransactionCodec.serial.encode) ∧
        ¬ ReadsBack keccak db b := by
  refine ⟨migrationBlock (.v3 zeroV3), rfl, rfl, fun keccak db => ?_⟩
  have hw : (writeBlock keccak db (migrationBlock (.v3 zeroV3))).isSome = true :=
    isSome_writeBlock (by decide +kernel) (by decide +kernel)
  obtain ⟨db', hw⟩ := isSome_iff_exists.1 hw
  have hread : readBlock db' _ _ = some copiedBlock :=
    (readBlock_eq_some rfl hw).2 ⟨List.forall_mem_nil _, rfl⟩
  refine ⟨⟨db', copiedBlock, hw, hread, rfl, by decide +kernel⟩, ?_⟩
  intro h
  obtain ⟨b', hb', hsame⟩ := h db' hw
  obtain rfl : copiedBlock = b' := some.inj (hread.symm.trans hb')
  exact absurd hsame.stateTransferTransactions (by decide +kernel)

end Read

end DyShard.Wire
