import DyShard.Lib.Transition
import DyShard.Wire.Store

/-!
# Transactions and receipts in memory

A state-transfer transaction memoises its hash and its size, and transactions and receipt proofs
are copied field by field.
-/

namespace DyShard.Wire

open Codec Rlp Atomic Transition Option

/-! ## The balance in the record -/

theorem encode_balance (tx : StateTransferTransaction) (balance : Option ℤ) :
    stateTransferTransactionCodec.encode { tx with balance } =
        stateTransferTransactionCodec.encode tx ↔
      bigInt.encode balance = bigInt.encode tx.balance := by
  simp only [stateTransferTransactionCodec, conv, record, wrap, field, nil, uint32, uint64, uint,
    bytes, Codec.bool, address, fixed, bind_some, map_some]
  cases bigInt.encode balance <;> cases bigInt.encode tx.balance <;> simp

theorem encode_filled (tx : StateTransferTransaction) :
    stateTransferTransactionCodec.encode (filled tx) = stateTransferTransactionCodec.encode tx := by
  apply (encode_balance tx _).2
  cases tx.balance <;> rfl

theorem encode_nil_iff {n : Option ℤ} : bigInt.encode none = bigInt.encode n ↔ n.getD 0 = 0 := by
  constructor
  · intro h
    have hnorm := bigInt.decode_encode n (.str []) h.symm
    cases n <;> simp_all [bigInt, bytesNat]
  · intro h
    cases n with
    | none => rfl
    | some n =>
      obtain rfl : n = 0 := h
      rfl

/-! ## Memoised hash and size -/

/-- `StateTransferTransaction`, with its caches. -/
structure MemoTx where
  data : StateTransferTransaction
  hash : Option Word
  size : Option ℕ

/-- The bytes that `EncodeRLP` writes; the error of an encoding that fails is dropped. -/
def encoding (tx : StateTransferTransaction) : List UInt8 :=
  (stateTransferTransactionCodec.serial.encode tx).getD []

/-- The methods that use or change a transaction.  A failed decoding leaves anything. -/
inductive MemoTx.Act where
  | setToFreeze (label : Bool)
  | setAddress (addr : Address)
  | setNonce (nonce : UInt64)
  | setBalance (b : Option ℤ)
  | setData (d : List UInt8)
  | setState (address : Address) (balance : Option ℤ) (nonce : UInt64) (data : List UInt8)
  | hash
  | size
  | encodeRLP
  | decodeRLP (bytes : List UInt8) (left : StateTransferTransaction)

namespace MemoTx

variable (keccak : List UInt8 → Word)

/-- `Hash`. -/
def getHash (tx : MemoTx) : MemoTx × Word :=
  let v := tx.hash.getD (keccak (encoding tx.data))
  ({ tx with hash := some v }, v)

/-- `Size`. -/
def getSize (tx : MemoTx) : MemoTx × ℕ :=
  let c := tx.size.getD (encoding tx.data).length
  ({ tx with size := some c }, c)

/-- One call. -/
def step (tx : MemoTx) : Act → Option MemoTx
  | .setToFreeze label => some { tx with data := tx.data.setToFreeze label }
  | .setAddress addr => some { tx with data.address := addr }
  | .setNonce nonce => some { tx with data.nonce := nonce }
  | .setBalance b => some { tx with data.balance := b }
  | .setData d => some { tx with data.data := d }
  | .setState address balance nonce data =>
    some { tx with data := { tx.data with address, balance, nonce, data } }
  | .hash => some (tx.getHash keccak).1
  | .size => some tx.getSize.1
  | .encodeRLP => some tx
  | .decodeRLP bytes left =>
    match stateTransferTransactionCodec.serial.decode bytes with
    | some data => some { tx with data, size := some bytes.length }
    | none => some { tx with data := left }

/-- A call that changes the fields finds nothing memoised, or decodes what was written. -/
def Undisturbed (tx : MemoTx) : Act → Prop
  | .hash | .size | .encodeRLP => True
  | .decodeRLP bytes _ => tx.hash = none ∧
      (tx.size = none ∧ stateTransferTransactionCodec.serial.decode bytes = none ∨
        ∃ data, stateTransferTransactionCodec.serial.encode data = some bytes)
  | _ => tx.hash = none ∧ tx.size = none

/-- The next `Hash` and the next `Size` are those of the fields. -/
structure Current (tx : MemoTx) : Prop where
  hash : (tx.getHash keccak).2 = keccak (encoding tx.data)
  size : tx.getSize.2 = (encoding tx.data).length

variable {keccak : List UInt8 → Word} {tx tx' : MemoTx}

theorem current_of_none (hhash : tx.hash = none) (hsize : tx.size = none) :
    tx.Current keccak :=
  ⟨by simp [getHash, hhash], by simp [getSize, hsize]⟩

theorem encoding_of_decode {data data' : StateTransferTransaction} {bytes : List UInt8}
    (h : stateTransferTransactionCodec.serial.encode data = some bytes)
    (h' : stateTransferTransactionCodec.serial.decode bytes = some data') :
    encoding data' = bytes := by
  rw [Codec.decode_encode _ _ _ h] at h'
  obtain rfl : filled data = data' :=
    some.inj ((norm_stateTransferTransaction data).symm.trans h')
  have hserial : stateTransferTransactionCodec.serial.encode (filled data) = some bytes := by
    simpa [serial, wrap, encode_filled] using h
  rw [encoding, hserial, getD_some]

theorem current_step {a : Act} (h : tx.Current keccak) (ha : tx.Undisturbed a)
    (hstep : tx.step keccak a = some tx') : tx'.Current keccak := by
  cases a with
  | setToFreeze | setAddress | setNonce | setBalance | setData | setState =>
    cases hstep
    exact current_of_none ha.1 ha.2
  | hash =>
    cases hstep
    exact ⟨by simpa [getHash] using h.hash, h.size⟩
  | size =>
    cases hstep
    exact ⟨h.hash, by simpa [getSize] using h.size⟩
  | encodeRLP =>
    cases hstep
    exact h
  | decodeRLP bytes left =>
    obtain ⟨hhash, hbytes⟩ := ha
    simp only [step] at hstep
    split at hstep <;> cases hstep
    next data hdata =>
      rcases hbytes with ⟨-, hnone⟩ | ⟨data', hencode⟩
      · simp [hnone] at hdata
      · refine ⟨by simp [getHash, hhash], ?_⟩
        simp [getSize, encoding_of_decode hencode hdata]
    next hdata =>
      rcases hbytes with ⟨hsize, -⟩ | ⟨data', hencode⟩
      · exact current_of_none hhash hsize
      · rw [Codec.decode_encode _ _ _ hencode] at hdata
        cases (norm_stateTransferTransaction data').symm.trans hdata

/-- **The memoised values are current** if calls that change the fields find nothing memoised. -/
theorem memo_reach (keccak : List UInt8 → Word) (data : StateTransferTransaction)
    (h : Reach (step keccak) Undisturbed ⟨data, none, none⟩ tx) :
    (tx.getHash keccak).2 = keccak (encoding tx.data) ∧
      tx.getSize.2 = (encoding tx.data).length := by
  have hcurrent : tx.Current keccak :=
    h.invariant (current_of_none rfl rfl) fun _ _ _ h ha hstep => current_step h ha hstep
  exact ⟨hcurrent.hash, hcurrent.size⟩

/-- A hash that tells lengths apart. -/
def lengthHash (bs : List UInt8) : Word := BitVec.ofNat 256 bs.length

/-- Set first, then asked: both values are memoised, and current. -/
theorem memo_fresh :
    ∃ tx, exec (step lengthHash) ⟨⟨0, 1, 7, 0xa1, some 5, 0, [], true, 3⟩, none, none⟩
        [.setNonce 300, .hash, .size] = some tx ∧
      tx.hash.isSome = true ∧ tx.size.isSome = true ∧
      (tx.getHash lengthHash).2 = lengthHash (encoding tx.data) ∧
      tx.getSize.2 = (encoding tx.data).length := by
  have hset : Reach (step lengthHash) Undisturbed
      ⟨⟨0, 1, 7, 0xa1, some 5, 0, [], true, 3⟩, none, none⟩ _ :=
    .tail (a := .setNonce 300) .refl ⟨rfl, rfl⟩ rfl
  have hasked := (hset.tail (a := .hash) (by trivial) rfl).tail (a := .size) (by trivial) rfl
  exact ⟨_, rfl, rfl, rfl, memo_reach lengthHash _ hasked⟩

/-- **Memoised values go stale**: the nonce is set after the hash and the size have been asked
for. -/
theorem memo_stale :
    ((exec (step lengthHash) ⟨⟨0, 1, 7, 0xa1, some 5, 0, [], true, 3⟩, none, none⟩
      [.hash, .size, .setNonce 300]).map fun tx =>
        ((tx.getHash lengthHash).2 == lengthHash (encoding tx.data),
          tx.getSize.2 == (encoding tx.data).length)) = some (false, false) := by
  decide +kernel

end MemoTx

/-! ## Copies -/

/-- A record whose big integer is behind a pointer; the one among the fields is not looked at. -/
structure Ref (α : Type) where
  fields : α
  number : Option ℤ

/-- `CXReceiptsProof` with the pointers to amounts and block number. -/
structure CXReceiptsProofRef where
  receipts : List (Option (Ref CXReceipt))
  merkleProof : Option (Ref CXMerkleProof)
  header : Header
  commitSig : List UInt8
  commitBitmap : List UInt8

/-- `CXReceipt.Copy` and `CXMerkleProof.Copy`: a nil record stays nil, a nil number panics. -/
def Ref.copy {α : Type} : Option (Ref α) → Option (Option (Ref α))
  | none => some none
  | some r => r.number.map fun number => some { r with number := some number }

/-- `CXReceiptsProof.Copy`. -/
def CXReceiptsProofRef.copy (p : CXReceiptsProofRef) : Option CXReceiptsProofRef := do
  let receipts ← p.receipts.mapM Ref.copy
  let merkleProof ← Ref.copy p.merkleProof
  return ⟨receipts, merkleProof, copyHeader p.header, p.commitSig, p.commitSig⟩

/-- What is written: a nil number is zero. -/
def CXReceiptsProofRef.written (p : CXReceiptsProofRef) : CXReceiptsProof where
  receipts := p.receipts.map (·.map fun r => { r.fields with amount := r.number.getD 0 })
  merkleProof := p.merkleProof.map fun m => { m.fields with blockNum := m.number.getD 0 }
  header := p.header
  commitSig := p.commitSig
  commitBitmap := p.commitBitmap

/-- No number is behind a nil pointer. -/
def CXReceiptsProofRef.Numbered (p : CXReceiptsProofRef) : Prop :=
  (∀ r ∈ p.receipts, ∀ x ∈ r, x.number ≠ none) ∧ ∀ m ∈ p.merkleProof, m.number ≠ none

theorem encode_copy_proof {p : CXReceiptsProof} (hp : (cxReceiptsProofCodec.encode p).isSome) :
    cxReceiptsProofCodec.encode p.copy = cxReceiptsProofCodec.encode p ↔
      p.commitBitmap = p.commitSig := by
  obtain ⟨w, hw⟩ := isSome_iff_exists.1 hp
  rw [hw]
  simp only [cxReceiptsProofCodec, conv, record, wrap, field, nil, bytes, bind_some,
    map_some, bind_eq_some_iff, map_eq_some_iff] at hw
  obtain ⟨_, ⟨receipts, hreceipts, _, ⟨proof, hproof, _, ⟨header, hheader, ⟨⟩⟩, rfl⟩, rfl⟩,
    ⟨⟩⟩ := hw
  simp [cxReceiptsProofCodec, conv, record, wrap, field, nil, bytes, CXReceiptsProof.copy,
    hreceipts, hproof, hheader, eq_comm]

theorem Ref.copy_iff {α : Type} (r r' : Option (Ref α)) :
    Ref.copy r = some r' ↔ (∀ x ∈ r, x.number ≠ none) ∧ r' = r := by
  rcases r with _ | ⟨fields, number⟩
  · simp [copy, eq_comm]
  · cases number <;> simp [copy, eq_comm]

theorem mapM_copy_iff {α : Type} {copy : α → Option α} {good : α → Prop} {f : α → α}
    (hcopy : ∀ a b, copy a = some b ↔ good a ∧ b = f a) (as bs : List α) :
    as.mapM copy = some bs ↔ (∀ a ∈ as, good a) ∧ bs = as.map f := by
  induction as generalizing bs with
  | nil => simp [eq_comm]
  | cons a as ih =>
    simp only [List.mapM_cons, List.forall_mem_cons, List.map_cons]
    constructor
    · intro h
      obtain ⟨b, hb, bs', hbs, rfl⟩ : ∃ b, copy a = some b ∧ ∃ bs',
          as.mapM copy = some bs' ∧ b :: bs' = bs := by
        simpa [bind_eq_some_iff] using h
      obtain ⟨ha, rfl⟩ := (hcopy a b).1 hb
      obtain ⟨has, rfl⟩ := (ih bs').1 hbs
      exact ⟨⟨ha, has⟩, rfl⟩
    · rintro ⟨⟨ha, has⟩, rfl⟩
      simp [(hcopy a _).2 ⟨ha, rfl⟩, (ih _).2 ⟨has, rfl⟩]

theorem CXReceiptsProofRef.copy_iff (p q : CXReceiptsProofRef) :
    p.copy = some q ↔ p.Numbered ∧ q = { p with commitBitmap := p.commitSig } := by
  have hreceipts := mapM_copy_iff (f := id) Ref.copy_iff p.receipts
  simp only [copy, bind_eq_bind, bind_eq_some_iff, hreceipts, Ref.copy_iff,
    List.map_id, Numbered, copyHeader]
  constructor
  · rintro ⟨_, ⟨hreceipts, rfl⟩, _, ⟨hproof, rfl⟩, ⟨⟩⟩
    exact ⟨⟨hreceipts, hproof⟩, rfl⟩
  · rintro ⟨⟨hreceipts, hproof⟩, rfl⟩
    exact ⟨_, ⟨hreceipts, rfl⟩, _, ⟨hproof, rfl⟩, rfl⟩

/-- **When a copy has the encoding of the original**: no transaction carries a balance, no proof has
a number behind a nil pointer, and every bitmap is the signature it is copied from. -/
theorem copies_iff (txs : List StateTransferTransaction) (ps : List CXReceiptsProofRef)
    (hps : ∀ p ∈ ps, (cxReceiptsProofCodec.encode p.written).isSome) :
    ((txs.map .copy).map stateTransferTransactionCodec.encode =
          txs.map stateTransferTransactionCodec.encode ∧
        ∃ qs, ps.mapM CXReceiptsProofRef.copy = some qs ∧
          (qs.map fun q => cxReceiptsProofCodec.encode q.written) =
            ps.map fun p => cxReceiptsProofCodec.encode p.written) ↔
      (∀ tx ∈ txs, tx.balance.getD 0 = 0) ∧
        ∀ p ∈ ps, p.Numbered ∧ p.commitBitmap = p.commitSig := by
  simp only [mapM_copy_iff CXReceiptsProofRef.copy_iff, List.map_map, List.map_inj_left,
    Function.comp_apply, StateTransferTransaction.copy, encode_balance, encode_nil_iff,
    and_congr_right_iff]
  intro _
  constructor
  · rintro ⟨_, ⟨hnumbered, rfl⟩, hencode⟩ p hp
    rw [List.map_map, List.map_inj_left] at hencode
    exact ⟨hnumbered p hp, (encode_copy_proof (hps p hp)).1 (hencode p hp)⟩
  · intro h
    refine ⟨_, ⟨fun p hp => (h p hp).1, rfl⟩, ?_⟩
    rw [List.map_map, List.map_inj_left]
    intro p hp
    exact (encode_copy_proof (hps p hp)).2 (h p hp).2

/-- A proof of one receipt, with the given amount and bitmap and the signature `[1]`. -/
def sampleProof (amount : Option ℤ) (commitBitmap : List UInt8) : CXReceiptsProofRef :=
  ⟨[some ⟨⟨1, 0xa1, some 0xa2, 0, 1, 0⟩, amount⟩], none, .v3 zeroV3, [1], commitBitmap⟩

/-- A transaction without a balance, and a proof whose bitmap is its signature. -/
theorem copies_exact :
    let tx : StateTransferTransaction := ⟨0, 1, 7, 0xa1, none, 0, [], true, 3⟩
    stateTransferTransactionCodec.encode tx.copy = stateTransferTransactionCodec.encode tx ∧
      ∃ q, (sampleProof (some 5) [1]).copy = some q ∧
        cxReceiptsProofCodec.encode q.written =
          cxReceiptsProofCodec.encode (sampleProof (some 5) [1]).written := by
  have h := (copies_iff [⟨0, 1, 7, 0xa1, none, 0, [], true, 3⟩] [sampleProof (some 5) [1]]
    (List.forall_mem_singleton.2 (by decide +kernel))).2
    ⟨List.forall_mem_singleton.2 rfl,
      List.forall_mem_singleton.2 ⟨⟨by simp [sampleProof], nofun⟩, rfl⟩⟩
  simpa [List.mapM_cons, bind_eq_some_iff] using h

/-- **Copies differ**: balances are lost, a bitmap becomes its signature, a nil amount panics. -/
theorem copies_differ :
    let tx : StateTransferTransaction := ⟨0, 1, 7, 0xa1, some 5, 0, [], false, 3⟩
    let encode (p : CXReceiptsProofRef) := cxReceiptsProofCodec.serial.encode p.written
    stateTransferTransactionCodec.serial.encode tx.copy ≠
        stateTransferTransactionCodec.serial.encode tx ∧
      (sampleProof (some 5) [2]).copy.map encode ≠ some (encode (sampleProof (some 5) [2])) ∧
      (sampleProof none [1]).copy.isNone := by
  refine ⟨by decide +kernel, by decide +kernel, rfl⟩

end DyShard.Wire
