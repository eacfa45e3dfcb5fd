import DyShard.Chain.Signature
import DyShard.Core.Types
import DyShard.Lib.Once

/-!
# Cross-shard receipts: each is credited once

A block brings receipts of other shards, each list with the header of its source block and a Merkle
proof.  What is checked is the header; the marker of a spent proof is made of the number and the
shard in the Merkle proof, which nothing compares with the header.
-/

namespace DyShard.CrossShard

open Consensus Chain List Transition Option
open DyShard.Core (CXReceipt)

/-! ## Proofs -/

/-- `CXMerkleProof`. -/
structure CXMerkleProof where
  blockNum : ℕ
  blockHash : Word
  shardID : ShardID
  cxReceiptHash : Word
  shardIDs : List ShardID
  cxShardHashes : List Word

/-- `CXReceiptsProof`. -/
structure CXReceiptsProof where
  receipts : List CXReceipt
  merkleProof : CXMerkleProof
  header : Chain.Header
  commitSig : List Byte
  commitBitmap : List Byte

/-- The block, as far as its incoming receipts go. -/
structure Block where
  epoch : ℕ
  incomingReceiptHash : Word
  incomingReceipts : List CXReceiptsProof

/-- The errors of the checks. -/
inductive ReceiptError where
  | doubleSpent
  | invalidToShardID (expected toShardID : ShardID)
  | beforeCxFork
  | noReceipts
  | distinctToShardID
  | noMatchingToShardID
  | trieRootNotMatch
  | incomingReceiptRootNotMatch
  | blockHashNotMatch
  | headerSignature (e : SigError)
  | invalidIncomingReceiptHash
  deriving DecidableEq, Repr

variable {K P S : Type} [DecidableEq K] [Add P] [Sub P] [Zero P]

/-- The configuration of the validator and its hash functions. -/
structure Validator (K P S : Type) where
  crypto : Crypto K P S
  /-- `AcceptsCrossTx`. -/
  acceptsCrossTx : ℕ → Bool
  /-- `HasCrossTxFields`. -/
  hasCrossTxFields : ℕ → Bool
  /-- `DeriveSha` of receipts. -/
  deriveSha : List CXReceipt → Word
  /-- `DeriveSha` of proofs. -/
  deriveProofsSha : List CXReceiptsProof → Word
  keccak256 : List Byte → Word
  emptyRootHash : Word

/-! ## The checks -/

/-- `GetToShardID`: all receipts go to one shard. -/
def getToShardID (cxp : CXReceiptsProof) : Except ReceiptError ShardID :=
  match cxp.receipts with
  | [] => .error .noReceipts
  | cx :: cxs => if cxs.all (·.toShardID == cx.toShardID) then .ok cx.toShardID
    else .error .distinctToShardID

/-- `binary.BigEndian.PutUint32`. -/
def putUint32 (n : UInt32) : List Byte :=
  (List.range 4).map fun i => BitVec.ofNat 8 (n.toNat / 256 ^ (3 - i))

/-- The bytes whose hash is the root of the outgoing receipts. -/
def outgoingBytes (m : CXMerkleProof) : List Byte :=
  (m.shardIDs.zip m.cxShardHashes).flatMap fun e => putUint32 e.1 ++ hashBytes e.2

/-- The root of the receipts for a shard: the last one that is listed. -/
def shardRoot (m : CXMerkleProof) (toShardID : ShardID) : Option Word :=
  ((m.shardIDs.zip m.cxShardHashes).filter fun e => e.1 = toShardID).getLast?.map (·.2)

variable (v : Validator K P S)

/-- The check of the Merkle proof; a shard without a hash is an index out of range. -/
def checkMerkleProof (cxp : CXReceiptsProof) (toShardID : ShardID) : Outcome ReceiptError Unit :=
  let merkleProof := cxp.merkleProof
  if merkleProof.cxShardHashes.length < merkleProof.shardIDs.length then .panic
  else
    match shardRoot merkleProof toShardID with
    | none => .error .noMatchingToShardID
    | some root =>
      let bytes := outgoingBytes merkleProof
      if v.deriveSha cxp.receipts ≠ root then .error .trieRootNotMatch
      else if (if bytes = [] then v.emptyRootHash else v.keccak256 bytes) ≠ merkleProof.cxReceiptHash
        then .error .incomingReceiptRootNotMatch
      else if cxp.header.hash ≠ merkleProof.blockHash ∨
          cxp.header.outgoingReceiptHash ≠ merkleProof.cxReceiptHash then .error .blockHashNotMatch
      else .ok ()

/-- The signature as an array of 96 bytes. -/
def commitSigBytes (cxp : CXReceiptsProof) : List Byte :=
  cxp.commitSig.take 96 ++ List.replicate (96 - cxp.commitSig.length) 0

/-- `ValidateCXReceiptsProof`. -/
def validateCXReceiptsProof (e : EngineImpl K P) (chain : ChainReader K) (cxp : CXReceiptsProof) :
    Outcome ReceiptError Unit × EngineImpl K P :=
  if !v.acceptsCrossTx cxp.header.epoch then (.error .beforeCxFork, e)
  else
    match getToShardID cxp with
    | .error err => (.error err, e)
    | .ok toShardID =>
      match checkMerkleProof v cxp toShardID with
      | .panic => (.panic, e)
      | .error err => (.error err, e)
      | .ok _ =>
        match verifyHeaderSignature v.crypto e chain cxp.header (commitSigBytes cxp)
            cxp.commitBitmap with
        | (.ok _, e) => (.ok (), e)
        | (.error err, e) => (.error (.headerSignature err), e)
        | (.panic, e) => (.panic, e)

/-- The markers of the spent proofs, by shard and block number. -/
abbrev Spent := ShardID × UInt64 → Bool

/-- The key of `ReadCXReceiptsProofSpent` and `WriteCXReceiptsProofSpent`. -/
def CXReceiptsProof.spentKey (cxp : CXReceiptsProof) : ShardID × UInt64 :=
  (cxp.merkleProof.shardID, .ofNat cxp.merkleProof.blockNum)

/-- `IsSpent`. -/
def isSpent (spent : Spent) (cxp : CXReceiptsProof) : Bool := spent cxp.spentKey

/-- The loop of `verifyIncomingReceipts`; `m` are the source blocks seen before. -/
def verifyProofs (v : Validator K P S) (chain : ChainReader K) (spent : Spent) :
    EngineImpl K P → List Word → List CXReceiptsProof → Outcome ReceiptError Unit
  | _, _, [] => .ok ()
  | e, m, cxp :: cxps =>
    if isSpent spent cxp then .error .doubleSpent
    else if cxp.merkleProof.blockHash ∈ m then .error .doubleSpent
    else
      match cxp.receipts.find? fun item => item.toShardID ≠ chain.shardID with
      | some item => .error (.invalidToShardID chain.shardID item.toShardID)
      | none =>
        match validateCXReceiptsProof v e chain cxp with
        | (.panic, _) => .panic
        | (.error err, _) => .error err
        | (.ok _, e) => verifyProofs v chain spent e (cxp.merkleProof.blockHash :: m) cxps

/-- `verifyIncomingReceipts`. -/
def verifyIncomingReceipts (e : EngineImpl K P) (chain : ChainReader K) (spent : Spent)
    (block : Block) : Outcome ReceiptError Unit := do
  verifyProofs v chain spent e [] block.incomingReceipts
  let incomingReceiptHash :=
    if block.incomingReceipts = [] then v.emptyRootHash else v.deriveProofsSha block.incomingReceipts
  if incomingReceiptHash ≠ block.incomingReceiptHash then .error .invalidIncomingReceiptHash
  else .ok ()

/-- `WriteCXReceiptsProofSpent`, as it is called when the block is written. -/
def writeSpent (spent : Spent) (block : Block) : Spent := fun key =>
  spent key || (v.hasCrossTxFields block.epoch && (block.incomingReceipts.map (·.spentKey)).elem key)

/-- A block that is offered to the node, whatever its caches and its chain are by then. -/
structure Offer (K P : Type) where
  engine : EngineImpl K P
  chain : ChainReader K
  block : Block

/-- A block is verified and written. -/
def accept (spent : Spent) (a : Offer K P) : Option Spent :=
  match verifyIncomingReceipts v a.engine a.chain spent a.block with
  | .ok _ => some (writeSpent v spent a.block)
  | _ => none

/-! ## What an accepted block has passed -/

variable {v : Validator K P S} {chain : List (Offer K P)} {s s' : Spent} {cxp : CXReceiptsProof}
  {e : EngineImpl K P}

omit [DecidableEq K] [Add P] [Sub P] [Zero P] in
theorem blockHash_of_checked {toShardID : ShardID} (h : checkMerkleProof v cxp toShardID = .ok ()) :
    cxp.merkleProof.blockHash = cxp.header.hash := by
  unfold checkMerkleProof at h
  dsimp only at h
  split at h
  · cases h
  · cases hroot : shardRoot cxp.merkleProof toShardID with
    | none => simp [hroot] at h
    | some root =>
      rw [hroot] at h
      dsimp only at h
      -- the two cases are the two ways in which the outgoing root is built
      split_ifs at h
      all_goals
        rename_i hhash
        exact (not_not.1 (not_or.1 hhash).1).symm

theorem blockHash_of_validated {chain : ChainReader K}
    (h : (validateCXReceiptsProof v e chain cxp).1 = .ok ()) :
    cxp.merkleProof.blockHash = cxp.header.hash := by
  unfold validateCXReceiptsProof at h
  split at h
  · cases h
  · split at h
    · cases h
    case h_2 toShardID _ =>
      cases hcheck : checkMerkleProof v cxp toShardID with
      | panic => simp [hcheck] at h
      | error err => simp [hcheck] at h
      | ok _ => exact blockHash_of_checked hcheck

theorem verifyProofs_eq_ok {chain : ChainReader K} {spent : Spent}
    {m : List Word} {cxps : List CXReceiptsProof} (h : verifyProofs v chain spent e m cxps = .ok ()) :
    (∀ cxp ∈ cxps, spent cxp.spentKey = false ∧ cxp.header.hash ∉ m) ∧
      cxps.Pairwise fun p q => p.header.hash ≠ q.header.hash := by
  induction cxps generalizing e m with
  | nil => exact ⟨nofun, .nil⟩
  | cons cxp cxps ih =>
    unfold verifyProofs at h
    split_ifs at h with hspent hseen
    cases hfind : cxp.receipts.find? fun item => item.toShardID ≠ chain.shardID with
    | some item => rw [hfind] at h; cases h
    | none =>
      rw [hfind] at h
      have hhash : (validateCXReceiptsProof v e chain cxp).1 = .ok () →
          cxp.merkleProof.blockHash = cxp.header.hash := blockHash_of_validated
      generalize validateCXReceiptsProof v e chain cxp = r at h hhash
      obtain ⟨_ | _ | _, e'⟩ := r
      · cases h
      · cases h
      · obtain ⟨hrest, hpair⟩ := ih h
        rw [hhash rfl] at hseen hrest
        refine ⟨fun p hp => ?_, .cons (fun q hq => ?_) hpair⟩
        · rcases mem_cons.1 hp with rfl | hp
          · exact ⟨by simpa [isSpent] using hspent, hseen⟩
          · exact ⟨(hrest p hp).1, fun hm => (hrest p hp).2 (mem_cons_of_mem _ hm)⟩
        · exact fun heq => (hrest q hq).2 (heq ▸ mem_cons_self)

theorem accept_eq_some {spent spent' : Spent} {a : Offer K P} (h : accept v spent a = some spent') :
    spent' = writeSpent v spent a.block ∧
      verifyProofs v a.chain spent a.engine [] a.block.incomingReceipts = .ok () := by
  unfold accept at h
  split at h
  case h_1 hverify =>
    obtain ⟨_, hproofs, -⟩ := Outcome.bind_eq_ok.1 hverify
    exact ⟨(some.inj h).symm, hproofs⟩
  case h_2 => cases h

/-! ## Over whole chains -/

/-- The proofs that a chain of blocks has applied, in order. -/
def applied (chain : List (Offer K P)) : List CXReceiptsProof :=
  chain.flatMap (·.block.incomingReceipts)

/-- No receipt list of a source block is applied twice. -/
def CreditedOnce (proofs : List CXReceiptsProof) : Prop :=
  proofs.Pairwise fun p q => ¬ (p.header.hash = q.header.hash ∧ p.receipts = q.receipts)

/-- The blocks of the chain that have incoming receipts are written with their markers. -/
def Marks (v : Validator K P S) (chain : List (Offer K P)) : Prop :=
  ∀ a ∈ chain, a.block.incomingReceipts ≠ [] → v.hasCrossTxFields a.block.epoch = true

theorem disjoint_spentKeys (hrun : exec (accept v) s chain = some s') (hmarks : Marks v chain) :
    chain.Pairwise fun a b => List.Disjoint (a.block.incomingReceipts.map (·.spentKey))
      (b.block.incomingReceipts.map (·.spentKey)) := by
  refine Once.disjoint_of_exec (fun s k => s k = true) ?_ ?_ ?_ hrun
  · intro s a s' h k hk hset
    obtain ⟨p, hp, rfl⟩ := mem_map.1 hk
    have hfree := ((verifyProofs_eq_ok (accept_eq_some h).2).1 p hp).1
    rw [hfree] at hset
    cases hset
  · intro s a s' h k hset
    obtain ⟨rfl, -⟩ := accept_eq_some h
    simp [writeSpent, hset]
  · intro a ha s s' h k hk
    obtain ⟨rfl, -⟩ := accept_eq_some h
    have hsome : a.block.incomingReceipts ≠ [] := by
      rintro hnil
      simp [hnil] at hk
    simp only [writeSpent, hmarks a ha hsome, Bool.true_and, Bool.or_eq_true]
    exact .inr (elem_eq_true_of_mem hk)

theorem creditedOnce_of_spentKey (hrun : exec (accept v) s chain = some s') (hmarks : Marks v chain)
    (hkey : ∀ p ∈ applied chain, ∀ q ∈ applied chain, p.header.hash = q.header.hash →
      p.receipts = q.receipts → p.spentKey = q.spentKey) : CreditedOnce (applied chain) := by
  have hblock : ∀ a ∈ chain, a.block.incomingReceipts.Pairwise
      fun p q => p.header.hash ≠ q.header.hash := by
    clear hkey hmarks
    induction chain generalizing s with
    | nil => nofun
    | cons a chain ih =>
      obtain ⟨s₁, hstep, hrest⟩ := bind_eq_some_iff.1 hrun
      intro b hb
      rcases mem_cons.1 hb with rfl | hb
      · exact (verifyProofs_eq_ok (accept_eq_some hstep).2).2
      · exact ih hrest b hb
  refine pairwise_flatMap.2 ⟨fun a ha => ?_, ?_⟩
  · exact (hblock a ha).imp fun hne hsame => hne hsame.1
  · have hdisjoint := disjoint_spentKeys hrun hmarks
    refine hdisjoint.imp_of_mem fun {a b} ha hb hab p hp q hq hsame => ?_
    have hp' : p ∈ applied chain := mem_flatMap.2 ⟨a, ha, hp⟩
    have hq' : q ∈ applied chain := mem_flatMap.2 ⟨b, hb, hq⟩
    have heq := hkey p hp' q hq' hsame.1 hsame.2
    exact hab (mem_map_of_mem hp) (heq ▸ mem_map_of_mem hq)

/-- **When nothing is credited twice**: the proofs of a list carry the same number and shard. -/
theorem creditedOnce_iff {v : Validator K P S} {chain : List (Offer K P)} {s s' : Spent}
    (hrun : exec (accept v) s chain = some s') (hmarks : Marks v chain) :
    CreditedOnce (applied chain) ↔
      ∀ p ∈ applied chain, ∀ q ∈ applied chain, p.header.hash = q.header.hash →
        p.receipts = q.receipts → p.spentKey = q.spentKey := by
  refine ⟨fun h p hp q hq hhash hreceipts => ?_, creditedOnce_of_spentKey hrun hmarks⟩
  by_contra hne
  have hpq : p ≠ q := fun heq => hne (congrArg CXReceiptsProof.spentKey heq)
  have : Std.Symm fun p q : CXReceiptsProof =>
      ¬ (p.header.hash = q.header.hash ∧ p.receipts = q.receipts) :=
    ⟨fun _ _ hnot hsame => hnot ⟨hsame.1.symm, hsame.2.symm⟩⟩
  exact h.forall hp hq hpq ⟨hhash, hreceipts⟩

/-- Honest proofs are credited once, if no two source headers have the same hash. -/
theorem creditedOnce_of_header (hrun : exec (accept v) s chain = some s') (hmarks : Marks v chain)
    (hhash : ∀ p ∈ applied chain, ∀ q ∈ applied chain, p.header.hash = q.header.hash →
      p.header = q.header)
    (hfields : ∀ p ∈ applied chain, p.merkleProof.blockNum = p.header.number ∧
      p.merkleProof.shardID = p.header.shardID) : CreditedOnce (applied chain) := by
  refine creditedOnce_of_spentKey hrun hmarks fun p hp q hq heq _ => ?_
  have hheader := hhash p hp q hq heq
  unfold CXReceiptsProof.spentKey
  rw [(hfields p hp).1, (hfields p hp).2, (hfields q hq).1, (hfields q hq).2, hheader]

/-! ## The same receipts under another number -/

namespace Replayed

/-- A validator whose hash functions are constant. -/
def validator : Validator ℕ ℤ (List Byte) where
  crypto := Double.crypto
  acceptsCrossTx _ := true
  hasCrossTxFields _ := true
  deriveSha _ := 0
  deriveProofsSha _ := 0
  keccak256 _ := 0
  emptyRootHash := 0

/-- Blocks 5 and 6 of shard 0. -/
def fifth : Chain.Header := ⟨7, 0, 1, 5, 5, 0⟩

@[inherit_doc fifth]
def sixth : Chain.Header := ⟨8, 0, 1, 6, 6, 0⟩

/-- A block of shard 0 with its commit signature, and one receipt for shard 1. -/
def proof (header : Chain.Header) (blockNum : ℕ) : CXReceiptsProof where
  receipts := [⟨1, 0xaa, some 0xbb, 0, 1, 100⟩]
  merkleProof := ⟨blockNum, header.hash, 0, 0, [1], [0]⟩
  header
  commitSig := Chain.constructCommitPayload Double.chain.isStaking 1 header.hash
    (.ofNat header.number) (.ofNat header.viewID) ++ replicate 56 0
  commitBitmap := [0x0F]

/-- Shard 1 is offered a block with the given proofs. -/
def offer (proofs : List CXReceiptsProof) : Offer ℕ ℤ :=
  ⟨newEngine, { Double.chain with shardID := 1 }, ⟨1, 0, proofs⟩⟩

/-- Two blocks, with the proofs of two source blocks. -/
def genuine : List (Offer ℕ ℤ) := [offer [proof fifth 5], offer [proof sixth 6]]

/-- Two blocks, the second with the proof of the first under another block number. -/
def replayed : List (Offer ℕ ℤ) := [offer [proof fifth 5], offer [proof fifth 6]]

/-- No proof is spent. -/
def unspent : Spent := fun _ => false

theorem exec_isSome {s : List (Offer ℕ ℤ)} (h : (exec (accept validator) unspent s).isSome = true) :
    ∃ s', exec (accept validator) unspent s = some s' := isSome_iff_exists.1 h

end Replayed

open Replayed

/-- Two proofs, each with the number and the shard of its header. -/
theorem creditedOnce_headers :
    (applied genuine).map (·.header) = [fifth, sixth] ∧ CreditedOnce (applied genuine) := by
  obtain ⟨_, hs⟩ := exec_isSome (s := genuine) (by decide +kernel)
  refine ⟨rfl, creditedOnce_of_header hs (fun _ _ _ => rfl) ?_ ?_⟩ <;>
    simp [genuine, applied, offer, proof, fifth, sixth]

/-- Two genuine proofs with the same receipts, each credited once. -/
theorem creditedOnce_genuine : ∃ s', exec (accept validator) unspent genuine = some s' ∧
    (applied genuine).length = 2 ∧ CreditedOnce (applied genuine) := by
  obtain ⟨s', hs'⟩ := exec_isSome (s := genuine) (by decide +kernel)
  refine ⟨s', hs', rfl, (creditedOnce_iff hs' fun _ _ _ => rfl).2 ?_⟩
  simp [genuine, applied, offer, proof, fifth, sixth]

/-- **A receipt is credited twice**: the second proof has another block number. -/
theorem receipt_credited_twice : ∃ s', exec (accept validator) unspent replayed = some s' ∧
    ¬ CreditedOnce (applied replayed) := by
  obtain ⟨s', hs'⟩ := exec_isSome (s := replayed) (by decide +kernel)
  refine ⟨s', hs', fun h => ?_⟩
  have hpair : CreditedOnce [proof fifth 5, proof fifth 6] := h
  exact (pairwise_cons.1 hpair).1 _ (mem_singleton_self _) ⟨rfl, rfl⟩

end DyShard.CrossShard
