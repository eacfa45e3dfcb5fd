import DyShard.Consensus.Validator
import DyShard.Lib.Lru

/-!
# Commit signatures of headers and cross links: `engineImpl`

A block is final when a quorum of its committee has signed its commit payload.  The engine keeps
the committees of the last epochs and the signatures it has found valid; of what the check depends
on, the key of a cached signature leaves out shard, epoch, number and view.
-/

namespace DyShard.Chain

open Consensus List FourKeys

/-! ## Payloads -/

/-- The bytes of a hash. -/
def hashBytes (h : Word) : List Byte := (range 32).map fun i => h.extractLsb' (8 * (31 - i)) 8

/-- `ConstructCommitPayload`: what a commit signature signs. -/
def constructCommitPayload (isStaking : ℕ → Bool) (epoch : ℕ) (blockHash : Word)
    (blockNum viewID : UInt64) : List Byte :=
  let commitPayload := putUint64 blockNum.toNat ++ hashBytes blockHash
  if !isStaking epoch then commitPayload else commitPayload ++ putUint64 viewID.toNat

/-- `types.CrossLink`. -/
structure CrossLink where
  hash : Word
  blockNumber : ℕ
  viewID : ℕ
  signature : List Byte
  bitmap : List Byte
  shardID : ShardID
  epoch : ℕ
  deriving DecidableEq

/-- `CrossLink.BlockNum`. -/
def CrossLink.blockNum (cl : CrossLink) : UInt64 := .ofNat cl.blockNumber

/-- The fields of a header that its commit signature is about. -/
structure Header where
  hash : Word
  shardID : ShardID
  epoch : ℕ
  number : ℕ
  viewID : ℕ
  outgoingReceiptHash : Word
  deriving DecidableEq

/-- The header data that a commit payload is made of. -/
structure PayloadArgs where
  blockHash : Word
  shardID : ShardID
  epoch : ℕ
  number : UInt64
  viewID : UInt64
  deriving DecidableEq

/-- `payloadArgsFromHeader`. -/
def payloadArgsFromHeader (header : Header) : PayloadArgs where
  blockHash := header.hash
  shardID := header.shardID
  epoch := header.epoch
  number := .ofNat header.number
  viewID := .ofNat header.viewID

/-- `payloadArgsFromCrossLink`. -/
def payloadArgsFromCrossLink (cl : CrossLink) : PayloadArgs where
  blockHash := cl.hash
  shardID := cl.shardID
  epoch := cl.epoch
  number := .ofNat cl.blockNumber
  viewID := .ofNat cl.viewID

/-- A signature and its bitmap. -/
structure SigArgs where
  sig : List Byte
  bitmap : List Byte
  deriving DecidableEq

/-! ## The chain and the caches -/

variable {K P S : Type} [DecidableEq K] [Add P] [Sub P] [Zero P]

/-- What the engine reads from the chain. -/
structure ChainReader (K : Type) where
  /-- `Config().IsStaking`. -/
  isStaking : ℕ → Bool
  /-- `Config().IsCrossLink`. -/
  isCrossLink : ℕ → Bool
  shardID : ShardID
  /-- The number of `CurrentHeader`. -/
  currentNumber : ℕ
  /-- `ReadShardState`: the committees of an epoch. -/
  readShardState : ℕ → Option (List (Committee K))
  /-- `committee.WithStakingEnabled.Compute`. -/
  compute : ℕ → Option (List (Committee K))

/-- The network and the signature scheme. -/
structure Crypto (K P S : Type) where
  net : Network
  bytesToBLSPublicKey : K → Option P
  /-- `Sign.Deserialize`. -/
  deserialize : List Byte → Option S
  /-- `Sign.VerifyHash`. -/
  verifyHash : S → P → List Byte → Bool

/-- The errors of the check. -/
inductive SigError where
  | readShardState
  | shardIDNotInSuperCommittee
  | blsPublicKeys
  | newVerifier (e : VerifierError)
  | decodeSigBitmap
  | notEnoughSignature
  | unableToVerify
  | blockNumber
  | notCrossLinkEpoch
  deriving DecidableEq, Repr

/-- The key of `epochCtxCache`. -/
structure EpochCtxKey where
  shardID : ShardID
  epoch : UInt64
  deriving DecidableEq

/-- The committee data of an epoch: its quorum verifier and its keys. -/
structure EpochCtx (K P : Type) where
  qrVerifier : Verifier K
  pubKeys : List (PublicKeyWrapper K P)

/-- The size of a bitmap in a cache key. -/
def bitmapKeyBytes : ℕ := 64

/-- The key of `verifiedSigCache`. -/
structure VerifiedSigKey where
  blockHash : Word
  signature : List Byte
  bitmap : List Byte
  deriving DecidableEq

/-- `newVerifiedSigKey`: the bitmap is copied into an array of 64 bytes. -/
def newVerifiedSigKey (blockHash : Word) (sig bitmap : List Byte) : VerifiedSigKey where
  blockHash := blockHash
  signature := sig
  bitmap := bitmap.take bitmapKeyBytes ++ replicate (bitmapKeyBytes - bitmap.length) 0

/-- `engineImpl`: the two caches. -/
structure EngineImpl (K P : Type) where
  epochCtxCache : Lru EpochCtxKey (EpochCtx K P) := ⟨20, []⟩
  verifiedSigCache : Lru VerifiedSigKey Unit := ⟨100, []⟩

/-- `NewEngine`: both caches are empty. -/
def newEngine : EngineImpl K P := {}

/-! ## The check -/

/-- `FindCommitteeByID`. -/
def findCommitteeByID (shards : List (Committee K)) (shardID : ShardID) : Option (Committee K) :=
  shards.find? fun c => c.shardID = shardID

/-- `needRecalculateStateShard`: before staking, for another shard. -/
def needRecalculateStateShard (chain : ChainReader K) (epoch : ℕ) (targetShardID : ShardID) : Bool :=
  !chain.isStaking epoch && targetShardID != chain.shardID

/-- `readShardState`. -/
def readShardState (chain : ChainReader K) (epoch : ℕ) (targetShardID : ShardID) :
    Option (List (Committee K)) :=
  if needRecalculateStateShard chain epoch targetShardID then chain.compute epoch
  else chain.readShardState epoch

variable (o : Crypto K P S)

/-- `readEpochCtxFromChain`. -/
def readEpochCtxFromChain (chain : ChainReader K) (key : EpochCtxKey) :
    Outcome SigError (EpochCtx K P) :=
  match readShardState chain key.epoch.toNat key.shardID with
  | none => .error .readShardState
  | some ss =>
    match findCommitteeByID ss key.shardID with
    | none => .error .shardIDNotInSuperCommittee
    | some shardComm =>
      match shardComm.blsPublicKeys o.bytesToBLSPublicKey with
      | none => .error .blsPublicKeys
      | some pubKeys =>
        match newVerifier o.net o.bytesToBLSPublicKey shardComm (some key.epoch.toNat)
            (chain.isStaking key.epoch.toNat) with
        | .panic => .panic
        | .error e => .error (.newVerifier e)
        | .ok qrVerifier => .ok ⟨qrVerifier, pubKeys⟩

/-- `getEpochCtxCached`. -/
def getEpochCtxCached (e : EngineImpl K P) (chain : ChainReader K) (shardID : ShardID)
    (epoch : UInt64) : Outcome SigError (EpochCtx K P) × EngineImpl K P :=
  match e.epochCtxCache.get ⟨shardID, epoch⟩ with
  | (some ec, cache) => (.ok ec, { e with epochCtxCache := cache })
  | (none, cache) =>
    match readEpochCtxFromChain o chain ⟨shardID, epoch⟩ with
    | .ok ec => (.ok ec, { e with epochCtxCache := cache.add ⟨shardID, epoch⟩ ec })
    | .error err => (.error err, { e with epochCtxCache := cache })
    | .panic => (.panic, { e with epochCtxCache := cache })

/-- `DecodeSigBitmap`; an error of `SetMask` is only logged. -/
def decodeSigBitmap (sigBytes bitmap : List Byte) (pubKeys : List (PublicKeyWrapper K P)) :
    Option (S × Mask K P) := do
  let aggSig ← o.deserialize sigBytes
  let mask ← maskOf pubKeys bitmap
  return (aggSig, mask)

/-- The part of `verifySignature` after the epoch's context is there. -/
def checkSignature (chain : ChainReader K) (ec : EpochCtx K P) (pas : PayloadArgs) (sas : SigArgs) :
    Outcome SigError Unit :=
  match decodeSigBitmap o sas.sig sas.bitmap ec.pubKeys with
  | none => .error .decodeSigBitmap
  | some (aggSig, mask) =>
    match ec.qrVerifier.isQuorumAchievedByMask (some mask) with
    | none => .panic
    | some false => .error .notEnoughSignature
    | some true =>
      let commitPayload :=
        constructCommitPayload chain.isStaking pas.epoch pas.blockHash pas.number pas.viewID
      if o.verifyHash aggSig mask.aggregatePublic commitPayload then .ok ()
      else .error .unableToVerify

/-- `verifySignature`. -/
def verifySignature (e : EngineImpl K P) (chain : ChainReader K) (pas : PayloadArgs) (sas : SigArgs)
    : Outcome SigError Unit × EngineImpl K P :=
  match getEpochCtxCached o e chain pas.shardID (.ofNat pas.epoch) with
  | (.ok ec, e) => (checkSignature o chain ec pas sas, e)
  | (.error err, e) => (.error err, e)
  | (.panic, e) => (.panic, e)

/-- `verifySignatureCached`: only a success is cached. -/
def verifySignatureCached (e : EngineImpl K P) (chain : ChainReader K) (pas : PayloadArgs)
    (sas : SigArgs) : Outcome SigError Unit × EngineImpl K P :=
  let verifiedKey := newVerifiedSigKey pas.blockHash sas.sig sas.bitmap
  match e.verifiedSigCache.get verifiedKey with
  | (some _, cache) => (.ok (), { e with verifiedSigCache := cache })
  | (none, cache) =>
    match verifySignature o { e with verifiedSigCache := cache } chain pas sas with
    | (.ok _, e) => (.ok (), { e with verifiedSigCache := e.verifiedSigCache.add verifiedKey () })
    | (r, e) => (r, e)

/-- `VerifyHeaderSignature`. -/
def verifyHeaderSignature (e : EngineImpl K P) (chain : ChainReader K) (header : Header)
    (commitSig commitBitmap : List Byte) : Outcome SigError Unit × EngineImpl K P :=
  if chain.currentNumber % 2 ^ 64 ≤ 1 then (.ok (), e)
  else verifySignatureCached o e chain (payloadArgsFromHeader header) ⟨commitSig, commitBitmap⟩

/-- `VerifyCrossLink`. -/
def verifyCrossLink (e : EngineImpl K P) (chain : ChainReader K) (cl : CrossLink) :
    Outcome SigError Unit × EngineImpl K P :=
  if cl.blockNum ≤ 1 then (.error .blockNumber, e)
  else if !chain.isCrossLink cl.epoch then (.error .notCrossLinkEpoch, e)
  else verifySignatureCached o e chain (payloadArgsFromCrossLink cl) ⟨cl.signature, cl.bitmap⟩

/-! ## What the caches hold -/

/-- A call of `verifySignatureCached`, with the chain at the time of the call. -/
structure VerifyCall (K : Type) where
  chain : ChainReader K
  pas : PayloadArgs
  sas : SigArgs

namespace VerifyCall

/-- The key of the call in the cache of signatures. -/
def key (c : VerifyCall K) : VerifiedSigKey :=
  newVerifiedSigKey c.pas.blockHash c.sas.sig c.sas.bitmap

/-- The key of the call in the cache of epochs. -/
def epochKey (c : VerifyCall K) : EpochCtxKey := ⟨c.pas.shardID, .ofNat c.pas.epoch⟩

/-- The call, on an engine. -/
def cached (o : Crypto K P S) (e : EngineImpl K P) (c : VerifyCall K) :
    Outcome SigError Unit × EngineImpl K P := verifySignatureCached o e c.chain c.pas c.sas

/-- What `verifySignature` returns, with empty caches. -/
def verdict (o : Crypto K P S) (c : VerifyCall K) : Outcome SigError Unit :=
  (verifySignature o newEngine c.chain c.pas c.sas).1

end VerifyCall

/-- The engine after a list of calls. -/
def run (calls : List (VerifyCall K)) : EngineImpl K P :=
  calls.foldl (fun e c => (c.cached o e).2) newEngine

/-- The context was read for one of the calls. -/
def ReadFor (calls : List (VerifyCall K)) (key : EpochCtxKey) (ec : EpochCtx K P) :
    Prop := ∃ c ∈ calls, readEpochCtxFromChain o c.chain key = .ok ec

/-- One of the calls has found the signature valid. -/
def VerifiedBy (calls : List (VerifyCall K)) (key : VerifiedSigKey) (_ : Unit) : Prop :=
  ∃ c ∈ calls, c.key = key ∧ ∃ ec, ReadFor o calls c.epochKey ec ∧
    checkSignature o c.chain ec c.pas c.sas = .ok ()

section

variable {o} {e : EngineImpl K P} {chain : ChainReader K} {R : EpochCtxKey → EpochCtx K P → Prop}

omit [Add P] [Sub P] [Zero P] in
/-- Looking an epoch up leaves the caches as they are, up to order and the context returned. -/
theorem getEpochCtxCached_spec {shardID : ShardID} {epoch : UInt64} (h : e.epochCtxCache.Holds R)
    (hread : ∀ ec, readEpochCtxFromChain o chain ⟨shardID, epoch⟩ = .ok ec → R ⟨shardID, epoch⟩ ec) :
    (getEpochCtxCached o e chain shardID epoch).2.verifiedSigCache = e.verifiedSigCache ∧
      (getEpochCtxCached o e chain shardID epoch).2.epochCtxCache.Holds R ∧
      ∀ ec, (getEpochCtxCached o e chain shardID epoch).1 = .ok ec → R ⟨shardID, epoch⟩ ec := by
  have hget := h.get ⟨shardID, epoch⟩
  have hfound := fun ec => h.of_get (k := ⟨shardID, epoch⟩) (v := ec)
  unfold getEpochCtxCached
  generalize e.epochCtxCache.get ⟨shardID, epoch⟩ = r at hget hfound ⊢
  obtain ⟨found, cache⟩ := r
  cases found with
  | some ec =>
    refine ⟨rfl, hget, fun ec' hec => ?_⟩
    cases hec
    exact hfound ec rfl
  | none =>
    cases hctx : readEpochCtxFromChain o chain ⟨shardID, epoch⟩ with
    | ok ec =>
      refine ⟨rfl, hget.add (hread ec hctx), fun ec' hec => ?_⟩
      cases hec
      exact hread ec hctx
    | error err => exact ⟨rfl, hget, nofun⟩
    | panic => exact ⟨rfl, hget, nofun⟩

theorem verifySignature_spec (pas : PayloadArgs) (sas : SigArgs) (h : e.epochCtxCache.Holds R)
    (hread : ∀ ec, readEpochCtxFromChain o chain ⟨pas.shardID, .ofNat pas.epoch⟩ = .ok ec →
      R ⟨pas.shardID, .ofNat pas.epoch⟩ ec) :
    (verifySignature o e chain pas sas).2.verifiedSigCache = e.verifiedSigCache ∧
      (verifySignature o e chain pas sas).2.epochCtxCache.Holds R ∧
      ((verifySignature o e chain pas sas).1 = .ok () →
        ∃ ec, R ⟨pas.shardID, .ofNat pas.epoch⟩ ec ∧ checkSignature o chain ec pas sas = .ok ()) := by
  have hspec := getEpochCtxCached_spec h hread
  unfold verifySignature
  generalize getEpochCtxCached o e chain pas.shardID (.ofNat pas.epoch) = r at hspec ⊢
  obtain ⟨res, e'⟩ := r
  obtain ⟨hsame, hholds, hok⟩ := hspec
  cases res with
  | ok ec => exact ⟨hsame, hholds, fun hcheck => ⟨ec, hok ec rfl, hcheck⟩⟩
  | error err => exact ⟨hsame, hholds, nofun⟩
  | panic => exact ⟨hsame, hholds, nofun⟩

/-- Both caches, after the calls. -/
structure Recorded (o : Crypto K P S) (calls : List (VerifyCall K)) (e : EngineImpl K P) : Prop where
  epochs : e.epochCtxCache.Holds (ReadFor o calls)
  verified : e.verifiedSigCache.Holds (VerifiedBy o calls)

theorem Recorded.cached {calls : List (VerifyCall K)}
    (h : Recorded o calls e) {c : VerifyCall K} (hc : c ∈ calls) : Recorded o calls (c.cached o e).2 := by
  have hget := h.verified.get c.key
  unfold VerifyCall.cached verifySignatureCached
  change Recorded o calls
    (match e.verifiedSigCache.get c.key with
      | (some _, cache) => _
      | (none, cache) => _ : Outcome SigError Unit × EngineImpl K P).2
  generalize e.verifiedSigCache.get c.key = r at hget ⊢
  obtain ⟨found, cache⟩ := r
  cases found with
  | some _ => exact ⟨h.epochs, hget⟩
  | none =>
    have hspec := verifySignature_spec (e := { e with verifiedSigCache := cache }) c.pas c.sas
      h.epochs fun ec hread => ⟨c, hc, hread⟩
    dsimp only
    generalize verifySignature o { e with verifiedSigCache := cache } c.chain c.pas c.sas = r
      at hspec ⊢
    obtain ⟨res, e'⟩ := r
    obtain ⟨hsame, hepochs, hok⟩ := hspec
    have hverified : e'.verifiedSigCache.Holds (VerifiedBy o calls) := by
      rw [hsame]
      exact hget
    cases res with
    | ok _ =>
      obtain ⟨ec, hread, hcheck⟩ := hok rfl
      exact ⟨hepochs, hverified.add ⟨c, hc, rfl, ec, hread, hcheck⟩⟩
    | error err => exact ⟨hepochs, hverified⟩
    | panic => exact ⟨hepochs, hverified⟩

/-- **The caches only hold what the calls have found.** -/
theorem recorded_run (o : Crypto K P S) (calls : List (VerifyCall K)) :
    Recorded o calls (run o calls) :=
  foldlRecOn calls _ ⟨Lru.holds_empty _, Lru.holds_empty _⟩ fun _ h _ hc => h.cached hc

/-! ## Transparency -/

/-- A later view of the chain: the committee of an epoch, once it is known, stays. -/
structure Extends (o : Crypto K P S) (chain chain' : ChainReader K) : Prop where
  isStaking : chain'.isStaking = chain.isStaking
  epochs : ∀ key ec, readEpochCtxFromChain o chain key = .ok ec →
    readEpochCtxFromChain o chain' key = .ok ec

omit [Add P] [Sub P] [Zero P] in
theorem Extends.refl (o : Crypto K P S) (chain : ChainReader K) : Extends o chain chain :=
  ⟨rfl, fun _ _ h => h⟩

omit [Add P] [Sub P] [Zero P] in
theorem getEpochCtxCached_fst
    (h : e.epochCtxCache.Holds fun key ec => readEpochCtxFromChain o chain key = .ok ec)
    (shardID : ShardID) (epoch : UInt64) :
    (getEpochCtxCached o e chain shardID epoch).1 =
      readEpochCtxFromChain o chain ⟨shardID, epoch⟩ := by
  have hfound := fun ec => h.of_get (k := ⟨shardID, epoch⟩) (v := ec)
  unfold getEpochCtxCached
  generalize e.epochCtxCache.get ⟨shardID, epoch⟩ = r at hfound ⊢
  obtain ⟨found, cache⟩ := r
  cases found with
  | some ec => exact (hfound ec rfl).symm
  | none => cases readEpochCtxFromChain o chain ⟨shardID, epoch⟩ <;> rfl

theorem verifySignature_fst
    (h : e.epochCtxCache.Holds fun key ec => readEpochCtxFromChain o chain key = .ok ec)
    (pas : PayloadArgs) (sas : SigArgs) :
    (verifySignature o e chain pas sas).1 =
      match readEpochCtxFromChain o chain ⟨pas.shardID, .ofNat pas.epoch⟩ with
      | .ok ec => checkSignature o chain ec pas sas
      | .error err => .error err
      | .panic => .panic := by
  rw [← getEpochCtxCached_fst h]
  unfold verifySignature
  generalize getEpochCtxCached o e chain pas.shardID (.ofNat pas.epoch) = r
  obtain ⟨res, e'⟩ := r
  cases res <;> rfl

theorem VerifyCall.verdict_eq (c : VerifyCall K) :
    c.verdict o =
      match readEpochCtxFromChain o c.chain c.epochKey with
      | .ok ec => checkSignature o c.chain ec c.pas c.sas
      | .error err => .error err
      | .panic => .panic :=
  verifySignature_fst (Lru.holds_empty _) c.pas c.sas

theorem VerifyCall.cached_fst {c : VerifyCall K}
    (h : e.epochCtxCache.Holds fun key ec => readEpochCtxFromChain o c.chain key = .ok ec) :
    (c.cached o e).1 = if (e.verifiedSigCache.get c.key).1.isSome then .ok () else c.verdict o := by
  have hcached : c.cached o e = match e.verifiedSigCache.get c.key with
    | (some _, cache) => (.ok (), { e with verifiedSigCache := cache })
    | (none, cache) =>
      match verifySignature o { e with verifiedSigCache := cache } c.chain c.pas c.sas with
      | (.ok _, e) => (.ok (), { e with verifiedSigCache := e.verifiedSigCache.add c.key () })
      | (r, e) => (r, e) := rfl
  rw [hcached]
  obtain ⟨found, cache⟩ := e.verifiedSigCache.get c.key
  cases found with
  | some _ => rfl
  | none =>
    have hfst := verifySignature_fst (e := { e with verifiedSigCache := cache }) h c.pas c.sas
    rw [VerifyCall.verdict_eq]
    refine Eq.trans ?_ hfst
    dsimp only
    generalize verifySignature o { e with verifiedSigCache := cache } c.chain c.pas c.sas = r
    obtain ⟨res, e'⟩ := r
    cases res <;> rfl

end

/-- **The cache is transparent** if earlier calls with the same hash, signature and 64 bytes of
bitmap were about the same arguments. -/
theorem verifySignatureCached_iff {o : Crypto K P S} {calls : List (VerifyCall K)}
    {c : VerifyCall K} (hchain : ∀ c' ∈ calls, Extends o c'.chain c.chain)
    (hsame : ∀ c' ∈ calls, c'.key = c.key → c'.pas = c.pas ∧ c'.sas.bitmap = c.sas.bitmap) :
    (c.cached o (run o calls)).1 = .ok () ↔ c.verdict o = .ok () := by
  obtain ⟨hepochs, hverified⟩ := recorded_run o calls
  have hnow : ∀ key ec, ReadFor o calls key ec → readEpochCtxFromChain o c.chain key = .ok ec := by
    rintro key ec ⟨c', hc', hread⟩
    exact (hchain c' hc').epochs key ec hread
  rw [VerifyCall.cached_fst (hepochs.mono hnow)]
  split
  case isFalse => rfl
  case isTrue hhit =>
    refine ⟨fun _ => ?_, fun _ => rfl⟩
    -- the signature was found valid for an earlier call, which was about the same block
    obtain ⟨u, hu⟩ := Option.isSome_iff_exists.1 hhit
    obtain ⟨c', hc', hkey, ec, hread, hcheck⟩ := hverified.of_get hu
    obtain ⟨hpas, hbitmap⟩ := hsame c' hc' hkey
    have hsas : c'.sas = c.sas := by
      have hsig : c'.sas.sig = c.sas.sig := congrArg VerifiedSigKey.signature hkey
      cases hcs : c.sas
      cases hcs' : c'.sas
      simp_all
    have hepoch : c'.epochKey = c.epochKey := by rw [VerifyCall.epochKey, hpas]; rfl
    have hctx := hnow _ ec hread
    rw [hepoch] at hctx
    have hpayload : checkSignature o c'.chain ec c'.pas c'.sas =
        checkSignature o c.chain ec c.pas c.sas := by
      rw [hpas, hsas]
      unfold checkSignature
      rw [(hchain c' hc').isStaking]
    rw [VerifyCall.verdict_eq, hctx]
    exact hpayload.symm.trans hcheck

/-! ## A link and its double -/

namespace Double

/-- A signature is valid for the payload it starts with. -/
def crypto : Crypto ℕ ℤ (List Byte) where
  net := StakedVoteWeight.sixty
  bytesToBLSPublicKey := deserialize
  deserialize := some
  verifyHash sig _ payload := sig.take 40 == payload

/-- The beacon chain before staking, with a committee of four keys. -/
def chain : ChainReader ℕ where
  isStaking _ := false
  isCrossLink _ := true
  shardID := 0
  currentNumber := 9
  readShardState _ := some [committee]
  compute _ := some [committee]

/-- A link to block 5, and the same link with another number. -/
def link (blockNumber : ℕ) : CrossLink where
  hash := 7
  blockNumber
  viewID := 5
  signature := constructCommitPayload chain.isStaking 1 7 5 5 ++ replicate 56 0
  bitmap := [0x0F]
  shardID := 0
  epoch := 1

/-- The call that `VerifyCrossLink` makes for a link. -/
def call (blockNumber : ℕ) : VerifyCall ℕ :=
  ⟨chain, payloadArgsFromCrossLink (link blockNumber),
    ⟨(link blockNumber).signature, (link blockNumber).bitmap⟩⟩

end Double

open Double

/-- The genuine link is accepted, and the check without the cache agrees. -/
theorem verifySignatureCached_genuine :
    ((call 5).cached crypto (run crypto [call 5])).1 = .ok () ∧
      (call 5).verdict crypto = .ok () := by
  have hiff : ((call 5).cached crypto (run crypto [call 5])).1 = .ok () ↔
      (call 5).verdict crypto = .ok () := verifySignatureCached_iff
    (fun c' hc' => by rw [mem_singleton.1 hc']; exact .refl _ _)
    (fun c' hc' _ => by rw [mem_singleton.1 hc']; exact ⟨rfl, rfl⟩)
  have hverdict : (call 5).verdict crypto = .ok () := by decide +kernel
  exact ⟨hiff.2 hverdict, hverdict⟩

/-- **A cross link rides on the cache**: a second link with another block number is accepted. -/
theorem crossLink_rides_on_cache :
    (verifyCrossLink crypto newEngine chain (link 5)).1 = .ok () ∧
      (verifyCrossLink crypto
        (verifyCrossLink crypto newEngine chain (link 5)).2
        chain (link 6)).1 = .ok () ∧
      (call 6).verdict crypto = .error .unableToVerify := by
  refine ⟨?_, ?_, ?_⟩ <;> decide +kernel

/-! ## Bitmaps of another length -/

section Decode

variable {K P S : Type} [DecidableEq K] [AddCommGroup P]

/-- A bitmap of the right length gives the keys of its bits and their sum, any other an error. -/
def DecodesRight (o : Crypto K P S) (sigBytes bitmap : List Byte)
    (pubKeys : List (PublicKeyWrapper K P)) : Prop :=
  (bitmap.length ≠ (pubKeys.length + 7) / 8 → decodeSigBitmap o sigBytes bitmap pubKeys = none) ∧
    (bitmap.length = (pubKeys.length + 7) / 8 → ∀ aggSig, o.deserialize sigBytes = some aggSig →
      ∃ mask, decodeSigBitmap o sigBytes bitmap pubKeys = some (aggSig, mask) ∧
        mask.publics = pubKeys ∧ (∀ i < pubKeys.length, isSet mask.bitmap i = isSet bitmap i) ∧
        mask.aggregatePublic = mask.enabledSum)

/-- **When certificates are decoded right**: the bitmap has the right length, or nothing is signed.
-/
theorem decodesRight_iff (o : Crypto K P S) (sigBytes bitmap : List Byte)
    (pubKeys : List (PublicKeyWrapper K P)) :
    DecodesRight o sigBytes bitmap pubKeys ↔
      o.deserialize sigBytes = none ∨ bitmap.length = (pubKeys.length + 7) / 8 := by
  obtain ⟨m, hnew⟩ : ∃ m : Mask K P, Mask.newMask pubKeys none = .ok m := ⟨_, rfl⟩
  have hsummed := Mask.Summed.newMask hnew
  obtain ⟨⟨hpublics, hsum⟩, -⟩ := hsummed.call (.setMask bitmap)
  have hmask : maskOf pubKeys bitmap = some (m.call (.setMask bitmap)).1 := by
    rw [maskOf, hnew]
    dsimp only [Mask.call]
    cases m.setMask bitmap <;> rfl
  unfold DecodesRight decodeSigBitmap
  rw [hmask]
  cases hsig : o.deserialize sigBytes with
  | none => simp
  | some aggSig =>
    simp only [Option.bind_eq_bind, Option.bind_some, reduceCtorEq, imp_false, not_not, false_or]
    refine ⟨And.left, fun hlen => ⟨hlen, fun _ a ha => ?_⟩⟩
    cases ha
    refine ⟨_, rfl, hpublics, fun i hi => hsummed.isSet_setMask ?_ hi, hsum⟩
    rw [hlen, Mask.len, hsummed.1]

end Decode

/-- **An empty bitmap is no error**: with four keys, it gives the mask that enables none. -/
theorem empty_bitmap_decoded :
    (decodeSigBitmap crypto [] [] pubKeys).map (·.2.bitmap) = some [0] ∧
      ¬ DecodesRight crypto [] [] pubKeys :=
  ⟨rfl, fun h => Option.some_ne_none _ (h.1 (by decide))⟩

end DyShard.Chain
