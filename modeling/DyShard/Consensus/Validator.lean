import DyShard.Consensus.Verifier

/-!
# The validator's way to a commit: `onPrepared` and `onNewView`

The two handlers that sign a COMMIT, with their checks in the order of the source.  A handler runs
as one step, and `none` is a panic.  What it calls out to is in `Outside`; the answer of the block
verifier comes with the message.

Left out: the log, timers, retries, state sync and the replay of committed messages.
-/

namespace DyShard.Consensus

variable {K P S B : Type} [DecidableEq K] [DecidableEq P] [Add P] [Sub P] [Zero P]

/-! ## Messages and state -/

/-- What the handlers call out to. -/
structure Outside (K P S B : Type) where
  bytesToBLSPublicKey : K → Option P
  /-- `Sign.Deserialize`. -/
  deserialize : List Byte → Option S
  /-- `Sign.VerifyHash`. -/
  verifyHash : S → P → List Byte → Bool
  /-- `rlp.DecodeBytes` into a block. -/
  decodeBlock : List Byte → Option B
  /-- The bytes of `Hash()`. -/
  hash : B → List Byte
  numberU64 : B → ℕ
  viewID : B → ℕ
  epoch : B → ℕ
  /-- `Config().IsStaking`. -/
  isStaking : ℕ → Bool

/-- `FBFTMessage`, as far as the two handlers read it. -/
structure FBFTMessage (K P S : Type) [DecidableEq K] where
  viewID : ℕ
  blockNum : ℕ
  blockHash : List Byte
  payload : List Byte
  block : List Byte
  senderPubkeys : List (PublicKeyWrapper K P)
  m2AggSig : Option S := none
  m2Bitmap : Option (Mask K P) := none
  m3AggSig : Option S := none
  m3Bitmap : Option (Mask K P) := none

/-- The view-change part of a NEWVIEW message on the wire. -/
structure NewViewWire (K : Type) where
  viewID : ℕ
  blockNum : ℕ
  payload : List Byte
  preparedBlock : List Byte
  senderPubkey : K
  m2Aggsigs : List Byte
  m2Bitmap : List Byte
  m3Aggsigs : List Byte
  m3Bitmap : List Byte

/-- `Mode` of the consensus. -/
inductive Mode where
  | normal
  | viewChanging
  | syncing
  | listening
  deriving DecidableEq, Repr

/-- `FBFTPhase`. -/
inductive FBFTPhase where
  | announce
  | prepare
  | commit
  deriving DecidableEq, Repr

/-- A commit signature, the message that made the validator sign and the decider it consulted. -/
structure Commit (K P S B : Type) [DecidableEq K] where
  key : K
  payload : List Byte
  block : B
  message : FBFTMessage K P S
  /-- Where the signature starts in the message's payload. -/
  offset : ℕ
  decider : Decider K P S

/-- `Consensus`, as far as the two handlers use it, and the commit signatures sent so far. -/
structure Validator (K P S B : Type) [DecidableEq K] where
  blockNum : ℕ
  blockHash : List Byte
  block : List Byte
  phase : FBFTPhase
  mode : Mode
  curBlockViewID : ℕ
  viewChangingID : ℕ
  leaderPubKey : PublicKeyWrapper K P
  ignoreViewIDCheck : Bool
  decider : Decider K P S
  priKey : List (PublicKeyWrapper K P)
  aggregatedPrepareSig : Option S
  prepareBitmap : Option (Mask K P)
  /-- The hashes of the blocks marked as verified. -/
  verifiedBlocks : List (List Byte)
  /-- `BlockVerifier` has been set. -/
  hasBlockVerifier : Bool
  commits : List (Commit K P S B)

namespace Decider

/-- `Participants`. -/
def participants : Decider K P S → List (PublicKeyWrapper K P)
  | .uniform c => c.publicKeys
  | .staked v => v.identities.publicKeys

/-- `ResetViewChangeVotes`. -/
def resetViewChangeVotes : Decider K P S → Decider K P S
  | .uniform c => .uniform (c.reset [.viewChange])
  | .staked v => .staked v.resetViewChangeVotes

/-- `ResetPrepareAndCommitVotes`. -/
def resetPrepareAndCommitVotes : Decider K P S → Decider K P S
  | .uniform c => .uniform (c.reset [.prepare, .commit])
  | .staked v => .staked v.resetPrepareAndCommitVotes

end Decider

/-! ## Payloads -/

/-- `binary.LittleEndian.PutUint64`. -/
def putUint64 (n : ℕ) : List Byte := (List.range 8).map fun i => BitVec.ofNat 8 (n / 256 ^ i)

/-- `NIL`: what a validator without a prepared block signs in a view change. -/
def nilPayload : List Byte := [0x01]

/-- `BLSSignatureSizeInBytes`. -/
def blsSignatureSizeInBytes : ℕ := 96

/-- `ValidPayloadLength`: a block hash and a signature. -/
def validPayloadLength : ℕ := 32 + blsSignatureSizeInBytes

/-- `NewMask` and `SetMask`; an error of `SetMask` is only logged. -/
def maskOf (members : List (PublicKeyWrapper K P)) (bitmap : List Byte) : Option (Mask K P) :=
  match Mask.newMask members none with
  | .error _ => none
  | .ok mask =>
    match mask.setMask bitmap with
    | .ok mask => some mask
    | .error _ => some mask

/-- `ReadSignatureBitmapPayload`. -/
def readSignatureBitmapPayload (o : Outside K P S B) (members : List (PublicKeyWrapper K P))
    (recvPayload : List Byte) (offset : ℕ) : Option (S × Mask K P) :=
  if recvPayload.length < offset + blsSignatureSizeInBytes then none
  else do
    let payload := recvPayload.drop offset
    let aggSig ← o.deserialize (payload.take blsSignatureSizeInBytes)
    let mask ← maskOf members (payload.drop blsSignatureSizeInBytes)
    return (aggSig, mask)

/-- A signature with a mask, if the bytes of the signature are there. -/
def readAggregate (o : Outside K P S B) (members : List (PublicKeyWrapper K P))
    (aggsigs bitmap : List Byte) : Option (Option (S × Mask K P)) :=
  if aggsigs.isEmpty then some none
  else do
    let sig ← o.deserialize aggsigs
    let mask ← maskOf members bitmap
    return some (sig, mask)

/-- `ParseNewViewMessage`. -/
def parseNewViewMessage (o : Outside K P S B) (members : List (PublicKeyWrapper K P))
    (msg : NewViewWire K) : Option (FBFTMessage K P S) := do
  let object ← o.bytesToBLSPublicKey msg.senderPubkey
  let m3 ← readAggregate o members msg.m3Aggsigs msg.m3Bitmap
  let m2 ← readAggregate o members msg.m2Aggsigs msg.m2Bitmap
  return {
    viewID := msg.viewID
    blockNum := msg.blockNum
    blockHash := List.replicate 32 0
    payload := msg.payload
    block := msg.preparedBlock
    senderPubkeys := [⟨msg.senderPubkey, object⟩]
    m2AggSig := m2.map (·.1)
    m2Bitmap := m2.map (·.2)
    m3AggSig := m3.map (·.1)
    m3Bitmap := m3.map (·.2) }

/-- `ConstructCommitPayload`. -/
def constructCommitPayload (o : Outside K P S B) (block : B) : List Byte :=
  let commitPayload := putUint64 (o.numberU64 block) ++ o.hash block
  if o.isStaking (o.epoch block) then commitPayload ++ putUint64 (o.viewID block)
  else commitPayload

/-! ## Helpers of the handlers -/

namespace Validator

variable (s : Validator K P S B)

/-- `getPriKeysInCommittee`. -/
def getPriKeysInCommittee : List (PublicKeyWrapper K P) :=
  s.priKey.filter fun key => key.bytes ∈ s.decider.participants.map (·.bytes)

variable (o : Outside K P S B)

/-- `sendCommitMessages`; nothing is sent in `Listening` mode. -/
def sendCommitMessages (s : Validator K P S B) (blockObj : B) (message : FBFTMessage K P S)
    (offset : ℕ) : Validator K P S B :=
  if s.mode = .listening then s
  else { s with
    commits := s.commits ++ s.getPriKeysInCommittee.map fun key =>
      ⟨key.bytes, constructCommitPayload o blockObj, blockObj, message, offset, s.decider⟩ }

/-- `VerifyBlock`: a block is verified once. -/
def verifyBlock (verdict : Bool) (s : Validator K P S B) (block : B) : Option (Validator K P S B) :=
  if o.hash block ∈ s.verifiedBlocks then some s
  else if verdict then some { s with verifiedBlocks := o.hash block :: s.verifiedBlocks }
  else none

/-- `SetViewIDs`. -/
def setViewIDs (height : ℕ) : Validator K P S B :=
  { s with curBlockViewID := height, viewChangingID := height }

/-- `checkViewID`, and whether it returned no error. -/
def checkViewID (msg : FBFTMessage K P S) : Validator K P S B × Bool :=
  if s.ignoreViewIDCheck then
    let s := { s with mode := .normal }.setViewIDs msg.viewID
    match msg.senderPubkeys with
    | [sender] => ({ s with leaderPubKey := sender, ignoreViewIDCheck := false }, true)
    | _ => (s, false)
  else (s, decide (msg.viewID = s.curBlockViewID))

/-- `onPreparedSanityChecks`. -/
def onPreparedSanityChecks (s : Validator K P S B) (blockObj : B) (recvMsg : FBFTMessage K P S) :
    Bool :=
  decide (o.numberU64 blockObj = recvMsg.blockNum) && decide (s.blockNum ≤ recvMsg.blockNum) &&
    decide (o.hash blockObj = recvMsg.blockHash)

/-- `ResetState`. -/
def resetState : Validator K P S B :=
  { s with
    phase := .announce
    blockHash := List.replicate 32 0
    block := []
    decider := s.decider.resetPrepareAndCommitVotes
    prepareBitmap := s.prepareBitmap.bind fun m => (Mask.newMask m.publics none).toOption
    aggregatedPrepareSig := none }

/-! ## PREPARED -/

/-- `onPrepared` once the signature and the block have been checked. -/
def acceptPrepared (verdict : Bool) (s : Validator K P S B) (recvMsg : FBFTMessage K P S)
    (blockObj : B) (aggSig : S) (mask : Mask K P) : Validator K P S B :=
  let s := { s with block := recvMsg.block }
  if !s.hasBlockVerifier then s
  else
    match s.verifyBlock o verdict blockObj with
    | none => s
    | some s =>
      match s.checkViewID recvMsg with
      | (s, false) => s
      | (s, true) =>
        if s.blockNum < recvMsg.blockNum then s
        else
          let s := { s with
            aggregatedPrepareSig := some aggSig
            prepareBitmap := some mask
            blockHash := recvMsg.blockHash }
          if s.mode = .normal then
            { s.sendCommitMessages o blockObj recvMsg 0 with phase := .commit }
          else s

/-- `onPrepared`. -/
def onPrepared (verdict : Bool) (s : Validator K P S B) (recvMsg : FBFTMessage K P S) :
    Option (Validator K P S B) :=
  if recvMsg.blockNum < s.blockNum then some s
  else
    match readSignatureBitmapPayload o s.decider.participants recvMsg.payload 0 with
    | none => some s
    | some (aggSig, mask) =>
      match s.decider.isQuorumAchievedByMask (some mask) with
      | none => none
      | some false => some s
      | some true =>
        if !o.verifyHash aggSig mask.aggregatePublic recvMsg.blockHash then some s
        else
          match o.decodeBlock recvMsg.block with
          | none => some s
          | some blockObj =>
            if !s.onPreparedSanityChecks o blockObj recvMsg then some s
            else some (s.acceptPrepared o verdict recvMsg blockObj aggSig mask)

/-! ## NEWVIEW -/

/-- The errors of `VerifyNewViewMsg`. -/
inductive NewViewError where
  | m3Missing
  | m3SignatureInvalid
  | m2SignatureInvalid
  | unparseablePreparedBlock
  | preparedBlockHashMismatch
  | blockVerificationFailed
  deriving DecidableEq, Repr

/-- The end of `VerifyNewViewMsg`: the block has the payload's hash and passes the verifier. -/
def readPreparedBlock (verdict : Bool) (s : Validator K P S B) (recvMsg : FBFTMessage K P S) :
    Outcome NewViewError (Validator K P S B × Option B) :=
  if validPayloadLength ≤ recvMsg.payload.length ∧ recvMsg.block ≠ [] then
    match o.decodeBlock recvMsg.block with
    | none => .error .unparseablePreparedBlock
    | some preparedBlock =>
      if o.hash preparedBlock ≠ recvMsg.payload.take 32 then .error .preparedBlockHashMismatch
      -- before `SetBlockVerifier` the verifier of the view change is a nil function
      else if !s.hasBlockVerifier then .panic
      else
        match s.verifyBlock o verdict preparedBlock with
        | none => .error .blockVerificationFailed
        | some s => .ok (s, some preparedBlock)
  else .ok (s, none)

/-- `VerifyNewViewMsg`: the prepared block that the message carries, if it carries one. -/
def verifyNewViewMsg (verdict : Bool) (s : Validator K P S B) (recvMsg : FBFTMessage K P S) :
    Outcome NewViewError (Validator K P S B × Option B) :=
  match recvMsg.m3AggSig, recvMsg.m3Bitmap with
  | some m3Sig, some m3Mask =>
    if !o.verifyHash m3Sig m3Mask.aggregatePublic (putUint64 recvMsg.viewID) then
      .error .m3SignatureInvalid
    else
      match recvMsg.m2AggSig, recvMsg.m2Bitmap with
      | none, _ => s.readPreparedBlock o verdict recvMsg
      | some _, none => .panic
      | some m2Sig, some m2Mask =>
        if !o.verifyHash m2Sig m2Mask.aggregatePublic nilPayload then .error .m2SignatureInvalid
        else s.readPreparedBlock o verdict recvMsg
  | _, _ => .error .m3Missing

/-- Is there an M1 (prepare) signature to check: do fewer keys say NIL than ask for the view? -/
def hasM1 (recvMsg : FBFTMessage K P S) (m3Mask : Mask K P) : Bool :=
  match recvMsg.m2Bitmap with
  | none => true
  | some m2Mask => decide (countOneBits m2Mask.bitmap < countOneBits m3Mask.bitmap)

/-- `onNewView` checks the M1 signature; the outer `none` is a panic, the inner one gives up. -/
def checkM1 (s : Validator K P S B) (recvMsg : FBFTMessage K P S) :
    Option (Option (Validator K P S B)) :=
  if recvMsg.payload.length < 32 then none
  else
    match readSignatureBitmapPayload o s.decider.participants recvMsg.payload 32 with
    | none => some none
    | some (aggSig, mask) =>
      if !o.verifyHash aggSig mask.aggregatePublic (recvMsg.payload.take 32) then some none
      else some (some { s with
        blockHash := recvMsg.payload.take 32
        aggregatedPrepareSig := some aggSig
        prepareBitmap := some mask })

/-- `onNewView` once the message has been checked. -/
def enterNewView (s : Validator K P S B) (recvMsg : FBFTMessage K P S)
    (senderKey : PublicKeyWrapper K P) (preparedBlock : Option B) : Validator K P S B :=
  if s.mode ≠ .viewChanging then s
  else
    let s := { s.setViewIDs recvMsg.viewID with
      leaderPubKey := senderKey
      mode := .normal
      decider := s.decider.resetViewChangeVotes }
    match preparedBlock with
    | some block => { s.sendCommitMessages o block recvMsg 32 with phase := .commit }
    | none => s.resetState

/-- `onNewView` after `VerifyNewViewMsg`: M3 is a quorum, and M1 valid if there is one. -/
def settleNewView (s : Validator K P S B) (recvMsg : FBFTMessage K P S)
    (senderKey : PublicKeyWrapper K P) (m3Mask : Mask K P) (preparedBlock : Option B) :
    Option (Validator K P S B) :=
  match s.decider.isQuorumAchievedByMask (some m3Mask) with
  | none => none
  | some false => some s
  | some true =>
    if hasM1 recvMsg m3Mask then
      match s.checkM1 o recvMsg with
      | none => none
      | some none => some s
      | some (some s) => some (s.enterNewView o recvMsg senderKey preparedBlock)
    else some (s.enterNewView o recvMsg senderKey preparedBlock)

/-- `onNewView`; `none` is a panic. -/
def onNewView (verdict : Bool) (s : Validator K P S B) (recvMsg : FBFTMessage K P S) :
    Option (Validator K P S B) :=
  match recvMsg.senderPubkeys with
  | [senderKey] =>
    if s.blockNum ≠ recvMsg.blockNum ∨ recvMsg.viewID < s.curBlockViewID then some s
    else
      match s.verifyNewViewMsg o verdict recvMsg, recvMsg.m3Bitmap with
      | .ok (s, preparedBlock), some m3Mask =>
        s.settleNewView o recvMsg senderKey m3Mask preparedBlock
      | .panic, _ => none
      | _, _ => some s
  | _ => some s

/-! ## Messages from the network -/

/-- A message as it arrives: its key, whether its signature verifies, and the verifier's verdict. -/
inductive Received (K P S : Type) [DecidableEq K] where
  | prepared (senderKey : K) (signed verdict : Bool) (msg : FBFTMessage K P S)
  | newView (senderKey : K) (signed verdict : Bool) (msg : NewViewWire K)

/-- `IsLeader`. -/
def isLeader : Bool :=
  s.priKey.any fun key => key.object = s.leaderPubKey.object

/-- `HandleMessageUpdate`, for the two message types. -/
def handleMessageUpdate (s : Validator K P S B) :
    Received K P S → Option (Validator K P S B)
  | .prepared senderKey signed verdict msg =>
    if senderKey ≠ s.leaderPubKey.bytes ∧ s.mode = .normal ∧ s.ignoreViewIDCheck = false then
      some s
    else if !signed then some s
    else if s.isLeader then some s
    else s.onPrepared o verdict msg
  | .newView _ signed verdict msg =>
    if !signed then some s
    else
      match parseNewViewMessage o s.decider.participants msg with
      | none => some s
      | some fbftMsg => s.onNewView o verdict fbftMsg

end Validator

end DyShard.Consensus
