import DyShard.Consensus.Validator
import DyShard.Lib.Transition

/-!
# Commits and prepare certificates

A commit signature should only be sent when a quorum has prepared the block (`Commit.certified`).
PREPARED keeps to this; NEWVIEW does not.
-/

namespace DyShard.Consensus

open Transition Option List

variable {K P S B : Type} [DecidableEq K]

namespace Validator

/-! ## What the handlers send -/

variable {o : Outside K P S B} {s : Validator K P S B} {b : B} {msg : FBFTMessage K P S}
  {verdict : Bool}

theorem mem_commits_sendCommitMessages {offset : ℕ} {c : Commit K P S B}
    (h : c ∈ (s.sendCommitMessages o b msg offset).commits) :
    c ∈ s.commits ∨ c.block = b ∧ c.message = msg ∧ c.offset = offset ∧ c.decider = s.decider := by
  unfold sendCommitMessages at h
  split_ifs at h
  · exact .inl h
  · rcases mem_append.1 h with h | h
    · exact .inl h
    · obtain ⟨key, -, rfl⟩ := mem_map.1 h
      exact .inr ⟨rfl, rfl, rfl, rfl⟩

theorem verifyBlock_eq_some {s' : Validator K P S B} (h : s.verifyBlock o verdict b = some s') :
    s'.commits = s.commits ∧ s'.decider = s.decider := by
  unfold verifyBlock at h
  split_ifs at h
  · cases h
    exact ⟨rfl, rfl⟩
  · cases h
    exact ⟨rfl, rfl⟩

theorem checkViewID_fst (s : Validator K P S B) (msg : FBFTMessage K P S) :
    (s.checkViewID msg).1.commits = s.commits ∧ (s.checkViewID msg).1.decider = s.decider := by
  unfold checkViewID
  split_ifs
  · split <;> exact ⟨rfl, rfl⟩
  · exact ⟨rfl, rfl⟩

theorem mem_commits_acceptPrepared {sig : S} {mask : Mask K P} {c : Commit K P S B}
    (h : c ∈ (s.acceptPrepared o verdict msg b sig mask).commits) :
    c ∈ s.commits ∨ c.block = b ∧ c.message = msg ∧ c.offset = 0 ∧ c.decider = s.decider := by
  unfold acceptPrepared at h
  dsimp only at h
  split_ifs at h
  · exact .inl h
  · split at h
    · exact .inl h
    · rename_i s₁ hverify
      obtain ⟨hcommits, hdecider⟩ := verifyBlock_eq_some hverify
      have hview := s₁.checkViewID_fst msg
      split at h
      · rename_i s₂ hcheck
        rw [hcheck] at hview
        have hs₂ : s₂.commits = s.commits := hview.1.trans hcommits
        exact .inl (hs₂ ▸ h)
      · rename_i s₂ hcheck
        rw [hcheck] at hview
        have hs₂ : s₂.commits = s.commits := hview.1.trans hcommits
        have hd₂ : s₂.decider = s.decider := hview.2.trans hdecider
        split_ifs at h
        · exact .inl (hs₂ ▸ h)
        · rcases mem_commits_sendCommitMessages h with h | ⟨hb, hmsg, hoffset, hd⟩
          · exact .inl (hs₂ ▸ h)
          · exact .inr ⟨hb, hmsg, hoffset, hd.trans hd₂⟩
        · exact .inl (hs₂ ▸ h)

theorem isQuorumAchievedByMask_resetViewChangeVotes (d : Decider K P S) (mask : Option (Mask K P)) :
    d.resetViewChangeVotes.isQuorumAchievedByMask mask = d.isQuorumAchievedByMask mask := by
  cases d <;> cases mask <;> rfl

omit [DecidableEq K] in
theorem participants_resetViewChangeVotes (d : Decider K P S) :
    d.resetViewChangeVotes.participants = d.participants := by
  cases d <;> rfl

theorem verifyNewViewMsg_eq_ok {s' : Validator K P S B} {preparedBlock : Option B}
    (h : s.verifyNewViewMsg o verdict msg = .ok (s', preparedBlock)) :
    s'.commits = s.commits ∧ s'.decider = s.decider ∧ ∀ b, preparedBlock = some b →
      validPayloadLength ≤ msg.payload.length ∧ msg.block ≠ [] ∧
        o.hash b = msg.payload.take 32 := by
  have hread : s.readPreparedBlock o verdict msg = .ok (s', preparedBlock) := by
    unfold verifyNewViewMsg at h
    split at h
    · split_ifs at h
      split at h
      · exact h
      · cases h
      · split_ifs at h
        exact h
    · cases h
  unfold readPreparedBlock at hread
  split at hread
  case isTrue hcarries =>
    split at hread
    · cases hread
    · split_ifs at hread with hhash
      split at hread
      · cases hread
      · rename_i s₁ hverify
        cases hread
        obtain ⟨hcommits, hdecider⟩ := verifyBlock_eq_some hverify
        refine ⟨hcommits, hdecider, fun b' hb' => ⟨hcarries.1, hcarries.2, ?_⟩⟩
        cases hb'
        exact not_not.1 hhash
  case isFalse =>
    cases hread
    exact ⟨rfl, rfl, nofun⟩

/-! ## Certified commits -/

end Validator

section Certified

variable [Add P] [Sub P] [Zero P]

/-- The message's payload holds a signature on the block's hash by a quorum of the committee. -/
def Commit.certified (o : Outside K P S B) (c : Commit K P S B) : Bool :=
  match readSignatureBitmapPayload o c.decider.participants c.message.payload c.offset with
  | some (sig, mask) => o.verifyHash sig mask.aggregatePublic (o.hash c.block) &&
      c.decider.isQuorumAchievedByMask (some mask) == some true
  | none => false

namespace Validator

variable {o : Outside K P S B} {s s' : Validator K P S B} {msg : FBFTMessage K P S}
  {c : Commit K P S B}

/-- **PREPARED**: a commit that is sent is certified. -/
theorem certified_onPrepared {verdict : Bool} (h : s.onPrepared o verdict msg = some s')
    (hc : c ∈ s'.commits) : c ∈ s.commits ∨ c.certified o = true := by
  unfold onPrepared at h
  split_ifs at h
  · cases h
    exact .inl hc
  split at h
  · cases h
    exact .inl hc
  rename_i sig mask hread
  split at h
  · cases h
  · cases h
    exact .inl hc
  rename_i hquorum
  split_ifs at h with hverify
  · cases h
    exact .inl hc
  split at h
  · cases h
    exact .inl hc
  rename_i b hdecode
  split_ifs at h with hsane
  · cases h
    exact .inl hc
  cases h
  rcases mem_commits_acceptPrepared hc with hc | ⟨hb, hmsg, hoffset, hdecider⟩
  · exact .inl hc
  · -- the block has the hash that the signature was checked for
    have hhash : o.hash b = msg.blockHash := by
      simp only [onPreparedSanityChecks, Bool.not_eq_true', Bool.and_eq_true,
        decide_eq_true_eq, Bool.not_eq_false] at hsane
      exact hsane.2
    right
    simp only [Commit.certified, hmsg, hoffset, hdecider, hread, hb, hhash, hquorum]
    simpa using hverify

theorem mem_commits_enterNewView {senderKey : PublicKeyWrapper K P} {preparedBlock : Option B}
    (h : c ∈ (s.enterNewView o msg senderKey preparedBlock).commits) :
    c ∈ s.commits ∨ preparedBlock = some c.block ∧ c.message = msg ∧ c.offset = 32 ∧
      c.decider = s.decider.resetViewChangeVotes := by
  unfold enterNewView at h
  split_ifs at h
  · exact .inl h
  · cases preparedBlock with
    | none => exact .inl h
    | some b =>
      rcases mem_commits_sendCommitMessages h with h | ⟨hb, hrest⟩
      · exact .inl h
      · exact .inr ⟨by rw [hb], hrest⟩

theorem checkM1_eq_some (h : s.checkM1 o msg = some (some s')) :
    s'.commits = s.commits ∧ s'.decider = s.decider ∧ ∃ sig mask,
      readSignatureBitmapPayload o s.decider.participants msg.payload 32 = some (sig, mask) ∧
        o.verifyHash sig mask.aggregatePublic (msg.payload.take 32) = true := by
  unfold checkM1 at h
  split_ifs at h
  split at h
  · cases h
  · rename_i sig mask hread
    split_ifs at h with hverify
    · cases some.inj h
    · cases h
      exact ⟨rfl, rfl, sig, mask, hread, by simpa using hverify⟩

/-- A message with a block has fewer NIL signers than signers of the view, and a quorum in its
payload. -/
def Prepared (o : Outside K P S B) (s : Validator K P S B) (msg : FBFTMessage K P S) : Prop :=
  validPayloadLength ≤ msg.payload.length → msg.block ≠ [] →
    (∀ m3Mask, msg.m3Bitmap = some m3Mask → hasM1 msg m3Mask = true) ∧
    ∀ sig mask, readSignatureBitmapPayload o s.decider.participants msg.payload 32 =
      some (sig, mask) → s.decider.isQuorumAchievedByMask (some mask) = some true

/-- **NEWVIEW**: a commit that is sent is certified, if the message has the prepare signature
of a quorum. -/
theorem certified_onNewView {verdict : Bool} (hprepared : Prepared o s msg)
    (h : s.onNewView o verdict msg = some s') (hc : c ∈ s'.commits) :
    c ∈ s.commits ∨ c.certified o = true := by
  unfold onNewView at h
  split at h
  swap
  · cases h
    exact .inl hc
  split_ifs at h
  · cases h
    exact .inl hc
  split at h
  · rename_i s₁ preparedBlock m3Mask hverify hm3
    obtain ⟨hcommits, hdecider, hblock⟩ := verifyNewViewMsg_eq_ok hverify
    unfold settleNewView at h
    split at h
    · cases h
    · cases h
      exact .inl (hcommits ▸ hc)
    split_ifs at h with hm1
    · split at h
      · cases h
      · cases h
        exact .inl (hcommits ▸ hc)
      rename_i s₂ hcheck
      obtain ⟨hcommits₂, hdecider₂, sig, mask, hread, hverified⟩ := checkM1_eq_some hcheck
      cases h
      rcases mem_commits_enterNewView hc with hc | ⟨hb, hmsg, hoffset, hd⟩
      · exact .inl (hcommits ▸ hcommits₂ ▸ hc)
      · -- the payload was checked for the hash, and the condition says that its mask is a quorum
        obtain ⟨hlen, hne, hhash⟩ := hblock c.block hb
        rw [hdecider] at hread
        have hquorum := (hprepared hlen hne).2 sig mask hread
        right
        simp only [Commit.certified, hmsg, hoffset, hd, hdecider₂, hdecider,
          participants_resetViewChangeVotes, isQuorumAchievedByMask_resetViewChangeVotes, hread,
          hhash, hverified, hquorum]
        rfl
    · cases h
      rcases mem_commits_enterNewView hc with hc | ⟨hb, -⟩
      · exact .inl (hcommits ▸ hc)
      · obtain ⟨hlen, hne, -⟩ := hblock c.block hb
        exact absurd ((hprepared hlen hne).1 m3Mask hm3) hm1
  · cases h
  · cases h
    exact .inl hc

/-! ## Runs of a validator -/

variable [DecidableEq P]

/-- A message arrives, or the rest of the node changes the state as it likes, without sending
commits. -/
inductive Event (K P S B : Type) [DecidableEq K] where
  | message (msg : Received K P S)
  | other (s : Validator K P S B)

/-- One step of a validator; `none` is a panic. -/
def step (o : Outside K P S B) (s : Validator K P S B) :
    Event K P S B → Option (Validator K P S B)
  | .message msg => s.handleMessageUpdate o msg
  | .other t => some { t with commits := s.commits }

/-- Every NEWVIEW message with a block comes with a quorum's prepare signature. -/
def NewViewsPrepared (o : Outside K P S B) (s : Validator K P S B) (e : Event K P S B) : Prop :=
  ∀ senderKey signed verdict wire msg, e = .message (.newView senderKey signed verdict wire) →
    parseNewViewMessage o s.decider.participants wire = some msg → Prepared o s msg

theorem certified_step {e : Event K P S B} (hok : NewViewsPrepared o s e) (h : s.step o e = some s')
    (hc : c ∈ s'.commits) : c ∈ s.commits ∨ c.certified o = true := by
  cases e with
  | other t =>
    cases h
    exact .inl hc
  | message msg =>
    cases msg with
    | prepared senderKey signed verdict msg =>
      simp only [step, handleMessageUpdate] at h
      split_ifs at h
      · cases h
        exact .inl hc
      · cases h
        exact .inl hc
      · cases h
        exact .inl hc
      · exact certified_onPrepared h hc
    | newView senderKey signed verdict wire =>
      simp only [step, handleMessageUpdate] at h
      split_ifs at h
      · cases h
        exact .inl hc
      · split at h
        · cases h
          exact .inl hc
        · rename_i msg hparse
          exact certified_onNewView (hok _ _ _ _ msg rfl hparse) h hc

/-- **Every commit is certified** if NEWVIEW messages with a block have the signature of a quorum.
-/
theorem certified_of_reach {o : Outside K P S B} {s₀ s : Validator K P S B}
    (hstart : s₀.commits = []) (h : Reach (Validator.step o) (NewViewsPrepared o) s₀ s) :
    ∀ c ∈ s.commits, c.certified o = true := by
  induction h with
  | refl =>
    rw [hstart]
    exact fun c hc => absurd hc not_mem_nil
  | tail _ hok hstep ih =>
    intro c hc
    rcases certified_step hok hstep hc with hc | hc
    · exact ih c hc
    · exact hc

end Validator

end Certified

/-! ## Four validators in a view change -/

namespace ViewChange

/-- The hash of the only block. -/
def blockHash : List Byte := replicate 32 0x07

/-- A signature is the aggregate key and the bytes it signs.  Bytes that start with 1 are the
prepare signature of key 0, those with 2, 3 and 4 the NIL, view and prepare signatures of keys 0 to
2. -/
def outside : Outside ℕ ℤ (ℤ × List Byte) Unit where
  bytesToBLSPublicKey k := some (2 ^ k)
  deserialize bytes := some <|
    if bytes.head? = some 1 then (1, blockHash)
    else if bytes.head? = some 2 then (7, nilPayload)
    else if bytes.head? = some 3 then (7, putUint64 5)
    else if bytes.head? = some 4 then (7, blockHash)
    else (0, [])
  verifyHash sig key bytes := decide (sig = (key, bytes))
  decodeBlock _ := some ()
  hash _ := blockHash
  numberU64 _ := 1
  viewID _ := 4
  epoch _ := 0
  isStaking _ := false

/-- The keys of the committee: key `k` is the point `2 ^ k`. -/
def publicKeys : List (PublicKeyWrapper ℕ ℤ) := (range 4).map fun k => ⟨k, 2 ^ k⟩

/-- The validator with key 3, at block 1. -/
def validator (mode : Mode) : Validator ℕ ℤ (ℤ × List Byte) Unit where
  blockNum := 1
  blockHash := []
  block := []
  phase := .announce
  mode
  curBlockViewID := 4
  viewChangingID := 5
  leaderPubKey := ⟨1, 2⟩
  ignoreViewIDCheck := false
  decider := .uniform { publicKeys }
  priKey := [⟨3, 8⟩]
  aggregatedPrepareSig := none
  prepareBitmap := none
  verifiedBlocks := []
  hasBlockVerifier := true
  commits := []

/-- A message for view 5 that carries the block.  Keys 0 to 2 have asked for the view. -/
def newView (m2Aggsigs m2Bitmap m1Sig m1Bitmap : List Byte) :
    Validator.Event ℕ ℤ (ℤ × List Byte) Unit :=
  .message (.newView 0 true true
    { viewID := 5
      blockNum := 1
      payload := blockHash ++ (m1Sig ++ replicate 95 0) ++ m1Bitmap
      preparedBlock := [0x01]
      senderPubkey := 0
      m2Aggsigs
      m2Bitmap
      m3Aggsigs := [0x03]
      m3Bitmap := [0x07] })

/-- What the validator has sent after a message: for each commit, whether it is certified. -/
def sent (mode : Mode) (e : Validator.Event ℕ ℤ (ℤ × List Byte) Unit) : Option (List Bool) :=
  ((validator mode).step outside e).map fun s => s.commits.map (Commit.certified outside)

theorem exists_sent {mode : Mode} {e : Validator.Event ℕ ℤ (ℤ × List Byte) Unit} {b : Bool}
    (h : sent mode e = some [b]) :
    ∃ s c, (validator mode).step outside e = some s ∧ c ∈ s.commits ∧ c.certified outside = b := by
  unfold sent at h
  cases hs : (validator mode).step outside e with
  | none =>
    rw [hs] at h
    cases h
  | some s =>
    rw [hs, map_some, some.injEq] at h
    have hmem : b ∈ s.commits.map (Commit.certified outside) := by
      rw [h]
      exact mem_singleton_self b
    obtain ⟨c, hc, hcert⟩ := mem_map.1 hmem
    exact ⟨s, c, rfl, hc, hcert⟩

end ViewChange

open ViewChange

/-- NEWVIEW with the prepare signature of keys 0 to 2 makes the validator sign, and its commit
is certified. -/
theorem certified_newView : ∃ s c,
    Reach (Validator.step outside) (Validator.NewViewsPrepared outside)
      (validator .viewChanging) s ∧ c ∈ s.commits ∧ c.certified outside = true := by
  obtain ⟨s, c, hs, hc, -⟩ := exists_sent (b := true)
    (show sent .viewChanging (newView [] [] [0x04] [0x07]) = _ by decide +kernel)
  have hquorum : (readSignatureBitmapPayload outside publicKeys
      (blockHash ++ ([0x04] ++ replicate 95 0) ++ [0x07]) 32).map (fun r =>
        (validator .viewChanging).decider.isQuorumAchievedByMask (some r.2)) = some (some true) := by
    decide +kernel
  have hok : Validator.NewViewsPrepared outside (validator .viewChanging)
      (newView [] [] [0x04] [0x07]) := by
    rintro senderKey signed verdict wire msg ⟨⟩ hparse
    cases hparse
    refine fun _ _ => ⟨fun _ _ => rfl, fun sig mask hread => ?_⟩
    obtain ⟨r, hr, htrue⟩ := map_eq_some_iff.1 hquorum
    cases hr.symm.trans hread
    exact htrue
  have hreach := Reach.refl.tail hok hs
  exact ⟨s, c, hreach, hc, Validator.certified_of_reach rfl hreach c hc⟩

/-- **NEWVIEW without a prepare signature**: all say NIL, and the validator signs the block. -/
theorem newView_commits_without_prepare : ∃ s c,
    Reach (Validator.step outside) anyStep (validator .viewChanging) s ∧
      c ∈ s.commits ∧ c.certified outside = false := by
  obtain ⟨s, c, hs, hc, hcert⟩ := exists_sent (b := false)
    (show sent .viewChanging (newView [0x02] [0x07] [0x00] []) = _ by
      decide +kernel)
  exact ⟨s, c, Reach.refl.tail trivial hs, hc, hcert⟩

/-! ## NEWVIEW messages and crashes -/

namespace Validator

variable {o : Outside K P S B} {verdict : Bool} {s : Validator K P S B} {m : FBFTMessage K P S}

/-- The M3 signature of a NEWVIEW message verifies, and so does the M2 signature if there is
one. -/
structure Signed (o : Outside K P S B) (m : FBFTMessage K P S) (m3Mask : Mask K P) : Prop where
  mask : m.m3Bitmap = some m3Mask
  m3 : ∃ sig, m.m3AggSig = some sig ∧
    o.verifyHash sig m3Mask.aggregatePublic (putUint64 m.viewID) = true
  m2 : ∀ sig mask, m.m2AggSig = some sig → m.m2Bitmap = some mask →
    o.verifyHash sig mask.aggregatePublic nilPayload = true

/-- The message comes with a payload and a block. -/
def HasBlock (m : FBFTMessage K P S) : Prop :=
  validPayloadLength ≤ m.payload.length ∧ m.block ≠ []

/-- The block of the message has the hash that the payload starts with. -/
def Carries (o : Outside K P S B) (m : FBFTMessage K P S) (b : B) : Prop :=
  o.decodeBlock m.block = some b ∧ o.hash b = m.payload.take 32

/-- The block is verified already, or the verifier accepts it. -/
def Verifies (o : Outside K P S B) (verdict : Bool) (s : Validator K P S B) (b : B) : Prop :=
  o.hash b ∈ s.verifiedBlocks ∨ verdict = true

/-- What becomes of the block of a NEWVIEW message. -/
inductive BlockRead (o : Outside K P S B) (verdict : Bool) (s : Validator K P S B)
    (m : FBFTMessage K P S) : Outcome NewViewError (Validator K P S B × Option B) → Prop
  | absent (h : ¬ HasBlock m) : BlockRead o verdict s m (.ok (s, none))
  | refused {e : NewViewError} (h : HasBlock m) (hb : ∀ b, ¬ Carries o m b) :
      BlockRead o verdict s m (.error e)
  | unset {b : B} (h : HasBlock m) (hb : Carries o m b) (hv : s.hasBlockVerifier = false) :
      BlockRead o verdict s m .panic
  | failed {b : B} {e : NewViewError} (h : HasBlock m) (hb : Carries o m b)
      (hv : s.hasBlockVerifier = true) (hf : ¬ Verifies o verdict s b) :
      BlockRead o verdict s m (.error e)
  | verified {b : B} {s' : Validator K P S B} (h : HasBlock m) (hb : Carries o m b)
      (hv : s.hasBlockVerifier = true) (hs : Verifies o verdict s b)
      (hdecider : s'.decider = s.decider) : BlockRead o verdict s m (.ok (s', some b))

theorem Carries.unique {b b' : B} (h : Carries o m b) (h' : Carries o m b') : b = b' :=
  some.inj (h.1.symm.trans h'.1)

theorem blockRead (o : Outside K P S B) (verdict : Bool) (s : Validator K P S B)
    (m : FBFTMessage K P S) : BlockRead o verdict s m (s.readPreparedBlock o verdict m) := by
  unfold readPreparedBlock
  split
  case isFalse h => exact .absent h
  case isTrue h =>
    split
    case h_1 hdecode => exact .refused h (by simp [Carries, hdecode])
    case h_2 b hdecode =>
      split
      case isTrue hhash =>
        refine .refused h fun b' hb' => hhash ?_
        cases hdecode.symm.trans hb'.1
        exact hb'.2
      case isFalse hhash =>
        have hb : Carries o m b := ⟨hdecode, not_not.1 hhash⟩
        cases hv : s.hasBlockVerifier with
        | false => exact .unset h hb hv
        | true =>
          rw [Bool.not_true, if_neg Bool.false_ne_true]
          unfold verifyBlock
          by_cases hseen : o.hash b ∈ s.verifiedBlocks
          · rw [if_pos hseen]
            exact .verified h hb hv (.inl hseen) rfl
          · rw [if_neg hseen]
            cases verdict with
            | false => exact .failed h hb hv (by simp [Verifies, hseen])
            | true => exact .verified h hb hv (.inr rfl) rfl

theorem verifyNewViewMsg_cases (hmasks : m.m2AggSig.isSome = m.m2Bitmap.isSome) :
    (∃ mask, Signed o m mask ∧ s.verifyNewViewMsg o verdict m = s.readPreparedBlock o verdict m) ∨
      (∀ mask, ¬ Signed o m mask) ∧ ∃ e, s.verifyNewViewMsg o verdict m = .error e := by
  unfold verifyNewViewMsg
  split
  case h_2 hnone =>
    exact .inr ⟨fun mask hs => hnone _ _ hs.m3.choose_spec.1 hs.mask, _, rfl⟩
  case h_1 m3Sig m3Mask hsig hmask =>
    have hm3 : ∀ mask, Signed o m mask →
        o.verifyHash m3Sig m3Mask.aggregatePublic (putUint64 m.viewID) = true := by
      intro mask hs
      obtain ⟨sig, hsig', hverify⟩ := hs.m3
      cases hsig.symm.trans hsig'
      cases hmask.symm.trans hs.mask
      exact hverify
    split
    case isTrue hbad => exact .inr ⟨fun mask hs => by simp [hm3 mask hs] at hbad, _, rfl⟩
    case isFalse hgood =>
      have hm3 : o.verifyHash m3Sig m3Mask.aggregatePublic (putUint64 m.viewID) = true := by
        simpa using hgood
      split
      case h_1 hm2 => exact .inl ⟨m3Mask, ⟨hmask, ⟨m3Sig, hsig, hm3⟩, by simp [hm2]⟩, rfl⟩
      case h_2 hm2 hm2' => simp [hm2, hm2'] at hmasks
      case h_3 m2Sig m2Mask hm2 hm2' =>
        split
        case isTrue hbad =>
          exact .inr ⟨fun mask hs => by simp [hs.m2 m2Sig m2Mask hm2 hm2'] at hbad, _, rfl⟩
        case isFalse hgood =>
          refine .inl ⟨m3Mask, ⟨hmask, ⟨m3Sig, hsig, hm3⟩, ?_⟩, rfl⟩
          rintro sig mask hs hm
          cases hm2.symm.trans hs
          cases hm2'.symm.trans hm
          simpa using hgood

/-- The voting powers under the mask overflow when they are added up. -/
def Overflows : Decider K P S → Mask K P → Prop
  | .uniform _, _ => False
  | .staked v, mask => v.Overflows mask

/-- The mask is worth more than two thirds. -/
def IsQuorum : Decider K P S → Mask K P → Prop
  | .uniform c, mask => c.twoThirdsSignersCount ≤ countOneBits mask.bitmap
  | .staked v, mask => twoThird.int <
      Weight.weight (power v.roster.voters) mask.publicsIndex.keys mask.enabled

theorem isQuorumAchievedByMask_eq_none {d : Decider K P S} {mask : Mask K P} :
    d.isQuorumAchievedByMask (some mask) = none ↔ Overflows d mask := by
  cases d with
  | uniform c => exact iff_of_false nofun id
  | staked v => exact v.isQuorumAchievedByMask_eq_none

theorem isQuorumAchievedByMask_eq {d : Decider K P S} {mask : Mask K P} {b : Bool}
    (h : d.isQuorumAchievedByMask (some mask) = some b) : b = true ↔ IsQuorum d mask := by
  cases d with
  | uniform c =>
    cases h
    simp [CIdentities.isQuorumAchievedByMask, IsQuorum]
  | staked v =>
    rw [v.isQuorumAchievedByMask_eq_some h, decide_eq_true_iff]
    rfl

variable [Add P] [Sub P] [Zero P]

theorem shape_of_parse {members : List (PublicKeyWrapper K P)} {msg : NewViewWire K}
    (h : parseNewViewMessage o members msg = some m) :
    (∃ senderKey, m.senderPubkeys = [senderKey]) ∧ m.m2AggSig.isSome = m.m2Bitmap.isSome := by
  obtain ⟨_, -, h⟩ := bind_eq_some_iff.1 h
  obtain ⟨_, -, h⟩ := bind_eq_some_iff.1 h
  obtain ⟨m2, -, h⟩ := bind_eq_some_iff.1 h
  cases h
  cases m2 <;> exact ⟨⟨_, rfl⟩, rfl⟩

theorem checkM1_eq_none : s.checkM1 o m = none ↔ m.payload.length < 32 := by
  unfold checkM1
  split_ifs with h
  · exact iff_of_true rfl h
  · refine iff_of_false ?_ h
    repeat' split
    all_goals nofun

/-- What makes a NEWVIEW message crash the node: it is for the node's block and no older view, its
signatures verify, and it carries a block and no verifier is set, or the voting powers under its M3
mask overflow, or M1 is to be read from a payload of less than 32 bytes. -/
def Overruns (o : Outside K P S B) (verdict : Bool) (s : Validator K P S B)
    (m : FBFTMessage K P S) : Prop :=
  s.blockNum = m.blockNum ∧ s.curBlockViewID ≤ m.viewID ∧ ∃ mask, Signed o m mask ∧
    (HasBlock m ∧ (∃ b, Carries o m b) ∧ s.hasBlockVerifier = false ∨
      (HasBlock m → ∃ b, Carries o m b ∧ s.hasBlockVerifier = true ∧ Verifies o verdict s b) ∧
        (Overflows s.decider mask ∨
          IsQuorum s.decider mask ∧ hasM1 m mask = true ∧ m.payload.length < 32))

theorem settleNewView_eq_none {senderKey : PublicKeyWrapper K P} {mask : Mask K P}
    {block : Option B} : s.settleNewView o m senderKey mask block = none ↔
      Overflows s.decider mask ∨
        IsQuorum s.decider mask ∧ hasM1 m mask = true ∧ m.payload.length < 32 := by
  unfold settleNewView
  rw [← isQuorumAchievedByMask_eq_none, ← checkM1_eq_none (o := o) (s := s)]
  cases hquorum : s.decider.isQuorumAchievedByMask (some mask) with
  | none => simp
  | some b =>
    rw [← isQuorumAchievedByMask_eq hquorum]
    cases b with
    | false => simp
    | true => cases hasM1 m mask <;> rcases s.checkM1 o m with - | - | r <;> simp

theorem onNewView_eq_none {senderKey : PublicKeyWrapper K P}
    (hsender : m.senderPubkeys = [senderKey]) (hmasks : m.m2AggSig.isSome = m.m2Bitmap.isSome) :
    s.onNewView o verdict m = none ↔ Overruns o verdict s m := by
  unfold onNewView Overruns
  rw [hsender]
  dsimp only
  split_ifs with hguard
  · refine iff_of_false nofun ?_
    rintro ⟨hnum, hview, -⟩
    omega
  rw [and_iff_right (by omega), and_iff_right (by omega)]
  have hcases : _ ∨ (∀ mask, ¬ Signed o m mask) ∧ ∃ e, s.verifyNewViewMsg o verdict m = .error e :=
    verifyNewViewMsg_cases hmasks
  rcases hcases with ⟨mask, hsigned, hverify⟩ | ⟨hunsigned, e, hverify⟩
  · -- the mask of the message is the only one that its signature can verify for
    have hmask : ∀ p : Mask K P → Prop, (∃ mask, Signed o m mask ∧ p mask) ↔ p mask := by
      refine fun p => ⟨?_, fun h => ⟨mask, hsigned, h⟩⟩
      rintro ⟨mask', hsigned', h⟩
      cases hsigned.mask.symm.trans hsigned'.mask
      exact h
    rw [hmask, hverify, hsigned.mask]
    have hread := blockRead o verdict s m
    generalize s.readPreparedBlock o verdict m = r at hread
    cases hread with
    | absent h => simp [settleNewView_eq_none, h]
    | refused h hb => simp [h, hb]
    | unset h hb hv => simp [h, hv, show ∃ b, Carries o m b from ⟨_, hb⟩]
    | @failed b e h hb hv hf =>
      refine iff_of_false nofun ?_
      rintro (⟨-, -, hv'⟩ | ⟨hread, -⟩)
      · simp [hv] at hv'
      · obtain ⟨b', hb', -, hverified⟩ := hread h
        exact hf (hb.unique hb' ▸ hverified)
    | verified h hb hv hs hdecider =>
      rw [settleNewView_eq_none, hdecider]
      simp [hv, show ∃ b, Carries o m b ∧ Verifies o verdict s b from ⟨_, hb, hs⟩]
  · rw [hverify]
    refine iff_of_false nofun ?_
    rintro ⟨mask, hsigned, -⟩
    exact hunsigned mask hsigned

/-- **A NEWVIEW message that parses does not crash the node** exactly if it does not overrun. -/
theorem onNewView_iff (o : Outside K P S B) (members : List (PublicKeyWrapper K P))
    (msg : NewViewWire K) (verdict : Bool) (s : Validator K P S B) :
    (∀ m, parseNewViewMessage o members msg = some m → s.onNewView o verdict m ≠ none) ↔
      ∀ m, parseNewViewMessage o members msg = some m → ¬ Overruns o verdict s m := by
  refine forall_congr' fun m => imp_congr_right fun hm => not_congr ?_
  obtain ⟨⟨senderKey, hsender⟩, hmasks⟩ := shape_of_parse hm
  exact onNewView_eq_none hsender hmasks

end Validator

/-- **A payload without a hash**: keys 0 to 2 ask for the view and nobody says NIL. -/
theorem onNewView_panics : (parseNewViewMessage outside publicKeys
    ⟨5, 1, [], [], 0, [], [], [0x03], [0x07]⟩).map (fun m =>
      ((validator .viewChanging).onNewView outside true m).isNone) =
    some true := by
  decide +kernel

end DyShard.Consensus
