import DyShard.Chain.Signature
import DyShard.State.DB

/-!
# Evidence of double signing: `slash.Verify`

The evidence is two commit votes, each a list of keys, a block hash and one signature for all of
the keys.  `Verify` looks up who owns the keys that are in both lists, and checks each signature
against the sum of its keys.
-/

namespace DyShard.Slash

open Consensus Chain State Option List

/-! ## Records -/

/-- `Moment`: when and where the votes were cast. -/
structure Moment where
  epoch : ℕ
  shardID : ShardID
  height : UInt64
  viewID : UInt64

/-- `Vote`. -/
structure Vote (K : Type) where
  signerPubKeys : List K
  blockHeaderHash : Word
  signature : List Byte

/-- `Record`, with its evidence. -/
structure Record (K : Type) where
  moment : Moment
  firstVote : Vote K
  secondVote : Vote K
  offender : Address
  reporter : Address

/-- The errors of `Verify`. -/
inductive SlashError where
  | addressNotPresent
  | slashBeforeStakingEpoch
  | alreadyBannedValidator
  | reporterAndOffenderSame
  | slashBlockNoConflict
  | noMatchingDoubleSignKeys
  | slashFromFutureEpoch
  | readShardState
  | shardIDNotInSuperCommittee
  | validNotInCommittee
  | multipleDoubleSigners (addrs : List Address)
  | offenderNotSigner (addrs : List Address)
  | ballotsNotDiff
  | badSignature
  | badKey
  | failVerifySlash
  deriving DecidableEq, Repr

variable {K P S W : Type} [DecidableEq K] [Add P] [Zero P]

/-- `CommitteeReader`. -/
structure CommitteeReader (K : Type) where
  /-- `Config().IsStaking`. -/
  isStaking : ℕ → Bool
  /-- The epoch of `CurrentBlock`. -/
  currentEpoch : ℕ
  readShardState : ℕ → Option (List (Committee K))

/-- What `Verify` asks of a wrapper, and of the hash of a vote. -/
structure Reading (K W : Type) where
  codec : WrapperCodec W
  /-- `Status == effective.Banned`. -/
  isBanned : W → Bool
  /-- `hash.FromRLPNew256`. -/
  digest : Vote K → Word

/-- `AddressForBLSKey`. -/
def addressForBLSKey (c : Committee K) (key : K) : Option Address :=
  (c.slots.find? fun slot => slot.blsPublicKey = key).map (·.ecdsaAddress)

/-- The keys of the first list that are in the second. -/
def doubleSignKeys (first second : List K) : List K := first.filter fun k => k ∈ second

/-- The sum of the keys of a list, if all of them are well-formed. -/
def keySum (bytesToBLSPublicKey : K → Option P) (keys : List K) : Option P :=
  keys.foldlM (fun publicKey k => (bytesToBLSPublicKey k).map (publicKey + ·)) 0

/-- The payload that a vote has signed. -/
def commitPayload (chain : CommitteeReader K) (m : Moment) (hash : Word) : List Byte :=
  constructCommitPayload chain.isStaking m.epoch hash m.height m.viewID

variable (o : Crypto K P S)

/-- One turn of the last loop of `Verify`. -/
def verifyBallot (payload : List Byte) (ballot : Vote K) : Except SlashError Unit :=
  match o.deserialize ballot.signature with
  | none => .error .badSignature
  | some signature =>
    match keySum o.bytesToBLSPublicKey ballot.signerPubKeys with
    | none => .error .badKey
    | some publicKey =>
      if o.verifyHash signature publicKey payload then .ok () else .error .failVerifySlash

/-- The part of `Verify` that looks for the owner of the keys. -/
def findSigner (offender : Address) (subCommittee : Committee K) (keys : List K) :
    Except SlashError Unit :=
  match keys.mapM (addressForBLSKey subCommittee) with
  | none => .error .validNotInCommittee
  | some addrs =>
    if addrs.length > 1 then .error (.multipleDoubleSigners addrs)
    else if offender ∉ addrs then .error (.offenderNotSigner addrs)
    else .ok ()

/-- The part of `Verify` from the committee on. -/
def verifyInCommittee (digest : Vote K → Word) (chain : CommitteeReader K) (candidate : Record K)
    (subCommittee : Committee K) : Except SlashError Unit := do
  findSigner candidate.offender subCommittee
    (doubleSignKeys candidate.firstVote.signerPubKeys candidate.secondVote.signerPubKeys)
  if digest candidate.firstVote = digest candidate.secondVote then throw .ballotsNotDiff
  verifyBallot o (commitPayload chain candidate.moment candidate.firstVote.blockHeaderHash)
    candidate.firstVote
  verifyBallot o (commitPayload chain candidate.moment candidate.secondVote.blockHeaderHash)
    candidate.secondVote

/-- `Verify` after the wrapper is there.  A key is an array, so its length is right. -/
def verifyEvidence (r : Reading K W) (chain : CommitteeReader K) (wrapper : Option W)
    (candidate : Record K) : Except SlashError Unit :=
  match wrapper with
  | none => .error .addressNotPresent
  | some wrapper =>
    if !chain.isStaking candidate.moment.epoch then .error .slashBeforeStakingEpoch
    else if r.isBanned wrapper then .error .alreadyBannedValidator
    else if candidate.offender = candidate.reporter then .error .reporterAndOffenderSame
    else if candidate.firstVote.blockHeaderHash = candidate.secondVote.blockHeaderHash then
      .error .slashBlockNoConflict
    else if doubleSignKeys candidate.firstVote.signerPubKeys candidate.secondVote.signerPubKeys = []
      then .error .noMatchingDoubleSignKeys
    else if candidate.moment.epoch > chain.currentEpoch then .error .slashFromFutureEpoch
    else
      match chain.readShardState candidate.moment.epoch with
      | none => .error .readShardState
      | some superCommittee =>
        match findCommitteeByID superCommittee candidate.moment.shardID with
        | none => .error .shardIDNotInSuperCommittee
        | some subCommittee => verifyInCommittee o r.digest chain candidate subCommittee

/-- `Verify`; reading the wrapper may put it into the cache of the state. -/
def verify (r : Reading K W) (chain : CommitteeReader K) (state : DB W) (candidate : Record K) :
    Except SlashError Unit × DB W :=
  ((verifyEvidence o r chain (state.validatorWrapper r.codec candidate.offender).2 candidate),
    (state.validatorWrapper r.codec candidate.offender).1)

/-! ## What is accepted -/

/-- The committee of the record. -/
def subCommittee (chain : CommitteeReader K) (m : Moment) : Option (Committee K) :=
  (chain.readShardState m.epoch).bind fun superCommittee => findCommitteeByID superCommittee m.shardID

/-- What `Verify` asks before it looks at the keys. -/
structure Admissible (r : Reading K W) (chain : CommitteeReader K) (wrapper : Option W)
    (candidate : Record K) : Prop where
  unbanned : ∃ w, wrapper = some w ∧ r.isBanned w = false
  staking : chain.isStaking candidate.moment.epoch = true
  reporter : candidate.offender ≠ candidate.reporter
  conflict : candidate.firstVote.blockHeaderHash ≠ candidate.secondVote.blockHeaderHash
  epoch : candidate.moment.epoch ≤ chain.currentEpoch
  digest : r.digest candidate.firstVote ≠ r.digest candidate.secondVote

/-- The signature of a ballot is valid for the sum of its keys. -/
def ValidBallot (payload : List Byte) (ballot : Vote K) : Prop :=
  ∃ signature publicKey, o.deserialize ballot.signature = some signature ∧
    keySum o.bytesToBLSPublicKey ballot.signerPubKeys = some publicKey ∧
    o.verifyHash signature publicKey payload = true

omit [DecidableEq K] in
theorem verifyBallot_eq_ok {o : Crypto K P S} {payload : List Byte} {ballot : Vote K} :
    verifyBallot o payload ballot = .ok () ↔ ValidBallot o payload ballot := by
  unfold verifyBallot ValidBallot
  cases o.deserialize ballot.signature with
  | none => simp
  | some signature =>
    cases keySum o.bytesToBLSPublicKey ballot.signerPubKeys with
    | none => simp
    | some publicKey => simp

theorem findSigner_eq_ok {offender : Address} {c : Committee K} {keys : List K} :
    findSigner offender c keys = .ok () ↔ ∃ k, keys = [k] ∧ addressForBLSKey c k = some offender := by
  unfold findSigner
  constructor
  · intro h
    rcases keys with _ | ⟨k, _ | ⟨k', keys⟩⟩
    · simp at h
    · refine ⟨k, rfl, ?_⟩
      cases hk : addressForBLSKey c k with
      | none => simp [hk] at h
      | some a =>
        simp only [mapM_cons, mapM_nil, hk] at h
        by_cases ha : offender = a
        · rw [ha]
        · simp [ha] at h
    · -- two keys give two addresses, equal or not
      cases hk : addressForBLSKey c k <;> cases hk' : addressForBLSKey c k' <;>
        cases hkeys : keys.mapM (addressForBLSKey c) <;> simp [hk, hk', hkeys] at h
  · rintro ⟨k, rfl, hk⟩
    simp [hk]

/-- **What an accepted record has passed**, and nothing else. -/
theorem verify_eq_ok {o : Crypto K P S} {r : Reading K W} {chain : CommitteeReader K}
    {state : DB W} {candidate : Record K} :
    (verify o r chain state candidate).1 = .ok () ↔
      Admissible r chain (state.validatorWrapper r.codec candidate.offender).2 candidate ∧
        ∃ c, subCommittee chain candidate.moment = some c ∧
          (∃ k, doubleSignKeys candidate.firstVote.signerPubKeys
              candidate.secondVote.signerPubKeys = [k] ∧
            addressForBLSKey c k = some candidate.offender) ∧
          ValidBallot o (commitPayload chain candidate.moment candidate.firstVote.blockHeaderHash)
            candidate.firstVote ∧
          ValidBallot o (commitPayload chain candidate.moment candidate.secondVote.blockHeaderHash)
            candidate.secondVote := by
  have hcommittee : ∀ c, verifyInCommittee o r.digest chain candidate c = .ok () ↔
      r.digest candidate.firstVote ≠ r.digest candidate.secondVote ∧
        (∃ k, doubleSignKeys candidate.firstVote.signerPubKeys
            candidate.secondVote.signerPubKeys = [k] ∧
          addressForBLSKey c k = some candidate.offender) ∧
        ValidBallot o (commitPayload chain candidate.moment candidate.firstVote.blockHeaderHash)
          candidate.firstVote ∧
        ValidBallot o (commitPayload chain candidate.moment candidate.secondVote.blockHeaderHash)
          candidate.secondVote := by
    intro c
    rw [← findSigner_eq_ok, ← verifyBallot_eq_ok, ← verifyBallot_eq_ok]
    unfold verifyInCommittee
    cases findSigner candidate.offender c _ with
    | error e => simp [bind, Except.bind]
    | ok _ =>
      by_cases hdigest : r.digest candidate.firstVote = r.digest candidate.secondVote
      · simp [bind, Except.bind, hdigest]
      · cases verifyBallot o _ candidate.firstVote <;>
          simp [bind, Except.bind, hdigest]
  unfold verify verifyEvidence
  generalize (state.validatorWrapper r.codec candidate.offender).2 = wrapper
  constructor
  · intro h
    cases wrapper with
    | none => simp at h
    | some w =>
      dsimp only at h
      split_ifs at h with hstaking hbanned hreporter hconflict hkeys hepoch
      unfold subCommittee
      cases hread : chain.readShardState candidate.moment.epoch with
      | none => simp [hread] at h
      | some superCommittee =>
        simp only [hread, bind_some] at h ⊢
        cases hfind : findCommitteeByID superCommittee candidate.moment.shardID with
        | none => simp [hfind] at h
        | some c =>
          simp only [hfind] at h
          obtain ⟨hdigest, hrest⟩ := (hcommittee c).1 h
          exact ⟨⟨⟨w, rfl, by simpa using hbanned⟩, by simpa using hstaking, hreporter, hconflict,
            Nat.le_of_not_lt hepoch, hdigest⟩, c, rfl, hrest⟩
  · rintro ⟨⟨⟨w, rfl, hbanned⟩, hstaking, hreporter, hconflict, hepoch, hdigest⟩, c, hc, hrest⟩
    obtain ⟨k, hk, -⟩ := hrest.1
    obtain ⟨superCommittee, hread, hfind⟩ := bind_eq_some_iff.1 hc
    simp only [hstaking, hbanned, hreporter, hconflict, hk, hread, hfind, Bool.not_true,
      Bool.false_eq_true, if_false, if_neg (Nat.not_lt.2 hepoch), reduceCtorEq]
    exact (hcommittee c).2 ⟨hdigest, hrest⟩

/-! ## Genuine evidence -/

/-- Two valid votes on different blocks of one height and view, which share committee keys, all of
them keys of an unbanned offender. -/
structure Genuine (o : Crypto K P S) (r : Reading K W) (chain : CommitteeReader K) (state : DB W)
    (candidate : Record K) : Prop where
  admissible : Admissible r chain (state.validatorWrapper r.codec candidate.offender).2 candidate
  shared : ∃ k ∈ candidate.firstVote.signerPubKeys, k ∈ candidate.secondVote.signerPubKeys
  owned : ∃ c, subCommittee chain candidate.moment = some c ∧
    ∀ k ∈ candidate.firstVote.signerPubKeys, k ∈ candidate.secondVote.signerPubKeys →
      addressForBLSKey c k = some candidate.offender
  first : ValidBallot o
    (commitPayload chain candidate.moment candidate.firstVote.blockHeaderHash) candidate.firstVote
  second : ValidBallot o
    (commitPayload chain candidate.moment candidate.secondVote.blockHeaderHash) candidate.secondVote

/-- **Genuine evidence is accepted exactly if the votes share one key**, listed once in the
first of them. -/
theorem verify_iff_of_genuine {o : Crypto K P S} {r : Reading K W} {chain : CommitteeReader K}
    {state : DB W} {candidate : Record K} (h : Genuine o r chain state candidate) :
    (verify o r chain state candidate).1 = .ok () ↔
      candidate.firstVote.signerPubKeys.countP
        (fun k => k ∈ candidate.secondVote.signerPubKeys) = 1 := by
  rw [verify_eq_ok, countP_eq_length_filter, length_eq_one_iff]
  obtain ⟨c, hc, howned⟩ := h.owned
  constructor
  · rintro ⟨-, c', -, ⟨k, hk, -⟩, -⟩
    exact ⟨k, hk⟩
  · rintro ⟨k, hk⟩
    refine ⟨h.admissible, c, hc, ⟨k, hk, ?_⟩, h.first, h.second⟩
    have hmem : k ∈ candidate.firstVote.signerPubKeys.filter
        fun k => k ∈ candidate.secondVote.signerPubKeys := by rw [hk]; exact mem_singleton_self k
    obtain ⟨hfirst, hsecond⟩ := mem_filter.1 hmem
    exact howned k hfirst (by simpa using hsecond)

/-! ## A node with two keys -/

namespace TwoKeys

/-- A signature is the payload; it is valid for the sum of any keys. -/
def crypto : Crypto ℕ ℤ (List Byte) where
  net := StakedVoteWeight.sixty
  bytesToBLSPublicKey k := some k
  deserialize := some
  verifyHash sig _ payload := sig == payload

/-- Every validator is there and unbanned. -/
def reading : Reading ℕ Unit where
  codec := {
    sanityCheck := fun _ => true
    encode := fun _ => some [1]
    decode := fun _ => some ()
    decode_encode := fun _ _ _ => rfl
    encode_ne_nil := fun _ c h => by obtain rfl := some.inj h; decide }
  isBanned _ := false
  digest v := v.blockHeaderHash

/-- The keys 1 and 2 belong to one validator, key 3 to another. -/
def committee : Committee ℕ where
  shardID := 0
  slots := [⟨0xaa, 1, none⟩, ⟨0xaa, 2, none⟩, ⟨0xbb, 3, none⟩]

/-- The chain, in the epoch of the votes. -/
def chain : CommitteeReader ℕ where
  isStaking _ := true
  currentEpoch := 4
  readShardState _ := some [committee]

/-- The state, with the wrapper of the offender. -/
def state : DB Unit := .new fun a => if a = 0xaa then some { Account.zero with code := [1] } else none

/-- When the blocks were signed. -/
def moment : Moment := ⟨4, 0, 10, 11⟩

/-- A vote with the given keys. -/
def vote (keys : List ℕ) (hash : Word) : Vote ℕ :=
  ⟨keys, hash, commitPayload chain moment hash⟩

/-- The record of two votes with the given keys. -/
def record (first second : List ℕ) : Record ℕ :=
  ⟨moment, vote first 7, vote second 8, 0xaa, 0xcc⟩

theorem genuine {first second : List ℕ} (hshared : ∃ k ∈ first, k ∈ second)
    (howned : ∀ k ∈ first, k ∈ second → addressForBLSKey committee k = some 0xaa) :
    Genuine crypto reading chain state (record first second) := by
  have hsum : ∀ keys : List ℕ, ∃ p, keySum crypto.bytesToBLSPublicKey keys = some p := by
    intro keys
    have hfold : ∀ (keys : List ℕ) (p : ℤ), ∃ q,
        keys.foldlM (fun publicKey k => (crypto.bytesToBLSPublicKey k).map (publicKey + ·)) p =
          some q := by
      intro keys
      induction keys with
      | nil => exact fun p => ⟨p, rfl⟩
      | cons k keys ih => exact fun p => ih (p + k)
    exact hfold keys 0
  have hvalid : ∀ keys hash, ValidBallot crypto (commitPayload chain moment hash) (vote keys hash) := by
    intro keys hash
    obtain ⟨p, hp⟩ := hsum keys
    exact ⟨_, p, rfl, hp, beq_self_eq_true _⟩
  have hwrapper : (state.validatorWrapper reading.codec 0xaa).2 = some () := by decide +kernel
  exact ⟨⟨⟨(), hwrapper, rfl⟩, rfl, by simp [record], by simp [record, vote],
    by simp [record, moment, chain], by simp [record, vote, reading]⟩, hshared,
    ⟨committee, rfl, howned⟩, hvalid _ _, hvalid _ _⟩

end TwoKeys

open TwoKeys

/-- Votes that share one key are accepted. -/
theorem verify_one_key :
    (verify crypto reading chain state (record [1, 3] [1, 2])).1 = .ok () :=
  (verify_iff_of_genuine (genuine ⟨1, by decide⟩ (by decide))).2 (by decide)

/-- **A node that signs twice with both of its keys is not punished.** -/
theorem two_keys_refused :
    Genuine crypto reading chain state (record [1, 2] [1, 2]) ∧
      (verify crypto reading chain state
        (record [1, 2] [1, 2])).1 = .error (.multipleDoubleSigners [0xaa, 0xaa]) :=
  ⟨genuine ⟨1, by decide⟩ (by decide), by decide +kernel⟩

end DyShard.Slash
