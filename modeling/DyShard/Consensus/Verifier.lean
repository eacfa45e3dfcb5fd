import DyShard.Consensus.Intersection

/-!
# Header verifiers and deciders: `quorum.Verifier`

A verifier should accept a mask only if the decider of the committee does.  The uniform verifier
counts the keys *of the mask*, enabled or not.
-/

namespace DyShard.Consensus

open Numeric Weight Option List Rounding StakedVoteWeight

variable {K P S : Type} [DecidableEq K]

/-! ## The verifiers -/

/-- `VotePowerByMask`. -/
def Roster.votePowerByMask (r : Roster K) (mask : Mask K P) : Option Dec :=
  mask.publicsIndex.entries.foldlM (fun res entry =>
    match mask.indexEnabled entry.2 with
    | .error _ => some res
    | .ok false => some res
    | .ok true =>
      match r.voters entry.1 with
      | none => some res
      | some voter => res.add voter.overallPercent) Dec.zeroDec

/-- `Verifier`: a `stakeVerifier` or a `uniformVerifier`. -/
inductive Verifier (K : Type) where
  | stake (r : Roster K)
  | uniform (pubKeyCnt : ℕ)

/-- The errors of `NewVerifier`. -/
inductive VerifierError where
  | computeStakingVotePower (e : ComputeError)
  | badKey
  deriving DecidableEq, Repr

/-- `BLSPublicKeys`: the keys of the slots, deserialised. -/
def Committee.blsPublicKeys (bytesToBLSPublicKey : K → Option P) (c : Committee K) :
    Option (List (PublicKeyWrapper K P)) :=
  c.slots.mapM fun slot => (bytesToBLSPublicKey slot.blsPublicKey).map (⟨slot.blsPublicKey, ·⟩)

/-- `NewVerifier`. -/
def newVerifier (net : Network) (bytesToBLSPublicKey : K → Option P) (committee : Committee K)
    (epoch : Option ℤ) (isStaking : Bool) : Outcome VerifierError (Verifier K) :=
  if isStaking then
    match compute net committee epoch with
    | .panic => .panic
    | .error e => .error (.computeStakingVotePower e)
    | .ok r => .ok (.stake r)
  else
    match committee.blsPublicKeys bytesToBLSPublicKey with
    | none => .error .badKey
    | some keys => .ok (.uniform keys.length)

/-- `IsQuorumAchievedByMask` of the verifiers.  The uniform one panics on a nil mask. -/
def Verifier.isQuorumAchievedByMask : Verifier K → Option (Mask K P) → Option Bool
  | .stake _, none => some false
  | .stake r, some mask => (r.votePowerByMask mask).map (·.gt twoThird)
  | .uniform _, none => none
  | .uniform pubKeyCnt, some mask => some (decide (pubKeyCnt * 2 / 3 + 1 < mask.publics.length))

/-! ## The decider of a committee -/

/-- `Decider`: a `uniformVoteWeight` or a `stakedVoteWeight`. -/
inductive Decider (K P S : Type) where
  | uniform (c : CIdentities K P S)
  | staked (v : StakedVoteWeight K P S)

/-- `IsQuorumAchievedByMask` of `uniformVoteWeight`. -/
def CIdentities.isQuorumAchievedByMask (c : CIdentities K P S) : Option (Mask K P) → Bool
  | none => false
  | some mask => !decide (countOneBits mask.bitmap < c.twoThirdsSignersCount)

namespace Decider

/-- `NewDecider`. -/
def newDecider (isStaking : Bool) (shardID : ShardID) : Decider K P S :=
  if isStaking then .staked ⟨{}, newRoster shardID, {}⟩ else .uniform {}

/-- `UpdateParticipants`. -/
def updateParticipants (pubKeys : List (PublicKeyWrapper K P)) : Decider K P S → Decider K P S
  | .uniform c => .uniform (c.updateParticipants pubKeys)
  | .staked v => .staked { v with identities := v.identities.updateParticipants pubKeys }

/-- `SetVoters`; nothing is done before staking. -/
def setVoters (net : Network) (subCommittee : Committee K) (epoch : Option ℤ) :
    Decider K P S → Option (Decider K P S)
  | .uniform c => some (.uniform c)
  | .staked v =>
    match v.setVoters net subCommittee epoch with
    | some (v, .ok _) => some (.staked v)
    | _ => none

/-- `IsQuorumAchievedByMask`. -/
def isQuorumAchievedByMask : Decider K P S → Option (Mask K P) → Option Bool
  | .uniform c, mask => some (c.isQuorumAchievedByMask mask)
  | .staked v, mask => v.isQuorumAchievedByMask mask

end Decider

/-- The decider of a committee: `NewDecider`, `UpdateParticipants` and `SetVoters`. -/
def committeeDecider (net : Network) (committee : Committee K)
    (pubKeys : List (PublicKeyWrapper K P)) (epoch : Option ℤ) (isStaking : Bool) :
    Option (Decider K P S) :=
  ((Decider.newDecider isStaking committee.shardID).updateParticipants pubKeys).setVoters net
    committee epoch

/-! ## They count the same power -/

/-- **The staked verifier counts what the staked decider counts.** -/
theorem votePowerByMask_eq (v : StakedVoteWeight K P S) (mask : Mask K P) :
    v.roster.votePowerByMask mask = v.computeTotalPowerByMask mask := by
  unfold Roster.votePowerByMask computeTotalPowerByMask
  congr 1
  funext res entry
  cases hen : mask.indexEnabled entry.2 with
  | error e => rfl
  | ok b =>
    cases b with
    | false => rfl
    | true => cases hvoter : v.roster.voters entry.1 <;> rfl

section

variable {f : K → Option P} {c : Committee K} {net : Network} {epoch : Option ℤ}
  {pubKeys : List (PublicKeyWrapper K P)} {verifier : Verifier K} {decider : Decider K P S}

omit [DecidableEq K] in
theorem length_blsPublicKeys {keys : List (PublicKeyWrapper K P)}
    (h : c.blsPublicKeys f = some keys) : keys.length = c.keys.length := by
  obtain ⟨shardID, slots⟩ := c
  rw [Committee.keys, length_map]
  induction slots generalizing keys with
  | nil =>
    cases h
    rfl
  | cons slot slots ih =>
    rw [Committee.blsPublicKeys, mapM_cons, bind_eq_bind, bind_eq_some_iff] at h
    obtain ⟨key, -, h⟩ := h
    obtain ⟨rest, hrest, h⟩ := bind_eq_some_iff.1 h
    cases h
    rw [length_cons, length_cons, ih hrest]

theorem staked_of_ok (hv : newVerifier net f c epoch true = .ok verifier)
    (hd : committeeDecider net c pubKeys epoch true = some decider) :
    ∃ v : StakedVoteWeight K P S, decider = .staked v ∧ verifier = .stake v.roster ∧
      compute net c epoch = .ok v.roster := by
  simp only [committeeDecider, Decider.newDecider, if_true, Decider.updateParticipants,
    Decider.setVoters] at hd
  split at hd
  · rename_i v result hset
    cases hd
    have hcompute := compute_of_setVoters hset
    rw [newVerifier, if_pos rfl, hcompute] at hv
    exact ⟨v, rfl, (Outcome.ok.inj hv).symm, hcompute⟩
  · cases hd

theorem uniform_of_ok (hv : newVerifier net f c epoch false = .ok verifier) (hkeys : c.blsPublicKeys f = some pubKeys)
    (hd : committeeDecider net c pubKeys epoch false = some decider) :
    decider = .uniform { publicKeys := pubKeys } ∧ verifier = .uniform c.keys.length := by
  rw [newVerifier, if_neg (by simp), hkeys] at hv
  refine ⟨(some.inj hd).symm, ?_⟩
  rw [← length_blsPublicKeys hkeys]
  exact (Outcome.ok.inj hv).symm

end

/-! ## When they agree -/

/-- The verifier accepts what the decider does, and more than two thirds of the keys. -/
def VerifierAgrees (verifier : Verifier K) (decider : Decider K P S) (mask : Mask K P) : Prop :=
  verifier.isQuorumAchievedByMask (some mask) = some true →
    decider.isQuorumAchievedByMask (some mask) = some true ∧
      2 * mask.publics.length < 3 * mask.countEnabled

/-- With staking, the enabled keys do not hold more than two thirds of the voting power. -/
def TooLight (net : Network) (c : Committee K) (epoch : Option ℤ) (mask : Mask K P) : Prop :=
  ∀ r, compute net c epoch = .ok r → weight (power r.voters) c.keys mask.enabled ≤ twoThird.int

/-- **When the verifier is right**: more than two thirds of the keys are enabled, or it refuses
anyway. -/
theorem verifierAgrees_iff {net : Network} {f : K → Option P} {c : Committee K}
    {epoch : Option ℤ} {isStaking : Bool} {pubKeys : List (PublicKeyWrapper K P)}
    {verifier : Verifier K} {decider : Decider K P S} {mask : Mask K P} (hnd : c.keys.Nodup)
    (hmask : mask.publics.map (·.bytes) = c.keys) (hkeys : c.blsPublicKeys f = some pubKeys)
    (hv : newVerifier net f c epoch isStaking = .ok verifier)
    (hd : committeeDecider net c pubKeys epoch isStaking = some decider)
    (hreturns : verifier.isQuorumAchievedByMask (some mask) ≠ none) :
    VerifierAgrees verifier decider mask ↔
      2 * c.keys.length < 3 * mask.countEnabled ∨
        if isStaking then TooLight net c epoch mask else c.keys.length ≤ 3 := by
  have hlen : mask.publics.length = c.keys.length := by rw [← hmask, length_map]
  unfold VerifierAgrees
  rw [hlen]
  cases isStaking with
  | true =>
    obtain ⟨v, rfl, rfl, hcompute⟩ := staked_of_ok hv hd
    -- the two ask for the same sum, so only the number of keys is left to compare
    have hsame : (Verifier.stake v.roster).isQuorumAchievedByMask (some mask) =
        v.isQuorumAchievedByMask (some mask) := by
      simp only [Verifier.isQuorumAchievedByMask, isQuorumAchievedByMask, votePowerByMask_eq]
    rw [hsame] at hreturns
    obtain ⟨b, hb⟩ := ne_none_iff_exists'.1 hreturns
    have hweight := isQuorumAchievedByMask_eq_some hb
    rw [weight_publicsIndex hnd hmask] at hweight
    have hlight : TooLight net c epoch mask ↔ b = false := by
      rw [hweight, decide_eq_false_iff_not, not_lt]
      constructor
      · exact fun h => h v.roster hcompute
      · intro h r hr
        rw [hcompute] at hr
        cases hr
        exact h
    simp only [hsame, Decider.isQuorumAchievedByMask, hb, if_true, hlight]
    cases b <;> simp
  | false =>
    obtain ⟨rfl, rfl⟩ := uniform_of_ok hv hkeys hd
    have hpubKeys := length_blsPublicKeys hkeys
    simp only [Verifier.isQuorumAchievedByMask, Decider.isQuorumAchievedByMask,
      CIdentities.isQuorumAchievedByMask, CIdentities.twoThirdsSignersCount,
      CIdentities.participantsCount, mask.countOneBits_bitmap, hlen, hpubKeys, some.injEq,
      decide_eq_true_eq, Bool.not_eq_true', decide_eq_false_iff_not, Bool.false_eq_true, if_false]
    omega

/-! ## Four keys -/

namespace FourKeys

/-- Four Harmony slots. -/
def committee : Committee ℕ where
  shardID := 0
  slots := (range 4).map (slot · none)

/-- The keys of the slots. -/
def pubKeys : List (PublicKeyWrapper ℕ ℤ) := (range 4).map fun k => ⟨k, (k : ℤ)⟩

/-- Every key is well-formed. -/
def deserialize (k : ℕ) : Option ℤ := some k

/-- The decider of the committee before staking. -/
def decider : Decider ℕ ℤ Unit := .uniform { publicKeys := pubKeys }

theorem newVerifier_eq :
    newVerifier sixty deserialize committee (some 1) false = .ok (.uniform 4) := rfl

theorem blsPublicKeys_eq : committee.blsPublicKeys deserialize = some pubKeys := rfl

theorem committeeDecider_eq :
    committeeDecider sixty committee pubKeys (some 1) false = some decider := rfl

/-- The mask of a bitmap over the four keys. -/
def mask (bitmap : List Byte) : Except MaskError (Mask ℕ ℤ) := do
  let m ← Mask.newMask pubKeys none
  m.setMask bitmap

end FourKeys

/-- All four keys are enabled: the verifier is right. -/
theorem verifierAgrees_four_keys : ∃ m, FourKeys.mask [0x0F] = .ok m ∧
    VerifierAgrees (.uniform 4) FourKeys.decider m :=
  ⟨_, rfl, (verifierAgrees_iff (by decide) rfl FourKeys.blsPublicKeys_eq FourKeys.newVerifier_eq
    FourKeys.committeeDecider_eq nofun).2 (.inl (by decide +kernel))⟩

/-- **Four keys, none of them enabled**, are accepted by the verifier and refused by the
decider. -/
theorem uniformVerifier_accepts_nothing : ∃ m, FourKeys.mask [0x00] = .ok m ∧
    m.publics.map (·.bytes) = FourKeys.committee.keys ∧ FourKeys.committee.keys.Nodup ∧
    newVerifier sixty FourKeys.deserialize FourKeys.committee (some 1) false = .ok (.uniform 4) ∧
    committeeDecider sixty FourKeys.committee FourKeys.pubKeys (some 1) false =
      some FourKeys.decider ∧
    m.countEnabled = 0 ∧ (Verifier.uniform 4).isQuorumAchievedByMask (some m) = some true ∧
    FourKeys.decider.isQuorumAchievedByMask (some m) = some false := by
  refine ⟨_, rfl, rfl, by decide, rfl, rfl, ?_, rfl, ?_⟩ <;> decide +kernel

end DyShard.Consensus
