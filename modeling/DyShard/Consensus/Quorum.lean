import DyShard.Consensus.Mask
import DyShard.Consensus.VotePower
import DyShard.Lib.Loop
import DyShard.Lib.Weight

/-!
# Deciders: `quorum`

Before staking every key counts the same; with staking it counts with its voting power, and the
votes of a phase are added up in a tally.  Both policies keep the ballots by key (`CIdentities`).

Left out: the aggregation of signatures and the JSON forms.
-/

namespace DyShard.Consensus

open Numeric List Dec

variable {K P S : Type} [DecidableEq K]

/-! ## Phases and ballots -/

/-- `Phase`; the type is a byte, so there are unknown ones. -/
inductive Phase where
  | prepare
  | commit
  | viewChange
  | other (phase : ℕ)
  deriving DecidableEq, Repr

/-- `Ballot`; the signature is identified with its bytes. -/
structure Ballot (K S : Type) where
  signerPubKeys : List K
  blockHeaderHash : Word
  signature : S
  height : ℕ
  viewID : ℕ

/-- The `BallotBox` of a `Round`. -/
abbrev BallotBox (K S : Type) := AList fun _ : K => Ballot K S

/-- The errors of a vote. -/
inductive VoteError (K : Type) where
  | signerNotInCommittee (key : K)
  | multipleSignerAccounts (signer voter : Address)
  | duplicateKey (key : K)
  | alreadySubmitted (key : K)
  | phaseUnknown (phase : Phase)
  deriving DecidableEq

/-- `cIdentities`. -/
structure CIdentities (K P S : Type) where
  publicKeys : List (PublicKeyWrapper K P) := []
  prepare : BallotBox K S := ∅
  commit : BallotBox K S := ∅
  viewChange : BallotBox K S := ∅

namespace CIdentities

variable (c : CIdentities K P S)

/-- The ballot box of a phase; an unknown phase has an empty one. -/
def ballotBox : Phase → BallotBox K S
  | .prepare => c.prepare
  | .commit => c.commit
  | .viewChange => c.viewChange
  | .other _ => ∅

/-- Replace the ballot box of a phase. -/
def setBallotBox (box : BallotBox K S) : Phase → CIdentities K P S
  | .prepare => { c with prepare := box }
  | .commit => { c with commit := box }
  | .viewChange => { c with viewChange := box }
  | .other _ => c

/-- `UpdateParticipants`. -/
def updateParticipants (pubKeys : List (PublicKeyWrapper K P)) :
    CIdentities K P S := { c with publicKeys := pubKeys }

/-- `ParticipantsCount`. -/
def participantsCount : ℕ := c.publicKeys.length

/-- `TwoThirdsSignersCount`. -/
def twoThirdsSignersCount : ℕ := c.participantsCount * 2 / 3 + 1

/-- `ReadBallot`. -/
def readBallot (p : Phase) (pubkey : K) : Option (Ballot K S) :=
  (c.ballotBox p).lookup pubkey

/-- The first loop of `submitVote`: no key twice, none that has voted. -/
def checkKeys (c : CIdentities K P S) (p : Phase) :
    List K → List K → Except (VoteError K) Unit
  | _, [] => .ok ()
  | seen, key :: keys =>
    if key ∈ seen then .error (.duplicateKey key)
    else if (c.readBallot p key).isSome then .error (.alreadySubmitted key)
    else c.checkKeys p (key :: seen) keys

/-- The second loop of `submitVote`: a ballot for each key. -/
def recordBallots (p : Phase) (ballot : Ballot K S) (keys : List K) :
    Except (VoteError K) (CIdentities K P S) :=
  match p, keys with
  | .other n, _ :: _ => .error (.phaseUnknown (.other n))
  | p, keys => .ok (c.setBallotBox (keys.foldl (fun box key => box.insert key ballot)
      (c.ballotBox p)) p)

/-- `submitVote`. -/
def submitVote (p : Phase) (pubkeys : List K) (sig : S) (headerHash : Word) (height viewID : ℕ) :
    Except (VoteError K) (CIdentities K P S × Ballot K S) := do
  c.checkKeys p [] pubkeys
  let ballot : Ballot K S := ⟨pubkeys, headerHash, sig, height, viewID⟩
  let c ← c.recordBallots p ballot pubkeys
  return (c, ballot)

/-- `reset` of the ballot boxes of some phases. -/
def reset (ps : List Phase) : CIdentities K P S :=
  ps.foldl (fun c p => c.setBallotBox ∅ p) c

/-! ### What an accepted vote does -/

theorem checkKeys_iff {c : CIdentities K P S} {p : Phase} {seen keys : List K} :
    c.checkKeys p seen keys = .ok () ↔
      keys.Nodup ∧ (∀ k ∈ keys, k ∉ seen) ∧ ∀ k ∈ keys, k ∉ c.ballotBox p := by
  induction keys generalizing seen with
  | nil => simp [checkKeys]
  | cons key keys ih =>
    have hvoted : (c.readBallot p key).isSome = true ↔ key ∈ c.ballotBox p := AList.lookup_isSome
    unfold checkKeys
    split_ifs with hseen hbox
    · simp [hseen]
    · simp [hvoted.1 hbox]
    · simp only [ih, nodup_cons, mem_cons, not_or, forall_eq_or_imp, mt hvoted.2 hbox, hseen]
      grind

theorem keys_foldl_insert (ballot : Ballot K S) {keys : List K} (hnd : keys.Nodup)
    {box : BallotBox K S} (hnew : ∀ k ∈ keys, k ∉ box) :
    (keys.foldl (fun box key => box.insert key ballot) box).keys.Perm (keys ++ box.keys) := by
  induction keys generalizing box with
  | nil => exact .refl _
  | cons key keys ih =>
    obtain ⟨hkey, hnd⟩ := nodup_cons.1 hnd
    have hinsert : (box.insert key ballot).keys = key :: box.keys := by
      rw [AList.keys_insert, erase_of_not_mem]
      exact hnew key mem_cons_self
    refine (ih hnd fun k hk hmem => ?_).trans ?_
    · rcases (AList.mem_insert _).1 hmem with rfl | hmem
      · exact hkey hk
      · exact hnew k (mem_cons_of_mem _ hk) hmem
    · rw [hinsert, cons_append]
      exact perm_middle

omit [DecidableEq K] in
theorem ballotBox_setBallotBox (box : BallotBox K S) {p q : Phase} (h : q ≠ p) :
    (c.setBallotBox box p).ballotBox q = c.ballotBox q := by
  cases p <;> cases q <;> first | rfl | exact absurd rfl h

/-- **An accepted vote.**  Its keys had no ballot, now they have one, and nothing else
changed. -/
theorem submitVote_eq_ok {c c' : CIdentities K P S} {p : Phase} {pubkeys : List K} {sig : S}
    {headerHash : Word} {height viewID : ℕ} {ballot : Ballot K S}
    (h : c.submitVote p pubkeys sig headerHash height viewID = .ok (c', ballot)) :
    (pubkeys.Nodup ∧ ∀ k ∈ pubkeys, k ∉ c.ballotBox p) ∧
      (∀ q, q ≠ p → c'.ballotBox q = c.ballotBox q) ∧
      (c'.ballotBox p).keys.Perm (pubkeys ++ (c.ballotBox p).keys) := by
  unfold submitVote at h
  cases hcheck : c.checkKeys p [] pubkeys with
  | error e =>
    rw [hcheck] at h
    cases h
  | ok _ =>
    obtain ⟨hnd, -, hnew⟩ := checkKeys_iff.1 hcheck
    rw [hcheck] at h
    have hperm := keys_foldl_insert ⟨pubkeys, headerHash, sig, height, viewID⟩ hnd hnew
    cases p with
    | other n =>
      cases pubkeys with
      | nil =>
        cases h
        exact ⟨⟨hnd, hnew⟩, fun _ _ => rfl, .refl _⟩
      | cons key keys => cases h
    | prepare | commit | viewChange =>
      cases h
      exact ⟨⟨hnd, hnew⟩, fun q hq => ballotBox_setBallotBox _ _ hq, hperm⟩

/-! ### The next leader -/

/-- `IndexOf`. -/
def indexOf (pubKey : K) : ℤ := (keyIndex c.publicKeys pubKey).elim (-1) (↑·)

/-- How many keys are chosen from, after the sanity check. -/
def nodes (numNodes : ℤ) : ℤ :=
  if numNodes ≤ 0 ∨ numNodes > c.publicKeys.length then c.publicKeys.length else numNodes

/-- The key that index and step stand for; outside of the list is a panic. -/
def access (numNodes sum : ℤ) : Option (PublicKeyWrapper K P) :=
  let idx := sum.tmod (c.nodes numNodes)
  if idx < 0 then none else c.publicKeys[idx.toNat]?

/-- `NthNext` and `NthNextHmy` for a number of nodes; the sum is an `int`. -/
def nth (numNodes : ℤ) (pubKey : K) (next : ℤ) : Option (Bool × PublicKeyWrapper K P) :=
  (c.access numNodes ((c.indexOf pubKey + next).bmod (2 ^ 64))).map (c.indexOf pubKey != -1, ·)

/-- `NthNext`. -/
def nthNext (pubKey : K) (next : ℤ) : Option (Bool × PublicKeyWrapper K P) :=
  c.nth c.participantsCount pubKey next

/-- `NthNextHmy`; the number is the instance's `NumHarmonyOperatedNodesPerShard`. -/
def nthNextHmy (harmonyNodes : ℤ) (pubKey : K) (next : ℤ) : Option (Bool × PublicKeyWrapper K P) :=
  c.nth harmonyNodes pubKey next

theorem found_eq (pubKey : K) :
    (c.indexOf pubKey != -1) = decide (pubKey ∈ c.publicKeys.map (·.bytes)) := by
  simp only [← isSome_keyIndex, indexOf]
  cases keyIndex c.publicKeys pubKey <;> rfl

variable {c}

omit [DecidableEq K] in
/-- The access is to one of the first keys, unless the remainder is negative. -/
theorem access_eq (hne : c.publicKeys ≠ []) (numNodes sum : ℤ) :
    ∃ key ∈ c.publicKeys.take (c.nodes numNodes).toNat,
      c.publicKeys[(sum % c.nodes numNodes).toNat]? = some key ∧
      c.access numNodes sum = if 0 ≤ sum ∨ c.nodes numNodes ∣ sum then some key else none := by
  have hlen := length_pos_iff.2 hne
  have hnodes : 0 < c.nodes numNodes ∧ c.nodes numNodes ≤ c.publicKeys.length := by
    unfold nodes
    split_ifs <;> omega
  have hnonneg := Int.emod_nonneg sum hnodes.1.ne.symm
  have hlt := Int.emod_lt_of_pos sum hnodes.1
  have hkey := getElem?_eq_getElem (l := c.publicKeys) (i := (sum % c.nodes numNodes).toNat) (by omega)
  refine ⟨_, mem_of_getElem? ((getElem?_take_of_lt (by omega)).trans hkey), hkey, ?_⟩
  simp only [access, Int.tmod_eq_emod]
  by_cases h : 0 ≤ sum ∨ c.nodes numNodes ∣ sum
  · simp [h, hnonneg, hkey]
  · rw [if_neg h, if_neg h, if_pos (by omega)]

/-- **The rotation is cyclic** as long as the remainder is not negative. -/
theorem nthNext_iff (hne : c.publicKeys ≠ []) (pubKey : K) (next harmonyNodes : ℤ) :
    let i := c.indexOf pubKey + next
    let sum := i.bmod (2 ^ 64)
    let n : ℤ := c.publicKeys.length
    let m := c.nodes harmonyNodes
    let found := decide (pubKey ∈ c.publicKeys.map (·.bytes))
    ((∃ key, c.nthNext pubKey next = some (found, key) ∧
        (found → c.publicKeys[(i % n).toNat]? = some key)) ↔
      (0 ≤ sum ∨ n ∣ sum) ∧
        (found → c.publicKeys[(i % n).toNat]? = c.publicKeys[(sum % n).toNat]?)) ∧
    ((∃ key ∈ c.publicKeys.take m.toNat,
        c.nthNextHmy harmonyNodes pubKey next = some (found, key)) ↔ 0 ≤ sum ∨ m ∣ sum) := by
  intro i sum n m found
  have hnth (k : ℤ) : c.nth k pubKey next = (c.access k sum).map (found, ·) := by rw [nth, found_eq]
  rw [nthNext, nthNextHmy, hnth, hnth]
  constructor
  · obtain ⟨key, -, hkey, haccess⟩ := access_eq hne c.participantsCount sum
    rw [show c.nodes c.participantsCount = n by simp [nodes, participantsCount, n]] at hkey haccess
    rw [haccess]
    by_cases h : 0 ≤ sum ∨ n ∣ sum
    · simp [h, hkey]
    · simp [h]
  · obtain ⟨key, hmem, -, haccess⟩ := access_eq hne harmonyNodes sum
    rw [haccess]
    by_cases h : 0 ≤ sum ∨ m ∣ sum
    · simp [m, h, hmem]
    · simp [m, h]

/-- Three keys. -/
def threeKeys : CIdentities ℕ Unit Unit where publicKeys := [⟨0, ()⟩, ⟨1, ()⟩, ⟨2, ()⟩]

theorem nthNext_last : threeKeys.nthNext 2 1 = some (true, ⟨0, ()⟩) := by
  obtain ⟨key, hnext, hkey⟩ :=
    (nthNext_iff (c := threeKeys) nofun 2 1 0).1.2 ⟨.inl (by decide), fun _ => rfl⟩
  cases hkey rfl
  exact hnext

/-- **One step back from the first key is a panic**, and so is none from an unknown key. -/
theorem nthNext_panics : threeKeys.nthNext 0 (-1) = none ∧ threeKeys.nthNext 7 0 = none :=
  ⟨rfl, rfl⟩

end CIdentities

/-! ## The staked decider -/

/-- `twoThird`: two divided by three. -/
def twoThird : Dec := ⟨666666666666666667⟩

/-- `tallyAndQuorum`. -/
structure TallyAndQuorum where
  tally : Dec := .newDec 0
  quorumAchieved : Bool := false
  deriving DecidableEq

/-- `voteTally`. -/
structure VoteTally where
  prepare : TallyAndQuorum := {}
  commit : TallyAndQuorum := {}
  viewChange : TallyAndQuorum := {}

namespace VoteTally

/-- The tally of a phase; there is none for an unknown phase. -/
def get? (t : VoteTally) : Phase → Option TallyAndQuorum
  | .prepare => some t.prepare
  | .commit => some t.commit
  | .viewChange => some t.viewChange
  | .other _ => none

/-- Replace the tally of a phase. -/
def set (t : VoteTally) (q : TallyAndQuorum) : Phase → VoteTally
  | .prepare => { t with prepare := q }
  | .commit => { t with commit := q }
  | .viewChange => { t with viewChange := q }
  | .other _ => t

end VoteTally

/-- `stakedVoteWeight`. -/
structure StakedVoteWeight (K P S : Type) where
  identities : CIdentities K P S
  roster : Roster K
  voteTally : VoteTally

namespace StakedVoteWeight

/-- The first loop of `AddNewVote`: all keys but Harmony's belong to the account of the first. -/
def checkSigners (roster : Roster K) : Option Address → List K → Except (VoteError K) Unit
  | _, [] => .ok ()
  | signer, key :: keys =>
    match roster.voters key with
    | none => .error (.signerNotInCommittee key)
    | some voter =>
      match signer with
      | none => checkSigners roster (some voter.earningAccount) keys
      | some signerAddr =>
        if signerAddr ≠ voter.earningAccount ∧ voter.isHarmonyNode = false then
          .error (.multipleSignerAccounts signerAddr voter.earningAccount)
        else checkSigners roster signer keys

/-- The voting power of the keys of a vote; a key without a voter is a nil pointer. -/
def additionalVotePower (roster : Roster K) (pubKeys : List K) : Option Dec :=
  pubKeys.foldlM (fun sum key => do
    let voter ← roster.voters key
    sum.add voter.overallPercent) (newDec 0)

/-- Add to a tally; the flag stays set once it is. -/
def addPower (q : TallyAndQuorum) (additional : Dec) : Option TallyAndQuorum := do
  let tally ← q.tally.add additional
  return ⟨tally, q.quorumAchieved || tally.gt twoThird⟩

variable (v : StakedVoteWeight K P S)

/-- `AddNewVote`. -/
def addNewVote (p : Phase) (pubKeys : List K) (sig : S) (headerHash : Word) (height viewID : ℕ) :
    Outcome (VoteError K) (StakedVoteWeight K P S × Ballot K S) := do
  .ofExcept (checkSigners v.roster none pubKeys)
  let voted ← .ofExcept (v.identities.submitVote p pubKeys sig headerHash height viewID)
  let additional ← .ofOption (additionalVotePower v.roster pubKeys)
  let tallyQuorum ← .ofOption (v.voteTally.get? p)
  let tallyQuorum ← .ofOption (addPower tallyQuorum additional)
  return ({ v with identities := voted.1, voteTally := v.voteTally.set tallyQuorum p }, voted.2)

/-- `IsQuorumAchieved`. -/
def isQuorumAchieved (p : Phase) : Bool :=
  match v.voteTally.get? p with
  | some q => q.quorumAchieved
  | none => false

/-- `computeTotalPowerByMask`. -/
def computeTotalPowerByMask (mask : Mask K P) : Option Dec :=
  mask.publicsIndex.entries.foldlM (fun currentTotal entry =>
    match mask.indexEnabled entry.2 with
    | .ok true =>
      match v.roster.voters entry.1 with
      | some voter => currentTotal.add voter.overallPercent
      | none => some currentTotal
    | _ => some currentTotal) zeroDec

/-- `IsQuorumAchievedByMask`; a mask may be nil. -/
def isQuorumAchievedByMask : Option (Mask K P) → Option Bool
  | none => some false
  | some mask => (v.computeTotalPowerByMask mask).map (·.gt twoThird)

/-- `ResetPrepareAndCommitVotes`. -/
def resetPrepareAndCommitVotes : StakedVoteWeight K P S :=
  { v with
    identities := v.identities.reset [.prepare, .commit]
    voteTally := { v.voteTally with prepare := {}, commit := {} } }

/-- `ResetViewChangeVotes`. -/
def resetViewChangeVotes : StakedVoteWeight K P S :=
  { v with
    identities := v.identities.reset [.viewChange]
    voteTally := { v.voteTally with viewChange := {} } }

/-- `SetVoters`: the votes are dropped first, whatever `Compute` then says. -/
def setVoters (net : Network) (v : StakedVoteWeight K P S) (subCommittee : Committee K)
    (epoch : Option ℤ) : Option (StakedVoteWeight K P S × Except ComputeError (Dec × Dec)) :=
  let v := v.resetPrepareAndCommitVotes.resetViewChangeVotes
  match compute net subCommittee epoch with
  | .panic => none
  | .error e => some (v, .error e)
  | .ok roster => some ({ v with roster },
      .ok (roster.ourVotingPowerTotalPercentage, roster.theirVotingPowerTotalPercentage))

/-! ### What an accepted vote does -/

variable {v} {v' : StakedVoteWeight K P S} {p : Phase} {roster : Roster K} {a : Address}
  {keys : List K} {sig : S} {headerHash : Word} {height viewID : ℕ}

omit [DecidableEq K] in
theorem additionalVotePower_eq {d : Dec} (h : additionalVotePower roster keys = some d) :
    d.int = (keys.map (power roster.voters)).sum := by
  refine Loop.foldlM_done (P := fun done (sum : Dec) =>
    sum.int = (done.map (power roster.voters)).sum) (fun done key sum sum' hsum hstep => ?_) [] rfl h
  obtain ⟨voter, hvoter, hadd⟩ := Option.bind_eq_some_iff.1 hstep
  have hpower : power roster.voters key = voter.overallPercent.int := by simp [power, hvoter]
  rw [int_add hadd, hsum, map_append, sum_append, map_singleton, sum_singleton, hpower]

/-- **An accepted vote.**  The ballots of its phase grow by its keys, the tally by their
power. -/
structure Voted (v v' : StakedVoteWeight K P S) (p : Phase) (pubKeys : List K)
    (q q' : TallyAndQuorum) : Prop where
  roster : v'.roster = v.roster
  others : ∀ p', p' ≠ p → v'.identities.ballotBox p' = v.identities.ballotBox p'
  box : (v'.identities.ballotBox p).keys.Perm (pubKeys ++ (v.identities.ballotBox p).keys)
  before : v.voteTally.get? p = some q
  after : v'.voteTally = v.voteTally.set q' p
  tally : q'.tally.int = q.tally.int + (pubKeys.map (power v.roster.voters)).sum
  fits : q'.tally.int.natAbs < Dec.limit
  flag : q'.quorumAchieved = (q.quorumAchieved || q'.tally.gt twoThird)

theorem addNewVote_iff_checks {r : StakedVoteWeight K P S × Ballot K S} :
    v.addNewVote p keys sig headerHash height viewID = .ok r ↔
      checkSigners v.roster none keys = .ok () ∧
      ∃ voted, v.identities.submitVote p keys sig headerHash height viewID = .ok voted ∧
      ∃ d, additionalVotePower v.roster keys = some d ∧
      ∃ q, v.voteTally.get? p = some q ∧ ∃ q', addPower q d = some q' ∧
      ({ v with identities := voted.1, voteTally := v.voteTally.set q' p }, voted.2) = r := by
  simp only [addNewVote, Outcome.bind_eq_ok, Outcome.ofExcept_eq_ok, Outcome.ofOption_eq_ok,
    Unique.exists_iff, pure, Outcome.ok.injEq]

theorem addNewVote_eq_ok {ballot : Ballot K S}
    (h : v.addNewVote p keys sig headerHash height viewID = .ok (v', ballot)) :
    ∃ q q', Voted v v' p keys q q' := by
  obtain ⟨-, voted, hvote, additional, hadd, q, hq, q', hq', h⟩ := addNewVote_iff_checks.1 h
  cases h
  obtain ⟨-, hothers, hbox⟩ := CIdentities.submitVote_eq_ok hvote
  unfold addPower at hq'
  obtain ⟨tally, htally, hq'⟩ := Option.bind_eq_some_iff.1 hq'
  cases hq'
  obtain ⟨hfits, hint⟩ := Dec.checked_eq_some.1 htally
  refine ⟨q, _, rfl, hothers, hbox, hq, rfl, ?_, ?_, rfl⟩
  · rw [hint, additionalVotePower_eq hadd]
  · rw [hint]
    exact hfits

/-! ### Quorums by mask -/

/-- The powers that `computeTotalPowerByMask` adds up. -/
def countedPowers (roster : Roster K) (mask : Mask K P) (entry : Sigma fun _ : K => ℕ) :
    Option Dec :=
  if isSet mask.bitmap entry.2 then (roster.voters entry.1).map (·.overallPercent) else none

theorem computeTotalPowerByMask_eq (mask : Mask K P) :
    v.computeTotalPowerByMask mask =
      (mask.publicsIndex.entries.filterMap (countedPowers v.roster mask)).foldlM add
        zeroDec := by
  unfold computeTotalPowerByMask
  generalize zeroDec = acc
  induction mask.publicsIndex.entries generalizing acc with
  | nil => rfl
  | cons entry entries ih =>
    rw [foldlM_cons]
    by_cases hset : isSet mask.bitmap entry.2 = true
    · rw [Mask.indexEnabled_eq_true.2 hset]
      cases hvoter : v.roster.voters entry.1 with
      | none =>
        rw [filterMap_cons_none (by simp [countedPowers, hvoter])]
        exact ih acc
      | some voter =>
        rw [filterMap_cons_some (b := voter.overallPercent)
          (by simp [countedPowers, hset, hvoter]), foldlM_cons]
        exact bind_congr ih
    · rw [filterMap_cons_none (by simp [countedPowers, hset])]
      have hskip : mask.indexEnabled entry.2 ≠ .ok true := fun h =>
        hset (Mask.indexEnabled_eq_true.1 h)
      split
      · exact absurd ‹_› hskip
      · exact ih acc

theorem sum_countedPowers (roster : Roster K) (mask : Mask K P) :
    ((mask.publicsIndex.entries.filterMap (countedPowers roster mask)).map int).sum =
      Weight.weight (power roster.voters) mask.publicsIndex.keys mask.enabled := by
  have hcounted : ∀ entries : List (Sigma fun _ : K => ℕ),
      ((entries.filterMap (countedPowers roster mask)).map int).sum =
        (entries.map fun e => if isSet mask.bitmap e.2 then power roster.voters e.1 else 0).sum := by
    intro entries
    induction entries with
    | nil => rfl
    | cons e entries ih =>
      rw [map_cons, sum_cons, ← ih, filterMap_cons]
      by_cases hset : isSet mask.bitmap e.2 = true
      · cases hvoter : roster.voters e.1 <;> simp [countedPowers, power, hset, hvoter]
      · simp [countedPowers, hset]
  rw [hcounted, Weight.weight_eq_sum_ite, AList.keys, List.keys, map_map]
  congr 1
  apply map_congr_left
  intro e he
  rw [Function.comp_apply, Mask.enabled_of_mem_entries he]

/-- **Quorum by mask**: the enabled keys weigh more than two thirds. -/
theorem isQuorumAchievedByMask_eq_some {mask : Mask K P} {b : Bool}
    (h : v.isQuorumAchievedByMask (some mask) = some b) :
    b = decide (twoThird.int <
      Weight.weight (power v.roster.voters) mask.publicsIndex.keys mask.enabled) := by
  obtain ⟨d, hd, rfl⟩ := Option.map_eq_some_iff.1 h
  rw [computeTotalPowerByMask_eq] at hd
  rw [← sum_countedPowers, gt, foldlM_add hd, show zeroDec.int = 0 from rfl, zero_add]

/-- The powers under the mask, added up in the order of the index, overflow on the way. -/
def Overflows (v : StakedVoteWeight K P S) (mask : Mask K P) : Prop :=
  ∃ l, l <+: mask.publicsIndex.entries.filterMap (countedPowers v.roster mask) ∧
    Dec.limit ≤ (l.map int).sum.natAbs

theorem isQuorumAchievedByMask_eq_none {mask : Mask K P} :
    v.isQuorumAchievedByMask (some mask) = none ↔ v.Overflows mask := by
  have hsome : (∃ e, (mask.publicsIndex.entries.filterMap (countedPowers v.roster mask)).foldlM
      add zeroDec = some e) ↔ _ := exists_foldlM_add_iff limit_pos
  rw [← computeTotalPowerByMask_eq, show zeroDec.int = 0 from rfl] at hsome
  simp only [zero_add] at hsome
  rw [isQuorumAchievedByMask, Option.map_eq_none_iff, Option.eq_none_iff_forall_ne_some,
    ← not_exists, hsome, Overflows]
  push Not
  rfl

/-! ### Which votes are accepted -/

/-- The keys are voters', and those that are not Harmony's belong to the account. -/
def Agrees (roster : Roster K) (a : Address) (keys : List K) : Prop :=
  ∀ k ∈ keys, ∃ m, roster.voters k = some m ∧ (m.isHarmonyNode = false → m.earningAccount = a)

omit [DecidableEq K] in
theorem checkSigners_some :
    checkSigners roster (some a) keys = .ok () ↔ Agrees roster a keys := by
  induction keys with
  | nil => simp [checkSigners, Agrees]
  | cons k keys ih =>
    rw [Agrees, forall_mem_cons, ← Agrees, ← ih, checkSigners]
    cases roster.voters k with
    | none => simp
    | some m => grind

/-- The power of some keys. -/
def powerOf (roster : Roster K) (keys : List K) : ℤ := (keys.map (power roster.voters)).sum

omit [DecidableEq K] in
theorem exists_additionalVotePower (h : Agrees roster a keys) :
    (∃ d, additionalVotePower roster keys = some d) ↔
      ∀ l, l <+: keys → (powerOf roster l).natAbs < Dec.limit := by
  induction keys using reverseRecOn with
  | nil => simp [additionalVotePower, powerOf, limit_pos]
  | append_singleton keys k ih =>
    obtain ⟨hkeys, m, hm, -⟩ : Agrees roster a keys ∧ ∃ m, roster.voters k = some m ∧ _ := by
      simpa [Agrees, or_imp, forall_and] using h
    have hpower : power roster.voters k = m.overallPercent.int := by simp [power, hm]
    simp only [prefix_concat_iff, forall_eq_or_imp, ← ih hkeys]
    rw [additionalVotePower, foldlM_append, ← additionalVotePower]
    cases hd : additionalVotePower roster keys with
    | none => simp
    | some d =>
      have hsum := additionalVotePower_eq hd
      simp [hm, add, checked, powerOf, hpower, hsum]

/-- The sums of powers fit into a decimal. -/
def Fits (roster : Roster K) (q : TallyAndQuorum) (keys : List K) : Prop :=
  (∀ l, l <+: keys → (powerOf roster l).natAbs < Dec.limit) ∧
    (q.tally.int + powerOf roster keys).natAbs < Dec.limit

/-- Distinct keys of voters, none of which has voted, and one account for those not Harmony's. -/
structure Eligible (v : StakedVoteWeight K P S) (p : Phase) (keys : List K) : Prop where
  distinct : keys.Nodup
  fresh : ∀ k ∈ keys, k ∉ v.identities.ballotBox p
  account : ∃ a, Agrees v.roster a keys

omit [DecidableEq K] in
theorem checkSigners_none :
    checkSigners roster none keys = .ok () ↔ ∃ a, Agrees roster a keys ∧
      ∀ k ∈ keys.head?, ∀ m, roster.voters k = some m → m.earningAccount = a := by
  cases keys with
  | nil => simp [checkSigners, Agrees]
  | cons k keys =>
    have hcons : ∀ a, Agrees roster a (k :: keys) ↔ _ ∧ Agrees roster a keys :=
      fun _ => forall_mem_cons
    simp only [checkSigners, hcons, head?_cons, Option.mem_some_iff, forall_eq']
    cases roster.voters k with
    | none => simp
    | some m => simp [checkSigners_some]

omit [DecidableEq K] in
theorem fits_iff (h : Agrees roster a keys) {q : TallyAndQuorum} :
    Fits roster q keys ↔
      ∃ d q', additionalVotePower roster keys = some d ∧ addPower q d = some q' := by
  rw [Fits, ← exists_additionalVotePower h]
  cases hd : additionalVotePower roster keys with
  | none => simp
  | some d =>
    by_cases hlt : (q.tally.int + d.int).natAbs < Dec.limit <;>
      simp [addPower, Dec.add, Dec.checked, powerOf, ← additionalVotePower_eq hd, hlt]

theorem accepted_iff : (∃ r, v.addNewVote p keys sig headerHash height viewID = .ok r) ↔
    keys.Nodup ∧ (∀ k ∈ keys, k ∉ v.identities.ballotBox p) ∧
      (∃ a, Agrees v.roster a keys ∧
        ∀ k ∈ keys.head?, ∀ m, v.roster.voters k = some m → m.earningAccount = a) ∧
      ∃ q, v.voteTally.get? p = some q ∧ Fits v.roster q keys := by
  simp only [addNewVote_iff_checks, checkSigners_none]
  constructor
  · rintro ⟨-, ⟨a, ha, hfirst⟩, voted, hvote, d, hd, q, hq, q', hq', -⟩
    obtain ⟨⟨hnd, hfresh⟩, -⟩ := CIdentities.submitVote_eq_ok hvote
    exact ⟨hnd, hfresh, ⟨a, ha, hfirst⟩, q, hq, (fits_iff ha).2 ⟨d, q', hd, hq'⟩⟩
  · rintro ⟨hnd, hfresh, ⟨a, ha, hfirst⟩, q, hq, hfits⟩
    obtain ⟨d, q', hd, hq'⟩ := (fits_iff ha).1 hfits
    obtain ⟨voted, hvote⟩ :
        ∃ r, v.identities.submitVote p keys sig headerHash height viewID = .ok r := by
      rw [CIdentities.submitVote, CIdentities.checkKeys_iff.2 ⟨hnd, fun _ _ => not_mem_nil, hfresh⟩]
      cases p with
      | other n => cases hq
      | prepare | commit | viewChange => exact ⟨_, rfl⟩
    exact ⟨_, ⟨a, ha, hfirst⟩, voted, hvote, d, hd, q, hq, q', hq', rfl⟩

theorem tally_of_perm {keys' : List K} {r r' : StakedVoteWeight K P S × Ballot K S}
    (hperm : keys'.Perm keys) (h : v.addNewVote p keys sig headerHash height viewID = .ok r)
    (h' : v.addNewVote p keys' sig headerHash height viewID = .ok r') :
    r'.1.voteTally = r.1.voteTally := by
  obtain ⟨q, q₁, hvoted⟩ := addNewVote_eq_ok h
  obtain ⟨q', q₂, hvoted'⟩ := addNewVote_eq_ok h'
  cases hvoted.before.symm.trans hvoted'.before
  have htally : q₂.tally = q₁.tally := by
    refine congrArg Dec.mk ?_
    rw [hvoted'.tally, hvoted.tally, (hperm.map _).sum_eq]
  have hflag : q₂.quorumAchieved = q₁.quorumAchieved := by rw [hvoted'.flag, hvoted.flag, htally]
  rw [hvoted'.after, hvoted.after, show q₂ = q₁ from congrArg₂ TallyAndQuorum.mk htally hflag]

/-- **Whether a vote is accepted does not depend on the order of its keys** exactly if Harmony's too
are of the account of the others. -/
theorem addNewVote_iff (v : StakedVoteWeight K P S) (p : Phase) (keys : List K) (sig : S)
    (headerHash : Word) (height viewID : ℕ) :
    let vote := fun keys => v.addNewVote p keys sig headerHash height viewID
    (∀ keys', keys'.Perm keys → ((∃ r, vote keys' = .ok r) ↔ Eligible v p keys) ∧
      ∀ r r', vote keys = .ok r → vote keys' = .ok r' → r'.1.voteTally = r.1.voteTally) ↔
    (Eligible v p keys →
      (∀ k ∈ keys, ∀ m, v.roster.voters k = some m → Agrees v.roster m.earningAccount keys) ∧
      ∃ q, v.voteTally.get? p = some q ∧ ∀ keys', keys'.Perm keys → Fits v.roster q keys') := by
  intro vote
  constructor
  · intro h heligible
    have hall := fun keys' hperm => accepted_iff.1 ((h keys' hperm).1.2 heligible)
    obtain ⟨-, -, -, q, hq, -⟩ := hall keys (.refl _)
    refine ⟨fun k hk m hm => ?_, q, hq, fun keys' hperm => ?_⟩
    · -- the order in which the key is the first
      have hperm := (perm_cons_erase hk).symm
      obtain ⟨-, -, ⟨a, ha, hfirst⟩, -⟩ := hall _ hperm
      cases hfirst k rfl m hm
      exact fun k' hk' => ha k' (hperm.mem_iff.2 hk')
    · obtain ⟨-, -, -, q', hq', hfits⟩ := hall keys' hperm
      cases hq.symm.trans hq'
      exact hfits
  · refine fun h keys' hperm => ⟨⟨fun haccepted => ?_, fun heligible => ?_⟩,
      fun r r' => tally_of_perm hperm⟩
    · obtain ⟨hnd, hfresh, ⟨a, ha, -⟩, -⟩ := accepted_iff.1 haccepted
      exact ⟨hperm.nodup_iff.1 hnd, fun k hk => hfresh k (hperm.mem_iff.2 hk), a,
        fun k hk => ha k (hperm.mem_iff.2 hk)⟩
    · obtain ⟨hagree, q, hq, hfits⟩ := h heligible
      refine accepted_iff.2 ⟨hperm.nodup_iff.2 heligible.distinct,
        fun k hk => heligible.fresh k (hperm.mem_iff.1 hk), ?_, q, hq, hfits keys' hperm⟩
      cases keys' with
      | nil => exact ⟨0, nofun, nofun⟩
      | cons k rest =>
        obtain ⟨a, ha⟩ := heligible.account
        have hk := hperm.mem_iff.1 mem_cons_self
        obtain ⟨m, hm, -⟩ := ha k hk
        refine ⟨m.earningAccount, fun k' hk' => hagree k hk m hm k' (hperm.mem_iff.1 hk'), ?_⟩
        rintro _ ⟨⟩ m' hm'
        cases hm.symm.trans hm'
        rfl

/-- A network on which Harmony has sixty per cent. -/
def sixty : Network where
  instanceForEpoch _ := ⟨⟨600000000000000000⟩, by decide, by decide⟩
  testnet := false

/-- A Harmony node with key 1 and a validator with key 0, under different accounts. -/
def mixed : Committee ℕ := ⟨0, [⟨1, 1, none⟩, ⟨0, 0, some (.newDec 100)⟩]⟩

theorem addNewVote_order : ∃ (v : StakedVoteWeight ℕ Unit Unit) (result : Dec × Dec),
    setVoters sixty ⟨{}, newRoster 0, {}⟩ mixed (some 1) = some (v, .ok result) ∧
    Eligible v .commit [1, 0] ∧ (∃ r, v.addNewVote .commit [0, 1] () 0 0 0 = .ok r) ∧
    v.addNewVote .commit [1, 0] () 0 0 0 = .error (.multipleSignerAccounts 1 0) := by
  exact ⟨_, _, rfl, ⟨by decide, nofun, 0, checkSigners_some.1 rfl⟩, ⟨_, rfl⟩, rfl⟩

end StakedVoteWeight

end DyShard.Consensus
