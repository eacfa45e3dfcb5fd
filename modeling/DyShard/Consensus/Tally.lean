import DyShard.Consensus.Intersection
import DyShard.Lib.Transition

/-!
# The running tally of the staked decider

For each phase the decider keeps the ballots, the sum of their powers and a flag that no vote takes
back.  They agree as long as no power is negative.
-/

namespace DyShard.Consensus

open Numeric Weight Transition Option List

variable {K P S : Type} {net : Network}

/-! ## Histories of a decider -/

/-- What can be done with a decider. -/
inductive TallyOp (K S : Type) where
  | addNewVote (p : Phase) (pubKeys : List K) (sig : S) (headerHash : Word) (height viewID : ℕ)
  | resetPrepareAndCommitVotes
  | resetViewChangeVotes
  | setVoters (subCommittee : Committee K) (epoch : Option ℤ)

namespace StakedVoteWeight

/-- One operation; `none` is a panic, and a rejected vote changes nothing. -/
def step [DecidableEq K] (net : Network) (v : StakedVoteWeight K P S) :
    TallyOp K S → Option (StakedVoteWeight K P S)
  | .addNewVote p pubKeys sig headerHash height viewID =>
    match v.addNewVote p pubKeys sig headerHash height viewID with
    | .panic => none
    | .error _ => some v
    | .ok (v', _) => some v'
  | .resetPrepareAndCommitVotes => some v.resetPrepareAndCommitVotes
  | .resetViewChangeVotes => some v.resetViewChangeVotes
  | .setVoters subCommittee epoch => (v.setVoters net subCommittee epoch).map (·.1)

/-- `NewDecider` for the policy `SuperMajorityStake`. -/
def newDecider (shardID : ShardID) : StakedVoteWeight K P S := ⟨{}, newRoster shardID, {}⟩

/-- **The tally is faithful**: it is the power of the keys with a ballot, and the flag and the mask
of these keys say whether it exceeds the threshold. -/
structure TallyFaithful [DecidableEq K] (v : StakedVoteWeight K P S) : Prop where
  tally : ∀ p q, v.voteTally.get? p = some q →
    q.tally.int = ((v.identities.ballotBox p).keys.map (power v.roster.voters)).sum
  flag : ∀ p q, v.voteTally.get? p = some q → (q.quorumAchieved = true ↔ twoThird.int < q.tally.int)
  byMask : ∀ p (mask : Mask K P),
    (∀ k, mask.enabled k = true ↔ k ∈ (v.identities.ballotBox p).keys) →
    v.isQuorumAchievedByMask (some mask) = some (v.isQuorumAchieved p)

/-! ## What an operation does -/

variable (v : StakedVoteWeight K P S) {q : TallyAndQuorum}

/-- A phase without votes. -/
def Fresh (p : Phase) : Prop :=
  v.identities.ballotBox p = ∅ ∧ ∀ q, v.voteTally.get? p = some q → q = {}

/-- A phase that an operation left alone. -/
def Same (v' : StakedVoteWeight K P S) (p : Phase) : Prop :=
  v'.identities.ballotBox p = v.identities.ballotBox p ∧ v'.voteTally.get? p = v.voteTally.get? p

theorem fresh_resetPrepareAndCommitVotes (p : Phase) :
    Fresh v.resetPrepareAndCommitVotes p ∨ Same v v.resetPrepareAndCommitVotes p := by
  cases p with
  | prepare | commit => exact .inl ⟨rfl, fun q hq => (some.inj hq).symm⟩
  | viewChange | other => exact .inr ⟨rfl, rfl⟩

theorem fresh_resetViewChangeVotes (p : Phase) :
    Fresh v.resetViewChangeVotes p ∨ Same v v.resetViewChangeVotes p := by
  cases p with
  | viewChange => exact .inl ⟨rfl, fun q hq => (some.inj hq).symm⟩
  | prepare | commit | other => exact .inr ⟨rfl, rfl⟩

theorem fresh_reset (r : Roster K) (p : Phase) :
    Fresh { v.resetPrepareAndCommitVotes.resetViewChangeVotes with roster := r } p := by
  cases p with
  | prepare | commit | viewChange => exact ⟨rfl, fun q hq => (some.inj hq).symm⟩
  | other => exact ⟨rfl, nofun⟩

theorem fresh_newDecider (shardID : ShardID) (p : Phase) :
    Fresh (newDecider shardID : StakedVoteWeight K P S) p :=
  fresh_reset (v := newDecider shardID) _ p

section Run

variable [DecidableEq K]

variable {v v' : StakedVoteWeight K P S} {op : TallyOp K S} {p : Phase}

/-- **What an operation does**: a vote is added to one phase, or votes are dropped. -/
theorem step_cases (h : v.step net op = some v') :
    (∃ p pubKeys q q', Voted v v' p pubKeys q q') ∨
      (v'.roster = v.roster ∧ ∀ p, Fresh v' p ∨ Same v v' p) ∨
      ∃ c epoch, op = .setVoters c epoch ∧ compute net c epoch = .ok v'.roster ∧
        ∀ p, Fresh v' p := by
  cases op with
  | addNewVote p pubKeys sig headerHash height viewID =>
    unfold step at h
    dsimp only at h
    split at h
    · cases h
    · cases h
      exact .inr (.inl ⟨rfl, fun _ => .inr ⟨rfl, rfl⟩⟩)
    · cases h
      obtain ⟨q, q', hvoted⟩ := addNewVote_eq_ok ‹_›
      exact .inl ⟨p, pubKeys, q, q', hvoted⟩
  | resetPrepareAndCommitVotes =>
    cases h
    exact .inr (.inl ⟨rfl, v.fresh_resetPrepareAndCommitVotes⟩)
  | resetViewChangeVotes =>
    cases h
    exact .inr (.inl ⟨rfl, v.fresh_resetViewChangeVotes⟩)
  | setVoters c epoch =>
    obtain ⟨⟨v₁, result⟩, hset, rfl⟩ := map_eq_some_iff.1 h
    unfold setVoters at hset
    split at hset
    · cases hset
    · cases hset
      exact .inr (.inl ⟨rfl, fun p => .inl (v.fresh_reset v.roster p)⟩)
    · cases hset
      exact .inr (.inr ⟨c, epoch, rfl, ‹_›, fun p => v.fresh_reset _ p⟩)

theorem get?_set (t : VoteTally) (q : TallyAndQuorum) {q₀ : TallyAndQuorum} (h : t.get? p = some q₀)
    : (t.set q p).get? p = some q := by
  cases p <;> first | rfl | cases h

theorem get?_set_of_ne (t : VoteTally) (q : TallyAndQuorum) {p' : Phase} (h : p' ≠ p) :
    (t.set q p).get? p' = t.get? p' := by
  cases p <;> cases p' <;> first | rfl | exact absurd rfl h

/-! ## The tally is the sum -/

/-- The tally of a phase is the power of its ballots, and fits a `Dec`. -/
def Summed (v : StakedVoteWeight K P S) : Prop :=
  ∀ p q, v.voteTally.get? p = some q →
    q.tally.int = ((v.identities.ballotBox p).keys.map (power v.roster.voters)).sum ∧
      q.tally.int.natAbs < Dec.limit

omit [DecidableEq K] in
theorem Summed.of_fresh (h : Fresh v p) (hq : v.voteTally.get? p = some q) :
    q.tally.int = ((v.identities.ballotBox p).keys.map (power v.roster.voters)).sum ∧
      q.tally.int.natAbs < Dec.limit := by
  cases h.2 q hq
  rw [h.1]
  exact ⟨rfl, Dec.limit_pos⟩

theorem Summed.step (h : Summed v) (hstep : v.step net op = some v') : Summed v' := by
  intro p' q' hq'
  rcases step_cases hstep with ⟨p, keys, q, q₁, hvoted⟩ | ⟨hroster, hphases⟩ | ⟨_, _, _, _, hfresh⟩
  · rw [hvoted.after] at hq'
    rw [hvoted.roster]
    by_cases hp : p' = p
    · subst hp
      rw [get?_set _ _ hvoted.before] at hq'
      cases hq'
      refine ⟨?_, hvoted.fits⟩
      rw [hvoted.tally, (h p' q hvoted.before).1, (hvoted.box.map _).sum_eq, map_append, sum_append]
      ring
    · rw [get?_set_of_ne _ _ hp] at hq'
      rw [hvoted.others p' hp]
      exact h p' q' hq'
  · rcases hphases p' with hfresh | ⟨hbox, htally⟩
    · exact Summed.of_fresh hfresh hq'
    · rw [hbox, hroster]
      exact h p' q' (htally ▸ hq')
  · exact Summed.of_fresh (hfresh p') hq'

/-- **The tally is the sum of the powers in the ballot box**, over every run. -/
theorem Summed.reach {shardID : ShardID} {ok : StakedVoteWeight K P S → TallyOp K S → Prop}
    (h : Reach (StakedVoteWeight.step net) ok (newDecider shardID) v) : Summed v :=
  h.invariant (fun p _ hq => Summed.of_fresh (fresh_newDecider shardID p) hq)
    fun _ _ _ hs _ hstep => hs.step hstep

/-! ## The flag and the mask -/

/-- No voter has a negative power, and the flag says whether the tally exceeds the threshold. -/
structure Flagged (v : StakedVoteWeight K P S) : Prop where
  nonneg : ∀ k x, v.roster.voters k = some x → 0 ≤ x.overallPercent.int
  flag : ∀ p q, v.voteTally.get? p = some q → q.quorumAchieved = decide (twoThird.int < q.tally.int)

omit [DecidableEq K] in
theorem Flagged.of_fresh (h : Fresh v p) (hq : v.voteTally.get? p = some q) :
    q.quorumAchieved = decide (twoThird.int < q.tally.int) := by
  cases h.2 q hq
  decide

/-- Voters are only set from well-staked committees. -/
def SetsWellStaked (net : Network) (_ : StakedVoteWeight K P S) (op : TallyOp K S) : Prop :=
  ∀ c epoch, op = .setVoters c (some epoch) → WellStaked net c epoch

theorem Flagged.step (h : Flagged v) (hok : SetsWellStaked net v op)
    (hstep : v.step net op = some v') : Flagged v' := by
  rcases step_cases hstep with ⟨p, keys, q, q₁, hvoted⟩ | ⟨hroster, hphases⟩ |
    ⟨c, epoch, rfl, hcompute, hfresh⟩
  · refine ⟨hvoted.roster ▸ h.nonneg, fun p' q' hq' => ?_⟩
    rw [hvoted.after] at hq'
    by_cases hp : p' = p
    · subst hp
      rw [get?_set _ _ hvoted.before] at hq'
      cases hq'
      -- the tally only grows, so a flag that was set is still right
      have hgrow : 0 ≤ (keys.map (power v.roster.voters)).sum := by
        apply sum_nonneg
        intro i hi
        obtain ⟨k, -, rfl⟩ := mem_map.1 hi
        exact power_nonneg h.nonneg k
      have htally := hvoted.tally
      rw [hvoted.flag, h.flag p' q hvoted.before, Dec.gt, ← Bool.decide_or, decide_eq_decide]
      omega
    · rw [get?_set_of_ne _ _ hp] at hq'
      exact h.flag p' q' hq'
  · refine ⟨hroster ▸ h.nonneg, fun p' q' hq' => ?_⟩
    rcases hphases p' with hfresh | ⟨-, htally⟩
    · exact Flagged.of_fresh hfresh hq'
    · exact h.flag p' q' (htally ▸ hq')
  · refine ⟨fun k x hx => ?_, fun p' q' hq' => Flagged.of_fresh (hfresh p') hq'⟩
    obtain ⟨ep, -, -, rfl, -⟩ := exists_computed hcompute
    exact compute_nonneg (hok c ep rfl) hcompute hx

/-- The mask of the ballots weighs what the ballots weigh, and the sum does not overflow if
that does not. -/
theorem Flagged.byMask (h : Flagged v) {mask : Mask K P}
    (hmask : ∀ k, mask.enabled k = true ↔ k ∈ (v.identities.ballotBox p).keys)
    (hfits : (((v.identities.ballotBox p).keys.map (power v.roster.voters)).sum).natAbs < Dec.limit) :
    v.isQuorumAchievedByMask (some mask) = some (decide (twoThird.int <
      ((v.identities.ballotBox p).keys.map (power v.roster.voters)).sum)) := by
  have hweight : weight (power v.roster.voters) mask.publicsIndex.keys mask.enabled =
      ((v.identities.ballotBox p).keys.map (power v.roster.voters)).sum := by
    rw [← weight_true]
    apply weight_eq_of_mem_iff _ _ _ mask.publicsIndex.keys_nodup (AList.keys_nodup _)
    intro k
    rw [hmask k, and_iff_left rfl, and_iff_right_iff_imp]
    intro hk
    -- an enabled key is a key of the mask
    have henabled := (hmask k).2 hk
    rw [← AList.mem_keys, ← AList.lookup_isSome]
    unfold Mask.enabled at henabled
    split at henabled
    · rename_i hlookup
      rw [hlookup]
      rfl
    · cases henabled
  obtain ⟨d, hd⟩ : ∃ d, v.computeTotalPowerByMask mask = some d := by
    rw [computeTotalPowerByMask_eq]
    refine Dec.exists_foldlM_add (le_refl 0) (fun a ha => ?_) ?_
    · obtain ⟨entry, -, hcounted⟩ := mem_filterMap.1 ha
      unfold countedPowers at hcounted
      split_ifs at hcounted
      obtain ⟨x, hx, rfl⟩ := map_eq_some_iff.1 hcounted
      exact h.nonneg _ x hx
    · rw [sum_countedPowers, hweight, show Dec.zeroDec.int = 0 from rfl, zero_add]
      exact hfits
  have hquorum : v.isQuorumAchievedByMask (some mask) = some (d.gt twoThird) := by
    simp [isQuorumAchievedByMask, hd]
  rw [hquorum, isQuorumAchievedByMask_eq_some hquorum, hweight]

theorem tallyFaithful_of_reach {shardID : ShardID} {v : StakedVoteWeight K P S}
    (h : Reach (StakedVoteWeight.step net) (SetsWellStaked net) (newDecider shardID) v) :
    TallyFaithful v := by
  have hsummed := Summed.reach h
  have hnew : Flagged (newDecider shardID : StakedVoteWeight K P S) :=
    ⟨nofun, fun p _ hq => Flagged.of_fresh (fresh_newDecider shardID p) hq⟩
  have hflagged : Flagged v := h.invariant hnew fun _ _ _ hs hok hstep => hs.step hok hstep
  refine ⟨fun p q hq => (hsummed p q hq).1, fun p q hq => ?_, fun p mask hmask => ?_⟩
  · rw [hflagged.flag p q hq, decide_eq_true_iff]
  · cases hq : v.voteTally.get? p with
    | some q =>
      obtain ⟨htally, hfits⟩ := hsummed p q hq
      rw [htally] at hfits
      rw [hflagged.byMask hmask hfits]
      simp only [isQuorumAchieved, hq]
      rw [hflagged.flag p q hq, htally]
    | none =>
      -- an unknown phase has no ballots
      have hbox : v.identities.ballotBox p = ∅ := by
        cases p with
        | other => rfl
        | prepare | commit | viewChange => cases hq
      rw [hflagged.byMask hmask (by rw [hbox]; exact Dec.limit_pos), hbox]
      simp only [isQuorumAchieved, hq]
      exact congrArg some (by decide : decide (twoThird.int < 0) = false)

/-- Voters are only set from elected committees. -/
def SetsElected (net : Network) (_ : StakedVoteWeight K P S) (op : TallyOp K S) : Prop :=
  ∀ c epoch, op = .setVoters c (some epoch) → Elected net c epoch

/-- **The tally is faithful** in every run in which voters are only set from elected
committees. -/
theorem tallyFaithful_of_elected {shardID : ShardID} {v : StakedVoteWeight K P S}
    (h : Reach (StakedVoteWeight.step net) (SetsElected net) (newDecider shardID) v) :
    TallyFaithful v :=
  tallyFaithful_of_reach (h.mono fun _ _ hok c epoch hop => (hok c epoch hop).wellStaked)

end Run

/-! ## A negative vote -/

open Rounding (committee winners elected_winners)

/-- Voters are set, the first slots vote, and then slots 10 and 11. -/
def lateVote (c : Committee ℕ) (first : ℕ) : List (TallyOp ℕ Unit) :=
  [.setVoters c (some 1), .addNewVote .prepare (range first) () 0 0 0,
    .addNewVote .prepare [10] () 0 0 0, .addNewVote .prepare [11] () 0 0 0]

theorem exec_lateVote {c : Committee ℕ} {first : ℕ}
    (h : (exec (StakedVoteWeight.step sixty) (newDecider 0 : StakedVoteWeight ℕ ℤ Unit)
      (lateVote c first)).map (·.voteTally.prepare) = some q) :
    ∃ v : StakedVoteWeight ℕ ℤ Unit, exec (StakedVoteWeight.step sixty) (newDecider 0)
      (lateVote c first) = some v ∧ v.voteTally.get? .prepare = some q := by
  obtain ⟨v, hv, rfl⟩ := map_eq_some_iff.1 h
  exact ⟨v, hv, rfl⟩

/-- With a last stake of one unit the third vote takes the tally back below the threshold, and
the flag stays set. -/
theorem negative_vote_keeps_quorum : ∃ v : StakedVoteWeight ℕ ℤ Unit,
    Reach (StakedVoteWeight.step sixty) anyStep (newDecider 0) v ∧ ¬ TallyFaithful v := by
  obtain ⟨v, hv, hq⟩ : ∃ v : StakedVoteWeight ℕ ℤ Unit, exec (StakedVoteWeight.step sixty)
      (newDecider 0) (lateVote committee 5) = some v ∧
        v.voteTally.get? .prepare = some ⟨⟨666666666666666665⟩, true⟩ :=
    exec_lateVote (by decide +kernel)
  refine ⟨v, reach_of_exec hv, fun h => ?_⟩
  exact absurd ((h.flag _ _ hq).1 rfl) (by decide)

/-- In an elected committee such votes are faithful, and a quorum. -/
theorem tallyFaithful_lateVote : ∃ v : StakedVoteWeight ℕ ℤ Unit,
    exec (StakedVoteWeight.step sixty) (newDecider 0) (lateVote winners 6) = some v ∧
      v.isQuorumAchieved .prepare = true ∧ TallyFaithful v := by
  obtain ⟨v, hv, hq⟩ : ∃ v : StakedVoteWeight ℕ ℤ Unit, exec (StakedVoteWeight.step sixty)
      (newDecider 0) (lateVote winners 6) = some v ∧
        v.voteTally.get? .prepare = some ⟨⟨686666666666666668⟩, true⟩ :=
    exec_lateVote (by decide +kernel)
  have hreach : Reach (StakedVoteWeight.step sixty) (SetsElected sixty)
      (newDecider 0) v := by
    refine reach_of_exec_forall (fun op hop _ c epoch heq => ?_) hv
    subst heq
    simp only [lateVote, mem_cons, TallyOp.setVoters.injEq, reduceCtorEq, not_mem_nil,
      or_false, some.injEq] at hop
    obtain ⟨rfl, rfl⟩ := hop
    exact elected_winners
  exact ⟨v, hv, by simp only [isQuorumAchieved, hq], tallyFaithful_of_elected hreach⟩

end StakedVoteWeight

end DyShard.Consensus
