import DyShard.Common
import DyShard.Lib.Outcome
import DyShard.Numeric.Decimal

/-!
# Voting power: `votepower.Compute`

The Harmony slots share `HarmonyVotePercent` equally, the staked slots share `ExternalVotePercent`
by stake, and what rounding leaves over, or takes too much, goes to the last staked slot.

Left out: the JSON forms, `AggregateRosters` and the logging.
-/

namespace DyShard.Consensus

open Outcome (ofOption)

open Numeric Function List Outcome Dec Option

variable {K : Type} [DecidableEq K]

/-! ## Committees and the sharding configuration -/

/-- `shard.Slot`; the key is the serialised BLS key. -/
structure Slot (K : Type) where
  ecdsaAddress : Address
  blsPublicKey : K
  effectiveStake : Option Dec
deriving DecidableEq

/-- `shard.Committee`. -/
structure Committee (K : Type) where
  shardID : ShardID
  slots : List (Slot K)
deriving DecidableEq

namespace Committee

/-- The keys of a committee, slot by slot. -/
def keys (c : Committee K) : List K := c.slots.map (·.blsPublicKey)

/-- The effective stakes, in the order of the slots. -/
def stakes (c : Committee K) : List Dec := c.slots.filterMap (·.effectiveStake)

/-- The whole effective stake, in units. -/
def totalStake (c : Committee K) : ℤ := (c.stakes.map int).sum

end Committee

/-- `shardingconfig.Instance`; `NewInstance` refuses a percentage outside of zero and one. -/
structure Instance where
  harmonyVotePercent : Dec
  nonneg : 0 ≤ harmonyVotePercent.int
  le_one : harmonyVotePercent.int ≤ precisionReuse

/-- `ExternalVotePercent`: what is not Harmony's. -/
def Instance.externalVotePercent (i : Instance) : Dec :=
  ⟨precisionReuse - i.harmonyVotePercent.int⟩

/-- `shard.Schedule` and the network type of the node. -/
structure Network where
  instanceForEpoch : ℤ → Instance
  testnet : Bool

namespace Network

/-- The epochs of the testnet incident. -/
def incident (net : Network) (epoch : ℤ) : Bool :=
  net.testnet && decide (73305 ≤ epoch) && decide (epoch ≤ 73490)

/-- Harmony's percentage in an epoch. -/
def harmonyPercent (net : Network) (epoch : ℤ) : Dec :=
  if net.incident epoch then ⟨700000000000000000⟩
  else (net.instanceForEpoch epoch).harmonyVotePercent

/-- The percentage of the external validators in an epoch. -/
def externalPercent (net : Network) (epoch : ℤ) : Dec :=
  if net.incident epoch then ⟨400000000000000000⟩
  else (net.instanceForEpoch epoch).externalVotePercent

variable (net : Network) (epoch : ℤ)

theorem harmonyPercent_nonneg : 0 ≤ (net.harmonyPercent epoch).int := by
  unfold harmonyPercent
  split
  · decide
  · exact (net.instanceForEpoch epoch).nonneg

theorem externalPercent_nonneg : 0 ≤ (net.externalPercent epoch).int := by
  unfold externalPercent
  split
  · decide
  · exact sub_nonneg.2 (net.instanceForEpoch epoch).le_one

theorem externalPercent_le_one : (net.externalPercent epoch).int ≤ precisionReuse := by
  unfold externalPercent
  split
  · decide
  · exact sub_le_self _ (net.instanceForEpoch epoch).nonneg

theorem harmonyPercent_add_externalPercent (h : net.incident epoch = false) :
    (net.harmonyPercent epoch).int + (net.externalPercent epoch).int = precisionReuse := by
  simp [harmonyPercent, externalPercent, h, Instance.externalVotePercent]

end Network

/-! ## The roster -/

/-- `AccommodateHarmonyVote` with its `PureStakedVote`. -/
structure Vote (K : Type) where
  earningAccount : Address
  identity : K
  groupPercent : Dec
  effectiveStake : Dec
  rawStake : Dec
  isHarmonyNode : Bool
  overallPercent : Dec

/-- `Roster` with its `topLevelRegistry`; the voters are a map from keys. -/
structure Roster (K : Type) where
  voters : K → Option (Vote K)
  ourVotingPowerTotalPercentage : Dec
  theirVotingPowerTotalPercentage : Dec
  totalEffectiveStake : Dec
  hmySlotCount : ℕ
  shardID : ShardID

/-- `NewRoster`. -/
def newRoster (shardID : ShardID) : Roster K where
  voters _ := none
  ourVotingPowerTotalPercentage := .zeroDec
  theirVotingPowerTotalPercentage := .zeroDec
  totalEffectiveStake := .zeroDec
  hmySlotCount := 0
  shardID := shardID

/-- The units of power a map of voters gives a key; a key without a vote has none. -/
def power (voters : K → Option (Vote K)) (k : K) : ℤ :=
  ((voters k).map (·.overallPercent.int)).getD 0

/-! ## `Compute` -/

/-- The errors of `Compute`. -/
inductive ComputeError where
  | nilEpoch
  | votingPowerNotEqualOne
  deriving DecidableEq, Repr

/-- The first loop's body: sum the stakes and count the Harmony slots. -/
def countSlot (acc : Dec × ℕ) (slot : Slot K) : Outcome ComputeError (Dec × ℕ) :=
  match slot.effectiveStake with
  | some e => do
    let total ← ofOption (acc.1.add e)
    return (total, acc.2)
  | none => return (acc.1, acc.2 + 1)

/-- What the second loop divides by and multiplies with. -/
structure Terms where
  totalEffectiveStake : Dec
  asDecHMYSlotCount : Dec
  harmonyPercent : Dec
  externalPercent : Dec

/-- The vote of one slot. -/
def member (t : Terms) (slot : Slot K) : Option (Vote K) :=
  match slot.effectiveStake with
  | some e => do -- a real staker
    let effectiveStake ← zeroDec.add e
    let groupPercent ← e.quo t.totalEffectiveStake
    let overallPercent ← groupPercent.mul t.externalPercent
    return ⟨slot.ecdsaAddress, slot.blsPublicKey, groupPercent, effectiveStake, .zeroDec, false,
      overallPercent⟩
  | none => do -- our node
    let overallPercent ← t.harmonyPercent.quo t.asDecHMYSlotCount
    let groupPercent ← overallPercent.quo t.harmonyPercent
    return ⟨slot.ecdsaAddress, slot.blsPublicKey, groupPercent, .zeroDec, .zeroDec, true,
      overallPercent⟩

/-- The variables of the second loop.  Next to `lastStakedVoter` stands whether it is the pointer
that the map holds, which it is not for a duplicate key. -/
structure Progress (K : Type) where
  ourPercentage : Dec := .zeroDec
  theirPercentage : Dec := .zeroDec
  lastStakedVoter : Option (Vote K × Bool) := none
  voters : K → Option (Vote K) := fun _ => none

/-- Add a vote under its key, unless the key has one. -/
def addVoter (voters : K → Option (Vote K)) (m : Vote K) : K → Option (Vote K) :=
  if (voters m.identity).isNone then update voters m.identity (some m) else voters

/-- The second loop's body. -/
def Progress.turn (t : Terms) (s : Progress K) (slot : Slot K) :
    Outcome ComputeError (Progress K) := do
  let m ← ofOption (member t slot)
  if m.isHarmonyNode then
    let ourPercentage ← ofOption (s.ourPercentage.add m.overallPercent)
    return { s with ourPercentage, voters := addVoter s.voters m }
  else
    let theirPercentage ← ofOption (s.theirPercentage.add m.overallPercent)
    return { s with
      theirPercentage
      lastStakedVoter := some (m, (s.voters m.identity).isNone)
      voters := addVoter s.voters m }

/-- Give the difference from one to the last staked voter. -/
def Progress.correct (s : Progress K) (diff : Dec) : Outcome ComputeError (Progress K) :=
  match s.lastStakedVoter with
  | none => return s
  | some (m, held) =>
    if diff.isZero then return s
    else do
      let overallPercent ← ofOption (m.overallPercent.add diff)
      let theirPercentage ← ofOption (s.theirPercentage.add diff)
      let m' := { m with overallPercent }
      return { s with
        theirPercentage
        lastStakedVoter := some (m', held)
        voters := if held then update s.voters m.identity (some m') else s.voters }

/-- Enforce that voting power sums to one; a difference without a staked voter stays. -/
def Progress.enforceOne (s : Progress K) : Outcome ComputeError (Progress K) := do
  let sum ← ofOption (s.ourPercentage.add s.theirPercentage)
  let diff ← ofOption (oneDec.sub sum)
  let s ← s.correct diff
  if s.lastStakedVoter.isSome then
    let sum ← ofOption (s.ourPercentage.add s.theirPercentage)
    if sum.equal .oneDec then return s else .error .votingPowerNotEqualOne
  else return s

/-- The end of `Compute`: during the testnet incident nothing is enforced. -/
def Progress.close (incident : Bool) (s : Progress K) : Outcome ComputeError (Progress K) :=
  if incident then .ok s else s.enforceOne

/-- `votepower.Compute`. -/
def compute (net : Network) (subComm : Committee K) (epoch : Option ℤ) :
    Outcome ComputeError (Roster K) :=
  match epoch with
  | none => .error .nilEpoch
  | some epoch => do
    let counted ← subComm.slots.foldlM countSlot (zeroDec, 0)
    let t : Terms := ⟨counted.1, .newDec counted.2, net.harmonyPercent epoch,
      net.externalPercent epoch⟩
    let s ← subComm.slots.foldlM (Progress.turn t) {}
    let s ← s.close (net.incident epoch)
    return ⟨s.voters, s.ourPercentage, s.theirPercentage, counted.1, counted.2, subComm.shardID⟩

/-! ## What the steps do -/

/-- What is known of the vote of a slot. -/
structure MemberOf (t : Terms) (slot : Slot K) (m : Vote K) : Prop where
  identity : m.identity = slot.blsPublicKey
  harmony : slot.effectiveStake = none →
    m.isHarmonyNode = true ∧ t.harmonyPercent.quo t.asDecHMYSlotCount = some m.overallPercent
  staked : ∀ e, slot.effectiveStake = some e →
    m.isHarmonyNode = false ∧ ∃ share, e.quo t.totalEffectiveStake = some share ∧
      share.mul t.externalPercent = some m.overallPercent

variable {t : Terms} {slot : Slot K} {m : Vote K} {s s' : Progress K} {e : Dec} {net : Network}
  {c : Committee K} {r : Roster K} {k : K} {voters : K → Option (Vote K)}
  {done slots : List (Slot K)} {count : ℕ} {stakes : List Dec}

omit [DecidableEq K] in
theorem memberOf (h : member t slot = some m) : MemberOf t slot m := by
  unfold member at h
  cases hs : slot.effectiveStake with
  | none =>
    simp only [hs, bind_eq_bind, bind_eq_some_iff] at h
    obtain ⟨overall, ho, group, -, hm⟩ := h
    cases hm
    refine ⟨rfl, fun _ => ⟨rfl, ho⟩, fun e he => ?_⟩
    rw [hs] at he
    cases he
  | some e =>
    simp only [hs, bind_eq_bind, bind_eq_some_iff] at h
    obtain ⟨effective, -, group, hg, overall, ho, hm⟩ := h
    cases hm
    refine ⟨rfl, fun he => ?_, fun e' he => ⟨rfl, group, ?_, ho⟩⟩
    · rw [hs] at he
      cases he
    · rw [hs] at he
      cases he
      exact hg

theorem Progress.turn_harmony (hslot : slot.effectiveStake = none) (h : s.turn t slot = .ok s') :
    ∃ m, MemberOf t slot m ∧ s'.ourPercentage.int = s.ourPercentage.int + m.overallPercent.int ∧
      s'.theirPercentage = s.theirPercentage ∧ s'.lastStakedVoter = s.lastStakedVoter ∧
      s'.voters = addVoter s.voters m := by
  unfold Progress.turn at h
  obtain ⟨m, hm, h⟩ := bind_eq_ok.1 h
  have hof := memberOf (ofOption_eq_ok.1 hm)
  rw [if_pos (hof.harmony hslot).1] at h
  obtain ⟨our, hour, h⟩ := bind_eq_ok.1 h
  cases h
  exact ⟨m, hof, int_add (ofOption_eq_ok.1 hour), rfl, rfl, rfl⟩

theorem Progress.turn_staked (hslot : slot.effectiveStake = some e) (h : s.turn t slot = .ok s') :
    ∃ m, MemberOf t slot m ∧ s'.ourPercentage = s.ourPercentage ∧
      s'.theirPercentage.int = s.theirPercentage.int + m.overallPercent.int ∧
      s'.lastStakedVoter = some (m, (s.voters m.identity).isNone) ∧
      s'.voters = addVoter s.voters m := by
  unfold Progress.turn at h
  obtain ⟨m, hm, h⟩ := bind_eq_ok.1 h
  have hof := memberOf (ofOption_eq_ok.1 hm)
  rw [if_neg (by simp [(hof.staked e hslot).1])] at h
  obtain ⟨their, htheir, h⟩ := bind_eq_ok.1 h
  cases h
  exact ⟨m, hof, rfl, int_add (ofOption_eq_ok.1 htheir), rfl, rfl⟩

/-- What the correction does: nothing, or the last staked voter takes the difference from
one. -/
theorem Progress.enforceOne_cases (h : s.enforceOne = .ok s') :
    (s' = s ∧ (s.lastStakedVoter = none ∨
        s.ourPercentage.int + s.theirPercentage.int = precisionReuse)) ∨
      ∃ m held overall, s.lastStakedVoter = some (m, held) ∧
        overall.int = m.overallPercent.int +
          (precisionReuse - (s.ourPercentage.int + s.theirPercentage.int)) ∧
        s'.voters = if held then
            update s.voters m.identity (some { m with overallPercent := overall })
          else s.voters := by
  unfold Progress.enforceOne at h
  obtain ⟨sum, hsum, h⟩ := bind_eq_ok.1 h
  obtain ⟨diff, hdiff, h⟩ := bind_eq_ok.1 h
  obtain ⟨s₁, hs₁, h⟩ := bind_eq_ok.1 h
  have hdiff : diff.int = precisionReuse - (s.ourPercentage.int + s.theirPercentage.int) := by
    rw [int_sub (ofOption_eq_ok.1 hdiff), int_add (ofOption_eq_ok.1 hsum)]
    rfl
  -- the check after the correction returns what it was given
  have hs' : s' = s₁ := by
    split_ifs at h with hlast
    · obtain ⟨sum', -, h⟩ := bind_eq_ok.1 h
      split_ifs at h
      exact (ok.inj h).symm
    · exact (ok.inj h).symm
  subst hs'
  unfold Progress.correct at hs₁
  cases hlast : s.lastStakedVoter with
  | none =>
    rw [hlast] at hs₁
    exact .inl ⟨(ok.inj hs₁).symm, .inl rfl⟩
  | some last =>
    obtain ⟨m, held⟩ := last
    rw [hlast] at hs₁
    dsimp only at hs₁
    by_cases hzero : diff.isZero = true
    · have hz : diff.int = 0 := of_decide_eq_true hzero
      rw [if_pos hzero] at hs₁
      exact .inl ⟨(ok.inj hs₁).symm, .inr (by omega)⟩
    · rw [if_neg hzero] at hs₁
      obtain ⟨overall, ho, hs₁⟩ := bind_eq_ok.1 hs₁
      obtain ⟨their, -, hs₁⟩ := bind_eq_ok.1 hs₁
      cases hs₁
      refine .inr ⟨m, held, overall, rfl, ?_, rfl⟩
      rw [int_add (ofOption_eq_ok.1 ho), hdiff]

/-- A successful `Compute`, taken apart. -/
structure Computed (net : Network) (c : Committee K) (epoch : ℤ) (r : Roster K) (t : Terms)
    (s : Progress K) : Prop where
  terms : ∃ count : ℕ, c.slots.foldlM countSlot (zeroDec, 0) =
      .ok (t.totalEffectiveStake, count) ∧ t.asDecHMYSlotCount = .newDec count
  harmony : t.harmonyPercent = net.harmonyPercent epoch
  external : t.externalPercent = net.externalPercent epoch
  loop : c.slots.foldlM (Progress.turn t) {} = .ok s
  incident : net.incident epoch = true → r.voters = s.voters
  usual : net.incident epoch = false → ∃ s', s.enforceOne = .ok s' ∧ r.voters = s'.voters

theorem exists_computed {epoch : Option ℤ} (h : compute net c epoch = .ok r) :
    ∃ ep t s, epoch = some ep ∧ Computed net c ep r t s := by
  cases epoch with
  | none => cases h
  | some ep =>
    obtain ⟨⟨total, count⟩, hcount, h⟩ := bind_eq_ok.1 h
    obtain ⟨s, hs, h⟩ := bind_eq_ok.1 h
    obtain ⟨s', hs', h⟩ := bind_eq_ok.1 h
    cases h
    refine ⟨ep, _, s, rfl, ⟨count, hcount, rfl⟩, rfl, rfl, hs, fun hinc => ?_, fun hinc => ?_⟩
    · rw [Progress.close, if_pos hinc] at hs'
      cases hs'
      rfl
    · rw [Progress.close, if_neg (by simp [hinc])] at hs'
      exact ⟨s', hs', rfl⟩

/-! ## The powers add up to one -/

theorem power_update (voters : K → Option (Vote K)) (k : K) (v : Vote K) :
    power (update voters k (some v)) = update (power voters) k v.overallPercent.int :=
  funext (apply_update (fun _ o => (o.map (·.overallPercent.int)).getD 0) voters k (some v))

theorem sum_power_update {ks : List K} (hnd : ks.Nodup) (hk : k ∈ ks) (v : Vote K) :
    (ks.map (power (update voters k (some v)))).sum =
      (ks.map (power voters)).sum + (v.overallPercent.int - power voters k) := by
  have hlt : ks.idxOf k < (ks.map (power voters)).length := by
    simpa using idxOf_lt_length_of_mem hk
  rw [power_update, hnd.map_update, if_pos hk, sum_set', dif_pos hlt, getElem_map, getElem_idxOf]
  ring

/-- What the second loop knows after the slots `done`, if their keys are distinct. -/
structure Sums (done : List (Slot K)) (s : Progress K) : Prop where
  known : ∀ k, k ∉ done.map (·.blsPublicKey) → s.voters k = none
  total : ((done.map (·.blsPublicKey)).map (power s.voters)).sum =
    s.ourPercentage.int + s.theirPercentage.int
  last : ∀ m held, s.lastStakedVoter = some (m, held) → held = true ∧ s.voters m.identity = some m
  staked : (done.filterMap (·.effectiveStake)) ≠ [] → s.lastStakedVoter ≠ none

omit [DecidableEq K] in
theorem Sums.init : Sums [] ({} : Progress K) :=
  ⟨fun _ _ => rfl, rfl, nofun, fun h => absurd rfl h⟩

theorem Sums.addVoter (h : Sums done s) (hnew : slot.blsPublicKey ∉ done.map (·.blsPublicKey))
    (hm : MemberOf t slot m) :
    addVoter s.voters m = update s.voters slot.blsPublicKey (some m) ∧
      (((done ++ [slot]).map (·.blsPublicKey)).map (power (addVoter s.voters m))).sum =
        s.ourPercentage.int + s.theirPercentage.int + m.overallPercent.int := by
  have hnone := h.known _ hnew
  have hadd : Consensus.addVoter s.voters m = update s.voters slot.blsPublicKey (some m) := by
    simp [Consensus.addVoter, hm.identity, hnone]
  refine ⟨hadd, ?_⟩
  rw [hadd, map_append, map_append, sum_append,
    power_update, map_congr_left fun k hk => update_of_ne (ne_of_mem_of_not_mem hk hnew) _ _, h.total]
  simp

theorem Sums.turn (h : Sums done s) (hnew : slot.blsPublicKey ∉ done.map (·.blsPublicKey))
    (hturn : s.turn t slot = .ok s') : Sums (done ++ [slot]) s' := by
  -- what both kinds of slot do alike
  have hknown : ∀ m k, MemberOf t slot m → k ∉ (done ++ [slot]).map (·.blsPublicKey) →
      Consensus.addVoter s.voters m k = none := by
    intro m k hm hk
    rw [map_append, mem_append, not_or] at hk
    rw [(h.addVoter hnew hm).1, update_of_ne (fun heq => hk.2 (by simp [heq]))]
    exact h.known k hk.1
  cases hslot : slot.effectiveStake with
  | none =>
    obtain ⟨m, hm, hour, htheir, hlast, hvoters⟩ := Progress.turn_harmony hslot hturn
    obtain ⟨hadd, hsum⟩ := h.addVoter hnew hm
    refine ⟨fun k hk => hvoters ▸ hknown m k hm hk, ?_, fun m' held hl => ?_, fun hne => ?_⟩
    · rw [hvoters, hsum, hour, htheir]
      ring
    · rw [hlast] at hl
      obtain ⟨hheld, hm'⟩ := h.last m' held hl
      refine ⟨hheld, ?_⟩
      rw [hvoters, hadd, update_of_ne, hm']
      intro heq
      rw [heq, h.known _ hnew] at hm'
      cases hm'
    · rw [hlast]
      apply h.staked
      simpa [filterMap_append, hslot] using hne
  | some e =>
    obtain ⟨m, hm, hour, htheir, hlast, hvoters⟩ := Progress.turn_staked hslot hturn
    obtain ⟨hadd, hsum⟩ := h.addVoter hnew hm
    refine ⟨fun k hk => hvoters ▸ hknown m k hm hk, ?_, fun m' held hl => ?_, fun _ => ?_⟩
    · rw [hvoters, hsum, hour, htheir]
      ring
    · rw [hlast, some.injEq, Prod.mk.injEq] at hl
      obtain ⟨rfl, rfl⟩ := hl
      refine ⟨?_, ?_⟩
      · rw [hm.identity, h.known _ hnew]
        rfl
      · rw [hvoters, hadd, hm.identity, update_self]
    · rw [hlast]
      nofun

theorem Sums.loop (hnd : (slots.map (·.blsPublicKey)).Nodup)
    (h : slots.foldlM (Progress.turn t) {} = .ok s) : Sums slots s := by
  have hrun := foldlM_done
    (P := fun done s => (done.map (·.blsPublicKey)).Nodup → Sums done s)
    (fun done slot s s' ih hturn hnd => by
      rw [map_append, nodup_append] at hnd
      exact (ih hnd.1).turn (fun hmem => hnd.2.2 _ hmem _ (by simp) rfl) hturn)
    [] (fun _ => Sums.init) h
  exact hrun hnd

/-- **Voting power sums to one**, outside the testnet incident. -/
theorem sum_power_compute {epoch : ℤ} (hinc : net.incident epoch = false) (hnd : c.keys.Nodup)
    (hst : c.stakes ≠ []) (h : compute net c (some epoch) = .ok r) :
    (c.keys.map (power r.voters)).sum = precisionReuse := by
  obtain ⟨ep, t, s, hep, hc⟩ := exists_computed h
  cases hep
  obtain ⟨s', hs', hr⟩ := hc.usual hinc
  have hsums := Sums.loop hnd hc.loop
  have htotal : (c.keys.map (power s.voters)).sum =
      s.ourPercentage.int + s.theirPercentage.int := hsums.total
  rw [hr]
  rcases Progress.enforceOne_cases hs' with ⟨rfl, hnone | hone⟩ | ⟨m, held, o, hlast, ho, hv⟩
  · exact absurd hnone (hsums.staked hst)
  · rw [htotal, hone]
  · obtain ⟨rfl, hm⟩ := hsums.last m held hlast
    have hmem : m.identity ∈ c.keys := by
      by_contra hno
      rw [hsums.known _ hno] at hm
      cases hm
    have hpower : power s.voters m.identity = m.overallPercent.int := by simp [power, hm]
    rw [hv, if_pos rfl, sum_power_update hnd hmem, htotal, hpower]
    dsimp only
    omega

/-! ## No power is negative -/

/-- The exact part of the last staked slot is worth a unit for every other slot, so that the
correction cannot take it below zero. -/
structure WellStaked (net : Network) (c : Committee K) (epoch : ℤ) : Prop where
  stakes : ∀ e ∈ c.stakes, 0 ≤ e.int
  last : net.incident epoch = false → ∀ e, c.stakes.getLast? = some e →
    ((c.slots.length : ℤ) - 1) * c.totalStake ≤ e.int * (net.externalPercent epoch).int

omit [DecidableEq K] in
theorem foldlM_countSlot {total : Dec}
    (h : slots.foldlM countSlot (zeroDec, 0) = .ok (total, count)) :
    total.int = ((slots.filterMap (·.effectiveStake)).map int).sum ∧
      count + (slots.filterMap (·.effectiveStake)).length = slots.length := by
  refine foldlM_done (P := fun done (acc : Dec × ℕ) =>
    acc.1.int = ((done.filterMap (·.effectiveStake)).map int).sum ∧
      acc.2 + (done.filterMap (·.effectiveStake)).length = done.length) ?_ [] ⟨rfl, rfl⟩ h
  rintro done slot acc acc' ⟨hsum, hlen⟩ hstep
  unfold countSlot at hstep
  cases hslot : slot.effectiveStake with
  | none =>
    rw [hslot] at hstep
    cases hstep
    simp only [filterMap_append, filterMap_cons, hslot, filterMap_nil,
      append_nil, length_append, length_singleton]
    exact ⟨hsum, by omega⟩
  | some e =>
    rw [hslot] at hstep
    obtain ⟨total, htotal, hstep⟩ := bind_eq_ok.1 hstep
    cases hstep
    simp only [filterMap_append, filterMap_cons, hslot, filterMap_nil,
      map_append, sum_append, map_cons, map_nil, sum_singleton,
      length_append, length_singleton]
    exact ⟨by rw [int_add (ofOption_eq_ok.1 htotal), hsum], by omega⟩

/-- The terms of a committee without negative stakes, with `count` Harmony slots. -/
structure Terms.Sound (t : Terms) (count : ℕ) : Prop where
  total : 0 ≤ t.totalEffectiveStake.int
  slots : t.asDecHMYSlotCount = .newDec count
  harmony : 0 ≤ t.harmonyPercent.int
  external : 0 ≤ t.externalPercent.int
  le_one : t.externalPercent.int ≤ precisionReuse

omit [DecidableEq K] in
theorem MemberOf.harmony_bound (ht : t.Sound count) (hm : MemberOf t slot m)
    (hslot : slot.effectiveStake = none) :
    0 ≤ m.overallPercent.int ∧ m.overallPercent.int * count ≤ t.harmonyPercent.int + count := by
  obtain ⟨-, hquo⟩ := hm.harmony hslot
  have hP := precisionReuse_pos
  have hcount : t.asDecHMYSlotCount.int = count * precisionReuse := by rw [ht.slots]; rfl
  have hpos : 0 < t.asDecHMYSlotCount.int := by
    have hne := (int_quo hquo).1
    have hnn : 0 ≤ (count : ℤ) * precisionReuse := Int.mul_nonneg (by omega) hP.le
    omega
  refine ⟨quo_nonneg ht.harmony hpos.le hquo, ?_⟩
  have hle := quo_le ht.harmony hpos hquo
  rw [hcount] at hle
  have hscaled : 2 * precisionReuse * (m.overallPercent.int * count) ≤
      2 * precisionReuse * (t.harmonyPercent.int + count) := by
    nlinarith [Int.mul_nonneg (Int.natCast_nonneg count) hP.le]
  exact le_of_mul_le_mul_left hscaled (by omega)

omit [DecidableEq K] in
theorem MemberOf.staked_bound (ht : t.Sound count) (hm : MemberOf t slot m)
    (hslot : slot.effectiveStake = some e) (he : 0 ≤ e.int) :
    0 < t.totalEffectiveStake.int ∧ 0 ≤ m.overallPercent.int ∧
      m.overallPercent.int * t.totalEffectiveStake.int ≤
        e.int * t.externalPercent.int + t.totalEffectiveStake.int := by
  obtain ⟨-, share, hquo, hmul⟩ := hm.staked e hslot
  have hpos : 0 < t.totalEffectiveStake.int := by
    have hne := (int_quo hquo).1
    have hnn := ht.total
    omega
  exact ⟨hpos, mul_nonneg (quo_nonneg he hpos.le hquo) ht.external hmul,
    mul_quo_le he hpos ht.external ht.le_one hquo hmul⟩

/-- What the second loop has given out: at most a unit too much for each slot but the last staked.
-/
structure Bounds (t : Terms) (count : ℕ) (done : List (Slot K)) (stakes : List Dec)
    (s : Progress K) : Prop where
  nonneg : ∀ k v, s.voters k = some v → 0 ≤ v.overallPercent.int
  unpaid : done.length = stakes.length → s.ourPercentage.int ≤ 0
  ours : s.ourPercentage.int * count ≤
    ((done.length : ℤ) - stakes.length) * (t.harmonyPercent.int + count)
  theirs : s.theirPercentage.int * t.totalEffectiveStake.int ≤
    (stakes.map int).sum * t.externalPercent.int + stakes.length * t.totalEffectiveStake.int
  last : ∀ m held, s.lastStakedVoter = some (m, held) → 0 < t.totalEffectiveStake.int ∧
    ∃ e, stakes.getLast? = some e ∧
      (s.theirPercentage.int - m.overallPercent.int) * t.totalEffectiveStake.int ≤
        ((stakes.map int).sum - e.int) * t.externalPercent.int +
          ((stakes.length : ℤ) - 1) * t.totalEffectiveStake.int

theorem addVoter_nonneg (h : ∀ k v, voters k = some v → 0 ≤ v.overallPercent.int)
    (hm : 0 ≤ m.overallPercent.int) :
    ∀ k v, addVoter voters m k = some v → 0 ≤ v.overallPercent.int := by
  intro k v hv
  unfold addVoter at hv
  split_ifs at hv
  · by_cases hk : k = m.identity
    · subst hk
      rw [update_self] at hv
      cases hv
      exact hm
    · rw [update_of_ne hk] at hv
      exact h k v hv
  · exact h k v hv

theorem Bounds.turn_harmony (ht : t.Sound count) (h : Bounds t count done stakes s)
    (hle : stakes.length ≤ done.length) (hslot : slot.effectiveStake = none)
    (hturn : s.turn t slot = .ok s') : Bounds t count (done ++ [slot]) stakes s' := by
  obtain ⟨m, hm, hour, htheir, hlast, hvoters⟩ := Progress.turn_harmony hslot hturn
  obtain ⟨hnn, hbound⟩ := hm.harmony_bound ht hslot
  have hlen : (done ++ [slot]).length = done.length + 1 := by simp
  constructor
  · rw [hvoters]
    exact addVoter_nonneg h.nonneg hnn
  · intro heq
    omega
  · rw [hour, hlen]
    push_cast
    linarith [h.ours]
  · rw [htheir]
    exact h.theirs
  · intro m' held hl
    rw [hlast] at hl
    rw [htheir]
    exact h.last m' held hl

theorem Bounds.turn_staked (ht : t.Sound count) (h : Bounds t count done stakes s)
    (hslot : slot.effectiveStake = some e) (he : 0 ≤ e.int) (hturn : s.turn t slot = .ok s') :
    Bounds t count (done ++ [slot]) (stakes ++ [e]) s' := by
  obtain ⟨m, hm, hour, htheir, hlast, hvoters⟩ := Progress.turn_staked hslot hturn
  obtain ⟨hpos, hnn, hbound⟩ := hm.staked_bound ht hslot he
  have hlen : (done ++ [slot]).length = done.length + 1 := by simp
  have hlen' : (stakes ++ [e]).length = stakes.length + 1 := by simp
  have hsum : ((stakes ++ [e]).map int).sum = (stakes.map int).sum + e.int := by simp
  constructor
  · rw [hvoters]
    exact addVoter_nonneg h.nonneg hnn
  · intro heq
    rw [hour]
    exact h.unpaid (by omega)
  · rw [hour, hlen, hlen']
    push_cast
    linarith [h.ours]
  · rw [htheir, hlen', hsum]
    push_cast
    linarith [h.theirs]
  · intro m' held hl
    rw [hlast, some.injEq, Prod.mk.injEq] at hl
    obtain ⟨rfl, -⟩ := hl
    -- without the new vote it is what was given out before
    refine ⟨hpos, e, by simp, ?_⟩
    rw [htheir, hlen', hsum]
    push_cast
    linarith [h.theirs]

theorem Bounds.loop (ht : t.Sound count) (hst : ∀ e ∈ slots.filterMap (·.effectiveStake), 0 ≤ e.int)
    (h : slots.foldlM (Progress.turn t) {} = .ok s) :
    Bounds t count slots (slots.filterMap (·.effectiveStake)) s := by
  have hinit : Bounds t count ([] : List (Slot K)) [] {} :=
    ⟨nofun, fun _ => le_refl 0, by simp [zeroDec], by simp [zeroDec], nofun⟩
  refine foldlM_done (P := fun done s =>
    (∀ e ∈ done.filterMap (·.effectiveStake), 0 ≤ e.int) →
      Bounds t count done (done.filterMap (·.effectiveStake)) s) ?_ [] (fun _ => hinit) h hst
  intro done slot s s' ih hturn hst
  rw [filterMap_append] at hst ⊢
  have hprev := ih fun e he => hst e (mem_append_left _ he)
  cases hslot : slot.effectiveStake with
  | none =>
    simp only [filterMap_cons, hslot, filterMap_nil, append_nil]
    exact hprev.turn_harmony ht (length_filterMap_le _ _) hslot hturn
  | some e =>
    simp only [filterMap_cons, hslot, filterMap_nil] at hst ⊢
    exact hprev.turn_staked ht hslot (hst e (by simp)) hturn

omit [DecidableEq K] in
theorem Bounds.last_nonneg {held : Bool} (ht : t.Sound count) (hb : Bounds t count slots stakes s)
    (hlen : count + stakes.length = slots.length)
    (hsum : t.totalEffectiveStake.int = (stakes.map int).sum)
    (hone : t.harmonyPercent.int + t.externalPercent.int = precisionReuse)
    (hlast : s.lastStakedVoter = some (m, held))
    (hw : ∀ e, stakes.getLast? = some e → ((slots.length : ℤ) - 1) * t.totalEffectiveStake.int ≤
      e.int * t.externalPercent.int) :
    0 ≤ m.overallPercent.int +
      (precisionReuse - (s.ourPercentage.int + s.theirPercentage.int)) := by
  obtain ⟨hpos, e, he, hothers⟩ := hb.last m held hlast
  have hcount : ((slots.length : ℤ) - stakes.length) = count := by omega
  have hours : s.ourPercentage.int ≤ t.harmonyPercent.int + count := by
    rcases Nat.eq_zero_or_pos count with hzero | hpos'
    · have hnone := hb.unpaid (by omega)
      have hnn := ht.harmony
      omega
    · have hours := hb.ours
      rw [hcount, mul_comm] at hours
      exact le_of_mul_le_mul_left hours (by omega)
  have hscaled : 0 ≤ t.totalEffectiveStake.int * (m.overallPercent.int +
      (precisionReuse - (s.ourPercentage.int + s.theirPercentage.int))) := by
    have hslots : (slots.length : ℤ) = count + stakes.length := by omega
    have hw' := hw e he
    rw [hslots] at hw'
    rw [← hsum] at hothers
    rw [← hone]
    linarith [Int.mul_le_mul_of_nonneg_left hours hpos.le]
  exact nonneg_of_mul_nonneg_right hscaled hpos

/-- **No power is negative** in a well-staked committee. -/
theorem compute_nonneg {epoch : ℤ} (hw : WellStaked net c epoch)
    (h : compute net c (some epoch) = .ok r) {v : Vote K} (hv : r.voters k = some v) :
    0 ≤ v.overallPercent.int := by
  obtain ⟨ep, t, s, hep, hc⟩ := exists_computed h
  cases hep
  obtain ⟨count, hcount, hslots⟩ := hc.terms
  obtain ⟨htotal, hlen⟩ := foldlM_countSlot hcount
  have hnn : 0 ≤ t.totalEffectiveStake.int := by
    rw [htotal]
    apply sum_nonneg
    intro i hi
    obtain ⟨e, he, rfl⟩ := mem_map.1 hi
    exact hw.stakes e he
  have ht : t.Sound count := ⟨hnn, hslots, hc.harmony ▸ net.harmonyPercent_nonneg epoch,
    hc.external ▸ net.externalPercent_nonneg epoch,
    hc.external ▸ net.externalPercent_le_one epoch⟩
  have hb := Bounds.loop ht hw.stakes hc.loop
  cases hinc : net.incident epoch with
  | true =>
    rw [hc.incident hinc] at hv
    exact hb.nonneg k v hv
  | false =>
    obtain ⟨s', hs', hr⟩ := hc.usual hinc
    rw [hr] at hv
    rcases Progress.enforceOne_cases hs' with ⟨rfl, -⟩ | ⟨m, held, o, hlast, ho, hvoters⟩
    · exact hb.nonneg k v hv
    · have hone := net.harmonyPercent_add_externalPercent epoch hinc
      rw [← hc.harmony, ← hc.external] at hone
      have hcorrected : 0 ≤ o.int := by
        rw [ho]
        refine hb.last_nonneg ht hlen htotal hone hlast fun e he => ?_
        have hlastStake := hw.last hinc e he
        rwa [Committee.totalStake, Committee.stakes, ← htotal, ← hc.external] at hlastStake
      rw [hvoters] at hv
      split_ifs at hv
      · by_cases hk : k = m.identity
        · rw [hk, update_self] at hv
          cases hv
          exact hcorrected
        · rw [update_of_ne hk] at hv
          exact hb.nonneg k v hv
      · exact hb.nonneg k v hv

end DyShard.Consensus
