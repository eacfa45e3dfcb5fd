import DyShard.Consensus.Effective
import DyShard.Consensus.Quorum

/-!
# Quorum intersection

Two quorums share more than a third of the voting power: both weigh more than two thirds, and the
whole weighs one.  The argument needs that no key weighs less than nothing.
-/

namespace DyShard.Consensus

open Numeric Weight StakedVoteWeight

variable {K P S : Type} [DecidableEq K]

/-- Any two quorums have common enabled keys with more than a third of the power. -/
def QuorumsIntersect (P S : Type) (net : Network) (c : Committee K) (epoch : ℤ) : Prop :=
  ∀ (v₀ v : StakedVoteWeight K P S) (result : Dec × Dec) (m₁ m₂ : Mask K P),
    v₀.setVoters net c (some epoch) = some (v, .ok result) →
    m₁.publics.map (·.bytes) = c.keys → m₂.publics.map (·.bytes) = c.keys →
    v.isQuorumAchievedByMask (some m₁) = some true →
    v.isQuorumAchievedByMask (some m₂) = some true →
    precisionReuse <
      3 * weight (power v.roster.voters) c.keys (fun k => m₁.enabled k && m₂.enabled k)

theorem compute_of_setVoters {net : Network} {c : Committee K} {epoch : Option ℤ}
    {v₀ v : StakedVoteWeight K P S} {result : Dec × Dec}
    (h : v₀.setVoters net c epoch = some (v, .ok result)) : compute net c epoch = .ok v.roster := by
  unfold setVoters at h
  cases hc : compute net c epoch with
  | panic =>
    rw [hc] at h
    cases h
  | error e =>
    rw [hc] at h
    cases (Prod.mk.inj (Option.some.inj h)).2
  | ok r =>
    rw [hc] at h
    cases h
    rfl

theorem weight_publicsIndex {ks : List K} (hnd : ks.Nodup) {m : Mask K P}
    (hm : m.publics.map (·.bytes) = ks) (w : K → ℤ) :
    weight w m.publicsIndex.keys m.enabled = weight w ks m.enabled := by
  apply weight_eq_of_mem_iff w _ _ m.publicsIndex.keys_nodup hnd
  intro k
  rw [m.mem_publicsIndex, hm]

theorem twoThird_lt_weight {ks : List K} (hnd : ks.Nodup) {v : StakedVoteWeight K P S}
    {m : Mask K P} (hm : m.publics.map (·.bytes) = ks)
    (h : v.isQuorumAchievedByMask (some m) = some true) :
    twoThird.int < weight (power v.roster.voters) ks m.enabled := by
  have hq := isQuorumAchievedByMask_eq_some h
  rw [weight_publicsIndex hnd hm] at hq
  exact of_decide_eq_true hq.symm

omit [DecidableEq K] in
theorem power_nonneg {voters : K → Option (Vote K)}
    (h : ∀ k v, voters k = some v → 0 ≤ v.overallPercent.int) (k : K) : 0 ≤ power voters k := by
  unfold power
  cases hv : voters k with
  | none => exact le_refl 0
  | some v => exact h k v hv

theorem quorumsIntersect_of_wellStaked {net : Network} {c : Committee K} {epoch : ℤ}
    (hinc : net.incident epoch = false) (hnd : c.keys.Nodup) (hst : c.stakes ≠ [])
    (hw : WellStaked net c epoch) : QuorumsIntersect P S net c epoch := by
  intro v₀ v result m₁ m₂ hset hm₁ hm₂ hq₁ hq₂
  have hcompute := compute_of_setVoters hset
  have hnn : ∀ k ∈ c.keys, 0 ≤ power v.roster.voters k := fun k _ =>
    power_nonneg (fun _ _ hv => compute_nonneg hw hcompute hv) k
  have hwhole : (c.keys.map (power v.roster.voters)).sum = precisionReuse :=
    sum_power_compute hinc hnd hst hcompute
  have h₁ := twoThird_lt_weight hnd hm₁ hq₁
  have h₂ := twoThird_lt_weight hnd hm₂ hq₂
  have hmeet := weight_add_weight_le hnn m₁.enabled m₂.enabled
  have hthird : precisionReuse < 3 * (2 * (twoThird.int + 1) - precisionReuse) := by decide
  omega

/-- **Quorums intersect** in an elected committee, outside the testnet incident. -/
theorem quorumsIntersect_of_elected {net : Network} {c : Committee K} {epoch : ℤ}
    (hinc : net.incident epoch = false) (hnd : c.keys.Nodup) (hst : c.stakes ≠ [])
    (h : Elected net c epoch) : QuorumsIntersect P S net c epoch :=
  quorumsIntersect_of_wellStaked hinc hnd hst h.wellStaked

/-! ## A committee whose last slot is charged too much -/

namespace Rounding

/-- Slot `k` of account `k`. -/
def slot (k : ℕ) (effectiveStake : Option Dec) : Slot ℕ := ⟨BitVec.ofNat 160 k, k, effectiveStake⟩

/-- Nine Harmony slots and the given staked ones. -/
def withHarmony (staked : List (Slot ℕ)) : Committee ℕ :=
  ⟨0, (List.range 9).map (slot · none) ++ staked⟩

/-- Stakes of one and of five, and a last stake of one unit. -/
def committee : Committee ℕ :=
  withHarmony [slot 9 (some (.newDec 1)), slot 10 (some (.newDec 5)), slot 11 (some ⟨1⟩)]

/-- Bids of 3, 10 and 4, of which 4 is the median. -/
def round : EPoSRound ℕ where
  shortHand := [(9, ⟨3, [9]⟩), (10, ⟨10, [10]⟩), (11, ⟨4, [11]⟩)]
  maxExternalSlots := 3
  isExtendedBound := false
  numShards := 1
  numHarmonyOperatedNodesPerShard := 9
  hmyAccounts := (List.range 9).map fun k => (BitVec.ofNat 160 k, k)
  big k := k
  nonneg := by decide

/-- The committee of the round: the largest bid counts 4.6 and the smallest 3.4. -/
def winners : Committee ℕ :=
  withHarmony [slot 10 (some ⟨4600000000000000000⟩), slot 11 (some (.newDec 4)),
    slot 9 (some ⟨3400000000000000000⟩)]

theorem elected_winners : Elected sixty winners 1 :=
  ⟨⟨round, 0, by decide +kernel⟩, fun _ => by decide⟩

/-- The mask of a bitmap over a committee's keys. -/
def mask (c : Committee ℕ) (bitmap : List Byte) : Except MaskError (Mask ℕ ℤ) := do
  let m ← Mask.newMask (c.keys.map fun k : ℕ => ⟨k, (k : ℤ)⟩) none
  m.setMask bitmap

/-- A new decider. -/
def decider : StakedVoteWeight ℕ ℤ Unit := ⟨{}, newRoster 0, {}⟩

/-- What two masks have in common, if both are quorums. -/
def common (c : Committee ℕ) (x y : List Byte) : Option ℤ :=
  match mask c x, mask c y, decider.setVoters sixty c (some 1) with
  | .ok m₁, .ok m₂, some (v, .ok _) =>
    if m₁.publics.map (·.bytes) = c.keys ∧ m₂.publics.map (·.bytes) = c.keys ∧
        v.isQuorumAchievedByMask (some m₁) = some true ∧
        v.isQuorumAchievedByMask (some m₂) = some true then
      some (weight (power v.roster.voters) c.keys (fun k => m₁.enabled k && m₂.enabled k))
    else none
  | _, _, _ => none

theorem lt_common {c : Committee ℕ} {x y : List Byte} {w : ℤ} (h : common c x y = some w)
    (hi : QuorumsIntersect ℤ Unit sixty c 1) : precisionReuse < 3 * w := by
  unfold common at h
  split at h
  · split_ifs at h with hall
    obtain ⟨h₁, h₂, h₃, h₄⟩ := hall
    cases h
    exact hi _ _ _ _ _ ‹_› h₁ h₂ h₃ h₄
  · cases h

theorem common_slot_ten :
    common committee [0x1F, 0x04] [0xE0, 0x07] = some 333333333333333333 := by
  decide +kernel

end Rounding

open Rounding

/-- The elected committee: quorums intersect, and there are some. -/
theorem quorumsIntersect_winners :
    QuorumsIntersect ℤ Unit sixty winners 1 ∧ common winners [0xFF, 0x05] [0xFF, 0x06] ≠ none :=
  ⟨quorumsIntersect_of_elected (by decide) (by decide) (by decide) elected_winners,
    by decide +kernel⟩

/-- **Rounding splits quorums**: no stake is negative, and still two quorums have less than a
third in common. -/
theorem rounding_splits_quorums :
    sixty.incident 1 = false ∧ committee.keys.Nodup ∧ committee.stakes ≠ [] ∧
      (∀ e ∈ committee.stakes, 0 ≤ e.int) ∧ ¬ QuorumsIntersect ℤ Unit sixty committee 1 := by
  refine ⟨by decide, by decide, by decide, by decide, fun hi => ?_⟩
  have hthird := lt_common common_slot_ten hi
  exact absurd hthird (by decide)

end DyShard.Consensus
