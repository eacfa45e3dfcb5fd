import DyShard.Consensus.VotePower
import Mathlib.Algebra.Order.BigOperators.Group.List
import Mathlib.Data.List.Sort

/-!
# Effective stakes: `effective.Apply` and `eposStakedCommittee`

The largest bids win the slots that are not Harmony's, and what counts in the committee is the bid
clamped to a band around the median: no staked slot is too light for what rounding costs it.

Left out: how `prepareOrders` collects the orders, and the parsing of Harmony's accounts.
-/

namespace DyShard.Consensus

open Numeric List

variable {K : Type}

/-! ## The auction -/

/-- `effective.SlotPurchase`. -/
structure SlotPurchase (K : Type) where
  addr : Address
  key : K
  rawStake : Dec
  eposStake : Dec

/-- `effective.SlotOrder`, without the percentage. -/
structure SlotOrder (K : Type) where
  stake : ℤ
  spreadAmong : List K

namespace Effective

/-- `two`. -/
def two : Dec := .newDec 2

/-- `onePlusC`, with `c` of 15 per cent. -/
def onePlusC : Dec := ⟨1150000000000000000⟩

/-- `oneMinusC`. -/
def oneMinusC : Dec := ⟨850000000000000000⟩

/-- `onePlusCV2`, with `cV2` of 35 per cent. -/
def onePlusCV2 : Dec := ⟨1350000000000000000⟩

/-- `oneMinusCV2`. -/
def oneMinusCV2 : Dec := ⟨650000000000000000⟩

/-- The stable sort by raw stake, the largest first. -/
def sortByStake (stakes : List (SlotPurchase K)) : List (SlotPurchase K) :=
  stakes.insertionSort fun p q => q.rawStake.int ≤ p.rawStake.int

/-- `Median`: the middle bid, or half the sum of the middle two. -/
def median (stakes : List (SlotPurchase K)) : Option Dec :=
  let stakes := sortByStake stakes
  let l := stakes.length
  if l = 0 then some .zeroDec
  else if l % 2 = 0 then do
    let left ← stakes[l / 2 - 1]?
    let right ← stakes[l / 2]?
    let sum ← left.rawStake.add right.rawStake
    sum.quo two
  else stakes[l / 2]?.map (·.rawStake)

/-- A staker's purchases: one for each key, with an equal part of the stake. -/
def expand (staker : Address × SlotOrder K) : List (SlotPurchase K) :=
  let spread : Dec := ⟨(Dec.newDec staker.2.stake).int.tdiv staker.2.spreadAmong.length⟩
  staker.2.spreadAmong.map fun key => ⟨staker.1, key, spread, spread⟩

/-- `effective.Compute`: the median and the `pull` largest bids.  The orders are a map, in any
order. -/
def compute (shortHand : List (Address × SlotOrder K)) (pull : ℕ) :
    Option (Dec × List (SlotPurchase K)) := do
  let shorter := shortHand.insertionSort fun a b => a.1.toNat ≤ b.1.toNat
  let picks := (sortByStake (shorter.flatMap expand)).take pull
  let median ← median picks
  return (median, sortByStake picks)

/-- `effectiveStake`: the bid, clamped to the band. -/
def effectiveStake (min max actual : Dec) : Dec :=
  let newMax := if max.int < actual.int then max else actual
  if newMax.int < min.int then min else newMax

/-- The ends of the band, the lower one first. -/
def band (median : Dec) (isExtendedBound : Bool) : Option (Dec × Dec) := do
  let max ← onePlusC.mul median
  let min ← oneMinusC.mul median
  if isExtendedBound then
    let max ← onePlusCV2.mul median
    let min ← oneMinusCV2.mul median
    return (min, max)
  else return (min, max)

/-- `effective.Apply`. -/
def apply (shortHand : List (Address × SlotOrder K)) (pull : ℕ) (isExtendedBound : Bool) :
    Option (Dec × List (SlotPurchase K)) := do
  let (median, picks) ← compute shortHand pull
  let (min, max) ← band median isExtendedBound
  return (median, picks.map fun p => { p with eposStake := effectiveStake min max p.rawStake })

end Effective

/-- What a round of the auction depends on. -/
structure EPoSRound (K : Type) where
  shortHand : List (Address × SlotOrder K)
  maxExternalSlots : ℕ
  isExtendedBound : Bool
  numShards : ℕ
  numHarmonyOperatedNodesPerShard : ℕ
  hmyAccounts : List (Address × K)
  /-- A key as a number, which gives its shard. -/
  big : K → ℕ
  /-- Stakes are sums of delegations. -/
  nonneg : ∀ staker ∈ shortHand, 0 ≤ staker.2.stake

namespace EPoSRound

/-- `eposStakedCommittee` for shard `i`: every `numShards`-th of Harmony's accounts, and the winners
whose key falls to the shard.  A round without winners leaves the committees as they were. -/
def eposStakedCommittee (r : EPoSRound K) (i : ℕ) : Option (Committee K) := do
  let accounts ← (range r.numHarmonyOperatedNodesPerShard).mapM fun j =>
    r.hmyAccounts[i + j * r.numShards]?
  let (_, winners) ← Effective.apply r.shortHand r.maxExternalSlots r.isExtendedBound
  let won := winners.filter fun p => r.big p.key % r.numShards = i
  return ⟨.ofNat i, accounts.map (fun a => ⟨a.1, a.2, none⟩) ++
    won.map fun p => ⟨p.addr, p.key, some p.eposStake⟩⟩

end EPoSRound

/-- A committee of some round, not too large for the part of the voting power that was auctioned. -/
structure Elected (net : Network) (c : Committee K) (epoch : ℤ) : Prop where
  round : ∃ (r : EPoSRound K) (i : ℕ), r.eposStakedCommittee i = some c
  size : c.stakes ≠ [] → 3 * (c.slots.length : ℤ) ^ 2 ≤ (net.externalPercent epoch).int

/-! ## The band -/

variable {stakes picks : List (SlotPurchase K)} {min max d : Dec}

namespace Effective

@[simp]
theorem mem_sortByStake {p : SlotPurchase K} : p ∈ sortByStake stakes ↔ p ∈ stakes :=
  mem_insertionSort _

theorem median_nonneg (hnn : ∀ p ∈ stakes, 0 ≤ p.rawStake.int) (h : median stakes = some d) :
    0 ≤ d.int := by
  have hget : ∀ (i : ℕ) (p : SlotPurchase K), (sortByStake stakes)[i]? = some p →
      0 ≤ p.rawStake.int := fun i p hp => hnn p (mem_sortByStake.1 (mem_of_getElem? hp))
  unfold median at h
  dsimp only at h
  split_ifs at h
  · cases h
    exact le_refl 0
  · simp only [Option.bind_eq_bind, Option.bind_eq_some_iff] at h
    obtain ⟨left, hleft, right, hright, sum, hsum, hquo⟩ := h
    have hadd := Dec.int_add hsum
    have hl := hget _ _ hleft
    have hr := hget _ _ hright
    exact Dec.quo_nonneg (by omega) (by decide) hquo
  · obtain ⟨p, hp, rfl⟩ := Option.map_eq_some_iff.1 h
    exact hget _ _ hp

theorem expand_nonneg {staker : Address × SlotOrder K} (h : 0 ≤ staker.2.stake) :
    ∀ p ∈ expand staker, 0 ≤ p.rawStake.int := by
  intro p hp
  obtain ⟨key, -, rfl⟩ := mem_map.1 hp
  exact Int.tdiv_nonneg (Int.mul_nonneg h precisionReuse_pos.le) (Int.natCast_nonneg _)

theorem compute_median_nonneg {shortHand : List (Address × SlotOrder K)} {pull : ℕ}
    (hnn : ∀ staker ∈ shortHand, 0 ≤ staker.2.stake)
    (h : compute shortHand pull = some (d, picks)) : 0 ≤ d.int := by
  obtain ⟨d', hmedian, heq⟩ := Option.bind_eq_some_iff.1 h
  cases heq
  refine median_nonneg (fun p hp => ?_) hmedian
  obtain ⟨staker, hstaker, hp⟩ := mem_flatMap.1 (mem_sortByStake.1 (mem_of_mem_take hp))
  exact expand_nonneg (hnn staker ((mem_insertionSort _).1 hstaker)) p hp

/-- The upper end of the band is at most three times the lower one, also after rounding. -/
theorem le_three_mul (hd : 0 ≤ d.int) {hi lo : Dec} (hnn : 0 ≤ hi.int)
    (hhi : hi.int ≤ onePlusCV2.int) (hlo : oneMinusCV2.int ≤ lo.int)
    (hmax : hi.mul d = some max) (hmin : lo.mul d = some min) :
    0 ≤ min.int ∧ max.int ≤ 3 * min.int := by
  have hlo' : 0 ≤ lo.int := le_trans (by decide) hlo
  have hupper := (chopPrecisionAndRound_bounds (Int.mul_nonneg hnn hd)).1
  have hlower := (chopPrecisionAndRound_bounds (Int.mul_nonneg hlo' hd)).2
  rw [← Dec.int_mul hmax] at hupper
  rw [← Dec.int_mul hmin] at hlower
  have hhid : hi.int * d.int ≤ onePlusCV2.int * d.int := Int.mul_le_mul_of_nonneg_right hhi hd
  have hlod : oneMinusCV2.int * d.int ≤ lo.int * d.int := Int.mul_le_mul_of_nonneg_right hlo hd
  refine ⟨Dec.mul_nonneg hlo' hd hmin, ?_⟩
  simp only [onePlusCV2, oneMinusCV2, precisionReuse] at hupper hlower hhid hlod
  have hmax' : 20 * max.int ≤ 27 * d.int + 10 := by omega
  have hmin' : 13 * d.int ≤ 20 * min.int + 10 := by omega
  -- below four units the halves count, and the ends are whole numbers
  rcases lt_or_ge d.int 4 with hsmall | hlarge
  · have hcases : d.int = 0 ∨ d.int = 1 ∨ d.int = 2 ∨ d.int = 3 := by omega
    omega
  · omega

theorem band_bounds (hd : 0 ≤ d.int) {extended : Bool} (h : band d extended = some (min, max)) :
    0 ≤ min.int ∧ max.int ≤ 3 * min.int := by
  simp only [band, Option.bind_eq_bind, Option.bind_eq_some_iff] at h
  obtain ⟨max₁, hmax₁, min₁, hmin₁, h⟩ := h
  cases extended with
  | false =>
    cases h
    exact le_three_mul hd (by decide) (by decide) (by decide) hmax₁ hmin₁
  | true =>
    simp only [if_true, Option.bind_eq_some_iff] at h
    obtain ⟨max₂, hmax₂, min₂, hmin₂, heq⟩ := h
    cases heq
    exact le_three_mul hd (by decide) (le_refl _) (le_refl _) hmax₂ hmin₂

theorem effectiveStake_bounds (h : 0 ≤ min.int ∧ max.int ≤ 3 * min.int) (actual : Dec) :
    min.int ≤ (effectiveStake min max actual).int ∧
      (effectiveStake min max actual).int ≤ 3 * min.int := by
  unfold effectiveStake
  dsimp only
  split_ifs <;> omega

theorem apply_bounds {shortHand : List (Address × SlotOrder K)} {pull : ℕ} {extended : Bool}
    (hnn : ∀ staker ∈ shortHand, 0 ≤ staker.2.stake)
    (h : apply shortHand pull extended = some (d, picks)) :
    ∃ lo : ℤ, 0 ≤ lo ∧ ∀ p ∈ picks, lo ≤ p.eposStake.int ∧ p.eposStake.int ≤ 3 * lo := by
  simp only [apply, Option.bind_eq_bind, Option.bind_eq_some_iff] at h
  obtain ⟨⟨m, bids⟩, hcompute, ⟨min, max⟩, hband, heq⟩ := h
  cases heq
  have hends := band_bounds (compute_median_nonneg hnn hcompute) hband
  refine ⟨min.int, hends.1, fun p hp => ?_⟩
  obtain ⟨bid, -, rfl⟩ := mem_map.1 hp
  exact effectiveStake_bounds hends _

end Effective

variable {net : Network} {c : Committee K} {epoch : ℤ}

theorem wellStaked_of_bounds {lo : ℤ} (hlo : 0 ≤ lo)
    (hband : ∀ e ∈ c.stakes, lo ≤ e.int ∧ e.int ≤ 3 * lo)
    (hsize : c.stakes ≠ [] → 3 * (c.slots.length : ℤ) ^ 2 ≤ (net.externalPercent epoch).int) :
    WellStaked net c epoch := by
  refine ⟨fun e he => hlo.trans (hband e he).1, fun _ e he => ?_⟩
  have hmem : e ∈ c.stakes := mem_of_getLast? he
  have hexternal := hsize (ne_nil_of_mem hmem)
  have hle := (hband e hmem).1
  have hlen : (c.stakes.length : ℤ) ≤ c.slots.length := by
    exact_mod_cast length_filterMap_le ..
  have htotal : c.totalStake ≤ c.slots.length * (3 * lo) := by
    have hsum : c.totalStake ≤ c.stakes.length * (3 * lo) := by
      have hle : ∀ i ∈ c.stakes.map Dec.int, i ≤ 3 * lo := by
        intro i hi
        obtain ⟨e, he, rfl⟩ := mem_map.1 hi
        exact (hband e he).2
      simpa [Committee.totalStake] using sum_le_card_nsmul _ _ hle
    nlinarith
  have hnn : 0 ≤ c.totalStake := sum_nonneg fun i hi => by
    obtain ⟨e, he, rfl⟩ := mem_map.1 hi
    exact hlo.trans (hband e he).1
  calc ((c.slots.length : ℤ) - 1) * c.totalStake
      ≤ c.slots.length * c.totalStake := by linarith
    _ ≤ c.slots.length * (c.slots.length * (3 * lo)) := by gcongr
    _ = 3 * (c.slots.length : ℤ) ^ 2 * lo := by ring
    _ ≤ (net.externalPercent epoch).int * lo := by gcongr
    _ ≤ (net.externalPercent epoch).int * e.int := by
      gcongr
      exact net.externalPercent_nonneg epoch
    _ = e.int * (net.externalPercent epoch).int := mul_comm ..

theorem EPoSRound.stakes_bounds {r : EPoSRound K} {i : ℕ} (h : r.eposStakedCommittee i = some c) :
    ∃ lo : ℤ, 0 ≤ lo ∧ ∀ e ∈ c.stakes, lo ≤ e.int ∧ e.int ≤ 3 * lo := by
  simp only [eposStakedCommittee, Option.bind_eq_bind, Option.bind_eq_some_iff] at h
  obtain ⟨accounts, -, ⟨d, winners⟩, hwinners, heq⟩ := h
  cases heq
  obtain ⟨lo, hlo, hbounds⟩ := Effective.apply_bounds r.nonneg hwinners
  refine ⟨lo, hlo, fun e he => ?_⟩
  -- Harmony's slots have no stake
  obtain ⟨p, ⟨hp, -⟩, rfl⟩ : ∃ p, (p ∈ winners ∧ r.big p.key % r.numShards = i) ∧
      p.eposStake = e := by
    simpa [Committee.stakes, filterMap_append] using he
  exact hbounds p hp

theorem Elected.wellStaked (h : Elected net c epoch) : WellStaked net c epoch := by
  obtain ⟨r, i, hc⟩ := h.round
  obtain ⟨lo, hlo, hbounds⟩ := EPoSRound.stakes_bounds hc
  exact wellStaked_of_bounds hlo hbounds h.size

end DyShard.Consensus
