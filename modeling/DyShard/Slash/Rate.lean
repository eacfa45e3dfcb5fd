import DyShard.Slash.Verify
import DyShard.Staking.Finalization

/-!
# The slash rate: `slash.Rate`

The share of the stake that signed twice.  The share of a key is added once for every record that
reports it.
-/

namespace DyShard.Slash

open Numeric Staking List Dec

variable {K : Type} [DecidableEq K] (voters : K → Option (Consensus.Vote K))

/-- The keys that the records show as signed twice by their offenders. -/
def reported (records : List (Record K)) : List K :=
  records.flatMap fun r => (doubleSignKeys r.firstVote.signerPubKeys r.secondVote.signerPubKeys).filter
    fun k => (voters k).any (·.earningAccount == r.offender)

/-- The share of a key, by its card in the roster. -/
def groupPercent (k : K) : Dec := ((voters k).map (·.groupPercent)).getD .zeroDec

/-- `Rate`, unless a sum overflows. -/
def rate (records : List (Record K)) : Option Dec :=
  (((reported voters records).map (groupPercent voters)).foldlM add .zeroDec).map slashRate

/-- The shares of some keys together. -/
def shares (keys : List K) : ℤ := ((keys.map (groupPercent voters)).map int).sum

section

variable {voters} (hnn : ∀ k, 0 ≤ (groupPercent voters k).int)
include hnn

theorem shares_dedup (keys : List K) :
    shares voters keys.dedup ≤ shares voters keys ∧
      (shares voters keys = shares voters keys.dedup ↔
        ∀ k, 1 < keys.count k → (groupPercent voters k).int = 0) := by
  have hcount : shares voters keys =
      ∑ k ∈ keys.toFinset, (keys.count k : ℤ) * (groupPercent voters k).int := by
    rw [shares, map_map, Finset.sum_list_map_count]
    simp
  have hdedup : shares voters keys.dedup = ∑ k ∈ keys.toFinset, (groupPercent voters k).int := by
    rw [shares, map_map, ← sum_toFinset _ keys.nodup_dedup]
    exact Finset.sum_congr (by ext; simp) fun _ _ => rfl
  have hle : ∀ k ∈ keys.toFinset,
      (groupPercent voters k).int ≤ keys.count k * (groupPercent voters k).int := by
    intro k hk
    have hpos : 1 ≤ keys.count k := count_pos_iff.2 (mem_toFinset.1 hk)
    exact le_mul_of_one_le_left (hnn k) (by exact_mod_cast hpos)
  rw [hcount, hdedup]
  refine ⟨Finset.sum_le_sum hle, eq_comm.trans ((Finset.sum_eq_sum_iff_of_le hle).trans
    (forall_congr' fun k => ?_))⟩
  rw [eq_comm, mul_left_eq_self₀, Nat.cast_eq_one, mem_toFinset, ← count_pos_iff]
  constructor
  · intro h hk
    exact (h (by omega)).resolve_left hk.ne'
  · intro h hpos
    by_cases hk : 1 < keys.count k
    · exact .inr (h hk)
    · exact .inl (by omega)

theorem rate_eq {records : List (Record K)}
    (hfit : shares voters (reported voters records) < Dec.limit) :
    rate voters records =
      some ⟨max oneDoubleSignerRate.int (shares voters (reported voters records))⟩ := by
  have hnn' : ∀ d ∈ (reported voters records).map (groupPercent voters), 0 ≤ d.int := by
    simpa using fun k _ => hnn k
  have hpos : 0 ≤ shares voters (reported voters records) := sum_nonneg (by simpa using hnn')
  obtain ⟨d, hd⟩ := exists_foldlM_add (d := .zeroDec) le_rfl hnn' (by
    change (0 + shares voters (reported voters records)).natAbs < Dec.limit
    omega)
  have hint : d.int = shares voters (reported voters records) :=
    (foldlM_add hd).trans (zero_add _)
  rw [rate, hd, Option.map_some, ← hint]
  unfold slashRate
  split_ifs with hlt
  · rw [max_eq_left hlt.le]
  · rw [max_eq_right (not_lt.1 hlt)]

/-- **When the rate is that of the distinct keys.** -/
theorem rate_eq_iff (records : List (Record K))
    (hfit : shares voters (reported voters records) < Dec.limit) :
    rate voters records =
        some ⟨max oneDoubleSignerRate.int (shares voters (reported voters records).dedup)⟩ ↔
      shares voters (reported voters records) ≤ oneDoubleSignerRate.int ∨
        ∀ k, 1 < (reported voters records).count k → (groupPercent voters k).int = 0 := by
  obtain ⟨hle, hiff⟩ := shares_dedup hnn (reported voters records)
  rw [rate_eq hnn hfit, ← hiff, Option.some.injEq, mk.injEq]
  omega

end

namespace TwoKeys

/-- Key 1 of the validator has three per cent, and key 4 has four. -/
def cards (k : ℕ) : Option (Consensus.Vote ℕ) :=
  if k = 1 ∨ k = 4 then
    some ⟨0xaa, k, ⟨if k = 1 then 3 * 10 ^ 16 else 4 * 10 ^ 16⟩, .zeroDec, .zeroDec, false, .zeroDec⟩
  else none

/-- The votes share key 1. -/
def oneKey : Record ℕ := record [1, 3] [1, 2]

end TwoKeys

open TwoKeys

/-- Two records with different keys: seven per cent. -/
theorem rate_eq_once : rate cards [oneKey, record [4, 3] [4, 2]] = some ⟨7 * 10 ^ 16⟩ := by
  refine (rate_eq_iff (fun k => ?_) _ (by decide +kernel)).2 (.inr fun k hk => ?_)
  · unfold groupPercent cards
    split_ifs <;> simp [zeroDec]
  · exact absurd hk (nodup_iff_count_le_one.1 (by decide) k).not_gt

/-- **A record that is reported twice doubles the rate.** -/
theorem rate_twice :
    (verify crypto reading chain state oneKey).1 = .ok () ∧
    rate cards [oneKey, oneKey] = some ⟨6 * 10 ^ 16⟩ ∧
    shares cards (reported cards [oneKey, oneKey]).dedup = 3 * 10 ^ 16 := by
  exact ⟨by decide +kernel, by decide +kernel, by decide⟩

end DyShard.Slash
