import DyShard.Common

/-!
# Range maps

`CalculateShardIDByRangeMap` finds the entry whose prefix the binary digits of an address start
with.  Only sixteen digits are expanded.
-/

namespace DyShard.Shard

open List

/-- `RangeMapContent`, the prefix as its binary digits. -/
structure RangeMapContent where
  prefix_ : List Bool
  shardID : ShardID
  deriving DecidableEq

/-- `BytesToBinaryString` of the first bytes of an address. -/
def bytesToBinaryString (addr : Address) (bytes : ℕ) : List Bool :=
  (range (8 * bytes)).map addr.getMsbD

/-- The loop of `CalculateShardIDByRangeMap`; a slice beyond the string is a panic. -/
def lookup (addrBinstr : List Bool) : List RangeMapContent → Option ShardID
  | [] => some beaconChainShardID
  | item :: rest =>
    let prefixLen := item.prefix_.length
    if addrBinstr.length < prefixLen then none
    else if addrBinstr.take prefixLen = item.prefix_ then some item.shardID
    else lookup addrBinstr rest

/-- `CalculateShardIDByRangeMap`. -/
def calculateShardIDByRangeMap (addr : Address) (rangeMap : List RangeMapContent) :
    Option ShardID := lookup (bytesToBinaryString addr 2) rangeMap

/-- No prefix is a prefix of another. -/
abbrev PrefixFree (m : List RangeMapContent) : Prop :=
  m.Pairwise fun i j => ¬ i.prefix_ <+: j.prefix_ ∧ ¬ j.prefix_ <+: i.prefix_

/-- The prefixes are prefix-free and cover all addresses. -/
structure Complete (m : List RangeMapContent) : Prop where
  apart : PrefixFree m
  covers : ∀ addr, ∃ i ∈ m, i.prefix_ <+: bytesToBinaryString addr 20

variable {m : List RangeMapContent}

theorem lookup_eq {bits digits : List Bool} (hbits : bits <+: digits)
    (hshort : ∀ i ∈ m, i.prefix_.length ≤ bits.length)
    (hapart : PrefixFree m) {i : RangeMapContent} (hi : i ∈ m) (hstart : i.prefix_ <+: digits) :
    lookup bits m = some i.shardID := by
  induction m with
  | nil => cases hi
  | cons j m ih =>
    have hj := hshort j mem_cons_self
    obtain ⟨hfirst, hrest⟩ := pairwise_cons.1 hapart
    have htake : bits.take j.prefix_.length = j.prefix_ ↔ j.prefix_ <+: bits := by
      rw [prefix_iff_eq_take, eq_comm]
    simp only [lookup, hj.not_gt, if_false, htake]
    rcases mem_cons.1 hi with rfl | hi
    · rw [if_pos (prefix_of_prefix_length_le hstart hbits hj)]
    · -- two prefixes of one string are comparable
      have hno : ¬ j.prefix_ <+: bits := fun h =>
        ( prefix_or_prefix_of_prefix hstart (h.trans hbits)).elim (hfirst i hi).2 (hfirst i hi).1
      rw [if_neg hno]
      exact ih (fun k hk => hshort k (mem_cons_of_mem j hk)) hrest hi

/-- **The lookup finds the entry of every address** exactly if sixteen digits are enough for each.
-/
theorem calculateShardIDByRangeMap_iff (h : Complete m) :
    (∀ m', m'.Perm m → ∀ addr, ∀ i ∈ m, i.prefix_ <+: bytesToBinaryString addr 20 →
      calculateShardIDByRangeMap addr m' = some i.shardID) ↔
    ∀ i ∈ m, i.prefix_.length ≤ 16 := by
  constructor
  · intro hall j hj
    by_contra hlong
    obtain ⟨l, r, rfl⟩ := append_of_mem hj
    obtain ⟨i, hi, hstart⟩ := h.covers 0
    have hfound := hall (j :: (l ++ r)) perm_middle.symm 0 i hi hstart
    have hlen : (bytesToBinaryString 0 2).length < j.prefix_.length := by
      simpa [bytesToBinaryString] using hlong
    rw [calculateShardIDByRangeMap, lookup, if_pos hlen] at hfound
    cases hfound
  · intro hshort m' hperm addr i hi hstart
    have hbits : bytesToBinaryString addr 2 <+: bytesToBinaryString addr 20 :=
      (show range 16 <+: range 160 by decide).map _
    refine lookup_eq hbits ?_ ?_ (hperm.mem_iff.2 hi) hstart
    · intro j hj
      simpa [bytesToBinaryString] using hshort j (hperm.mem_iff.1 hj)
    · exact hperm.symm.pairwise h.apart fun hij => hij.symm

/-- The prefixes `1`, `01`, `001` and so on. -/
def ladder : ℕ → List RangeMapContent
  | 0 => [⟨[], 0⟩]
  | n + 1 => ⟨[true], n.toUInt32⟩ :: (ladder n).map fun i => ⟨false :: i.prefix_, i.shardID⟩

theorem ladder_covers {n : ℕ} {bits : List Bool} (h : n ≤ bits.length) :
    ∃ i ∈ ladder n, i.prefix_ <+: bits := by
  induction n generalizing bits with
  | zero => exact ⟨_, mem_singleton_self _, nil_prefix⟩
  | succ n ih =>
    cases bits with
    | nil => cases h
    | cons b bits =>
      cases b with
      | true => exact ⟨_, mem_cons_self, cons_prefix_cons.2 ⟨rfl, nil_prefix⟩⟩
      | false =>
        obtain ⟨i, hi, hstart⟩ := ih (Nat.le_of_succ_le_succ h)
        exact ⟨_, mem_cons_of_mem _ (mem_map_of_mem hi), cons_prefix_cons.2 ⟨rfl, hstart⟩⟩

theorem complete_ladder {n : ℕ} (hn : n ≤ 160) (h : PrefixFree (ladder n)) :
    Complete (ladder n) := ⟨h, fun addr => ladder_covers (by simpa [bytesToBinaryString] using hn)⟩

theorem calculateShardIDByRangeMap_two : calculateShardIDByRangeMap 0 (ladder 2) = some 0 :=
  (calculateShardIDByRangeMap_iff (complete_ladder (by decide) (by decide))).2 (by decide)
    _ (.refl _) 0 ⟨[false, false], 0⟩ (by decide) (by decide)

/-- **A prefix of seventeen digits is a panic.** -/
theorem calculateShardIDByRangeMap_panics :
    Complete (ladder 17) ∧ calculateShardIDByRangeMap 0 (ladder 17) = none :=
  ⟨complete_ladder (by decide) (by decide +kernel), by decide +kernel⟩

end DyShard.Shard
