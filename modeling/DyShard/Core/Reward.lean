import DyShard.Core.Engine
import DyShard.State.Accounts

/-!
# The block reward before staking

`AccumulateRewardsAndCountSigs` splits one reward among the signers: the `i`-th of `n` entries gets
what the floor of the reward times `i / n` grows by.
-/

namespace DyShard.Core

open List Int

open State (DB WrapperCodec)

variable {W : Type} (n : ℕ)

/-- What the entry at an index is paid. -/
def evenShare (i : ℕ) : ℤ := preStakedBlocks * (i + 1) / n - preStakedBlocks * i / n

/-- What the entries of an address are paid, from an index on. -/
def evenShares (i : ℕ) (b : Address) (signers : List Address) : ℤ :=
  ((signers.zipIdx i).map fun e => if b = e.1 then evenShare n e.2 else 0).sum

variable {n}

theorem evenShare_floor_or_ceil (i : ℕ) :
    evenShare n i = ⌊(preStakedBlocks / n : ℚ)⌋ ∨ evenShare n i = ⌈(preStakedBlocks / n : ℚ)⌉ := by
  have hshare : evenShare n i =
      ⌊(preStakedBlocks / n * i + preStakedBlocks / n : ℚ)⌋ - ⌊(preStakedBlocks / n * i : ℚ)⌋ := by
    rw [evenShare, ← Rat.floor_intCast_div_natCast, ← Rat.floor_intCast_div_natCast]
    push_cast
    ring_nf
  generalize (preStakedBlocks / n : ℚ) = share at hshare ⊢
  have hlow := le_floor_add (share * i) share
  have hhigh : ⌊share * i + share⌋ ≤ ⌊share * i⌋ + ⌈share⌉ := by
    rw [← floor_add_intCast]
    exact floor_le_floor (add_le_add_right (le_ceil share) _)
  have hstep := ceil_le_floor_add_one share
  omega

theorem run_payEvenly (codec : WrapperCodec W) (db : DB W) (i : ℕ) (t : ℤ)
    (signers : List Address) (hthaw : ∀ a ∈ signers, (db.face a).frozen = false) :
    ∃ db', DB.run codec (payEvenly n i (preStakedBlocks * i / n) t signers) db =
        some (t + preStakedBlocks * (i + signers.length : ℕ) / n - preStakedBlocks * i / n, db') ∧
      ∀ b, db'.getBalance b = db.getBalance b + evenShares n i b signers := by
  induction signers generalizing db i t with
  | nil => exact ⟨db, by simp [payEvenly], by simp [evenShares]⟩
  | cons a signers ih =>
    obtain ⟨db', hrun, hbalance⟩ := ih (db.addBalance a (evenShare n i)) (i + 1)
      (t + evenShare n i)
      (fun b hb => (db.frozen_addBalance a b _).trans (hthaw b (mem_cons_of_mem a hb)))
    refine ⟨db', ?_, fun b => ?_⟩
    · simp only [payEvenly, DB.run_bind, DB.run_addBalance, Option.bind_some]
      push_cast at hrun ⊢
      rw [evenShare] at hrun
      rw [hrun, length_cons]
      push_cast
      ring_nf
    · rw [hbalance, DB.getBalance_addBalance, hthaw a mem_cons_self]
      simp only [evenShares, zipIdx_cons, map_cons, sum_cons, and_true]
      ring

/-- **The reward is split exactly and evenly**: each entry gets the floor or the ceiling of its
part. -/
theorem accumulateRewardsAndCountSigs_even (codec : WrapperCodec W) (db : DB W)
    (signers : List Address) (hne : signers ≠ [])
    (hthaw : ∀ a ∈ signers, (db.face a).frozen = false) :
    ∃ db', DB.run codec (payEvenly signers.length 0 0 0 signers) db = some (preStakedBlocks, db') ∧
      (∀ b, db'.getBalance b = db.getBalance b + evenShares signers.length 0 b signers) ∧
      (∀ i, evenShare signers.length i = ⌊(preStakedBlocks / signers.length : ℚ)⌋ ∨
        evenShare signers.length i = ⌈(preStakedBlocks / signers.length : ℚ)⌉) ∧
      ∀ (config : ChainConfig) (engine : Engine W) (header : Preamble) (parent : ℕ),
        engine.signers header = .ok signers → header.number ≠ 0 →
        config.isStaking header.epoch = false →
        engine.numberOf header.parentHash = some (parent + 1) →
        DB.run codec (accumulateRewardsAndCountSigs config engine header true) db =
          some (none, db') := by
  have hpos : (signers.length : ℤ) ≠ 0 := by simpa using hne
  obtain ⟨db', hrun, hbalance⟩ := run_payEvenly (n := signers.length) codec db 0 0 signers hthaw
  have htotal : DB.run codec (payEvenly signers.length 0 0 0 signers) db =
      some (preStakedBlocks, db') := by
    simpa [mul_ediv_cancel _ hpos] using hrun
  refine ⟨db', htotal, hbalance, evenShare_floor_or_ceil, ?_⟩
  intro config engine header parent hsigners hnumber hera hparent
  simp [accumulateRewardsAndCountSigs, hnumber, hera, hparent, hsigners, htotal]

/-- Three entries of two addresses. -/
theorem payEvenly_three :
    ∃ db', DB.run (W := Unit) ⟨fun _ => true, fun _ => none, fun _ => none, nofun, nofun⟩
        (payEvenly 3 0 0 0 [7, 9, 7]) (.new fun _ => none) = some (preStakedBlocks, db') ∧
      db'.getBalance 7 = 16 * 10 ^ 18 := by
  obtain ⟨db', hrun, hbalance, -⟩ := accumulateRewardsAndCountSigs_even
    ⟨fun _ => true, fun _ => none, fun _ => none, nofun, nofun⟩
    (.new fun _ => none) [7, 9, 7] (by decide) (fun _ _ => rfl)
  exact ⟨db', hrun, (hbalance 7).trans (by decide +kernel)⟩

end DyShard.Core
