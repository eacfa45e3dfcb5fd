import DyShard.Slash.Verify
import Mathlib.LinearAlgebra.Finsupp.Supported

/-!
# Whom a slash record can hit

`Verify` checks a vote against the sum of its keys, and only keys in both votes have to be the
committee's.  The signature scheme is **ideal**: every holder has a secret, a key is any integer
combination of secrets, and the signers of a payload can sign it together for exactly the
combinations of their own secrets.
-/

namespace DyShard.Slash

open Finsupp (supported mem_supported single)

open Consensus Chain State List TwoKeys

/-! ## Payloads -/

theorem hashBytes_injective : Function.Injective hashBytes := by
  intro h h' heq
  have hbyte : ∀ i < 32, h.extractLsb' (8 * (31 - i)) 8 = h'.extractLsb' (8 * (31 - i)) 8 := by
    intro i hi
    exact map_inj_left.1 heq i (mem_range.2 hi)
  refine BitVec.eq_of_getLsbD_eq fun n hn => ?_
  have hn' := congrArg (fun b : BitVec 8 => b.getLsbD (n % 8)) (hbyte (31 - n / 8) (by omega))
  have hmod : n % 8 < 8 := Nat.mod_lt _ (by decide)
  have hpos : 8 * (31 - (31 - n / 8)) + n % 8 = n := by omega
  simpa [BitVec.getLsbD_extractLsb', hmod, hpos] using hn'

theorem constructCommitPayload_injective (isStaking : ℕ → Bool) (epoch : ℕ)
    (blockNum viewID : UInt64) :
    Function.Injective fun hash => constructCommitPayload isStaking epoch hash blockNum viewID := by
  intro h h' heq
  have hlen : (putUint64 blockNum.toNat ++ hashBytes h).length =
      (putUint64 blockNum.toNat ++ hashBytes h').length := by simp [hashBytes]
  have hboth : putUint64 blockNum.toNat ++ hashBytes h = putUint64 blockNum.toNat ++ hashBytes h' := by
    unfold Chain.constructCommitPayload at heq
    split at heq
    · exact heq
    · exact (append_inj heq hlen).1
  exact hashBytes_injective (append_cancel_left hboth)

/-! ## Ideal signatures -/

variable {ι K W : Type} [DecidableEq K] {candidate : Record K}

/-- A signature is valid only if the signers of the payload hold all secrets of the key. -/
def Ideal (o : Crypto K (ι →₀ ℤ) (List Byte)) (signers : List Byte → Set ι) : Prop :=
  ∀ sig key payload, o.verifyHash sig key payload = true → key ∈ supported ℤ ℤ (signers payload)

/-- A committee key of the offender has signed the payloads of both blocks. -/
def DoubleSigned (parse : K → Option (ι →₀ ℤ)) (chain : CommitteeReader K) (candidate : Record K)
    (signers : List Byte → Set ι) : Prop :=
  ∃ c, subCommittee chain candidate.moment = some c ∧
    ∃ slot ∈ c.slots, slot.ecdsaAddress = candidate.offender ∧
      ∃ key, parse slot.blsPublicKey = some key ∧
        key ∈ supported ℤ ℤ
          (signers (commitPayload chain candidate.moment candidate.firstVote.blockHeaderHash)) ∧
        key ∈ supported ℤ ℤ
          (signers (commitPayload chain candidate.moment candidate.secondVote.blockHeaderHash))

/-- An accepted record is right about the offender, whoever has signed what. -/
def OnlyDoubleSigners (parse : K → Option (ι →₀ ℤ)) (r : Reading K W) (chain : CommitteeReader K)
    (state : DB W) (candidate : Record K) : Prop :=
  ∀ (signers : List Byte → Set ι) (o : Crypto K (ι →₀ ℤ) (List Byte)),
    o.bytesToBLSPublicKey = parse → Ideal o signers →
      (verify o r chain state candidate).1 = .ok () → DoubleSigned parse chain candidate signers

/-- The record passes every check but that of the signatures. -/
structure Charges (parse : K → Option (ι →₀ ℤ)) (r : Reading K W) (chain : CommitteeReader K)
    (state : DB W) (candidate : Record K) (sum₁ sum₂ : ι →₀ ℤ) : Prop where
  admissible : Admissible r chain (state.validatorWrapper r.codec candidate.offender).2 candidate
  owned : ∃ c, subCommittee chain candidate.moment = some c ∧
    ∃ k, doubleSignKeys candidate.firstVote.signerPubKeys candidate.secondVote.signerPubKeys = [k] ∧
      addressForBLSKey c k = some candidate.offender
  first : keySum parse candidate.firstVote.signerPubKeys = some sum₁
  second : keySum parse candidate.secondVote.signerPubKeys = some sum₂

/-- A committee key of the offender has all of its secrets in both sums. -/
def Exposed (parse : K → Option (ι →₀ ℤ)) (chain : CommitteeReader K) (candidate : Record K)
    (sum₁ sum₂ : ι →₀ ℤ) : Prop :=
  ∃ c, subCommittee chain candidate.moment = some c ∧
    ∃ slot ∈ c.slots, slot.ecdsaAddress = candidate.offender ∧
      ∃ key, parse slot.blsPublicKey = some key ∧ key.support ⊆ sum₁.support ∧
        key.support ⊆ sum₂.support

theorem supported_mono_of_support {key sum : ι →₀ ℤ} {s : Set ι} (h : key.support ⊆ sum.support)
    (hsum : sum ∈ supported ℤ ℤ s) : key ∈ supported ℤ ℤ s := by
  exact (Finset.coe_subset.2 h).trans hsum

/-- The scheme in which the signers of a payload can sign for every combination of their
secrets. -/
noncomputable def coalition (parse : K → Option (ι →₀ ℤ))
    (signers : List Byte → Set ι) : Crypto K (ι →₀ ℤ) (List Byte) where
  net := StakedVoteWeight.sixty
  bytesToBLSPublicKey := parse
  deserialize := some
  verifyHash _ key payload :=
    open Classical in decide (key ∈ Finsupp.supported ℤ ℤ (signers payload))

section Exposed

variable {parse : K → Option (ι →₀ ℤ)} {r : Reading K W} {chain : CommitteeReader K} {state : DB W}

omit [DecidableEq K] in
theorem verifyHash_coalition {signers : List Byte → Set ι}
    {sig : List Byte} {key : ι →₀ ℤ} {payload : List Byte} :
    (coalition parse signers).verifyHash sig key payload = true ↔
      key ∈ supported ℤ ℤ (signers payload) := by
  classical
  exact decide_eq_true_iff

/-- The holders of the two sums hold the secrets of a key of the offender. -/
theorem OnlyDoubleSigners.exposed {sum₁ sum₂ : ι →₀ ℤ}
    (h : OnlyDoubleSigners parse r chain state candidate)
    (hcharges : Charges parse r chain state candidate sum₁ sum₂) :
    Exposed parse chain candidate sum₁ sum₂ := by
  let m₁ := commitPayload chain candidate.moment candidate.firstVote.blockHeaderHash
  let m₂ := commitPayload chain candidate.moment candidate.secondVote.blockHeaderHash
  have hm : m₂ ≠ m₁ := fun heq =>
    hcharges.admissible.conflict (constructCommitPayload_injective _ _ _ _ heq.symm)
  let signers : List Byte → Set ι := fun m => if m = m₁ then sum₁.support else sum₂.support
  have hs₁ : signers m₁ = sum₁.support := if_pos rfl
  have hs₂ : signers m₂ = sum₂.support := if_neg hm
  have hself : ∀ p : ι →₀ ℤ, p ∈ supported ℤ ℤ (p.support : Set ι) := fun p =>
    (mem_supported _ _).2 subset_rfl
  have haccept : (verify (coalition parse signers) r chain state candidate).1 = .ok () := by
    obtain ⟨c, hc, hk⟩ := hcharges.owned
    refine verify_eq_ok.2 ⟨hcharges.admissible, c, hc, hk, ?_, ?_⟩
    · refine ⟨_, sum₁, rfl, hcharges.first, verifyHash_coalition.2 ?_⟩
      exact hs₁ ▸ hself sum₁
    · refine ⟨_, sum₂, rfl, hcharges.second, verifyHash_coalition.2 ?_⟩
      exact hs₂ ▸ hself sum₂
  have hideal : Ideal (coalition parse signers) signers := fun _ _ _ hv =>
    verifyHash_coalition.1 hv
  obtain ⟨c, hc, slot, hslot, haddr, key, hkey, h₁, h₂⟩ := h signers _ rfl hideal haccept
  have h₁' : key ∈ supported ℤ ℤ (signers m₁) := h₁
  have h₂' : key ∈ supported ℤ ℤ (signers m₂) := h₂
  rw [hs₁, mem_supported, Finset.coe_subset] at h₁'
  rw [hs₂, mem_supported, Finset.coe_subset] at h₂'
  exact ⟨c, hc, slot, hslot, haddr, key, hkey, h₁', h₂'⟩

theorem onlyDoubleSigners_of_exposed
    (h : ∀ sum₁ sum₂, Charges parse r chain state candidate sum₁ sum₂ →
      Exposed parse chain candidate sum₁ sum₂) :
    OnlyDoubleSigners parse r chain state candidate := by
  intro signers o hparse hideal haccept
  obtain ⟨hadm, c, hc, hk, ⟨σ₁, sum₁, -, hsum₁, hv₁⟩, σ₂, sum₂, -, hsum₂, hv₂⟩ :=
    verify_eq_ok.1 haccept
  rw [hparse] at hsum₁ hsum₂
  obtain ⟨c', hc', slot, hslot, haddr, key, hkey, hsub₁, hsub₂⟩ :=
    h sum₁ sum₂ ⟨hadm, ⟨c, hc, hk⟩, hsum₁, hsum₂⟩
  exact ⟨c', hc', slot, hslot, haddr, key, hkey,
    supported_mono_of_support hsub₁ (hideal _ _ _ hv₁),
    supported_mono_of_support hsub₂ (hideal _ _ _ hv₂)⟩

/-- **Whom a record can hit**: it proves double signing exactly if it cannot pass or the secrets of
a committee key of the offender are in the sum of each vote. -/
theorem onlyDoubleSigners_iff (parse : K → Option (ι →₀ ℤ)) (r : Reading K W)
    (chain : CommitteeReader K) (state : DB W) (candidate : Record K) :
    OnlyDoubleSigners parse r chain state candidate ↔
      ∀ sum₁ sum₂, Charges parse r chain state candidate sum₁ sum₂ →
        Exposed parse chain candidate sum₁ sum₂ :=
  ⟨fun h _ _ hcharges => h.exposed hcharges, onlyDoubleSigners_of_exposed⟩

/-! ## Keys that their holders possess -/

/-- Every key of the list is the secret of one holder. -/
def Possessed (parse : K → Option (ι →₀ ℤ)) (keys : List K) : Prop :=
  ∀ k ∈ keys, ∃ i, parse k = some (single i 1)

omit [DecidableEq K] in
/-- Keys that are secrets do not cancel: each of them is below the sum. -/
theorem le_of_foldlM {keys : List K} (hpos : Possessed parse keys) {acc sum : ι →₀ ℤ}
    (hsum : keys.foldlM (fun p k => (parse k).map (p + ·)) acc = some sum) :
    acc ≤ sum ∧ ∀ k ∈ keys, ∀ key, parse k = some key → acc + key ≤ sum := by
  induction keys generalizing acc with
  | nil =>
    cases hsum
    exact ⟨le_rfl, nofun⟩
  | cons k keys ih =>
    obtain ⟨i, hk⟩ := hpos k mem_cons_self
    rw [foldlM_cons, hk] at hsum
    obtain ⟨hle, hall⟩ := ih (fun k' hk' => hpos k' (mem_cons_of_mem _ hk')) hsum
    have hone : (0 : ι →₀ ℤ) ≤ single i 1 := Finsupp.single_nonneg.2 zero_le_one
    have hacc : acc ≤ acc + single i 1 := le_add_of_nonneg_right hone
    refine ⟨hacc.trans hle, fun k' hk' key hkey => ?_⟩
    rcases mem_cons.1 hk' with rfl | hk'
    · cases hk.symm.trans hkey
      exact hle
    · exact (add_le_add_left hacc key).trans (hall k' hk' key hkey)

omit [DecidableEq K] in
theorem support_subset_keySum {keys : List K}
    (hpos : Possessed parse keys) {sum : ι →₀ ℤ} (hsum : keySum parse keys = some sum) {k : K}
    (hk : k ∈ keys) {i : ι} (hkey : parse k = some (single i 1)) :
    (single i (1 : ℤ)).support ⊆ sum.support := by
  have hle := (le_of_foldlM hpos hsum).2 k hk _ hkey
  have hi : 1 ≤ sum i := by simpa using hle i
  intro j hj
  obtain rfl : j = i := by simpa using Finsupp.support_single_subset hj
  exact Finsupp.mem_support_iff.2 (by omega)

/-- **With proofs of possession nobody is slashed wrongly.** -/
theorem onlyDoubleSigners_of_possessed (hfirst : Possessed parse candidate.firstVote.signerPubKeys)
    (hsecond : Possessed parse candidate.secondVote.signerPubKeys) :
    OnlyDoubleSigners parse r chain state candidate := by
  refine onlyDoubleSigners_of_exposed fun sum₁ sum₂ h => ?_
  obtain ⟨c, hc, k, hk, haddr⟩ := h.owned
  have hmem : k ∈ doubleSignKeys candidate.firstVote.signerPubKeys
      candidate.secondVote.signerPubKeys := by rw [hk]; exact mem_singleton_self k
  obtain ⟨hin₁, hin₂⟩ := mem_filter.1 hmem
  obtain ⟨i, hkey⟩ := hfirst k hin₁
  obtain ⟨slot, hfind, haddr⟩ := Option.map_eq_some_iff.1 haddr
  have hslot : slot.blsPublicKey = k := by simpa using List.find?_some hfind
  exact ⟨c, hc, slot, mem_of_find?_eq_some hfind, haddr, _, hslot ▸ hkey,
    support_subset_keySum hfirst h.first hin₁ hkey,
    support_subset_keySum hsecond h.second (by simpa using hin₂) hkey⟩

end Exposed

/-! ## The rogue key -/

namespace Rogue

/-- The secrets of the validator (0) and of the adversary (1, 2), in keys of the adversary minus
that of the validator. -/
noncomputable def parse : ℕ → Option (ℕ →₀ ℤ)
  | 0 => some (single 0 1)
  | 1 => some (single 1 1 - single 0 1)
  | 2 => some (single 2 1 - single 0 1)
  | _ => none

/-- The committee: the validator. -/
def committee : Committee ℕ where
  shardID := 0
  slots := [⟨0xaa, 0, none⟩]

/-- The chain, in the epoch of the votes. -/
def chain : CommitteeReader ℕ where
  isStaking _ := true
  currentEpoch := 4
  readShardState _ := some [committee]

/-- The record of two votes of the key of the validator and a rogue key. -/
def record : Record ℕ :=
  ⟨⟨4, 0, 10, 11⟩, ⟨[0, 1], 7, []⟩, ⟨[0, 2], 8, []⟩, 0xaa, 0xcc⟩

/-- Nobody but the adversary signs, whatever the payload. -/
def signers (_ : List Byte) : Set ℕ := {1, 2}

theorem single_mem {i : ℕ} (h : i = 1 ∨ i = 2) (payload : List Byte) :
    (single i 1 : ℕ →₀ ℤ) ∈ supported ℤ ℤ (signers payload) :=
  Finsupp.single_mem_supported _ _ (by rcases h with rfl | rfl <;> simp [signers])

theorem admissible :
    Admissible reading chain (state.validatorWrapper reading.codec record.offender).2 record where
  unbanned := ⟨(), by decide +kernel, rfl⟩
  staking := rfl
  reporter := by decide
  conflict := by decide
  epoch := by decide
  digest := by decide

end Rogue

/-- The votes, if every key is a secret. -/
theorem onlyDoubleSigners_secrets :
    OnlyDoubleSigners (fun k => some (single k 1)) reading Rogue.chain state Rogue.record :=
  onlyDoubleSigners_of_possessed (fun k _ => ⟨k, rfl⟩) fun k _ => ⟨k, rfl⟩

/-- **A rogue key slashes the innocent**: the validator's secret has signed nothing. -/
theorem rogue_key_slashes :
    Ideal (coalition Rogue.parse Rogue.signers) Rogue.signers ∧
      (verify (coalition Rogue.parse Rogue.signers) reading Rogue.chain state
        Rogue.record).1 = .ok () ∧
      ¬ DoubleSigned Rogue.parse Rogue.chain Rogue.record Rogue.signers := by
  refine ⟨fun _ _ _ hv => verifyHash_coalition.1 hv, ?_, ?_⟩
  · refine verify_eq_ok.2 ⟨Rogue.admissible, Rogue.committee, rfl, ⟨0, by decide, rfl⟩, ?_, ?_⟩
    · exact ⟨_, single 1 1, rfl, by simp [keySum, coalition, Rogue.record, Rogue.parse],
        verifyHash_coalition.2 (Rogue.single_mem (.inl rfl) _)⟩
    · exact ⟨_, single 2 1, rfl, by simp [keySum, coalition, Rogue.record, Rogue.parse],
        verifyHash_coalition.2 (Rogue.single_mem (.inr rfl) _)⟩
  · rintro ⟨c, hc, slot, hslot, -, key, hkey, hmem, -⟩
    cases hc
    cases mem_singleton.1 hslot
    cases hkey
    have hsupp := (mem_supported _ _).1 hmem
    have hzero : (0 : ℕ) ∈ Rogue.signers
        (commitPayload Rogue.chain Rogue.record.moment Rogue.record.firstVote.blockHeaderHash) :=
      hsupp (by simp)
    simp [Rogue.signers] at hzero

end DyShard.Slash
