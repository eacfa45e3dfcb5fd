import DyShard.Core.Engine
import DyShard.Numeric.Decimal

/-!
# Validator wrappers: `staking/types`

A validator is kept with its delegations in one value, the *wrapper*.  The operations on a
delegation keep its tokens together and its undelegations ordered by epoch.
-/

namespace DyShard.Staking

open List Option

open Numeric (Dec)
open DyShard.Core (Undelegation removeUnlockedUndelegations int64)

/-! ## Validators -/

/-- `bls.SerializedPublicKey`. -/
abbrev BLSKey := BitVec 384

/-- `effective.Eligibility`. -/
inductive Eligibility where
  | nil
  | active
  | inactive
  | banned
  deriving DecidableEq

/-- `Description`. -/
structure Description where
  name : String := ""
  identity : String := ""
  website : String := ""
  securityContact : String := ""
  details : String := ""
  deriving DecidableEq

/-- `CommissionRates`. -/
structure CommissionRates where
  rate : Dec
  maxRate : Dec
  maxChangeRate : Dec
  deriving DecidableEq

/-- `Validator`. -/
structure Validator where
  address : Address
  slotPubKeys : List BLSKey
  lastEpochInCommittee : ℤ
  minSelfDelegation : ℤ
  maxTotalDelegation : ℤ
  status : Eligibility
  rates : CommissionRates
  updateHeight : ℕ
  description : Description
  creationHeight : ℕ
  deriving DecidableEq

/-- The errors of the checks of a wrapper. -/
inductive SanityError where
  | exceedMaximumLength (what : String) (length maximum : ℕ)
  | needAtLeastOneSlotKey
  | excessiveBLSKeys
  | minSelfDelegationTooSmall
  | invalidMaxTotalDelegation
  | invalidCommissionRate
  | commissionRateTooLarge
  | duplicateSlotKeys
  | invalidSelfDelegation
  | invalidTotalDelegation
  deriving DecidableEq

/-- The text of the error, without the context that `errors.Wrapf` puts before it. -/
def SanityError.text : SanityError → String
  | .exceedMaximumLength what length maximum =>
    what ++ " " ++ toString length ++ " " ++ toString maximum
  | .needAtLeastOneSlotKey => "need at least one slot key"
  | .excessiveBLSKeys => "more slot keys provided than allowed"
  | .minSelfDelegationTooSmall =>
    "min_self_delegation must be greater than or equal to 10,000 ONE"
  | .invalidMaxTotalDelegation => "max_total_delegation can not be less than min_self_delegation"
  | .invalidCommissionRate =>
    "commission rate, change rate and max rate should be a value ranging from 0.0 to 1.0"
  | .commissionRateTooLarge =>
    "commission rate and change rate can not be larger than max commission rate"
  | .duplicateSlotKeys => "slot keys can not have duplicates"
  | .invalidSelfDelegation => "self delegation can not be less than min_self_delegation"
  | .invalidTotalDelegation => "total delegation can not be bigger than max_total_delegation"

/-- One test of `EnsureLength`: the length is in bytes. -/
def ensureAtMost (maximum : ℕ) (what field : String) : Except SanityError Unit :=
  if maximum < field.utf8ByteSize then
    .error (.exceedMaximumLength what field.utf8ByteSize maximum)
  else .ok ()

/-- `EnsureLength`. -/
def Description.ensureLength (d : Description) : Except SanityError Unit := do
  ensureAtMost 140 "exceed maximum name length" d.name
  ensureAtMost 140 "exceed Maximum Length identity" d.identity
  ensureAtMost 140 "exceed Maximum Length website" d.website
  ensureAtMost 140 "exceed Maximum Length" d.securityContact
  ensureAtMost 280 "exceed Maximum Length for details" d.details

/-- `maxBLSPerValidator`. -/
def maxBLSPerValidator : ℕ := 106

/-- `denominations.One`. -/
def one : ℤ := 10 ^ 18

/-- `minimumStake`. -/
def minimumStake : ℤ := one * 10000

/-- A rate is outside of `[0, 1]`. -/
def badRate (r : Dec) : Prop := r.int < Dec.zeroDec.int ∨ Dec.oneDec.int < r.int

instance (r : Dec) : Decidable (badRate r) := by
  unfold badRate
  infer_instance

/-- `Validator.SanityCheck`. -/
def Validator.sanityCheck (v : Validator) : Except SanityError Unit := do
  v.description.ensureLength
  if v.slotPubKeys = [] then throw .needAtLeastOneSlotKey
  if maxBLSPerValidator < v.slotPubKeys.length then throw .excessiveBLSKeys
  if v.minSelfDelegation < minimumStake then throw .minSelfDelegationTooSmall
  if v.maxTotalDelegation < v.minSelfDelegation then throw .invalidMaxTotalDelegation
  if badRate v.rates.rate ∨ badRate v.rates.maxRate ∨ badRate v.rates.maxChangeRate then
    throw .invalidCommissionRate
  if v.rates.maxRate.int < v.rates.rate.int ∨ v.rates.maxRate.int < v.rates.maxChangeRate.int then
    throw .commissionRateTooLarge
  if ¬ v.slotPubKeys.Nodup then throw .duplicateSlotKeys

/-! ## Delegations -/

deriving instance DecidableEq for Core.Undelegation

/-- `Delegation`. -/
structure Delegation where
  delegatorAddress : Address
  amount : ℤ
  reward : ℤ
  undelegations : List Undelegation
  deriving DecidableEq

/-- `NewDelegation`. -/
def newDelegation (delegatorAddr : Address) (amount : ℤ) : Delegation :=
  ⟨delegatorAddr, amount, 0, []⟩

/-- `ValidatorWrapper`. -/
structure ValidatorWrapper extends Validator where
  delegations : List Delegation
  numBlocksToSign : ℤ
  numBlocksSigned : ℤ
  blockReward : ℤ
  deriving DecidableEq

namespace ValidatorWrapper

/-- `TotalDelegation`. -/
def totalDelegation (w : ValidatorWrapper) : ℤ := (w.delegations.map (·.amount)).sum

/-- `ValidatorWrapper.SanityCheck`. -/
def sanityCheck (w : ValidatorWrapper) : Except SanityError Unit := do
  w.toValidator.sanityCheck
  match w.delegations with
  | [] => throw .invalidSelfDelegation
  | self :: _ =>
    if w.status ≠ .banned ∧ self.amount < w.minSelfDelegation ∧ w.status = .active then
      throw .invalidSelfDelegation
  if w.maxTotalDelegation < w.totalDelegation then throw .invalidTotalDelegation

end ValidatorWrapper

/-- The errors of `Undelegate`. -/
inductive UndelegateError where
  | invalidAmount
  | insufficientBalance
  deriving DecidableEq

/-- The first undelegation of the epoch is raised; `none` if there is none. -/
def addToEpoch (epoch amt : ℤ) : List Undelegation → Option (List Undelegation)
  | [] => none
  | u :: us =>
    if u.epoch = epoch then some ({ u with amount := u.amount + amt } :: us)
    else (addToEpoch epoch amt us).map (u :: ·)

/-- An undelegation is added: to the one of the same epoch, or as a new one in a stable
sort by epoch. -/
def addUndelegation (epoch amt : ℤ) (us : List Undelegation) : List Undelegation :=
  (addToEpoch epoch amt us).getD
    ((us ++ [(⟨amt, epoch⟩ : Undelegation)]).mergeSort fun a b => decide (a.epoch ≤ b.epoch))

/-- `Undelegate`. -/
def Delegation.undelegate (epoch amt : ℤ) (d : Delegation) : Except UndelegateError Delegation :=
  if amt ≤ 0 then .error .invalidAmount
  else if d.amount < amt then .error .insufficientBalance
  else .ok { d with
    amount := d.amount - amt
    undelegations := addUndelegation epoch amt d.undelegations }

/-- A redelegation over the undelegations before the epoch: the rest to pay, and what stays. -/
def drain (epoch : ℤ) : (delegateBalance : ℤ) → List Undelegation → ℤ × List Undelegation
  | delegateBalance, [] => (delegateBalance, [])
  | delegateBalance, u :: us =>
    if epoch ≤ u.epoch then (delegateBalance, u :: us)
    else if u.amount ≤ delegateBalance then drain epoch (delegateBalance - u.amount) us
    else (0, { u with amount := u.amount - delegateBalance } :: us)

/-! ## Tokens -/

/-- The tokens in undelegations. -/
def inUndelegation (us : List Undelegation) : ℤ := (us.map (·.amount)).sum

/-- The tokens of a delegation. -/
def Delegation.total (d : Delegation) : ℤ := d.amount + d.reward + inUndelegation d.undelegations

/-- The tokens of a validator. -/
def ValidatorWrapper.total (w : ValidatorWrapper) : ℤ := (w.delegations.map (·.total)).sum

variable {epoch amt : ℤ} {us us' : List Undelegation}

theorem addToEpoch_eq_some (h : addToEpoch epoch amt us = some us') :
    ∃ before u after, us = before ++ u :: after ∧
      us' = before ++ { u with amount := u.amount + amt } :: after := by
  induction us generalizing us' with
  | nil => cases h
  | cons u us ih =>
    unfold addToEpoch at h
    split_ifs at h
    · cases h
      exact ⟨[], u, us, rfl, rfl⟩
    · obtain ⟨us'', hrest, rfl⟩ := map_eq_some_iff.1 h
      obtain ⟨before, v, after, rfl, rfl⟩ := ih hrest
      exact ⟨u :: before, v, after, rfl, rfl⟩

theorem sum_addToEpoch (h : addToEpoch epoch amt us = some us') :
    inUndelegation us' = inUndelegation us + amt := by
  obtain ⟨before, u, after, rfl, rfl⟩ := addToEpoch_eq_some h
  simp only [inUndelegation, map_append, sum_append, map_cons, sum_cons]
  ring

theorem sum_addUndelegation (epoch amt : ℤ) (us : List Undelegation) :
    inUndelegation (addUndelegation epoch amt us) = inUndelegation us + amt := by
  unfold addUndelegation
  cases h : addToEpoch epoch amt us with
  | some us' => exact sum_addToEpoch h
  | none =>
    have hperm := mergeSort_perm (us ++ [⟨amt, epoch⟩])
      fun a b : Undelegation => decide (a.epoch ≤ b.epoch)
    rw [getD_none, inUndelegation, (hperm.map (·.amount)).sum_eq]
    simp [inUndelegation]

theorem total_undelegate {d d' : Delegation} (h : d.undelegate epoch amt = .ok d') :
    d'.total = d.total := by
  unfold Delegation.undelegate at h
  split_ifs at h
  cases h
  simp only [Delegation.total, sum_addUndelegation]
  ring

theorem sum_drain (epoch delegateBalance : ℤ) (us : List Undelegation) :
    inUndelegation (drain epoch delegateBalance us).2 - (drain epoch delegateBalance us).1 =
      inUndelegation us - delegateBalance := by
  induction us generalizing delegateBalance with
  | nil => simp [drain, inUndelegation]
  | cons u us ih =>
    unfold drain
    split_ifs
    · rfl
    · rw [ih]
      simp only [inUndelegation, map_cons, sum_cons]
      ring
    · simp only [inUndelegation, map_cons, sum_cons]
      ring

theorem sum_removeUnlocked (curEpoch lastEpoch lockPeriod : ℤ) (noEarlyUnlock : Bool)
    (us : List Undelegation) :
    (removeUnlockedUndelegations curEpoch lastEpoch lockPeriod noEarlyUnlock us).1 +
        inUndelegation (removeUnlockedUndelegations curEpoch lastEpoch lockPeriod
          noEarlyUnlock us).2 = inUndelegation us := by
  induction us with
  | nil => rfl
  | cons u us ih =>
    unfold removeUnlockedUndelegations
    split_ifs
    · simp only [inUndelegation, map_cons, sum_cons] at ih ⊢
      linarith
    · exact zero_add _

/-! ## Order and sign -/

/-- The undelegations are strictly increasing by epoch. -/
def Strict (us : List Undelegation) : Prop := us.Pairwise fun a b => a.epoch < b.epoch

/-- The undelegations are sorted by epoch. -/
def Sorted (us : List Undelegation) : Prop := us.Pairwise fun a b => a.epoch ≤ b.epoch

/-- No amount is negative. -/
def Nonneg (us : List Undelegation) : Prop := ∀ u ∈ us, 0 ≤ u.amount

theorem strict_iff_epochs :
    Strict us ↔ (us.map (·.epoch)).Pairwise (· < ·) := (pairwise_map).symm

theorem epochs_addToEpoch (h : addToEpoch epoch amt us = some us') :
    us'.map (·.epoch) = us.map (·.epoch) := by
  obtain ⟨before, u, after, rfl, rfl⟩ := addToEpoch_eq_some h
  simp

theorem addToEpoch_eq_none (h : addToEpoch epoch amt us = none) : epoch ∉ us.map (·.epoch) := by
  induction us with
  | nil => exact not_mem_nil
  | cons u us ih =>
    unfold addToEpoch at h
    split_ifs at h with hepoch
    rw [map_cons, mem_cons, not_or]
    exact ⟨Ne.symm hepoch, ih (map_eq_none_iff.1 h)⟩

theorem sorted_mergeSort (us : List Undelegation) :
    Sorted (us.mergeSort fun a b => decide (a.epoch ≤ b.epoch)) := by
  have htrans : ∀ a b c : Undelegation, decide (a.epoch ≤ b.epoch) = true →
      decide (b.epoch ≤ c.epoch) = true → decide (a.epoch ≤ c.epoch) = true := by
    intro a b c hab hbc
    simp only [decide_eq_true_eq] at hab hbc ⊢
    exact hab.trans hbc
  have htotal : ∀ a b : Undelegation,
      (decide (a.epoch ≤ b.epoch) || decide (b.epoch ≤ a.epoch)) = true :=
    fun a b => by simpa using le_total a.epoch b.epoch
  simpa only [Sorted, decide_eq_true_eq] using pairwise_mergeSort htrans htotal us

theorem strict_mergeSort (h : (us.map (·.epoch)).Nodup) :
    Strict (us.mergeSort fun a b => decide (a.epoch ≤ b.epoch)) := by
  have hperm := (mergeSort_perm us fun a b => decide (a.epoch ≤ b.epoch)).map (·.epoch)
  have hne : (us.mergeSort fun a b => decide (a.epoch ≤ b.epoch)).Pairwise
      fun a b => a.epoch ≠ b.epoch := pairwise_map.1 (hperm.nodup_iff.2 h)
  exact ((sorted_mergeSort us).and hne).imp fun hab => lt_of_le_of_ne hab.1 hab.2

theorem strict_addUndelegation (h : Strict us) (epoch amt : ℤ) :
    Strict (addUndelegation epoch amt us) := by
  unfold addUndelegation
  cases hadd : addToEpoch epoch amt us with
  | some us' =>
    rw [getD_some, strict_iff_epochs, epochs_addToEpoch hadd]
    exact strict_iff_epochs.1 h
  | none =>
    refine strict_mergeSort ?_
    have hnodup : (us.map (·.epoch)).Nodup := (strict_iff_epochs.1 h).imp fun hlt => hlt.ne
    rw [map_append, nodup_append]
    refine ⟨hnodup, nodup_singleton _, fun a ha b hb heq => ?_⟩
    obtain rfl := mem_singleton.1 hb
    exact addToEpoch_eq_none hadd (heq ▸ ha)

theorem sorted_addUndelegation (h : Sorted us) (epoch amt : ℤ) :
    Sorted (addUndelegation epoch amt us) := by
  unfold addUndelegation
  cases hadd : addToEpoch epoch amt us with
  | some us' =>
    have hus : (us.map (·.epoch)).Pairwise (· ≤ ·) := pairwise_map.2 h
    rw [← epochs_addToEpoch hadd] at hus
    exact pairwise_map.1 hus
  | none => exact sorted_mergeSort _

theorem nonneg_addToEpoch (hus : Nonneg us) (hamt : 0 ≤ amt)
    (h : addToEpoch epoch amt us = some us') : Nonneg us' := by
  obtain ⟨before, u, after, rfl, rfl⟩ := addToEpoch_eq_some h
  rw [Nonneg, forall_mem_append, forall_mem_cons] at hus ⊢
  exact ⟨hus.1, add_nonneg hus.2.1 hamt, hus.2.2⟩

theorem nonneg_addUndelegation (h : Nonneg us) (hamt : 0 ≤ amt) :
    Nonneg (addUndelegation epoch amt us) := by
  unfold addUndelegation
  cases hadd : addToEpoch epoch amt us with
  | some us' => exact nonneg_addToEpoch h hamt hadd
  | none =>
    intro u hu
    have hperm := mergeSort_perm (us ++ [⟨amt, epoch⟩])
      fun a b : Undelegation => decide (a.epoch ≤ b.epoch)
    rcases mem_append.1 (hperm.mem_iff.1 hu) with hu | hu
    · exact h u hu
    · rw [mem_singleton.1 hu]
      exact hamt

theorem epochs_drain (epoch delegateBalance : ℤ) (us : List Undelegation) :
    ((drain epoch delegateBalance us).2.map (·.epoch)).Sublist (us.map (·.epoch)) := by
  induction us generalizing delegateBalance with
  | nil => exact .slnil
  | cons u us ih =>
    unfold drain
    split_ifs
    · exact .refl _
    · exact (ih _).cons _
    · exact .refl _

theorem strict_drain (h : Strict us) (epoch delegateBalance : ℤ) :
    Strict (drain epoch delegateBalance us).2 :=
  strict_iff_epochs.2 ((strict_iff_epochs.1 h).sublist (epochs_drain epoch delegateBalance us))

theorem nonneg_drain (h : Nonneg us) (epoch delegateBalance : ℤ) :
    Nonneg (drain epoch delegateBalance us).2 := by
  induction us generalizing delegateBalance with
  | nil => nofun
  | cons u us ih =>
    unfold drain
    split_ifs with _ hamount
    · exact h
    · exact ih (forall_mem_cons.1 h).2 _
    · exact forall_mem_cons.2 ⟨sub_nonneg.2 (not_le.1 hamount).le, (forall_mem_cons.1 h).2⟩

theorem sublist_removeUnlocked (curEpoch lastEpoch lockPeriod : ℤ) (noEarlyUnlock : Bool)
    (us : List Undelegation) :
    (removeUnlockedUndelegations curEpoch lastEpoch lockPeriod noEarlyUnlock us).2.Sublist us := by
  induction us with
  | nil => exact .slnil
  | cons u us ih =>
    unfold removeUnlockedUndelegations
    split_ifs
    · exact ih.cons u
    · exact .refl _

/-! ## What is unlocked -/

/-- The lock has expired, or the validator has been out of the committee for as long. -/
def Expired (curEpoch lastEpoch lockPeriod : ℤ) (noEarlyUnlock : Bool) (u : Undelegation) : Prop :=
  lockPeriod ≤ curEpoch - u.epoch ∨ noEarlyUnlock = false ∧ lockPeriod ≤ curEpoch - lastEpoch

instance {curEpoch lastEpoch lockPeriod : ℤ} {noEarlyUnlock : Bool} :
    DecidablePred (Expired curEpoch lastEpoch lockPeriod noEarlyUnlock) :=
  fun _ => inferInstanceAs (Decidable (_ ∨ _))

/-- The integer is an `int64`. -/
def Fits (x : ℤ) : Prop := -2 ^ 63 ≤ x ∧ x < 2 ^ 63

theorem int64_of_fits {x : ℤ} (h : Fits x) : int64 x = x := by
  unfold Fits at h
  rw [int64, Int.bmod_eq_of_le] <;> omega

section

variable {curEpoch lastEpoch lockPeriod : ℤ} {noEarlyUnlock : Bool}

/-- The loop ends at the first undelegation that is locked: those behind it are younger. -/
theorem removeUnlockedUndelegations_eq (h : Sorted us) (hlast : Fits (curEpoch - lastEpoch))
    (hfits : ∀ u ∈ us, Fits (curEpoch - u.epoch)) :
    removeUnlockedUndelegations curEpoch lastEpoch lockPeriod noEarlyUnlock us =
      (inUndelegation (us.filter (Expired curEpoch lastEpoch lockPeriod noEarlyUnlock ·)),
        us.filter (¬ Expired curEpoch lastEpoch lockPeriod noEarlyUnlock ·)) := by
  induction us with
  | nil => rfl
  | cons u us ih =>
    obtain ⟨hu, hus⟩ := pairwise_cons.1 h
    obtain ⟨hfit, hfits⟩ := forall_mem_cons.1 hfits
    rw [removeUnlockedUndelegations, int64_of_fits hfit, int64_of_fits hlast]
    split_ifs with hexpired
    · have hexpired : Expired curEpoch lastEpoch lockPeriod noEarlyUnlock u := by
        simpa [Expired] using hexpired
      simp [ih hus hfits, hexpired, inUndelegation]
    · have hlocked : ∀ v ∈ u :: us, ¬ Expired curEpoch lastEpoch lockPeriod noEarlyUnlock v := by
        refine forall_mem_cons.2 ⟨by simpa [Expired] using hexpired, fun v hv hexp => ?_⟩
        have hle := hu v hv
        exact hexpired (hexp.imp (fun h => by omega) fun h => by simpa using h)
      rw [filter_eq_nil_iff.2 (by simpa using hlocked), filter_eq_self.2 (by simpa using hlocked)]
      rfl

end

/-- **What is unlocked is exactly what has expired**, where differences of epochs fit into 64 bits.
-/
theorem removeUnlocked_exact (d : Delegation) (hsorted : Sorted d.undelegations) :
    (∀ epoch amt d', d.undelegate epoch amt = .ok d' → Sorted d'.undelegations) ∧
    ∀ curEpoch lastEpoch lockPeriod noEarlyUnlock, Fits (curEpoch - lastEpoch) →
      (∀ u ∈ d.undelegations, Fits (curEpoch - u.epoch)) →
        let expired := Expired curEpoch lastEpoch lockPeriod noEarlyUnlock
        removeUnlockedUndelegations curEpoch lastEpoch lockPeriod noEarlyUnlock d.undelegations =
          (inUndelegation (d.undelegations.filter (expired ·)),
            d.undelegations.filter (¬ expired ·)) := by
  refine ⟨fun epoch amt d' h => ?_, fun _ _ _ _ hlast hus =>
    removeUnlockedUndelegations_eq hsorted hlast hus⟩
  unfold Delegation.undelegate at h
  split_ifs at h
  cases h
  exact sorted_addUndelegation hsorted epoch amt

theorem removeUnlocked_exact_two :
    removeUnlockedUndelegations 10 10 7 true [⟨5, 1⟩, ⟨7, 9⟩] = (5, [⟨7, 9⟩]) :=
  (removeUnlocked_exact ⟨0xaa, 0, 0, [⟨5, 1⟩, ⟨7, 9⟩]⟩ (by simp [Sorted])).2 10 10 7 true
    (by simp [Fits]) (by simp [Fits])

/-- In epoch `2 ^ 63`, an undelegation from epoch 0 is locked. -/
theorem removeUnlocked_wraps :
    removeUnlockedUndelegations (2 ^ 63) (2 ^ 63) 7 true [⟨5, 0⟩] = (0, [⟨5, 0⟩]) := by
  decide

end DyShard.Staking
