import DyShard.Lib.Loop
import DyShard.Staking.Payout
import DyShard.State.History

/-!
# Rewards, slashes and signing counts

What the end of a block does to a wrapper.  A panic of the decimals, or of an index out of range,
is `none`.
-/

namespace DyShard.Staking

open State.RewardFields (payDelegators addReward)

open List Option Int

open Numeric (Dec)
open DyShard.Core (Undelegation)

/-! ## Rewards -/

/-- The fields of a wrapper for `AddReward`. -/
def rewardFields : State.WrapperFields ValidatorWrapper where
  get w := {
    address := w.address
    banned := w.status = .banned
    rate := w.rates.rate
    blockReward := w.blockReward
    delegations := w.delegations.map fun d => ⟨d.delegatorAddress, d.reward⟩ }
  put w v := { w with
    blockReward := v.blockReward
    delegations := zipWith (fun (d : Delegation) (r : State.Delegation) =>
      { d with reward := r.reward }) w.delegations v.delegations }

/-- `lookupDelegatorShares`: a later delegation hides an earlier one of the delegator. -/
def lookupDelegatorShares (snapshot : ValidatorWrapper) : Option (Address → Option Dec) :=
  let totalDelegation := Dec.newDec snapshot.totalDelegation
  if totalDelegation.int = 0 then some fun _ => none
  else snapshot.delegations.foldlM (fun result d =>
    ((Dec.newDec d.amount).quo totalDelegation).map fun percentage =>
      Function.update result d.delegatorAddress (some percentage)) fun _ => none

/-! ## Slashes -/

/-- `payDownAsMuchAsCan`: the debt and the amount after the payment. -/
def payDown (slashDebt nowAmt : ℤ) : ℤ × ℤ :=
  if 0 < nowAmt ∧ 0 < slashDebt then
    if slashDebt ≤ nowAmt then (0, nowAmt - slashDebt) else (slashDebt - nowAmt, 0)
  else (slashDebt, nowAmt)

/-- Undelegations from the epoch of the double signing on pay, up to the first that meets no debt.
-/
def payUndelegations (doubleSignEpoch : ℤ) : ℤ → List Undelegation → ℤ × List Undelegation
  | slashDebt, [] => (slashDebt, [])
  | slashDebt, u :: us =>
    if doubleSignEpoch ≤ u.epoch then
      if slashDebt ≤ 0 then (slashDebt, u :: us)
      else
        let paid := payDown slashDebt u.amount
        let rest := payUndelegations doubleSignEpoch paid.1 us
        (rest.1, { u with amount := paid.2 } :: rest.2)
    else
      let rest := payUndelegations doubleSignEpoch slashDebt us
      (rest.1, u :: rest.2)

/-- What one delegation pays: its amount, its undelegations and then its reward. -/
def Delegation.slash (doubleSignEpoch slashDebt : ℤ) (d : Delegation) : ℤ × Delegation :=
  let paid := payDown slashDebt d.amount
  let undelegated := payUndelegations doubleSignEpoch paid.1 d.undelegations
  let rewarded := payDown undelegated.1 d.reward
  (rewarded.1, { d with
    amount := paid.2
    undelegations := undelegated.2
    reward := rewarded.2 })

/-- Each current delegation of the delegator pays, and the reporter gets half of it. -/
def slashCurrent (doubleSignEpoch : ℤ) (delegator : Address) :
    (slashDebt slashed : ℤ) → List Delegation → ℤ × List Delegation × List ℤ
  | slashDebt, _, [] => (slashDebt, [], [])
  | slashDebt, slashed, d :: ds =>
    if d.delegatorAddress = delegator then
      let paid := d.slash doubleSignEpoch slashDebt
      let slashed := slashed + (slashDebt - paid.1)
      let rest := slashCurrent doubleSignEpoch delegator paid.1 slashed ds
      (rest.1, paid.2 :: rest.2.1, slashed / 2 :: rest.2.2)
    else
      let rest := slashCurrent doubleSignEpoch delegator slashDebt slashed ds
      (rest.1, d :: rest.2.1, rest.2.2)

/-- `applySlashRate`. -/
def applySlashRate (amount : ℤ) (rate : Dec) : Option ℤ :=
  ((Dec.newDec amount).mul rate).map fun d => d.int.tdiv Numeric.precisionReuse

/-- `delegatorSlashApply`: the delegations and the reporter's pay.  A debt below zero is an error.
-/
def delegatorSlashApply (rate : Dec) (doubleSignEpoch : ℤ) :
    (snapshot ds : List Delegation) → Option (List Delegation × List ℤ)
  | [], ds => some (ds, [])
  | s :: snapshot, ds => do
    let slashDebt ← applySlashRate s.amount rate
    let paid := slashCurrent doubleSignEpoch s.delegatorAddress slashDebt 0 ds
    if paid.1 < 0 then none
    else do
      let rest ← delegatorSlashApply rate doubleSignEpoch snapshot paid.2.1
      return (rest.1, paid.2.2 ++ rest.2)

/-- `oneDoubleSignerRate`. -/
def oneDoubleSignerRate : Dec := ⟨2 * 10 ^ 16⟩

/-- The end of `slash.Rate`: not less than the rate of one double signer. -/
def slashRate (rate : Dec) : Dec :=
  if rate.int < oneDoubleSignerRate.int then oneDoubleSignerRate else rate

/-- `slash.Apply`, for one record: the wrapper and what the reporter is paid. -/
def slashApply (snapshot : ValidatorWrapper) (rate : Dec) (doubleSignEpoch : ℤ)
    (w : ValidatorWrapper) : Option (ValidatorWrapper × List ℤ) := do
  let paid ← delegatorSlashApply rate doubleSignEpoch snapshot.delegations w.delegations
  let w := { w with delegations := paid.1, status := .banned }
  if w.sanityCheck = .ok () then return (w, paid.2) else none

/-- `IncrementValidatorSigningCounts`, for one signer or one that is missing. -/
def bumpCount (didSign : Bool) (w : ValidatorWrapper) : ValidatorWrapper :=
  { w with
    numBlocksToSign := w.numBlocksToSign + 1
    numBlocksSigned := if didSign then w.numBlocksSigned + 1 else w.numBlocksSigned }

/-! ## Shape -/

/-- A delegation without negative amounts, its undelegations strictly ordered by epoch. -/
structure Delegation.Fine (d : Delegation) : Prop where
  amount : 0 ≤ d.amount
  reward : 0 ≤ d.reward
  undelegations : Nonneg d.undelegations
  strict : Strict d.undelegations

/-- Two lists of delegations with the same delegators, both fine. -/
structure Aligned (ds ds' : List Delegation) : Prop where
  delegators : ds'.map (·.delegatorAddress) = ds.map (·.delegatorAddress)
  fine : ∀ d ∈ ds', d.Fine

variable {ds : List Delegation} {slashDebt : ℤ} {rate : Dec} {v : State.RewardFields}
  {shareLookup : Address → Option Dec} {v' : State.RewardFields}

theorem Aligned.trans {ds' ds'' : List Delegation} (h : Aligned ds ds') (h' : Aligned ds' ds'') :
    Aligned ds ds'' :=
  ⟨h'.delegators.trans h.delegators, h'.fine⟩

theorem payDown_nonneg {nowAmt : ℤ} (hdebt : 0 ≤ slashDebt) (hnow : 0 ≤ nowAmt) :
    0 ≤ (payDown slashDebt nowAmt).1 ∧ 0 ≤ (payDown slashDebt nowAmt).2 := by
  unfold payDown
  split_ifs with hpos hle
  · exact ⟨le_rfl, sub_nonneg.2 hle⟩
  · exact ⟨sub_nonneg.2 (le_of_not_ge hle), le_rfl⟩
  · exact ⟨hdebt, hnow⟩

theorem payUndelegations_spec (doubleSignEpoch : ℤ) {us : List Undelegation} (hdebt : 0 ≤ slashDebt)
    (hus : Nonneg us) :
    0 ≤ (payUndelegations doubleSignEpoch slashDebt us).1 ∧
      Nonneg (payUndelegations doubleSignEpoch slashDebt us).2 ∧
      (payUndelegations doubleSignEpoch slashDebt us).2.map (·.epoch) = us.map (·.epoch) := by
  induction us generalizing slashDebt with
  | nil => exact ⟨hdebt, hus, rfl⟩
  | cons u us ih =>
    have hu : 0 ≤ u.amount := hus u mem_cons_self
    have hrest : Nonneg us := fun x hx => hus x (mem_cons_of_mem _ hx)
    unfold payUndelegations
    split_ifs with hepoch hzero
    · exact ⟨hdebt, hus, rfl⟩
    · obtain ⟨hpaid, hnow⟩ := payDown_nonneg hdebt hu
      obtain ⟨hleft, hnonneg, hepochs⟩ := ih hpaid hrest
      refine ⟨hleft, ?_, by simp [hepochs]⟩
      exact forall_mem_cons.2 ⟨hnow, hnonneg⟩
    · obtain ⟨hleft, hnonneg, hepochs⟩ := ih hdebt hrest
      exact ⟨hleft, forall_mem_cons.2 ⟨hu, hnonneg⟩, by simp [hepochs]⟩

theorem Delegation.Fine.slash {d : Delegation} (h : d.Fine) (doubleSignEpoch : ℤ)
    (hdebt : 0 ≤ slashDebt) :
    0 ≤ (d.slash doubleSignEpoch slashDebt).1 ∧ (d.slash doubleSignEpoch slashDebt).2.Fine := by
  obtain ⟨hdebt₁, hamount⟩ := payDown_nonneg hdebt h.amount
  obtain ⟨hdebt₂, hnonneg, hepochs⟩ :=
    payUndelegations_spec doubleSignEpoch hdebt₁ h.undelegations
  obtain ⟨hdebt₃, hreward⟩ := payDown_nonneg hdebt₂ h.reward
  refine ⟨hdebt₃, hamount, hreward, hnonneg, ?_⟩
  rw [strict_iff_epochs]
  change Pairwise _ (map _ (payUndelegations _ _ _).2)
  rw [hepochs, ← strict_iff_epochs]
  exact h.strict

theorem aligned_slashCurrent (doubleSignEpoch : ℤ) (delegator : Address) (slashed : ℤ)
    (hdebt : 0 ≤ slashDebt) (hds : ∀ d ∈ ds, d.Fine) :
    0 ≤ (slashCurrent doubleSignEpoch delegator slashDebt slashed ds).1 ∧
      Aligned ds (slashCurrent doubleSignEpoch delegator slashDebt slashed ds).2.1 := by
  induction ds generalizing slashDebt slashed with
  | nil => exact ⟨hdebt, rfl, hds⟩
  | cons d ds ih =>
    have hd := hds d mem_cons_self
    have hrest : ∀ x ∈ ds, x.Fine := fun x hx => hds x (mem_cons_of_mem _ hx)
    unfold slashCurrent
    split_ifs with hmatch
    · obtain ⟨hpaid, hfine⟩ := hd.slash doubleSignEpoch hdebt
      obtain ⟨hleft, haligned⟩ :=
        ih (slashed + (slashDebt - (d.slash doubleSignEpoch slashDebt).1)) hpaid hrest
      refine ⟨hleft, ?_, forall_mem_cons.2 ⟨hfine, haligned.fine⟩⟩
      simp only [map_cons, haligned.delegators]
      rfl
    · obtain ⟨hleft, haligned⟩ := ih slashed hdebt hrest
      refine ⟨hleft, ?_, forall_mem_cons.2 ⟨hd, haligned.fine⟩⟩
      simp only [map_cons, haligned.delegators]

theorem applySlashRate_nonneg {amount debt : ℤ} (hamount : 0 ≤ amount) (hrate : 0 ≤ rate.int)
    (h : applySlashRate amount rate = some debt) : 0 ≤ debt := by
  unfold applySlashRate at h
  obtain ⟨e, he, rfl⟩ := map_eq_some_iff.1 h
  have hdec : 0 ≤ (Dec.newDec amount).int :=
    Int.mul_nonneg hamount Numeric.precisionReuse_pos.le
  exact Int.tdiv_nonneg (Dec.mul_nonneg hdec hrate he) Numeric.precisionReuse_pos.le

/-- **A slash keeps the delegators and lets nothing fall below zero.** -/
theorem aligned_delegatorSlashApply {doubleSignEpoch : ℤ} {snapshot : List Delegation}
    {r : List Delegation × List ℤ} (hrate : 0 ≤ rate.int) (hsnapshot : ∀ d ∈ snapshot, 0 ≤ d.amount)
    (hds : ∀ d ∈ ds, d.Fine) (h : delegatorSlashApply rate doubleSignEpoch snapshot ds = some r) :
    Aligned ds r.1 := by
  induction snapshot generalizing ds r with
  | nil =>
    cases h
    exact ⟨rfl, hds⟩
  | cons s snapshot ih =>
    unfold delegatorSlashApply at h
    obtain ⟨debt, hdebt, h⟩ := bind_eq_some_iff.1 h
    have hnonneg := applySlashRate_nonneg (hsnapshot s mem_cons_self) hrate hdebt
    obtain ⟨-, haligned⟩ := aligned_slashCurrent doubleSignEpoch s.delegatorAddress 0 hnonneg hds
    dsimp only at h
    split_ifs at h
    obtain ⟨rest, hrest, h⟩ := bind_eq_some_iff.1 h
    cases h
    have hinner : Aligned _ rest.1 :=
      ih (fun d hd => hsnapshot d (mem_cons_of_mem _ hd)) haligned.fine hrest
    exact haligned.trans hinner

/-! ## Rewards keep the shape -/

/-- The delegators stay, and no reward is negative. -/
structure Rewards (ds ds' : List State.Delegation) : Prop where
  delegators : ds'.map (·.delegatorAddress) = ds.map (·.delegatorAddress)
  nonneg : ∀ d ∈ ds', 0 ≤ d.reward

theorem Rewards.trans {ds ds' ds'' : List State.Delegation} (h : Rewards ds ds')
    (h' : Rewards ds' ds'') : Rewards ds ds'' :=
  ⟨h'.delegators.trans h.delegators, h'.nonneg⟩

theorem rewards_credit {i : ℕ} {amount : ℤ} (hamount : 0 ≤ amount)
    (hv : ∀ d ∈ v.delegations, 0 ≤ d.reward) (h : v.credit i amount = some v') :
    Rewards v.delegations v'.delegations := by
  obtain ⟨d, hd, rfl⟩ := map_eq_some_iff.1 h
  refine ⟨?_, fun x hx => ?_⟩
  · rw [map_set]
    exact set_self_of_getElem? (by rw [getElem?_map, hd]; rfl)
  · obtain hx | rfl := mem_or_eq_of_mem_set hx
    · exact hv x hx
    · exact add_nonneg (hv d (mem_of_getElem? hd)) hamount

theorem share_nonneg {percentage share : Dec} {total : ℤ} (hpercentage : 0 ≤ percentage.int)
    (htotal : 0 ≤ total) (h : percentage.mulInt total = some share) : 0 ≤ share.roundInt := by
  obtain ⟨-, hint⟩ := Dec.checked_eq_some.1 h
  unfold Dec.roundInt
  rw [hint]
  exact Numeric.chopPrecisionAndRound_nonneg (mul_nonneg hpercentage htotal)

theorem rewards_payDelegators {total : ℤ}
    {snapshot : List State.Delegation} {i : ℕ} {pool : ℤ} {r : State.RewardFields × Option ℤ}
    (hshares : ∀ a p, shareLookup a = some p → 0 ≤ p.int) (htotal : 0 ≤ total)
    (hv : ∀ d ∈ v.delegations, 0 ≤ d.reward)
    (h : payDelegators shareLookup total snapshot i v pool = some r) :
    Rewards v.delegations r.1.delegations := by
  induction snapshot generalizing i v pool with
  | nil =>
    cases h
    exact ⟨rfl, hv⟩
  | cons s snapshot ih =>
    unfold payDelegators at h
    cases hlookup : shareLookup s.delegatorAddress with
    | none =>
      rw [hlookup] at h
      cases h
      exact ⟨rfl, hv⟩
    | some percentage =>
      rw [hlookup] at h
      obtain ⟨share, hshare, h⟩ := bind_eq_some_iff.1 h
      obtain ⟨v₁, hv₁, h⟩ := bind_eq_some_iff.1 h
      have hone := rewards_credit (share_nonneg (hshares _ _ hlookup) htotal hshare) hv hv₁
      exact hone.trans (ih hone.nonneg h)

/-- A rate up to one takes at most the whole reward: half a unit of rounding does not reach the
next integer. -/
theorem commission_le {share : Dec} {reward : ℤ} (hpos : 0 ≤ rate.int)
    (hrate : rate.int ≤ Dec.oneDec.int) (hreward : 0 ≤ reward) (h : rate.mulInt reward = some share)
    : share.roundInt ≤ reward := by
  obtain ⟨-, hint⟩ := Dec.checked_eq_some.1 h
  have hround := (Numeric.chopPrecisionAndRound_bounds (mul_nonneg hpos hreward)).1
  have hle : rate.int * reward ≤ Numeric.precisionReuse * reward :=
    mul_le_mul_of_nonneg_right hrate hreward
  have hunit : 0 < Numeric.precisionReuse := Numeric.precisionReuse_pos
  unfold Dec.roundInt
  rw [hint]
  by_contra hlt
  nlinarith

/-- **A reward keeps the delegators and lets no reward fall below zero.** -/
theorem rewards_addReward {snapshot v' : State.RewardFields} {reward : ℤ} (hreward : 0 ≤ reward)
    (hrate : snapshot.rate.int ≤ Dec.oneDec.int)
    (hshares : ∀ a p, shareLookup a = some p → 0 ≤ p.int) (hv : ∀ d ∈ v.delegations, 0 ≤ d.reward)
    (h : snapshot.addReward v reward shareLookup = some v') :
    Rewards v.delegations v'.delegations := by
  unfold addReward at h
  obtain ⟨⟨v₁, pool⟩, hpaid, h⟩ := bind_eq_some_iff.1 h
  obtain ⟨⟨v₂, left⟩, hshared, h⟩ := bind_eq_some_iff.1 h
  -- the commission leaves a pool that is not negative
  have hfirst : Rewards v.delegations v₁.delegations ∧ 0 ≤ pool := by
    by_cases hpos : snapshot.rate.gt .zeroDec = true
    · rw [if_pos hpos] at hpaid
      have hint : 0 ≤ snapshot.rate.int := (of_decide_eq_true hpos : (0 : ℤ) < _).le
      obtain ⟨c, hc, hpaid⟩ := bind_eq_some_iff.1 hpaid
      obtain ⟨x, hx, hpaid⟩ := map_eq_some_iff.1 hpaid
      cases hpaid
      have hcredit := rewards_credit (v := { v with blockReward := v.blockReward + reward })
        (share_nonneg hint hreward hc) hv hx
      exact ⟨hcredit, sub_nonneg.2 (commission_le hint hrate hreward hc)⟩
    · rw [if_neg hpos] at hpaid
      cases hpaid
      exact ⟨⟨rfl, hv⟩, hreward⟩
  have hsecond := hfirst.1.trans (rewards_payDelegators hshares hfirst.2 hfirst.1.nonneg hshared)
  cases left with
  | none =>
    cases h
    exact hsecond
  | some rest =>
    dsimp only at h
    split_ifs at h with hrest
    · exact hsecond.trans (rewards_credit hrest.le hsecond.nonneg h)
    · cases h
      exact hsecond

theorem lookupDelegatorShares_nonneg {snapshot : ValidatorWrapper}
    {shares : Address → Option Dec} (hfine : ∀ d ∈ snapshot.delegations, d.Fine)
    (h : lookupDelegatorShares snapshot = some shares) :
    ∀ a p, shares a = some p → 0 ≤ p.int := by
  unfold lookupDelegatorShares at h
  dsimp only at h
  split_ifs at h with hzero
  · cases h
    exact fun a p hp => by cases hp
  · have htotal : 0 ≤ (Dec.newDec snapshot.totalDelegation).int := by
      refine mul_nonneg (sum_nonneg fun x hx => ?_) Numeric.precisionReuse_pos.le
      obtain ⟨d, hd, rfl⟩ := mem_map.1 hx
      exact (hfine d hd).amount
    -- the invariant is about the shares found so far
    refine Loop.foldlM_inv (P := fun found => ∀ a p, found a = some p → 0 ≤ p.int)
      (fun d hd found next hfound hnext a p hp => ?_) (fun a p hp => by cases hp) h
    obtain ⟨percentage, hquo, rfl⟩ := map_eq_some_iff.1 hnext
    by_cases ha : a = d.delegatorAddress
    · rw [ha, Function.update_self] at hp
      cases hp
      have hamount : 0 ≤ (Dec.newDec d.amount).int :=
        mul_nonneg (hfine d hd).amount Numeric.precisionReuse_pos.le
      exact Dec.quo_nonneg hamount htotal hquo
    · rw [Function.update_of_ne ha] at hp
      exact hfound a p hp

theorem aligned_put {w : ValidatorWrapper} (hfine : ∀ d ∈ w.delegations, d.Fine)
    (h : Rewards (rewardFields.get w).delegations v.delegations) :
    Aligned w.delegations (rewardFields.put w v).delegations := by
  obtain ⟨hdelegators, hnonneg⟩ := h
  unfold rewardFields at hdelegators ⊢
  dsimp only at hdelegators ⊢
  generalize w.delegations = ds at hfine hdelegators ⊢
  generalize v.delegations = rs at hdelegators hnonneg
  induction ds generalizing rs with
  | nil => exact ⟨rfl, hfine⟩
  | cons d ds ih =>
    cases rs with
    | nil => simp at hdelegators
    | cons r rs =>
      obtain ⟨-, hrest⟩ := cons.inj hdelegators
      have hfined := hfine d mem_cons_self
      have htail := ih (fun x hx => hfine x (mem_cons_of_mem _ hx)) rs hrest
        fun x hx => hnonneg x (mem_cons_of_mem _ hx)
      refine ⟨?_, forall_mem_cons.2 ⟨?_, htail.fine⟩⟩
      · exact congrArg (d.delegatorAddress :: ·) htail.delegators
      · exact ⟨hfined.amount, hnonneg r mem_cons_self, hfined.undelegations, hfined.strict⟩

theorem slashRate_nonneg (rate : Dec) : 0 ≤ (slashRate rate).int := by
  unfold slashRate
  split_ifs with h
  · decide
  · exact le_trans (by decide) (not_lt.1 h)

/-! ## Exactness -/

/-- The rewards of all delegators. -/
def totalReward (v : State.RewardFields) : ℤ := (v.delegations.map (·.reward)).sum

theorem totalReward_credit {i : ℕ} {amount : ℤ} (h : v.credit i amount = some v') :
    totalReward v' = totalReward v + amount := by
  obtain ⟨d, hd, rfl⟩ := map_eq_some_iff.1 h
  obtain ⟨hi, rfl⟩ := List.getElem?_eq_some_iff.1 hd
  simp [totalReward, map_set, sum_set', hi]

/-- What the loop pays out: the rounded shares of the pool, up to the first that is missing. -/
def paidShares (shareLookup : Address → Option Dec) (total : ℤ) : List State.Delegation → ℤ
  | [] => 0
  | d :: ds =>
    match (shareLookup d.delegatorAddress).bind (·.mulInt total) with
    | none => 0
    | some share => share.roundInt + paidShares shareLookup total ds

theorem totalReward_payDelegators {total pool : ℤ}
    {ds : List State.Delegation} {i : ℕ} {left : Option ℤ}
    (h : payDelegators shareLookup total ds i v pool = some (v', left)) :
    totalReward v' = totalReward v + paidShares shareLookup total ds ∧
      left = if ∀ d ∈ ds, (shareLookup d.delegatorAddress).isSome then
        some (pool - paidShares shareLookup total ds) else none := by
  induction ds generalizing i v pool with
  | nil =>
    cases h
    simp [paidShares]
  | cons d ds ih =>
    unfold payDelegators at h
    cases hlookup : shareLookup d.delegatorAddress with
    | none =>
      rw [hlookup] at h
      cases h
      simp [paidShares, hlookup]
    | some percentage =>
      rw [hlookup] at h
      obtain ⟨share, hshare, h⟩ := bind_eq_some_iff.1 h
      obtain ⟨v₁, hv₁, h⟩ := bind_eq_some_iff.1 h
      obtain ⟨htotal, rfl⟩ := ih h
      simp only [paidShares, hlookup, bind_some, hshare, htotal, totalReward_credit hv₁,
        forall_mem_cons, isSome_some, true_and]
      constructor
      · ring
      · split_ifs
        · rw [sub_sub]
        · rfl

/-- The commission, which the rate takes off the reward. -/
def commission (snapshot : State.RewardFields) (reward : ℤ) : ℤ :=
  if snapshot.rate.gt .zeroDec then ((snapshot.rate.mulInt reward).map (·.roundInt)).getD 0 else 0

/-- **When a reward is paid out exactly**: the commission and the rounded shares come to the reward,
or to less and no share is missing.  No error is returned in any case. -/
theorem rewarded_exact_iff {W : Type} (fields : State.WrapperFields W) {snapshot cur : W}
    {reward : ℤ} {shareLookup : Address → Option Dec} {v : State.RewardFields}
    (hbanned : (fields.get cur).banned = false)
    (h : (fields.get snapshot).addReward (fields.get cur) reward shareLookup = some v) :
    State.rewarded fields snapshot reward shareLookup (some cur) =
        some (true, some (fields.put cur v)) ∧
      (totalReward v = totalReward (fields.get cur) + reward ↔
        let c := commission (fields.get snapshot) reward
        let ds := (fields.get snapshot).delegations
        let paid := c + paidShares shareLookup (reward - c) ds
        paid = reward ∨ paid ≤ reward ∧ ∀ d ∈ ds, (shareLookup d.delegatorAddress).isSome) := by
  refine ⟨by simp [State.rewarded, hbanned, h], ?_⟩
  generalize fields.get snapshot = snapshot at *
  generalize fields.get cur = cur at *
  unfold addReward at h
  obtain ⟨⟨v₁, pool⟩, hpaid, h⟩ := bind_eq_some_iff.1 h
  obtain ⟨⟨v₂, left⟩, hshared, h⟩ := bind_eq_some_iff.1 h
  have hfirst : totalReward v₁ = totalReward cur + commission snapshot reward ∧
      pool = reward - commission snapshot reward := by
    unfold commission
    split_ifs at hpaid ⊢
    · obtain ⟨c, hc, hpaid⟩ := bind_eq_some_iff.1 hpaid
      obtain ⟨x, hx, hpaid⟩ := map_eq_some_iff.1 hpaid
      cases hpaid
      rw [totalReward_credit hx, hc]
      exact ⟨rfl, rfl⟩
    · cases hpaid
      simp [totalReward]
  obtain ⟨htotal, rfl⟩ := hfirst
  obtain ⟨hshares, rfl⟩ := totalReward_payDelegators hshared
  dsimp only at hshares h
  split_ifs at h with hall
  · dsimp only at h
    split_ifs at h with hrest
    · have hcredit := totalReward_credit h
      simp only [eq_true hall, and_true]
      omega
    · cases h
      omega
  · cases h
    simp only [eq_false hall, and_false, or_false]
    omega

/-- A validator that takes no commission, with two delegators. -/
def pair : State.RewardFields := ⟨1, false, .zeroDec, 0, [⟨1, 0⟩, ⟨2, 0⟩]⟩

/-- The fields themselves as a wrapper. -/
def plain : State.WrapperFields State.RewardFields := ⟨id, fun _ v => v⟩

/-- Half of 4 for each delegator. -/
theorem rewarded_halves : ∃ v, State.rewarded plain pair 4 (fun _ => some ⟨5 * 10 ^ 17⟩)
    (some pair) = some (true, some v) ∧ totalReward v = totalReward pair + 4 := by
  have hsome : (pair.addReward pair 4 fun _ => some ⟨5 * 10 ^ 17⟩).isSome := by decide +kernel
  obtain ⟨v, hv⟩ := isSome_iff_exists.1 hsome
  obtain ⟨hrewarded, hexact⟩ := rewarded_exact_iff plain (rfl : (plain.get pair).banned = false) hv
  exact ⟨v, hrewarded, hexact.2 (by decide +kernel)⟩

/-- **A reward of 3 pays 4** after rounding, and with a share missing 2, without an error. -/
theorem reward_drift :
    (State.rewarded plain pair 3 (fun _ => some ⟨5 * 10 ^ 17⟩) (some pair)).map
        (fun r => (r.1, r.2.map totalReward)) = some (true, some 4) ∧
      (State.rewarded plain pair 3 (fun a => if a = 2 then none else some ⟨5 * 10 ^ 17⟩)
        (some pair)).map (fun r => (r.1, r.2.map totalReward)) = some (true, some 2) := by
  decide +kernel

end DyShard.Staking
