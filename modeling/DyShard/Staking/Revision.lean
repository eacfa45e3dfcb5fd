import DyShard.Staking.Shape

/-!
# Revisions at the end of a block

At the end of a block the loaded wrappers are changed in place.  Nobody joins or leaves a validator
there, and no key or identity changes.
-/

namespace DyShard.Staking

open Option State Function List DB

open State (DB)
open Numeric (Dec)
open DyShard.Core (Undelegation)

/-! ## Revisions of a wrapper -/

/-- A wrapper of the right shape whose commission is at most everything. -/
structure Regular (v : Address) (w : ValidatorWrapper) : Prop where
  shape : Shape v w
  rate : w.rates.rate.int ≤ Dec.oneDec.int

/-- The same delegators, keys and identity. -/
structure Matches (w w' : ValidatorWrapper) : Prop where
  delegators : w'.delegators = w.delegators
  slotPubKeys : w'.slotPubKeys = w.slotPubKeys
  identity : w'.description.identity = w.description.identity

theorem Matches.refl (w : ValidatorWrapper) : Matches w w := ⟨rfl, rfl, rfl⟩

variable {w w' snapshot : ValidatorWrapper} {v : Address} {shareLookup : Address → Option Dec}

theorem Matches.trans {w'' : ValidatorWrapper} (h : Matches w w') (h' : Matches w' w'') :
    Matches w w'' :=
  ⟨h'.delegators.trans h.delegators, h'.slotPubKeys.trans h.slotPubKeys,
    h'.identity.trans h.identity⟩

/-- A wrapper that matches another one, and is regular if that one is. -/
structure Revises (v : Address) (w w' : ValidatorWrapper) : Prop where
  same : Regular v w → Matches w w'
  regular : Regular v w → Regular v w'

theorem Revises.refl (v : Address) (w : ValidatorWrapper) : Revises v w w :=
  ⟨fun _ => .refl w, id⟩

theorem Revises.trans {w'' : ValidatorWrapper} (h : Revises v w w') (h' : Revises v w' w'') :
    Revises v w w'' :=
  ⟨fun hw => (h.same hw).trans (h'.same (h.regular hw)), fun hw => h'.regular (h.regular hw)⟩

theorem revises_of_aligned (haddress : w'.address = w.address) (hrates : w'.rates = w.rates)
    (hkeys : w'.slotPubKeys = w.slotPubKeys) (hdescription : w'.description = w.description)
    (haligned : (∀ d ∈ w.delegations, d.Fine) → Aligned w.delegations w'.delegations) :
    Revises v w w' where
  same hw := ⟨(haligned hw.shape.fine).delegators, hkeys, by rw [hdescription]⟩
  regular hw := ⟨(hw.shape.aligned haddress (haligned hw.shape.fine)).shape, hrates ▸ hw.rate⟩

theorem revises_of_delegations (haddress : w'.address = w.address) (hrates : w'.rates = w.rates)
    (hkeys : w'.slotPubKeys = w.slotPubKeys) (hdescription : w'.description = w.description)
    (hdelegations : w'.delegations = w.delegations) : Revises v w w' :=
  revises_of_aligned haddress hrates hkeys hdescription fun hfine => by
    rw [hdelegations]
    exact ⟨rfl, hfine⟩

theorem revises_raiseRate (v : Address) (w : ValidatorWrapper) :
    Revises v w (fields.raiseRate w) := by
  unfold fields
  dsimp only
  split_ifs
  · have hrate : minCommissionRate.int ≤ Dec.oneDec.int := by decide
    refine ⟨fun _ => ⟨rfl, rfl, rfl⟩, fun hw => ⟨?_, hrate⟩⟩
    exact ⟨hw.shape.address, hw.shape.distinct, hw.shape.own, hw.shape.fine⟩
  · exact .refl v w

theorem revises_updateEPOSStatus (v : Address) (snapshot w : ValidatorWrapper) :
    Revises v w (fields.updateEPOSStatus snapshot w) := by
  unfold fields
  dsimp only
  split_ifs
  · exact revises_of_delegations rfl rfl rfl rfl rfl
  · exact .refl v w

theorem revises_paidOut (v : Address) (w : ValidatorWrapper)
    (curEpoch lastEpoch lockPeriod : ℤ) (noEarlyUnlock : Bool) :
    Revises v w (w.setUndelegations (paidOut
      (Core.removeUnlockedUndelegations curEpoch lastEpoch lockPeriod noEarlyUnlock)
      (fields.delegations w))) := by
  refine revises_of_aligned rfl rfl rfl rfl fun hfine => ?_
  unfold ValidatorWrapper.setUndelegations fields paidOut
  dsimp only
  generalize w.delegations = ds at hfine
  induction ds with
  | nil => exact ⟨rfl, hfine⟩
  | cons d ds ih =>
    have hd := hfine d mem_cons_self
    have hsub := sublist_removeUnlocked curEpoch lastEpoch lockPeriod noEarlyUnlock d.undelegations
    have htail := ih fun x hx => hfine x (mem_cons_of_mem _ hx)
    refine ⟨congrArg (d.delegatorAddress :: ·) htail.delegators,
      forall_mem_cons.2 ⟨⟨hd.amount, hd.reward, ?_, ?_⟩, htail.fine⟩⟩
    · exact fun u hu => hd.undelegations u (hsub.subset hu)
    · exact hd.strict.sublist hsub

theorem revises_slashApply {rate : Dec} {doubleSignEpoch : ℤ} {r : ValidatorWrapper × List ℤ}
    (hsnapshot : Regular v snapshot)
    (h : slashApply snapshot (slashRate rate) doubleSignEpoch w = some r) : Revises v w r.1 := by
  unfold slashApply at h
  obtain ⟨paid, hpaid, h⟩ := bind_eq_some_iff.1 h
  dsimp only at h
  split_ifs at h
  cases h
  refine revises_of_aligned rfl rfl rfl rfl fun hfine => ?_
  exact aligned_delegatorSlashApply (slashRate_nonneg rate)
    (fun d hd => (hsnapshot.shape.fine d hd).amount) hfine hpaid

theorem revises_addReward {reward : ℤ} {r : RewardFields}
    (hsnapshot : Regular v snapshot) (hreward : 0 ≤ reward)
    (hshares : lookupDelegatorShares snapshot = some shareLookup)
    (h : (rewardFields.get snapshot).addReward (rewardFields.get w) reward shareLookup = some r) :
    Revises v w (rewardFields.put w r) := by
  refine revises_of_aligned rfl rfl rfl rfl fun hfine => aligned_put hfine ?_
  refine rewards_addReward hreward hsnapshot.rate
    (lookupDelegatorShares_nonneg hsnapshot.shape.fine hshares) (fun d hd => ?_) h
  obtain ⟨x, hx, rfl⟩ := mem_map.1 hd
  exact (hfine x hx).reward

/-! ## Revisions of a state -/

variable {rlp : WrapperRlp} {db db' : DB ValidatorWrapper} {v : Address}

/-- The wrappers in force are revised, and the stored ones stay as they are. -/
structure Revised (rlp : WrapperRlp) (db db' : DB ValidatorWrapper) : Prop where
  wrapper : db'.validatorWrapperCopy rlp.codec = db.validatorWrapperCopy rlp.codec
  current : ∀ v, Option.Rel (Revises v) (current rlp db v) (current rlp db' v)
  flagged : ∀ v, Flagged db' v ↔ Flagged db v
  suicided : ∀ a, (db'.face a).suicided = (db.face a).suicided
  backed : db.Backed → db'.Backed

theorem revises_option_refl (v : Address) (w : Option ValidatorWrapper) :
    Option.Rel (Revises v) w w := by
  cases w with
  | none => exact .none
  | some w => exact .some (.refl v w)

theorem Revised.refl (db : DB ValidatorWrapper) : Revised rlp db db :=
  ⟨rfl, fun v => revises_option_refl v _, fun _ => Iff.rfl, fun _ => rfl, id⟩

theorem Revised.trans {db'' : DB ValidatorWrapper} (h : Revised rlp db db')
    (h' : Revised rlp db' db'') : Revised rlp db db'' where
  wrapper := h'.wrapper.trans h.wrapper
  current v := by
    have hfirst := h.current v
    have hsecond := h'.current v
    revert hfirst hsecond
    generalize Staking.current rlp db v = w
    generalize Staking.current rlp db' v = w'
    generalize Staking.current rlp db'' v = w''
    rintro (⟨hrev⟩ | _) (⟨hrev'⟩ | _)
    · exact .some (hrev.trans hrev')
    · exact .none
  flagged v := (h'.flagged v).trans (h.flagged v)
  suicided a := (h'.suicided a).trans (h.suicided a)
  backed hdb := h'.backed (h.backed hdb)

theorem current_same (h : SameStaking rlp.codec db db') (v : Address) :
    current rlp db' v = current rlp db v := by
  unfold current
  rw [h.cached, h.wrapper]

theorem revised_of_same (h : SameStaking rlp.codec db db') : Revised rlp db db' where
  wrapper := h.wrapper
  current v := by
    rw [current_same h]
    exact revises_option_refl v _
  flagged v := by rw [Flagged, Flagged, h.storage]
  suicided := h.suicided
  backed := h.backed

theorem revised_cacheValidator (hcurrent : current rlp db v = some w) (hrev : Revises v w w') :
    Revised rlp db (db.cacheValidator v w') where
  wrapper := rfl
  current x := by
    by_cases hx : x = v
    · subst hx
      rw [hcurrent, current_cacheValidator]
      exact .some hrev
    · have hother : current rlp (db.cacheValidator v w') x = current rlp db x := by
        unfold current cacheValidator
        dsimp only
        rw [update_of_ne hx]
        rfl
      rw [hother]
      exact revises_option_refl x _
  flagged _ := Iff.rfl
  suicided _ := rfl
  backed hdb := hdb.cacheValidator v w'

theorem revised_validatorWrapper (rlp : WrapperRlp) (db : DB ValidatorWrapper) (v : Address) :
    Revised rlp db (db.validatorWrapper rlp.codec v).1 ∧
      (db.validatorWrapper rlp.codec v).2 = current rlp db v ∧
      current rlp (db.validatorWrapper rlp.codec v).1 v = current rlp db v := by
  unfold validatorWrapper current
  cases hcached : db.stateValidators v with
  | some w => exact ⟨.refl db, rfl, by rw [hcached]⟩
  | none =>
    cases hcopy : db.validatorWrapperCopy rlp.codec v with
    | none => exact ⟨.refl db, rfl, by rw [hcached, hcopy]⟩
    | some w =>
      have hcurrent : current rlp db v = some w := by simp [current, hcached, hcopy]
      exact ⟨revised_cacheValidator hcurrent (.refl v w), rfl, current_cacheValidator db v w⟩

/-! ## Programs -/

/-- Every run of the program revises. -/
def Revising {α : Type} (rlp : WrapperRlp) (p : Client ValidatorWrapper α) : Prop :=
  ∀ db r db', run rlp.codec p db = some (r, db') → Revised rlp db db'

section Revising

variable {α β : Type}

theorem revising_pure (x : α) : Revising rlp (pure x) := by
  intro db r db' h
  cases h
  exact .refl db

theorem Revising.bind {p : Client ValidatorWrapper α}
    {f : α → Client ValidatorWrapper β} (hp : Revising rlp p)
    (hf : ∀ a, Revising rlp (f a)) : Revising rlp (p >>= f) := by
  intro db r db' h
  rw [run_bind] at h
  obtain ⟨⟨a, db₁⟩, hfirst, hrest⟩ := bind_eq_some_iff.1 h
  exact (hp db a db₁ hfirst).trans (hf a db₁ r db' hrest)

theorem revising_addBalance (a : Address) (amount : ℤ) :
    Revising rlp (Client.addBalance a amount) := by
  intro db r db' h
  cases h
  exact revised_of_same (SameStaking.addBalance db a amount)

theorem revising_setState (a : Address) {key : Word} (hkey : key ≠ Core.isValidatorKey)
    (value : Word) : Revising rlp (Client.setState a key value) := by
  intro db r db' h
  cases h
  refine ⟨wrapper_setState db a key value, fun v => ?_, fun v => ?_, fun b => ?_,
    fun hdb => hdb.marks (marks_setState db a key value)⟩
  · have hcurrent : current rlp (db.setState a key value) v = current rlp db v := by
      unfold current
      rw [cached_setState, wrapper_setState]
    rw [hcurrent]
    exact revises_option_refl v _
  · have hflag : (db.setState a key value).getState v Core.isValidatorKey =
        db.getState v Core.isValidatorKey := by
      rw [getState_eq_face, getState_eq_face, face_setState]
      by_cases hv : v = a
      · subst hv
        rw [update_self]
        unfold Face.write
        split
        · rfl
        · exact update_of_ne hkey.symm _ _
      · rw [update_of_ne hv]
    rw [Flagged, Flagged, hflag]
  · rw [face_setState, suicided_update_write]

theorem revising_validatorWrapper {k : Option ValidatorWrapper → Client ValidatorWrapper α}
    (hnone : Revising rlp (k none))
    (hsome : ∀ w db r db', current rlp db v = some w → run rlp.codec (k (some w)) db =
      some (r, db') → Revised rlp db db') :
    Revising rlp (Client.validatorWrapper v >>= k) := by
  intro db r db' h
  obtain ⟨hload, hfound, hcurrent⟩ := revised_validatorWrapper rlp db v
  rw [run_bind, run_validatorWrapper, bind_some, hfound] at h
  cases hw : current rlp db v with
  | none =>
    rw [hw] at h
    exact hload.trans (hnone _ r db' h)
  | some w =>
    rw [hw] at h
    exact hload.trans (hsome w _ r db' (hcurrent.trans hw) h)

theorem revising_untilErr {f : α → Client ValidatorWrapper (Option Core.Err)}
    (hf : ∀ a, Revising rlp (f a)) (as : List α) : Revising rlp (Core.untilErr f as) := by
  induction as with
  | nil => exact revising_pure none
  | cons a as ih =>
    refine (hf a).bind fun r => ?_
    cases r with
    | some e => exact revising_pure (some e)
    | none => exact ih

end Revising

/-! ## The end of a block -/

/-- The engine with the fields of this wrapper. -/
def engineOf (engine : Core.Engine ValidatorWrapper) : Core.Engine ValidatorWrapper :=
  { engine with fields := fields, firstElectionEpochKey := firstElectionEpochKey }

theorem same_payoutDelegations {remove : List Undelegation → ℤ × List Undelegation}
    {ds r : List Core.Delegation}
    (h : run rlp.codec (Core.payoutDelegations remove ds) db = some (r, db')) :
    r = paidOut remove ds ∧ SameStaking rlp.codec db db' := by
  induction ds generalizing db db' r with
  | nil =>
    cases h
    exact ⟨rfl, .refl db⟩
  | cons d ds ih =>
    have hrest : ∀ {db₁ : DB ValidatorWrapper}, SameStaking rlp.codec db db₁ →
        run rlp.codec (Core.payoutDelegations remove ds >>= fun ds => pure
          (({ d with undelegations := (remove d.undelegations).2 } : Core.Delegation) :: ds)) db₁ =
          some (r, db') → r = paidOut remove (d :: ds) ∧ SameStaking rlp.codec db db' := by
      intro db₁ hsame hrun
      rw [run_bind] at hrun
      obtain ⟨⟨r₁, db₂⟩, hloop, hend⟩ := bind_eq_some_iff.1 hrun
      obtain ⟨rfl, hsame'⟩ := ih hloop
      cases hend
      exact ⟨rfl, hsame.trans hsame'⟩
    unfold Core.payoutDelegations at h
    by_cases hzero : (remove d.undelegations).1 = 0
    · rw [if_neg (not_not.2 hzero)] at h
      exact hrest (.refl db) h
    · rw [if_pos hzero] at h
      exact hrest (SameStaking.addBalance db d.delegatorAddress _) h

section

variable (rlp : WrapperRlp)

theorem revising_payoutUndelegations (config : Core.ChainConfig)
    (engine : Core.Engine ValidatorWrapper) (header : Core.Preamble) :
    Revising rlp (Core.payoutUndelegations config (engineOf engine) header) := by
  unfold Core.payoutUndelegations
  split
  · exact revising_pure _
  · refine revising_untilErr (fun v => revising_validatorWrapper (revising_pure _) ?_) _
    intro w db r db' hcurrent h
    rw [run_bind] at h
    obtain ⟨⟨ds, db₁⟩, hloop, hput⟩ := bind_eq_some_iff.1 h
    obtain ⟨rfl, hsame⟩ := same_payoutDelegations hloop
    cases hput
    have hcurrent₁ : current rlp db₁ v = some w := (current_same hsame v).trans hcurrent
    exact (revised_of_same hsame).trans
      (revised_cacheValidator hcurrent₁ (revises_paidOut v w _ _ _ _))

theorem revising_updateMinimumCommissionFee (config : Core.ChainConfig)
    (engine : Core.Engine ValidatorWrapper) (electionEpoch : ℤ) (v : Address) :
    Revising rlp (Core.updateMinimumCommissionFee config (engineOf engine) electionEpoch v) := by
  unfold Core.updateMinimumCommissionFee
  refine revising_validatorWrapper (revising_pure _) ?_
  intro w db r db' hcurrent h
  rw [run_bind, run_getState, bind_some] at h
  split_ifs at h
  · cases h
    exact revised_cacheValidator hcurrent (revises_raiseRate v w)
  · cases h
    exact .refl db

theorem revising_setValidatorFirstElectionEpoch (v : Address) (epoch : ℤ) :
    Revising rlp (Core.setValidatorFirstElectionEpoch firstElectionEpochKey v epoch) := by
  unfold Core.setValidatorFirstElectionEpoch
  refine Revising.bind (fun db r db' h => by cases h; exact .refl db) fun firstEpoch => ?_
  split_ifs
  · exact revising_setState v (by decide) _
  · exact revising_pure _

theorem revising_electValidator (config : Core.ChainConfig)
    (engine : Core.Engine ValidatorWrapper) (epoch : ℤ) (v : Address) :
    Revising rlp (Core.electValidator config (engineOf engine) epoch v) := by
  refine revising_validatorWrapper (revising_pure _) ?_
  intro w db r db' hcurrent h
  dsimp only at h
  -- the epoch is noted first, and what follows starts from there
  have hnoted : Revised rlp db (db.cacheValidator v (fields.setLastEpochInCommittee epoch w)) :=
    revised_cacheValidator hcurrent (revises_of_delegations rfl rfl rfl rfl rfl)
  refine hnoted.trans ?_
  split_ifs at h
  · exact ((revising_setValidatorFirstElectionEpoch rlp v epoch).bind fun _ =>
      revising_updateMinimumCommissionFee rlp config engine epoch v) _ r db' h
  · exact revising_pure none _ r db' h

theorem revising_setElectionEpochAndMinFee (config : Core.ChainConfig)
    (engine : Core.Engine ValidatorWrapper) (header : Core.Preamble) :
    Revising rlp (Core.setElectionEpochAndMinFee config (engineOf engine) header) := by
  unfold Core.setElectionEpochAndMinFee
  split
  · exact revising_pure _
  · exact revising_untilErr (revising_electValidator rlp config engine _) _

theorem revising_computeAndMutateEPOSStatus (engine : Core.Engine ValidatorWrapper) (v : Address) :
    Revising rlp (Core.computeAndMutateEPOSStatus (engineOf engine) v) := by
  unfold Core.computeAndMutateEPOSStatus
  refine revising_validatorWrapper (revising_pure _) ?_
  intro w db r db' hcurrent h
  dsimp only at h
  split_ifs at h
  · cases h
    exact .refl db
  · split at h
    · cases h
      exact .refl db
    · cases h
      exact revised_cacheValidator hcurrent (revises_updateEPOSStatus v _ w)

/-- **A committee selection block** pays undelegations out and notes elections and absences. -/
theorem revising_selectCommittee (config : Core.ChainConfig) (engine : Core.Engine ValidatorWrapper)
    (header : Core.Preamble) :
    Revising rlp (Core.selectCommittee config (engineOf engine) header) := by
  unfold Core.selectCommittee
  refine (revising_payoutUndelegations rlp config engine header).bind fun err => ?_
  cases err with
  | some e => exact revising_pure _
  | none =>
    refine (revising_setElectionEpochAndMinFee rlp config engine header).bind fun err => ?_
    cases err with
    | some e => exact revising_pure _
    | none =>
      dsimp only
      split
      · exact revising_pure _
      · exact revising_untilErr (revising_computeAndMutateEPOSStatus rlp engine) _

end

/-- `IncrementValidatorSigningCounts`, for one slot of the committee. -/
def incrementValidatorSigningCounts (v : Address) (didSign : Bool) :
    Client ValidatorWrapper (Option Core.Err) := do
  match ← Client.validatorWrapper v with
  | none => return some Core.failedToGetValidator
  | some w =>
    Client.putValidator v (bumpCount didSign w)
    return none

/-- The payments to the reporter, one for each delegation that is slashed. -/
def payReporter (reporter : Address) : List ℤ → Client ValidatorWrapper Unit
  | [] => return ()
  | halfOfSlashDebt :: rest => do
    Client.addBalance reporter halfOfSlashDebt
    payReporter reporter rest

/-- `slash.Apply`, for one record. -/
def applySlash (offender reporter : Address) (snapshot : ValidatorWrapper) (rate : Dec)
    (doubleSignEpoch : ℤ) : Client ValidatorWrapper (Option Core.Err) := do
  match ← Client.validatorWrapper offender with
  | none => return some (.msg "[Finalize] could not apply slash")
  | some w =>
    match slashApply snapshot (slashRate rate) doubleSignEpoch w with
    | none => return some (.msg "[Finalize] could not apply slash")
    | some (w, paid) =>
      Client.putValidator offender w
      payReporter reporter paid
      return none

theorem revising_incrementValidatorSigningCounts (rlp : WrapperRlp) (v : Address)
    (didSign : Bool) : Revising rlp (incrementValidatorSigningCounts v didSign) := by
  unfold incrementValidatorSigningCounts
  refine revising_validatorWrapper (revising_pure _) ?_
  intro w db r db' hcurrent h
  cases h
  exact revised_cacheValidator hcurrent (revises_of_delegations rfl rfl rfl rfl rfl)

theorem revising_payReporter (rlp : WrapperRlp) (reporter : Address) (paid : List ℤ) :
    Revising rlp (payReporter reporter paid) := by
  induction paid with
  | nil => exact revising_pure _
  | cons half rest ih => exact (revising_addBalance reporter half).bind fun _ => ih

theorem revising_applySlash (rlp : WrapperRlp) (offender reporter : Address)
    (hsnapshot : Regular offender snapshot) (rate : Dec) (doubleSignEpoch : ℤ) :
    Revising rlp (applySlash offender reporter snapshot rate doubleSignEpoch) := by
  unfold applySlash
  refine revising_validatorWrapper (revising_pure _) ?_
  intro w db r db' hcurrent h
  dsimp only at h
  cases hslash : slashApply snapshot (slashRate rate) doubleSignEpoch w with
  | none =>
    rw [hslash] at h
    exact revising_pure _ _ r db' h
  | some s =>
    rw [hslash] at h
    have hput : Revised rlp db (db.cacheValidator offender s.1) :=
      revised_cacheValidator hcurrent (revises_slashApply hsnapshot hslash)
    exact hput.trans (((revising_payReporter rlp reporter s.2).bind fun _ =>
      revising_pure none) _ r db' h)

/-- **A reward**, by a regular snapshot of the validator and its own shares. -/
theorem revised_addReward {reward : ℤ} {ok : Bool}
    (hsnapshot : Regular v snapshot) (hreward : 0 ≤ reward)
    (hshares : lookupDelegatorShares snapshot = some shareLookup)
    (h : db.addReward rlp.codec rewardFields snapshot reward shareLookup = some (db', ok)) :
    Revised rlp db db' := by
  have haddress : (rewardFields.get snapshot).address = v := hsnapshot.shape.address
  unfold addReward at h
  rw [haddress] at h
  split_ifs at h with hzero
  · cases h
    exact .refl db
  · obtain ⟨hload, hfound, hcurrent⟩ := revised_validatorWrapper rlp db v
    refine hload.trans ?_
    dsimp only at h
    obtain ⟨⟨done, w'⟩, hrewarded, hend⟩ := map_eq_some_iff.1 h
    cases hend
    rw [hfound] at hrewarded
    cases hw : current rlp db v with
    | none =>
      rw [hw] at hrewarded
      cases hrewarded
      exact .refl _
    | some w =>
      rw [hw] at hrewarded
      unfold rewarded at hrewarded
      dsimp only at hrewarded
      split_ifs at hrewarded
      · cases hrewarded
        exact .refl _
      · obtain ⟨r, hr, hput⟩ := map_eq_some_iff.1 hrewarded
        cases hput
        exact revised_cacheValidator (hcurrent.trans hw)
          (revises_addReward hsnapshot hreward hshares hr)

theorem revised_setFreezeState (db : DB ValidatorWrapper) (a : Address) (isFreeze : Bool) :
    Revised rlp db (db.setFreezeState a isFreeze) := by
  have hface : ∀ b, ((db.setFreezeState a isFreeze).face b).account = (db.face b).account ∧
      ((db.setFreezeState a isFreeze).face b).suicided = (db.face b).suicided := by
    intro b
    by_cases hb : a = b
    · subst hb
      obtain ⟨hget, hnew⟩ := face_getOrNew db a
      have hself : (db.setFreezeState a isFreeze).face a =
          ((db.getOrNewStateObject a).2.setFreezeState isFreeze).face :=
        face_update_self _ _ (deleted_of_getStateObject hget :)
      rw [hself, ← hnew]
      exact ⟨rfl, rfl⟩
    · rw [face_away (away_setFreezeState db isFreeze hb)]
      exact ⟨rfl, rfl⟩
  have hcached : (db.setFreezeState a isFreeze).stateValidators = db.stateValidators :=
    congrArg Kept.validators (shows_setFreezeState db a isFreeze).kept
  have hwrapper : ∀ v, (db.setFreezeState a isFreeze).validatorWrapperCopy rlp.codec v =
      db.validatorWrapperCopy rlp.codec v := fun v =>
    validatorWrapperCopy_of_code (by rw [(hface v).1])
  refine ⟨funext hwrapper, fun v => ?_, fun v => ?_, fun b => (hface b).2,
    fun hdb => hdb.marks (marks_setFreezeState db a isFreeze)⟩
  · unfold current
    rw [hcached, hwrapper v]
    exact revises_option_refl v _
  · rw [Flagged, Flagged, getState_eq_face, getState_eq_face, (hface v).1]

end DyShard.Staking
