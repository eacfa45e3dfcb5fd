import DyShard.Staking.Revision
import DyShard.State.Flush

/-!
# What a message does to every validator

A message stores wrappers that come from the ones in the state: for every validator, also one that
the message does not name, the later wrapper follows the earlier one.
-/

namespace DyShard.Staking

open Function List ValidatorWrapper Sample

open State (DB)
open Numeric (Dec)

variable {rlp : WrapperRlp} {bc : ChainContext} {db db' : DB ValidatorWrapper}

/-! ## Sane wrappers -/

theorem bind_unless_eq_ok {ε β : Type} {c : Prop} [Decidable c] {e : ε} {f : Unit → Except ε β}
    {b : β} : (if c then (throw e : Except ε Unit) >>= f else f ()) = .ok b ↔ ¬ c ∧ f () = .ok b := by
  by_cases hc : c
  · rw [if_pos hc]
    exact ⟨nofun, fun h => absurd hc h.1⟩
  · rw [if_neg hc, and_iff_right hc]

theorem Validator.rate_of_sane {v : Validator} (h : v.sanityCheck = .ok ()) :
    v.rates.rate.int ≤ Dec.oneDec.int := by
  simp only [Validator.sanityCheck, bind_eq_ok, bind_unless_eq_ok] at h
  obtain ⟨-, -, -, -, -, -, hbad, -⟩ := h
  exact not_lt.1 fun hlt => hbad (.inl (.inr hlt))

variable {w : ValidatorWrapper} {v : Address} {m : Delegate} {ws : List ValidatorWrapper}
  {msg : StakeMsg} {db₁ : DB ValidatorWrapper} {epoch : ℕ} {es : List DelegationIndex}

theorem rate_of_sane (h : rlp.codec.sanityCheck w = true) : w.rates.rate.int ≤ Dec.oneDec.int := by
  have hok : w.sanityCheck.isOk = true := h
  unfold sanityCheck at hok
  cases hv : w.toValidator.sanityCheck with
  | ok u => exact Validator.rate_of_sane hv
  | error e =>
    rw [hv] at hok
    cases hok

/-! ## A forced rate -/

/-- The promotion is over; without a first election, which is epoch 0, this one is the first. -/
def Unpromoted (config : Core.ChainConfig) (epoch firstElectionEpoch : ℤ) : Prop :=
  Core.PromoOver config epoch
    (if firstElectionEpoch % 2 ^ 64 = 0 then epoch else firstElectionEpoch)

/-- The rate of an elected validator is set to the minimum. -/
def Forced (config : Core.ChainConfig) (epoch firstElectionEpoch : ℤ) (w : ValidatorWrapper) : Prop :=
  config.isMinCommissionRate epoch.toNat = true ∧ Unpromoted config epoch firstElectionEpoch ∧
    w.rates.rate.int < minCommissionRate.int

instance {config : Core.ChainConfig} {epoch first : ℤ} {w : ValidatorWrapper} :
    Decidable (Forced config epoch first w) := by
  unfold Forced Unpromoted
  infer_instance

/-- What `setElectionEpochAndMinFee` makes of the wrapper of an elected validator. -/
def elect (config : Core.ChainConfig) (epoch firstElectionEpoch : ℤ) (w : ValidatorWrapper) :
    ValidatorWrapper :=
  { w with
    lastEpochInCommittee := epoch
    rates := if Forced config epoch firstElectionEpoch w then
      { w.rates with rate := minCommissionRate } else w.rates }

instance {config : Core.ChainConfig} {epoch first : ℤ} :
    Decidable (Unpromoted config epoch first) := inferInstanceAs (Decidable (Core.PromoOver ..))

theorem elect_of_isMinCommissionRate {config : Core.ChainConfig} {epoch : ℤ}
    (hmin : config.isMinCommissionRate epoch.toNat = true) (first : ℤ) (w : ValidatorWrapper) :
    elect config epoch first w = if Unpromoted config epoch first then
      fields.raiseRate { w with lastEpochInCommittee := epoch }
      else { w with lastEpochInCommittee := epoch } := by
  simp only [elect, Forced, hmin, true_and, fields]
  by_cases hover : Unpromoted config epoch first
  · by_cases hrate : w.rates.rate.int < minCommissionRate.int
    · simp only [hover, hrate, and_self, if_true]
    · simp only [hover, hrate, and_false, if_true, if_false]
  · simp only [hover, false_and, if_false]

theorem face_validatorWrapper (rlp : WrapperRlp) (db : DB ValidatorWrapper) (v : Address) :
    (db.validatorWrapper rlp.codec v).1.face = db.face := by
  unfold DB.validatorWrapper
  split
  · rfl
  · split <;> rfl

theorem toNat_firstElection {epoch : ℤ} (h₀ : 0 ≤ epoch) (hlt : epoch < 2 ^ 256) (first : Word) :
    ((if first.setWidth 64 = 0 then BitVec.ofInt 256 epoch else first : Word).toNat : ℤ) =
      if (first.toNat : ℤ) % 2 ^ 64 = 0 then epoch else first.toNat := by
  have hzero : first.setWidth 64 = 0 ↔ (first.toNat : ℤ) % 2 ^ 64 = 0 := by
    rw [← BitVec.toNat_inj, BitVec.toNat_setWidth]
    norm_cast
  by_cases h : first.setWidth 64 = 0
  · rw [if_pos h, if_pos (hzero.1 h), BitVec.toNat_ofInt]
    omega
  · rw [if_neg h, if_neg fun hmod => h (hzero.2 hmod)]

theorem run_setValidatorFirstElectionEpoch (rlp : WrapperRlp) (v : Address) (epoch : ℤ)
    (hthawed : db.Thawed) :
    ∃ db', DB.run rlp.codec (Core.setValidatorFirstElectionEpoch firstElectionEpochKey v epoch) db =
        some ((), db') ∧ current rlp db' v = current rlp db v ∧
      db'.getState v firstElectionEpochKey =
        if (db.getState v firstElectionEpochKey).setWidth 64 = 0 then BitVec.ofInt 256 epoch
        else db.getState v firstElectionEpochKey := by
  unfold Core.setValidatorFirstElectionEpoch
  rw [DB.run_bind, DB.run_getState, Option.bind_some]
  split_ifs with h
  · refine ⟨db.setState v firstElectionEpochKey (.ofInt 256 epoch), rfl, ?_, ?_⟩
    · rw [current, current, DB.cached_setState, DB.wrapper_setState]
    · rw [DB.getState_setState_thawed (hthawed v), if_pos ⟨rfl, rfl⟩]
  · exact ⟨db, rfl, rfl, rfl⟩

theorem run_updateMinimumCommissionFee (config : Core.ChainConfig)
    (engine : Core.Engine ValidatorWrapper) (epoch : ℤ) (hw : current rlp db v = some w) :
    ∃ db', DB.run rlp.codec (Core.updateMinimumCommissionFee config (engineOf engine) epoch v) db =
        some (none, db') ∧ current rlp db' v = some
      (if Core.PromoOver config epoch (db.getState v firstElectionEpochKey).toNat then
        fields.raiseRate w else w) := by
  obtain ⟨-, hfound, hcurrent⟩ := revised_validatorWrapper rlp db v
  have hstate : (db.validatorWrapper rlp.codec v).1.getState v firstElectionEpochKey =
      db.getState v firstElectionEpochKey := by
    rw [DB.getState_eq_face, DB.getState_eq_face, face_validatorWrapper]
  unfold Core.updateMinimumCommissionFee
  rw [DB.run_bind, DB.run_validatorWrapper, Option.bind_some, hfound, hw]
  dsimp only [engineOf]
  rw [DB.run_bind, DB.run_getState, Option.bind_some, hstate]
  split_ifs
  · exact ⟨_, rfl, current_cacheValidator _ v _⟩
  · exact ⟨_, rfl, hcurrent.trans hw⟩

/-- **The loop of `setElectionEpochAndMinFee` elects**: its body makes the wrapper in force the
elected one. -/
theorem run_electValidator (config : Core.ChainConfig) (engine : Core.Engine ValidatorWrapper)
    {epoch : ℤ} (h₀ : 0 ≤ epoch) (hlt : epoch < 2 ^ 256) (hthawed : db.Thawed)
    (hw : current rlp db v = some w) :
    ∃ db', DB.run rlp.codec (Core.electValidator config (engineOf engine) epoch v) db =
        some (none, db') ∧
      current rlp db' v =
        some (elect config epoch (db.getState v firstElectionEpochKey).toNat w) := by
  obtain ⟨-, hfound, -⟩ := revised_validatorWrapper rlp db v
  let w₁ : ValidatorWrapper := { w with lastEpochInCommittee := epoch }
  let db₁ := (db.validatorWrapper rlp.codec v).1.cacheValidator v w₁
  have hw₁ : current rlp db₁ v = some w₁ := current_cacheValidator _ v w₁
  have hface : db₁.face = db.face := face_validatorWrapper rlp db v
  have hrun : DB.run rlp.codec (Core.electValidator config (engineOf engine) epoch v) db =
      DB.run rlp.codec (if config.isMinCommissionRate epoch.toNat then
        Core.setValidatorFirstElectionEpoch firstElectionEpochKey v epoch >>= fun _ =>
          Core.updateMinimumCommissionFee config (engineOf engine) epoch v
        else pure none) db₁ := by
    unfold Core.electValidator
    rw [DB.run_bind, DB.run_validatorWrapper, Option.bind_some, hfound, hw]
    rfl
  rw [hrun]
  split_ifs with hmin
  · have hthawed₁ : db₁.Thawed := fun a => by
      rw [hface]
      exact hthawed a
    obtain ⟨db₂, hset, hsame, hfirst⟩ := run_setValidatorFirstElectionEpoch rlp v epoch hthawed₁
    obtain ⟨db₃, hupdate, hraised⟩ :=
      run_updateMinimumCommissionFee config engine epoch (hsame.trans hw₁)
    refine ⟨db₃, ?_, hraised.trans (congrArg some ?_)⟩
    · rw [DB.run_bind, hset]
      exact hupdate
    · rw [hfirst, DB.getState_eq_face, hface, ← DB.getState_eq_face, toNat_firstElection h₀ hlt,
        elect_of_isMinCommissionRate hmin]
      rfl
  · refine ⟨db₁, rfl, hw₁.trans (congrArg some ?_)⟩
    simp [elect, Forced, hmin, w₁]

theorem Validator.sanityCheck_elected {v : Validator} (hsane : v.sanityCheck = .ok ()) (epoch : ℤ) :
    ({ v with
      lastEpochInCommittee := epoch
      rates := { v.rates with rate := minCommissionRate } } : Validator).sanityCheck = .ok () ↔
      minCommissionRate.int ≤ v.rates.maxRate.int := by
  have hgood : ¬ badRate minCommissionRate := by decide
  simp only [Validator.sanityCheck, bind_eq_ok, bind_unless_eq_ok, not_or, not_lt] at hsane ⊢
  obtain ⟨u, hlen, hkeys, hmax, hself, htotal, hbad, hlarge, hnodup⟩ := hsane
  constructor
  · rintro ⟨-, -, -, -, -, -, -, hle, -⟩
    exact hle.1
  · intro hle
    exact ⟨u, hlen, hkeys, hmax, hself, htotal, ⟨hgood, hbad.2⟩, ⟨hle, hlarge.2⟩, hnodup⟩

/-- **An elected validator stays sane** exactly if its rate is not forced above its own maximum. -/
theorem sanityCheck_elect (config : Core.ChainConfig) (epoch firstElectionEpoch : ℤ)
    (hsane : w.sanityCheck = .ok ()) :
    (elect config epoch firstElectionEpoch w).sanityCheck = .ok () ↔
      (Forced config epoch firstElectionEpoch w → minCommissionRate.int ≤ w.rates.maxRate.int) := by
  obtain ⟨u, hval, hrest⟩ := bind_eq_ok.1 hsane
  by_cases hforced : Forced config epoch firstElectionEpoch w
  · have hrate := Validator.sanityCheck_elected hval epoch
    simp only [elect, forall_const, hforced]
    refine ⟨fun h => ?_, fun h => bind_eq_ok.2 ⟨u, hrate.2 h, hrest⟩⟩
    obtain ⟨_, hval', -⟩ := bind_eq_ok.1 h
    exact hrate.1 hval'
  · simp only [elect, hforced, false_imp_iff, iff_true]
    exact hsane

/-- A validator with a rate of 1 % that allows 10 %: 5 % are forced on it, and it stays sane. -/
theorem sanityCheck_elect_sample :
    let w := { wrapper 0xaa with rates := ⟨⟨10 ^ 16⟩, ⟨10 ^ 17⟩, ⟨0⟩⟩ }
    Forced config 9 1 w ∧ (elect config 9 1 w).rates.rate = minCommissionRate ∧
      (elect config 9 1 w).sanityCheck = .ok () :=
  ⟨by decide, by decide, (sanityCheck_elect config 9 1 (by decide)).2 fun _ => by decide⟩

/-- A validator that caps its rate at 2 % is not sane after 5 % are forced on it. -/
theorem sanityCheck_elect_capped :
    let w := { wrapper 0xaa with rates := ⟨⟨10 ^ 16⟩, ⟨2 * 10 ^ 16⟩, ⟨0⟩⟩ }
    w.sanityCheck = .ok () ∧ (elect config 9 1 w).sanityCheck = .error .commissionRateTooLarge := by
  decide

/-! ## Following -/

/-- The message delegates to the validator. -/
def Joins (msg : StakeMsg) (delegator v : Address) : Prop :=
  ∃ m, msg = .delegate m ∧ m.delegatorAddress = delegator ∧ m.validatorAddress = v

/-- The message edits the validator. -/
def Edits (msg : StakeMsg) (v : Address) (m : EditValidator) : Prop :=
  msg = .editValidator m ∧ m.validatorAddress = v

/-- The message creates the validator. -/
def Creates (msg : StakeMsg) (v : Address) (m : CreateValidator) : Prop :=
  msg = .createValidator m ∧ m.validatorAddress = v

/-- The wrapper of a validator after a message. -/
structure Follows (msg : StakeMsg) (v : Address) (w w' : ValidatorWrapper) : Prop where
  grows : Grows v w w'
  joined : ∀ d ∈ w'.delegators, d ∈ w.delegators ∨ Joins msg d v
  keys : ∀ key ∈ w'.slotPubKeys, key ∈ w.slotPubKeys ∨
    ∃ m, Edits msg v m ∧ key ∈ m.slotKeyToAdd.toList
  identity : w'.description.identity = w.description.identity ∨
    ∃ m, Edits msg v m ∧ w'.description.identity = m.description.identity

theorem follows_refl (msg : StakeMsg) (h : Shape v w) : Follows msg v w w :=
  ⟨h.refl, fun _ hd => .inl hd, fun _ hkey => .inl hkey, .inl rfl⟩

theorem follows_of_aligned (msg : StakeMsg) {w' : ValidatorWrapper} (h : Shape v w)
    (haddress : w'.address = w.address) (haligned : Aligned w.delegations w'.delegations)
    (hkeys : w'.slotPubKeys = w.slotPubKeys) (hdescription : w'.description = w.description) :
    Follows msg v w w' where
  grows := h.aligned haddress haligned
  joined d hd := by
    left
    have hsame : w'.delegators = w.delegators := haligned.delegators
    rwa [hsame] at hd
  keys key hkey := .inl (hkeys ▸ hkey)
  identity := .inl (by rw [hdescription])

theorem mem_withDelegation {delegator d : Address} {amount : ℤ}
    (h : d ∈ (w.withDelegation delegator amount).delegators) :
    d ∈ w.delegators ∨ d = delegator := by
  unfold withDelegation delegators credited at h
  split_ifs at h
  · rw [delegators_bump] at h
    exact .inl h
  · rw [map_append] at h
    exact (mem_append.1 h).imp_right mem_singleton.1

theorem follows_withDelegation {w₁ : ValidatorWrapper}
    (h : Follows (.delegate m) m.validatorAddress w w₁) (hamount : 0 ≤ m.amount) :
    Follows (.delegate m) m.validatorAddress w (w₁.withDelegation m.delegatorAddress m.amount) where
  grows := h.grows.trans (h.grows.shape.withDelegation m.delegatorAddress hamount)
  joined d hd := by
    obtain hd | rfl := mem_withDelegation hd
    · exact h.joined d hd
    · exact .inr ⟨m, rfl, rfl, rfl⟩
  keys := h.keys
  identity := h.identity

/-! ## Stored wrappers -/

section

variable (h : Stored rlp ws db db')
include h

theorem Stored.storage : db'.getState = db.getState := by
  induction h with
  | nil => rfl
  | cons head _ ih => rw [ih, head.storage]

theorem Stored.suicided (a : Address) : (db'.face a).suicided = (db.face a).suicided := by
  induction h with
  | nil => rfl
  | cons head _ ih => rw [ih, head.suicided]

theorem Stored.backed (hdb : db.Backed) : db'.Backed := by
  induction h with
  | nil => exact hdb
  | cons head _ ih => exact ih (head.backed hdb)

/-- After any of the stored wrappers the validator has one that comes from that of the start. -/
theorem Stored.comes {P : Address → ValidatorWrapper → ValidatorWrapper → Prop}
    {start : DB ValidatorWrapper}
    (hws : ∀ w' ∈ ws, rlp.codec.sanityCheck w' = true → ∀ w,
      start.validatorWrapperCopy rlp.codec w'.address = some w → P w'.address w w')
    (hstart : start.validatorWrapperCopy rlp.codec v = some w)
    (hdb : ∃ w', db.validatorWrapperCopy rlp.codec v = some w' ∧ P v w w') :
    ∃ w', db'.validatorWrapperCopy rlp.codec v = some w' ∧ P v w w' := by
  induction h with
  | nil => exact hdb
  | cons head _ ih =>
    rename_i w₁ ws db₀ db₁ db₂ _
    refine ih (fun w' hw' => hws w' (mem_cons_of_mem _ hw')) ?_
    rw [head.wrapper]
    by_cases hv : v = w₁.address
    · subst hv
      exact ⟨w₁, update_self _ _ _, hws w₁ mem_cons_self head.sane w hstart⟩
    · rw [update_of_ne hv]
      exact hdb

end

/-! ## Messages -/

/-- Every validator has a regular wrapper. -/
def Regulated (rlp : WrapperRlp) (db : DB ValidatorWrapper) : Prop :=
  ∀ v, Flagged db v → ∃ w, db.validatorWrapperCopy rlp.codec v = some w ∧ Regular v w

theorem Regulated.regular (h : Regulated rlp db) (hflag : Flagged db v)
    (hcopy : db.validatorWrapperCopy rlp.codec v = some w) : Regular v w := by
  obtain ⟨w₀, hcopy₀, hregular⟩ := h v hflag
  cases hcopy.symm.trans hcopy₀
  exact hregular

/-- The check for duplicates has passed, over the list of the last block. -/
def Unique (rlp : WrapperRlp) (bc : ChainContext) (db : DB ValidatorWrapper) (v : Address)
    (identity : String) (keys : List BLSKey) : Prop :=
  ∃ addrs, bc.readValidatorList = .ok addrs ∧ NoDuplicate rlp db v identity keys addrs

/-- A validator is founded by a message. -/
structure Founded (rlp : WrapperRlp) (bc : ChainContext) (m : CreateValidator)
    (db db' : DB ValidatorWrapper) (v : Address) : Prop where
  unflagged : ¬ Flagged db v
  unique : Unique rlp bc db v m.description.identity m.slotPubKeys
  wrapper : ∃ w, db'.validatorWrapperCopy rlp.codec v = some w ∧ Regular v w ∧
    w.delegators = [v] ∧ w.slotPubKeys = m.slotPubKeys ∧
    w.description.identity = m.description.identity

/-- The step of a message: the validators and their stored wrappers. -/
structure Advanced (rlp : WrapperRlp) (bc : ChainContext) (msg : StakeMsg)
    (db db' : DB ValidatorWrapper) : Prop where
  flagged : ∀ v, Flagged db' v ↔ Flagged db v ∨ ∃ m, Creates msg v m
  follows : ∀ v w, Flagged db v → db.validatorWrapperCopy rlp.codec v = some w →
    ∃ w', db'.validatorWrapperCopy rlp.codec v = some w' ∧ Follows msg v w w' ∧ Regular v w'
  created : ∀ v m, Creates msg v m → Founded rlp bc m db db' v
  edited : ∀ v m, Edits msg v m → Unique rlp bc db v m.description.identity m.slotKeyToAdd.toList
  joins : ∀ d v, Joins msg d v → Flagged db v
  thawed : db'.Thawed
  coherent : DB.Coherent rlp.codec db → DB.Coherent rlp.codec db'
  suicided : ∀ a, (db'.face a).suicided = (db.face a).suicided
  backed : db.Backed → db'.Backed

theorem Created.regular {m : CreateValidator} (h : Created rlp bc m db w)
    (hsane : rlp.codec.sanityCheck w = true) :
    Regular m.validatorAddress w ∧ w.delegators = [m.validatorAddress] := by
  have hdelegators : w.delegators = [m.validatorAddress] := by
    rw [delegators, h.delegations]
    rfl
  refine ⟨⟨⟨h.address, ?_, ?_, fun d hd => ?_⟩, rate_of_sane hsane⟩, hdelegators⟩
  · rw [hdelegators]
    exact nodup_singleton _
  · rw [hdelegators]
    rfl
  · rw [h.delegations, mem_singleton] at hd
    rw [hd]
    exact fine_newDelegation _ h.amount_nonneg

theorem follows_of_stored (hregulated : Regulated rlp db) (hstored : Stored rlp ws db db')
    (hws : ∀ w' ∈ ws, ∀ w, db.validatorWrapperCopy rlp.codec w'.address = some w →
      Follows msg w'.address w w') (hflag : Flagged db v)
    (hcopy : db.validatorWrapperCopy rlp.codec v = some w) :
    ∃ w', db'.validatorWrapperCopy rlp.codec v = some w' ∧ Follows msg v w w' ∧ Regular v w' := by
  have hregular := hregulated.regular hflag hcopy
  refine hstored.comes (P := fun v w w' => Follows msg v w w' ∧ Regular v w')
    (fun w' hw' hsane w hw => ?_) hcopy ⟨w, hcopy, follows_refl msg hregular.shape, hregular⟩
  have hfollows := hws w' hw' w hw
  exact ⟨hfollows, hfollows.grows.shape, rate_of_sane hsane⟩

theorem advanced_of_stored (hthawed : db.Thawed) (hregulated : Regulated rlp db)
    (hstored : Stored rlp ws db db₁) (hsame : DB.SameStaking rlp.codec db₁ db')
    (hcreates : ∀ v m, ¬ Creates msg v m)
    (hedits : ∀ v m, Edits msg v m →
      Unique rlp bc db v m.description.identity m.slotKeyToAdd.toList)
    (hjoins : ∀ d v, Joins msg d v → Flagged db v)
    (hws : ∀ w' ∈ ws, ∀ w, db.validatorWrapperCopy rlp.codec w'.address = some w →
      Follows msg w'.address w w') : Advanced rlp bc msg db db' where
  flagged v := by
    rw [Flagged, Flagged, hsame.storage, hstored.storage]
    exact ⟨.inl, fun h => h.resolve_right (not_exists.2 (hcreates v))⟩
  follows v w hflag hcopy := by
    rw [hsame.wrapper]
    exact follows_of_stored hregulated hstored hws hflag hcopy
  created v m hm := absurd hm (hcreates v m)
  edited := hedits
  joins := hjoins
  thawed := hsame.thawed (hstored.thawed hthawed)
  coherent hdb := hsame.coherent (hstored.coherent hdb)
  suicided a := (hsame.suicided a).trans (hstored.suicided a)
  backed hdb := hsame.backed (hstored.backed hdb)

theorem follows_of_drained (msg : StakeMsg) {balance left : ℤ}
    {ws : List (Address × ValidatorWrapper)} (hregulated : Regulated rlp db)
    (hes : ∀ e ∈ es, Flagged db e.validatorAddress) (h : Drained rlp db epoch es balance left ws) :
    ∀ p ∈ ws, p.2.address = p.1 ∧
      ∀ w, db.validatorWrapperCopy rlp.codec p.1 = some w → Follows msg p.1 w p.2 := by
  induction h with
  | nil => exact fun p hp => absurd hp not_mem_nil
  | used copy entry _ _ ih =>
    rename_i e es w d balance left ws _ _
    have hregular := hregulated.regular (hes e mem_cons_self) copy
    refine forall_mem_cons.2 ⟨⟨hregular.shape.address, fun w' hw' => ?_⟩,
      ih fun x hx => hes x (mem_cons_of_mem _ hx)⟩
    cases copy.symm.trans hw'
    have hd := hregular.shape.fine d (mem_of_getElem? entry)
    exact follows_of_aligned msg hregular.shape rfl
      (aligned_set hregular.shape.fine entry rfl (hd.drain epoch balance)) rfl rfl
  | passed _ _ _ _ ih => exact ih fun x hx => hes x (mem_cons_of_mem _ hx)

theorem follows_of_collected {total : ℤ} (hregulated : Regulated rlp db)
    (hes : ∀ e ∈ es, Flagged db e.validatorAddress) (h : Collected rlp db es ws total) :
    ∀ w' ∈ ws, ∀ w, db.validatorWrapperCopy rlp.codec w'.address = some w →
      Follows msg w'.address w w' := by
  induction h with
  | nil => exact fun p hp => absurd hp not_mem_nil
  | cons copy entry _ ih =>
    rename_i e es w d ws total _
    have hregular := hregulated.regular (hes e mem_cons_self) copy
    refine forall_mem_cons.2 ⟨fun w' hw' => ?_, ih fun x hx => hes x (mem_cons_of_mem _ hx)⟩
    have haddress : (w.setDelegation e.index d.collect).address = e.validatorAddress :=
      hregular.shape.address
    rw [haddress] at hw' ⊢
    cases copy.symm.trans hw'
    have hd := (hregular.shape.fine d (mem_of_getElem? entry)).collect
    exact follows_of_aligned msg hregular.shape rfl
      (aligned_set hregular.shape.fine entry hd.2 hd.1) rfl rfl

/-! ## The kinds of messages -/

section

variable (hthawed : db.Thawed) (hregulated : Regulated rlp db)
include hthawed hregulated

theorem advanced_of_created {m : CreateValidator} (hfound : Created rlp bc m db w)
    (hstored : DB.Updated rlp.codec db db₁ m.validatorAddress w)
    (hpaid : DB.SameStaking rlp.codec
      (db₁.setState m.validatorAddress Core.isValidatorKey isValidatorValue) db') :
    Advanced rlp bc (.createValidator m) db db' := by
  have hthawed₁ : db₁.Thawed := hstored.thawed hthawed
  have hwrapper : ∀ v, db'.validatorWrapperCopy rlp.codec v =
      Function.update (db.validatorWrapperCopy rlp.codec) m.validatorAddress (some w) v := fun v => by
    rw [hpaid.wrapper, DB.wrapper_setState, hstored.wrapper]
  have hcreates : ∀ v m', Creates (.createValidator m) v m' ↔ m' = m ∧ v = m.validatorAddress := by
    intro v m'
    constructor
    · rintro ⟨hm, rfl⟩
      cases hm
      exact ⟨rfl, rfl⟩
    · rintro ⟨rfl, rfl⟩
      exact ⟨rfl, rfl⟩
  refine {
    flagged := fun v => ?_
    follows := fun v w₀ hflag hcopy => ?_
    created := fun v m' hm' => ?_
    edited := fun v m' hm' => ?_
    joins := fun d v hm' => ?_
    thawed := hpaid.thawed (hthawed₁.setState _ _ _)
    coherent := fun hdb => hpaid.coherent ?_
    suicided := fun a => ?_
    backed := fun hdb => hpaid.backed ((hstored.backed hdb).marks (DB.marks_setState _ _ _ _)) }
  · rw [Flagged, hpaid.storage, DB.getState_setState_thawed (hthawed₁ _), hstored.storage]
    by_cases hv : v = m.validatorAddress
    · have hset : isValidatorValue ≠ 0 := by decide
      rw [if_pos ⟨hv, rfl⟩]
      exact ⟨fun _ => .inr ⟨m, (hcreates v m).2 ⟨rfl, hv⟩⟩, fun _ => hset⟩
    · rw [if_neg fun h => hv h.1]
      exact ⟨.inl, fun h => h.resolve_right (not_exists.2 fun m' hm' => hv ((hcreates v m').1 hm').2)⟩
  · have hv : v ≠ m.validatorAddress := fun hv => hflag (hv ▸ hfound.unflagged)
    have hregular := hregulated.regular hflag hcopy
    rw [hwrapper, update_of_ne hv]
    exact ⟨w₀, hcopy, follows_refl _ hregular.shape, hregular⟩
  · obtain ⟨rfl, rfl⟩ := (hcreates v m').1 hm'
    obtain ⟨hregular, hdelegators⟩ := hfound.regular hstored.sane
    exact ⟨fun hflag => hflag hfound.unflagged, hfound.unique, w,
      by rw [hwrapper, update_self], hregular, hdelegators, hfound.keys,
      hfound.identity⟩
  · cases hm'.1
  · obtain ⟨_, hm, -⟩ := hm'
    cases hm
  · intro a val hval
    rw [DB.cached_setState] at hval
    rw [DB.wrapper_setState]
    exact hstored.coherent hdb a val hval
  · rw [hpaid.suicided, DB.face_setState, DB.suicided_update_write, hstored.suicided]

theorem advanced_of_edited {m : EditValidator} {w₀ : ValidatorWrapper}
    (hfound : Edited rlp bc m db w₀ w) (hstored : DB.Updated rlp.codec db db' m.validatorAddress w) :
    Advanced rlp bc (.editValidator m) db db' := by
  rw [← hfound.address.2] at hstored
  refine advanced_of_stored hthawed hregulated (.cons hstored (.nil db')) (.refl db')
    (fun v m' hm' => by cases hm'.1) (fun v m' hm' => ?_) (fun d v ⟨_, hm', _⟩ => by cases hm')
    fun w' hw' w₁ hw₁ => ?_
  · obtain ⟨hm, rfl⟩ := hm'
    cases hm
    exact hfound.unique
  · obtain rfl := mem_singleton.1 hw'
    rw [hfound.address.2] at hw₁ ⊢
    obtain rfl := Option.some.inj (hfound.copy.symm.trans hw₁)
    have hregular := hregulated.regular hfound.flagged hfound.copy
    have haligned : Aligned w₀.delegations w'.delegations := by
      rw [hfound.delegations]
      exact ⟨rfl, hregular.shape.fine⟩
    have hdelegators : w'.delegators = w₀.delegators := haligned.delegators
    refine ⟨hregular.shape.aligned (hfound.address.2.trans hfound.address.1.symm) haligned,
      fun d hd => .inl (hdelegators ▸ hd), fun key hkey => ?_, ?_⟩
    · exact (hfound.keys key hkey).imp_right fun hadd => ⟨m, ⟨rfl, rfl⟩, hadd⟩
    · rw [hfound.identity]
      split_ifs
      · exact .inr ⟨m, ⟨rfl, rfl⟩, rfl⟩
      · exact .inl rfl

theorem advanced_of_undelegated (hfound : Undelegated rlp epoch m db w)
    (hstored : DB.Updated rlp.codec db db' w.address w) :
    Advanced rlp bc (.undelegate m) db db' := by
  refine advanced_of_stored hthawed hregulated (.cons hstored (.nil db')) (.refl db')
    (fun v m' hm' => by cases hm'.1) (fun v m' hm' => by cases hm'.1)
    (fun d v ⟨_, hm', _⟩ => by cases hm') fun w' hw' w₁ hw₁ => ?_
  obtain rfl := mem_singleton.1 hw'
  obtain ⟨w₀, i, d, d', hcopy, hentry, -, hundelegate, haddress, hdelegations, hkeys,
    hdescription⟩ := hfound.found
  have hregular := hregulated.regular hfound.flagged hcopy
  have hvalidator : w'.address = m.validatorAddress := haddress.trans hregular.shape.address
  rw [hvalidator] at hw₁ ⊢
  cases hcopy.symm.trans hw₁
  have hd := (hregular.shape.fine d (mem_of_getElem? hentry)).undelegate hundelegate
  refine follows_of_aligned _ hregular.shape haddress ?_ hkeys hdescription
  rw [hdelegations]
  exact aligned_set hregular.shape.fine hentry hd.2 hd.1

theorem advanced_of_delegated {r : List ValidatorWrapper × ℤ × List (Address × ℤ)}
    (hes : ∀ e ∈ es, Flagged db e.validatorAddress) (hfound : Delegated rlp bc epoch m es db r)
    (hstored : Stored rlp r.1 db db₁)
    (hsame : DB.SameStaking rlp.codec (db₁.subBalance m.delegatorAddress r.2.1) db') :
    Advanced rlp bc (.delegate m) db db' := by
  have hpaid : DB.SameStaking rlp.codec db₁ db' := (DB.SameStaking.subBalance db₁ _ _).trans hsame
  refine advanced_of_stored hthawed hregulated hstored hpaid (fun v m' hm' => by cases hm'.1)
    (fun v m' hm' => by cases hm'.1) (fun d v hm' => ?_) ?_
  · obtain ⟨m', hm, -, rfl⟩ := hm'
    cases hm
    exact hfound.flagged
  · obtain ⟨ws, i, w, hdrained, hcases⟩ := hfound.stored
    have hused : ∀ e ∈ (if bc.config.isRedelegation epoch = true then es else []),
        Flagged db e.validatorAddress := by
      split_ifs
      · exact hes
      · exact fun e he => absurd he not_mem_nil
    have hws := follows_of_drained (.delegate m) hregulated hused hdrained
    have hdrain : ∀ w' ∈ ws.map (·.2), ∀ w, db.validatorWrapperCopy rlp.codec w'.address =
        some w → Follows (.delegate m) w'.address w w' := by
      intro w' hw' w₁ hw₁
      obtain ⟨p, hp, rfl⟩ := mem_map.1 hw'
      obtain ⟨haddress, hfollows⟩ := hws p hp
      rw [haddress] at hw₁ ⊢
      exact hfollows w₁ hw₁
    obtain ⟨hentry, hr⟩ | ⟨-, hcopy, hr⟩ := hcases
    · -- the delegatee is among the drained wrappers
      rw [hr]
      intro w' hw' w₁ hw₁
      obtain hw' | rfl := mem_or_eq_of_mem_set hw'
      · exact hdrain w' hw' w₁ hw₁
      · obtain ⟨haddress, hfollows⟩ := hws _ (mem_of_getElem? hentry)
        have hvalidator : (w.withDelegation m.delegatorAddress m.amount).address =
            m.validatorAddress := haddress
        rw [hvalidator] at hw₁ ⊢
        exact follows_withDelegation (hfollows w₁ hw₁) hfound.amount_nonneg
    · -- the delegatee is loaded by itself
      rw [hr]
      intro w' hw' w₁ hw₁
      obtain hw' | hw' := mem_append.1 hw'
      · exact hdrain w' hw' w₁ hw₁
      · cases mem_singleton.1 hw'
        have hregular := hregulated.regular hfound.flagged hcopy
        have hvalidator : (w.withDelegation m.delegatorAddress m.amount).address =
            m.validatorAddress := hregular.shape.address
        rw [hvalidator] at hw₁ ⊢
        cases hcopy.symm.trans hw₁
        exact follows_withDelegation (follows_refl _ hregular.shape) hfound.amount_nonneg

/-- **A message lets every validator follow**, if the index of each delegator points to
validators. -/
theorem advanced_of_applied
    (hindex : ∀ delegator es, bc.readDelegationsByDelegator delegator = .ok es →
      ∀ e ∈ es, Flagged db e.validatorAddress) (h : Applied rlp bc epoch msg db db') :
    Advanced rlp bc msg db db' := by
  cases h with
  | create found stored =>
    exact advanced_of_created hthawed hregulated found stored (DB.SameStaking.subBalance _ _ _)
  | edit found stored => exact advanced_of_edited hthawed hregulated found stored
  | delegate index found stored same =>
    exact advanced_of_delegated hthawed hregulated (hindex _ _ index) found stored same
  | undelegate found stored => exact advanced_of_undelegated hthawed hregulated found stored
  | collect index found stored same =>
    exact advanced_of_stored hthawed hregulated stored
      ((DB.SameStaking.addBalance _ _ _).trans same) (fun v m' hm' => by cases hm'.1)
      (fun v m' hm' => by cases hm'.1) (fun d v ⟨_, hm', _⟩ => by cases hm')
      (follows_of_collected hregulated (hindex _ _ index) found)

end

/-! ## Around a message -/

theorem Regulated.same (h : Regulated rlp db) (hsame : DB.SameStaking rlp.codec db db') :
    Regulated rlp db' := by
  intro v hflag
  rw [Flagged, hsame.storage] at hflag
  rw [hsame.wrapper]
  exact h v hflag

theorem flagged_kept (hregulated : Regulated rlp db)
    (hstorage : ∀ a, db.validatorWrapperCopy rlp.codec a ≠ none → db'.getState a = db.getState a)
    (hcleared : ∀ a key, db'.getState a key = db.getState a key ∨ db'.getState a key = 0)
    (v : Address) : Flagged db' v ↔ Flagged db v := by
  constructor
  · intro hflag
    obtain hkept | hzero := hcleared v Core.isValidatorKey
    · rwa [Flagged, hkept] at hflag
    · exact absurd hzero hflag
  · intro hflag
    obtain ⟨w, hcopy, -⟩ := hregulated v hflag
    have hsome : db.validatorWrapperCopy rlp.codec v ≠ none := by
      rw [hcopy]
      exact Option.some_ne_none w
    rwa [Flagged, hstorage v hsome]

theorem Advanced.regulated (h : Advanced rlp bc msg db db') (hregulated : Regulated rlp db) :
    Regulated rlp db' := by
  intro v hflag
  obtain hflag | ⟨m, hm⟩ := (h.flagged v).1 hflag
  · obtain ⟨w, hcopy, -⟩ := hregulated v hflag
    obtain ⟨w', hcopy', -, hregular⟩ := h.follows v w hflag hcopy
    exact ⟨w', hcopy', hregular⟩
  · obtain ⟨w, hcopy, hregular, -⟩ := (h.created v m hm).wrapper
    exact ⟨w, hcopy, hregular⟩

theorem Advanced.before {db₀ : DB ValidatorWrapper} (hsame : DB.SameStaking rlp.codec db₀ db)
    (h : Advanced rlp bc msg db db') : Advanced rlp bc msg db₀ db' := by
  have hflag : ∀ v, Flagged db v ↔ Flagged db₀ v := fun v => by
    rw [Flagged, Flagged, hsame.storage]
  have hunique : ∀ {v identity keys}, Unique rlp bc db v identity keys →
      Unique rlp bc db₀ v identity keys := by
    rintro v identity keys ⟨addrs, haddrs, hno⟩
    unfold NoDuplicate at hno
    rw [hsame.wrapper] at hno
    exact ⟨addrs, haddrs, hno⟩
  exact {
    flagged := fun v => by rw [h.flagged v, hflag v]
    follows := fun v w hv hcopy => h.follows v w ((hflag v).2 hv) (by rw [hsame.wrapper, hcopy])
    created := fun v m hm =>
      ⟨fun hv => (h.created v m hm).unflagged ((hflag v).2 hv),
        hunique (h.created v m hm).unique, (h.created v m hm).wrapper⟩
    edited := fun v m hm => hunique (h.edited v m hm)
    joins := fun d v hm => (hflag v).1 (h.joins d v hm)
    thawed := h.thawed
    coherent := fun hdb => h.coherent (hsame.coherent hdb)
    suicided := fun a => (h.suicided a).trans (hsame.suicided a)
    backed := fun hdb => h.backed (hsame.backed hdb) }

theorem Advanced.after {db'' : DB ValidatorWrapper} (hregulated : Regulated rlp db)
    (hcoherent : DB.Coherent rlp.codec db) (h : Advanced rlp bc msg db db')
    (hsame : DB.SameStaking rlp.codec db' db₁) (hsettled : DB.Settled rlp.codec db₁ db'')
    (hsuicided : ∀ a, (db.face a).suicided = false) : Advanced rlp bc msg db db'' := by
  have hcoherent₁ : DB.Coherent rlp.codec db₁ := hsame.coherent (h.coherent hcoherent)
  have hwrapper : db''.validatorWrapperCopy rlp.codec = db'.validatorWrapperCopy rlp.codec :=
    (hsettled.coherent_wrapper hcoherent₁).trans hsame.wrapper
  have hflag : ∀ v, Flagged db'' v ↔ Flagged db' v := fun v => by
    rw [flagged_kept ((h.regulated hregulated).same hsame) hsettled.storage hsettled.cleared v,
      Flagged, Flagged, hsame.storage]
  exact {
    flagged := fun v => (hflag v).trans (h.flagged v)
    follows := fun v w hv hcopy => by
      rw [hwrapper]
      exact h.follows v w hv hcopy
    created := fun v m hm =>
      ⟨(h.created v m hm).unflagged, (h.created v m hm).unique, by
        rw [hwrapper]
        exact (h.created v m hm).wrapper⟩
    edited := h.edited
    joins := h.joins
    thawed := hsettled.thawed (hsame.thawed h.thawed)
    coherent := fun _ => hsettled.coherent hcoherent₁
    suicided := fun a => (hsettled.suicided a).trans (hsuicided a).symm
    backed := fun hdb => hsettled.backed (hsame.backed (h.backed hdb)) }

end DyShard.Staking
