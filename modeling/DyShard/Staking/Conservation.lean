import DyShard.Staking.Effects
import Mathlib.Data.Fintype.BigOperators

/-!
# Staking conserves tokens

The tokens of a state are the balances of all accounts and what the wrappers of the validators
hold: delegated amounts, undelegations and rewards.
-/

namespace DyShard.Staking

open Function List Delegation

open State (DB)
open DyShard.Core (Undelegation)

variable {rlp : WrapperRlp} {bc : ChainContext} {db db' : DB ValidatorWrapper}

/-! ## Tokens -/

/-- The address is flagged as a validator. -/
def Flagged (db : DB ValidatorWrapper) (v : Address) : Prop :=
  db.getState v Core.isValidatorKey ≠ 0

instance (db : DB ValidatorWrapper) (v : Address) : Decidable (Flagged db v) :=
  inferInstanceAs (Decidable (_ ≠ _))

/-- The wrapper that is in force: the loaded one, or the one in the code. -/
def current (rlp : WrapperRlp) (db : DB ValidatorWrapper) (v : Address) :
    Option ValidatorWrapper :=
  (db.stateValidators v).or (db.validatorWrapperCopy rlp.codec v)

/-- The tokens that a validator holds. -/
def held (rlp : WrapperRlp) (db : DB ValidatorWrapper) (v : Address) : ℤ :=
  if Flagged db v then ((current rlp db v).map (·.total)).getD 0 else 0

/-- The tokens of a state. -/
def tokens (rlp : WrapperRlp) (db : DB ValidatorWrapper) : ℤ :=
  ∑ a, db.getBalance a + ∑ v, held rlp db v

theorem sum_update_add {f : Address → ℤ} (a : Address) (x : ℤ) :
    ∑ b, Function.update f a x b + f a = ∑ b, f b + x := by
  rw [Finset.sum_update_of_mem (Finset.mem_univ a), ← Finset.add_sum_erase _ f (Finset.mem_univ a),
    Finset.sdiff_singleton_eq_erase]
  ring

/-! ## Steps -/

theorem current_of_coherent (h : DB.Coherent rlp.codec db) (v : Address) :
    current rlp db v = db.validatorWrapperCopy rlp.codec v := by
  unfold current
  cases hcached : db.stateValidators v with
  | none => rfl
  | some w => exact (h v w hcached).symm

theorem held_congr {v : Address} (hflag : Flagged db' v ↔ Flagged db v)
    (hcurrent : current rlp db' v = current rlp db v) : held rlp db' v = held rlp db v := by
  unfold held
  rw [hcurrent]
  exact if_congr hflag rfl rfl

theorem held_same (h : DB.SameStaking rlp.codec db db') : held rlp db' = held rlp db := by
  funext v
  refine held_congr ?_ ?_
  · rw [Flagged, Flagged, h.storage]
  · rw [current, current, h.cached, h.wrapper]

section

variable (h : db.Thawed) (a : Address) (amount : ℤ)
include h

theorem sum_balance_addBalance :
    ∑ b, (db.addBalance a amount).getBalance b = ∑ b, db.getBalance b + amount := by
  simp [DB.getBalance_addBalance, h a, Finset.sum_add_distrib]

theorem tokens_addBalance : tokens rlp (db.addBalance a amount) = tokens rlp db + amount := by
  unfold tokens
  rw [sum_balance_addBalance h, held_same (DB.SameStaking.addBalance db a amount)]
  ring

theorem tokens_subBalance : tokens rlp (db.subBalance a amount) = tokens rlp db - amount := by
  unfold tokens
  rw [held_same (DB.SameStaking.subBalance db a amount)]
  simp only [DB.getBalance_subBalance, h a, and_true, Finset.sum_sub_distrib, Finset.sum_ite_eq',
    Finset.mem_univ, if_true]
  ring

end

theorem tokens_same (h : DB.SameStaking rlp.codec db db')
    (hbalance : ∀ a, db'.getBalance a = db.getBalance a) : tokens rlp db' = tokens rlp db := by
  unfold tokens
  rw [held_same h, Finset.sum_congr rfl fun a _ => hbalance a]

variable {w : ValidatorWrapper} {i epoch : ℕ} {ds : List Delegation} {delegator : Address}
  {es : List DelegationIndex} {msg : Delegate}

theorem held_updated {a : Address} (hflag : Flagged db a) (h : DB.Updated rlp.codec db db' a w) :
    held rlp db' = Function.update (held rlp db) a w.total := by
  funext v
  by_cases hv : v = a
  · subst hv
    have hflag' : Flagged db' v := by rwa [Flagged, h.storage]
    simp [held, hflag', current, h.cached]
  · rw [update_of_ne hv]
    refine held_congr ?_ ?_
    · rw [Flagged, Flagged, h.storage]
    · rw [current, current, h.cached, h.wrapper, update_of_ne hv, update_of_ne hv]

theorem tokens_updated {a : Address} (hflag : Flagged db a) (h : DB.Updated rlp.codec db db' a w) :
    tokens rlp db' + held rlp db a = tokens rlp db + w.total := by
  have hsum := sum_update_add (f := held rlp db) a w.total
  unfold tokens
  rw [held_updated hflag h, h.balance]
  linarith

variable {ws : List ValidatorWrapper}

theorem tokens_stored (h : Stored rlp ws db db') (hflag : ∀ w ∈ ws, Flagged db w.address)
    (hdistinct : (ws.map (·.address)).Nodup) :
    tokens rlp db' + (ws.map fun w => held rlp db w.address).sum =
      tokens rlp db + (ws.map (·.total)).sum := by
  induction h with
  | nil => simp
  | @cons w ws db db₁ db' head tail ih =>
    rw [map_cons, nodup_cons] at hdistinct
    have hfirst := tokens_updated (hflag w mem_cons_self) head
    -- the others are at other addresses, so that they hold what they held
    have hheld : ∀ x ∈ ws, held rlp db₁ x.address = held rlp db x.address := by
      intro x hx
      have hne : x.address ≠ w.address := fun heq =>
        hdistinct.1 (heq ▸ mem_map_of_mem hx)
      rw [held_updated (hflag w mem_cons_self) head, update_of_ne hne]
    have hrest := ih (fun x hx => by
      rw [Flagged, head.storage]
      exact hflag x (mem_cons_of_mem _ hx)) hdistinct.2
    rw [map_congr_left hheld] at hrest
    simp only [map_cons, sum_cons]
    linarith

/-! ## Totals of wrappers -/

theorem sum_set_add {α : Type} (f : α → ℤ) {l : List α} {x : α} (h : l[i]? = some x) (y : α) :
    ((l.set i y).map f).sum + f x = (l.map f).sum + f y := by
  obtain ⟨hi, rfl⟩ := List.getElem?_eq_some_iff.1 h
  rw [map_set, sum_set', dif_pos (by simpa using hi), getElem_map]
  ring

theorem total_setDelegation {d : Delegation} (h : w.delegations[i]? = some d) (d' : Delegation) :
    (w.setDelegation i d').total + d.total = w.total + d'.total :=
  sum_set_add (·.total) h d'

/-- The delegators of a wrapper, in order. -/
def ValidatorWrapper.delegators (w : ValidatorWrapper) : List Address :=
  w.delegations.map (·.delegatorAddress)

theorem delegators_set {d d' : Delegation} (h : ds[i]? = some d)
    (haddress : d'.delegatorAddress = d.delegatorAddress) :
    (ds.set i d').map (·.delegatorAddress) = ds.map (·.delegatorAddress) := by
  rw [map_set, haddress]
  exact set_self_of_getElem? (by rw [getElem?_map, h]; rfl)

theorem sum_bump {amount : ℤ} (hdistinct : (ds.map (·.delegatorAddress)).Nodup) :
    ((ds.map (bump delegator amount)).map (·.total)).sum = (ds.map (·.total)).sum +
      if ∃ d ∈ ds, d.delegatorAddress = delegator then amount else 0 := by
  induction ds with
  | nil => simp
  | cons d ds ih =>
    rw [map_cons, nodup_cons] at hdistinct
    have hrest := ih hdistinct.2
    by_cases hd : d.delegatorAddress = delegator
    · -- no other delegation is the delegator's
      have hnone : ¬ ∃ x ∈ ds, x.delegatorAddress = delegator := by
        rintro ⟨x, hx, hxd⟩
        exact hdistinct.1 (hd.trans hxd.symm ▸ mem_map_of_mem hx)
      rw [if_neg hnone] at hrest
      rw [if_pos ⟨d, mem_cons_self, hd⟩]
      simp only [map_cons, sum_cons, bump, hd, if_true, total] at hrest ⊢
      linarith
    · simp only [mem_cons, exists_eq_or_imp, hd, false_or, map_cons, sum_cons,
        bump, if_false] at hrest ⊢
      linarith

theorem sum_credited {amount : ℤ} (hdistinct : (ds.map (·.delegatorAddress)).Nodup) :
    ((credited delegator amount ds).map (·.total)).sum = (ds.map (·.total)).sum + amount := by
  unfold credited
  split_ifs with hfound
  · rw [sum_bump hdistinct, if_pos hfound]
  · simp [newDelegation, total, inUndelegation]

theorem total_withDelegation (amount : ℤ) (hdistinct : w.delegators.Nodup) (delegator : Address) :
    (w.withDelegation delegator amount).total = w.total + amount :=
  sum_credited hdistinct

/-! ## Well-formed states and the index -/

/-- A wrapper as the staking code keeps it. -/
structure Proper (v : Address) (w : ValidatorWrapper) : Prop where
  address : w.address = v
  distinct : w.delegators.Nodup
  nonneg : ∀ d ∈ w.delegations, Nonneg d.undelegations

/-- Nothing is frozen, the loaded wrappers are those in the code, and all are proper ones. -/
structure WellFormed (rlp : WrapperRlp) (db : DB ValidatorWrapper) : Prop where
  thawed : db.Thawed
  coherent : DB.Coherent rlp.codec db
  proper : ∀ v w, Flagged db v → db.validatorWrapperCopy rlp.codec v = some w → Proper v w

/-- One entry for each validator with a delegation of the delegator, at its place, and no other. -/
structure FaithfulIndex (rlp : WrapperRlp) (db : DB ValidatorWrapper) (delegator : Address)
    (es : List DelegationIndex) : Prop where
  distinct : (es.map (·.validatorAddress)).Nodup
  sound : ∀ e ∈ es, Flagged db e.validatorAddress ∧ ∃ w d,
    db.validatorWrapperCopy rlp.codec e.validatorAddress = some w ∧
    w.delegations[e.index]? = some d ∧ d.delegatorAddress = delegator
  complete : ∀ v w, Flagged db v → db.validatorWrapperCopy rlp.codec v = some w →
    delegator ∈ w.delegators → v ∈ es.map (·.validatorAddress)

/-- The entries of an index point to different validators. -/
structure ListsValidators (db : DB ValidatorWrapper) (es : List DelegationIndex) : Prop where
  distinct : (es.map (·.validatorAddress)).Nodup
  flagged : ∀ e ∈ es, Flagged db e.validatorAddress

theorem FaithfulIndex.lists {delegator : Address} {es : List DelegationIndex}
    (h : FaithfulIndex rlp db delegator es) : ListsValidators db es :=
  ⟨h.distinct, fun e he => (h.sound e he).1⟩

theorem WellFormed.held_eq (h : WellFormed rlp db) {v : Address} (hflag : Flagged db v)
    (hcopy : db.validatorWrapperCopy rlp.codec v = some w) : held rlp db v = w.total := by
  simp [held, hflag, current_of_coherent h.coherent, hcopy]

/-! ## Redelegation -/

theorem drain_le {epoch balance : ℤ} {us : List Undelegation} (hbalance : 0 ≤ balance)
    (h : Nonneg us) : 0 ≤ (drain epoch balance us).1 ∧ (drain epoch balance us).1 ≤ balance := by
  induction us generalizing balance with
  | nil => exact ⟨hbalance, le_rfl⟩
  | cons u us ih =>
    have hu : 0 ≤ u.amount := h u mem_cons_self
    unfold drain
    split_ifs with hepoch hle
    · exact ⟨hbalance, le_rfl⟩
    · obtain ⟨hlow, hhigh⟩ := ih (sub_nonneg.2 hle) fun x hx => h x (mem_cons_of_mem _ hx)
      exact ⟨hlow, by linarith⟩
    · exact ⟨le_rfl, hbalance⟩

/-- Proper wrappers of different validators of the index, with less by what was taken. -/
structure DrainedWell (rlp : WrapperRlp) (db : DB ValidatorWrapper) (es : List DelegationIndex)
    (balance left : ℤ) (ws : List (Address × ValidatorWrapper)) : Prop where
  sublist : (ws.map (·.1)).Sublist (es.map (·.validatorAddress))
  flagged : ∀ p ∈ ws, Flagged db p.1
  address : ∀ p ∈ ws, p.2.address = p.1
  distinct : ∀ p ∈ ws, p.2.delegators.Nodup
  total : (ws.map fun p => p.2.total).sum + balance = (ws.map fun p => held rlp db p.1).sum + left

theorem drainedWell_of_drained {balance left : ℤ} {ws : List (Address × ValidatorWrapper)}
    (hdb : WellFormed rlp db) (hflag : ∀ e ∈ es, Flagged db e.validatorAddress)
    (hbalance : 0 ≤ balance) (h : Drained rlp db epoch es balance left ws) :
    DrainedWell rlp db es balance left ws := by
  induction h with
  | nil balance =>
    exact ⟨nil_sublist _, fun _ hp => absurd hp not_mem_nil,
      fun _ hp => absurd hp not_mem_nil, fun _ hp => absurd hp not_mem_nil, rfl⟩
  | @used e es w d balance left ws copy entry lt rest ih =>
    have hflag₁ := hflag e mem_cons_self
    have hproper := hdb.proper _ w hflag₁ copy
    have hnonneg := hproper.nonneg d (mem_of_getElem? entry)
    have hwell := ih (fun x hx => hflag x (mem_cons_of_mem _ hx)) (drain_le hbalance hnonneg).1
    refine ⟨hwell.sublist.cons_cons _, ?_, ?_, ?_, ?_⟩
    · simpa using ⟨hflag₁, fun a b hab => hwell.flagged (a, b) hab⟩
    · simpa using ⟨hproper.address, fun a b hab => hwell.address (a, b) hab⟩
    · refine forall_mem_cons.2 ⟨?_, hwell.distinct⟩
      have hsame : (w.setDelegation e.index
          { d with undelegations := (drain epoch balance d.undelegations).2 }).delegators =
          w.delegators := delegators_set entry rfl
      exact hsame ▸ hproper.distinct
    · have hset := total_setDelegation entry
        { d with undelegations := (drain epoch balance d.undelegations).2 }
      have hdrain := sum_drain epoch balance d.undelegations
      have hheld := hdb.held_eq hflag₁ copy
      have hrest := hwell.total
      simp only [map_cons, sum_cons, total] at hset ⊢
      linarith
  | @passed e es w d balance left ws copy entry le rest ih =>
    have hproper := hdb.proper _ w (hflag e mem_cons_self) copy
    have hnonneg := hproper.nonneg d (mem_of_getElem? entry)
    have hdrain : 0 ≤ (drain epoch balance d.undelegations).1 ∧
        (drain epoch balance d.undelegations).1 ≤ balance := drain_le hbalance hnonneg
    have hwell := ih (fun x hx => hflag x (mem_cons_of_mem _ hx)) hdrain.1
    have hsame : (drain epoch balance d.undelegations).1 = balance := le_antisymm hdrain.2 le
    exact ⟨hwell.sublist.cons _, hwell.flagged, hwell.address, hwell.distinct, hsame ▸ hwell.total⟩

/-! ## Messages -/

theorem tokens_undelegated (hdb : WellFormed rlp db) (hfound : Undelegated rlp epoch msg db w)
    (hstored : DB.Updated rlp.codec db db' w.address w) : tokens rlp db' = tokens rlp db := by
  obtain ⟨w₀, i, d, d', hcopy, hd, -, hundelegate, haddress, hdelegations, -, -⟩ := hfound.found
  have hproper := hdb.proper _ w₀ hfound.flagged hcopy
  rw [haddress, hproper.address] at hstored
  have hupdated := tokens_updated hfound.flagged hstored
  have hset := sum_set_add (·.total) hd d'
  have htotal := total_undelegate hundelegate
  have hheld := hdb.held_eq hfound.flagged hcopy
  simp only [ValidatorWrapper.total, hdelegations] at hupdated hheld
  linarith

theorem tokens_edited {msg : EditValidator} {w₀ : ValidatorWrapper} (hdb : WellFormed rlp db)
    (hfound : Edited rlp bc msg db w₀ w)
    (hstored : DB.Updated rlp.codec db db' msg.validatorAddress w) :
    tokens rlp db' = tokens rlp db := by
  have hupdated := tokens_updated hfound.flagged hstored
  have hheld := hdb.held_eq hfound.flagged hfound.copy
  simp only [ValidatorWrapper.total, hfound.delegations] at hupdated hheld
  linarith

variable {db₁ : DB ValidatorWrapper}

theorem tokens_created {msg : CreateValidator} (hdb : WellFormed rlp db)
    (hfound : Created rlp bc msg db w)
    (hstored : DB.Updated rlp.codec db db₁ msg.validatorAddress w) :
    tokens rlp ((db₁.setState msg.validatorAddress Core.isValidatorKey
      isValidatorValue).subBalance msg.validatorAddress msg.amount) = tokens rlp db := by
  have hthawed := hstored.thawed hdb.thawed
  -- the flag makes the wrapper count, and no other validator is touched
  have hheld : held rlp (db₁.setState msg.validatorAddress Core.isValidatorKey
      isValidatorValue) = Function.update (held rlp db) msg.validatorAddress msg.amount := by
    funext v
    have hstate := DB.getState_setState_thawed (hthawed msg.validatorAddress)
      Core.isValidatorKey isValidatorValue v Core.isValidatorKey
    by_cases hv : v = msg.validatorAddress
    · subst hv
      have hflag : Flagged (db₁.setState msg.validatorAddress Core.isValidatorKey
          isValidatorValue) msg.validatorAddress := by
        rw [Flagged, hstate, if_pos ⟨rfl, rfl⟩]
        decide
      rw [update_self, held, if_pos hflag, current, DB.cached_setState, hstored.cached, update_self]
      simp [ValidatorWrapper.total, hfound.delegations, newDelegation, total, inUndelegation]
    · rw [update_of_ne hv]
      refine held_congr ?_ ?_
      · rw [Flagged, Flagged, hstate, if_neg (fun h => hv h.1), hstored.storage]
      · rw [current, current, DB.cached_setState, DB.wrapper_setState, hstored.cached,
          hstored.wrapper, update_of_ne hv, update_of_ne hv]
  have hzero : held rlp db msg.validatorAddress = 0 :=
    if_neg (not_not.2 hfound.unflagged)
  have hsum := sum_update_add (f := held rlp db) msg.validatorAddress msg.amount
  rw [tokens_subBalance (hthawed.setState _ _ _), tokens, tokens, hheld,
    Finset.sum_congr rfl fun a _ => DB.getBalance_setState db₁ msg.validatorAddress a _ _,
    hstored.balance]
  linarith

theorem total_collect (d : Delegation) : d.collect.total + d.collectable = d.total := by
  unfold collect collectable
  split_ifs with hreward
  · simp only [total]
    ring
  · ring

section

variable (hdb : WellFormed rlp db)
include hdb

theorem collected_well {total : ℤ} (hflag : ∀ e ∈ es, Flagged db e.validatorAddress)
    (h : Collected rlp db es ws total) :
    ws.map (·.address) = es.map (·.validatorAddress) ∧
      (ws.map (·.total)).sum + total = (es.map fun e => held rlp db e.validatorAddress).sum := by
  induction h with
  | nil => exact ⟨rfl, rfl⟩
  | @cons e es w d ws total copy entry rest ih =>
    have hflag₁ := hflag e mem_cons_self
    obtain ⟨haddress, hsum⟩ := ih fun x hx => hflag x (mem_cons_of_mem _ hx)
    have hset := total_setDelegation entry d.collect
    have hcollect := total_collect d
    have hheld := hdb.held_eq hflag₁ copy
    refine ⟨?_, ?_⟩
    · rw [map_cons, map_cons, haddress]
      exact congrArg (· :: _) (hdb.proper _ w hflag₁ copy).address
    · simp only [map_cons, sum_cons]
      linarith

theorem tokens_collected {total : ℤ} (hindex : ListsValidators db es)
    (hfound : Collected rlp db es ws total) (hstored : Stored rlp ws db db₁) :
    tokens rlp (db₁.addBalance delegator total) = tokens rlp db := by
  obtain ⟨haddress, hsum⟩ := collected_well hdb hindex.flagged hfound
  have hflagged : ∀ w ∈ ws, Flagged db w.address := by
    intro w hw
    have hmem : w.address ∈ es.map (·.validatorAddress) := haddress ▸ mem_map_of_mem hw
    obtain ⟨e, he, heq⟩ := mem_map.1 hmem
    exact heq ▸ hindex.flagged e he
  have htokens := tokens_stored hstored hflagged (haddress ▸ hindex.distinct)
  have hheld : (ws.map fun w => held rlp db w.address) =
      es.map fun e => held rlp db e.validatorAddress := by
    have := congrArg (map (held rlp db)) haddress
    simpa only [map_map, comp_def] using this
  rw [hheld] at htokens
  rw [tokens_addBalance (hstored.thawed hdb.thawed)]
  linarith

variable {r : List ValidatorWrapper × ℤ × List (Address × ℤ)}

theorem delegated_well (hindex : ListsValidators db es)
    (h : Delegated rlp bc epoch msg es db r) :
    (∀ w ∈ r.1, Flagged db w.address) ∧ (r.1.map (·.address)).Nodup ∧
      (r.1.map (·.total)).sum = (r.1.map fun w => held rlp db w.address).sum + r.2.1 := by
  obtain ⟨ws, i, w, hdrained, hcase⟩ := h.stored
  have hused : (if bc.config.isRedelegation epoch = true then es else []).Sublist es := by
    split_ifs
    exacts [Sublist.refl _, nil_sublist _]
  have hwell := drainedWell_of_drained hdb
    (fun e he => hindex.flagged e (hused.subset he)) h.amount_nonneg hdrained
  have hnodup : (ws.map (·.1)).Nodup :=
    (hwell.sublist.trans (hused.map _)).nodup hindex.distinct
  have haddresses : ws.map (fun p => p.2.address) = ws.map (·.1) :=
    map_congr_left hwell.address
  have hheld : (ws.map fun p => held rlp db p.2.address) = ws.map fun p => held rlp db p.1 :=
    map_congr_left fun p hp => by rw [hwell.address p hp]
  have hflagged : ∀ x ∈ ws.map (·.2), Flagged db x.address := by
    intro x hx
    obtain ⟨p, hp, rfl⟩ := mem_map.1 hx
    exact hwell.address p hp ▸ hwell.flagged p hp
  have hsum := hwell.total
  obtain ⟨hget, hr⟩ | ⟨hnone, hcopy, hr⟩ := hcase
  · -- the delegatee was drained: it is replaced by the wrapper with the delegation
    have hmem : (msg.validatorAddress, w) ∈ ws := mem_of_getElem? hget
    have hget₂ : (ws.map (·.2))[i]? = some w := by rw [getElem?_map, hget]; rfl
    have hcredit := total_withDelegation msg.amount (hwell.distinct _ hmem) msg.delegatorAddress
    have htotal := sum_set_add (·.total) hget₂ (w.withDelegation msg.delegatorAddress msg.amount)
    have hsame := sum_set_add (fun x => held rlp db x.address) hget₂
      (w.withDelegation msg.delegatorAddress msg.amount)
    have hmap : r.1.map (·.address) = ws.map (·.1) := by
      rw [hr, ← haddresses, map_set, map_map]
      refine set_self_of_getElem? ?_
      rw [getElem?_map, hget]
      rfl
    refine ⟨fun x hx => ?_, hmap ▸ hnodup, ?_⟩
    · rw [hr] at hx
      obtain hx | rfl := mem_or_eq_of_mem_set hx
      · exact hflagged x hx
      · exact hflagged w (mem_map_of_mem hmem)
    · simp only [map_map, comp_def] at htotal hsame
      rw [hheld] at hsame
      have haddress : (w.withDelegation msg.delegatorAddress msg.amount).address = w.address := rfl
      rw [haddress] at hsame
      rw [hr]
      linarith
  · -- no wrapper of the delegatee was drained: a fresh copy is stored behind the others
    have hproper := hdb.proper _ w h.flagged hcopy
    have hcredit := total_withDelegation msg.amount hproper.distinct msg.delegatorAddress
    have hown := hdb.held_eq h.flagged hcopy
    have haddress : (w.withDelegation msg.delegatorAddress msg.amount).address =
        msg.validatorAddress := hproper.address
    refine ⟨fun x hx => ?_, ?_, ?_⟩
    · rw [hr] at hx
      obtain hx | hx := mem_append.1 hx
      · exact hflagged x hx
      · rw [mem_singleton.1 hx, haddress]
        exact h.flagged
    · rw [hr, map_append, map_map, map_singleton, haddress]
      refine nodup_append.2 ⟨haddresses.symm ▸ hnodup, nodup_singleton _, ?_⟩
      intro a ha b hb heq
      obtain ⟨p, hp, rfl⟩ := mem_map.1 ha
      exact hnone p hp ((hwell.address p hp).symm.trans (heq.trans (mem_singleton.1 hb)))
    · rw [hr]
      simp only [map_append, map_map, comp_def, map_singleton, sum_append, sum_singleton, haddress]
      rw [hheld]
      linarith

theorem tokens_delegated (hindex : ListsValidators db es)
    (hfound : Delegated rlp bc epoch msg es db r) (hstored : Stored rlp r.1 db db₁) :
    tokens rlp (db₁.subBalance msg.delegatorAddress r.2.1) = tokens rlp db := by
  obtain ⟨hflagged, hdistinct, hsum⟩ := delegated_well hdb hindex hfound
  have htokens := tokens_stored hstored hflagged hdistinct
  rw [tokens_subBalance (hstored.thawed hdb.thawed)]
  linarith

/-- **A message moves tokens and makes none.** -/
theorem tokens_applied {msg : StakeMsg}
    (hindex : ∀ delegator es, bc.readDelegationsByDelegator delegator = .ok es →
      ListsValidators db es) (h : Applied rlp bc epoch msg db db') :
    tokens rlp db' = tokens rlp db := by
  cases h with
  | create found stored => exact tokens_created hdb found stored
  | edit found stored => exact tokens_edited hdb found stored
  | delegate index found stored same balance =>
    rw [tokens_same same balance]
    exact tokens_delegated hdb (hindex _ _ index) found stored
  | undelegate found stored => exact tokens_undelegated hdb found stored
  | collect index found stored same balance =>
    rw [tokens_same same balance]
    exact tokens_collected hdb (hindex _ _ index) found stored

end

end DyShard.Staking
