import DyShard.Staking.Messages

/-!
# What a staking message does

The verification of a message only reads the state.  For each message, what a successful run has
found and what it has written.
-/

namespace DyShard.Staking

open List Delegation Option Client ValidatorWrapper Machine

open State (DB)
open DyShard.Core (ChainConfig TransactionType)
open Client (succeeds_bind succeeds_guard succeeds_lift succeeds_reads succeeds_pure
  succeeds_ofExcept not_succeeds_throw)

variable {rlp : WrapperRlp} {bc : ChainContext}

/-- The check succeeds on the database. -/
abbrev Succeeds {α : Type} (rlp : WrapperRlp) (x : Check α) (db : DB ValidatorWrapper) (a : α)
    (db' : DB ValidatorWrapper) : Prop :=
  (DB.machine rlp.codec).Succeeds x db a db'

variable {db db' : DB ValidatorWrapper}

/-! ## Reading -/

variable {w : ValidatorWrapper} {u : Unit} {validator : Address} {blockNum epoch : ℕ}
  {es : List DelegationIndex} {r : Redelegation}

theorem succeeds_validatorWrapperCopy {a : Address} :
    Succeeds rlp (validatorWrapperCopy rlp a) db w db' ↔
      db.validatorWrapperCopy rlp.codec a = some w ∧ db' = db := by
  unfold validatorWrapperCopy DB.validatorWrapperCopy
  rw [Succeeds, succeeds_reads (DB.run_getCode rlp.codec db a), succeeds_guard]
  by_cases hcode : db.getCode a = []
  · simp [hcode]
  · rw [if_neg hcode]
    change _ ∧ _ ↔ rlp.decode _ = _ ∧ _
    cases hdecode : rlp.decode (db.getCode a) with
    | none => simpa using fun _ => not_succeeds_throw
    | some w' =>
      simp only [hcode, not_false_eq_true, true_and, succeeds_pure, some.injEq]
      rw [eq_comm]

theorem succeeds_isValidator {a : Address} {b : Bool} :
    Succeeds rlp (liftM (Core.isValidator (W := ValidatorWrapper) a)) db b db' ↔
      b = decide (db.getState a Core.isValidatorKey ≠ 0) ∧ db' = db := by
  rw [Succeeds, succeeds_lift]
  change some (_, db) = some (b, db') ↔ _
  simp [eq_comm]

theorem bind_eq_ok {ε α β : Type} {x : Except ε α} {f : α → Except ε β} {b : β} :
    (x >>= f) = .ok b ↔ ∃ a, x = .ok a ∧ f a = .ok b := by
  cases x <;> simp [bind, Except.bind]

theorem mapError_eq_ok {ε ε' α : Type} {x : Except ε α} {f : ε → ε'} {a : α} :
    x.mapError f = .ok a ↔ x = .ok a := by
  cases x <;> simp [Except.mapError]

theorem succeeds_sane : Succeeds rlp (sane w) db u db' ↔ w.sanityCheck = .ok () ∧ db' = db := by
  unfold sane
  rw [Succeeds, succeeds_ofExcept, mapError_eq_ok]

/-! ## Writing -/

/-- A state is left by storing the wrappers one after the other, each at its own address. -/
inductive Stored (rlp : WrapperRlp) : List ValidatorWrapper → DB ValidatorWrapper →
    DB ValidatorWrapper → Prop
  | nil (db : DB ValidatorWrapper) : Stored rlp [] db db
  | cons {w : ValidatorWrapper} {ws : List ValidatorWrapper} {db db₁ db' : DB ValidatorWrapper}
      (head : DB.Updated rlp.codec db db₁ w.address w) (tail : Stored rlp ws db₁ db') :
      Stored rlp (w :: ws) db db'

theorem updated_of_succeeds (hthawed : db.Thawed) (h : Succeeds rlp (update rlp w) db u db') :
    DB.Updated rlp.codec db db' w.address w := by
  obtain ⟨ok, db₁, hrun, h⟩ := succeeds_bind.1 h
  cases hrun
  obtain ⟨hok, h⟩ := succeeds_guard.1 h
  obtain ⟨-, rfl⟩ := succeeds_pure.1 h
  exact DB.updated_of_update (hthawed _) (Bool.not_eq_false _ ▸ hok)

variable {ws : List ValidatorWrapper} {keys keys' : List BLSKey} {blsKeys : List BLSKey}
  {msg : CreateValidator} {w' : ValidatorWrapper} {delegator : Address} {key : Option BLSKey}
  {identity : String} {r' : Redelegation}

theorem stored_of_succeeds (hthawed : db.Thawed) (h : Succeeds rlp (updateAll rlp ws) db u db') :
    Stored rlp ws db db' := by
  induction ws generalizing db with
  | nil =>
    obtain ⟨-, rfl⟩ := succeeds_pure.1 h
    exact .nil _
  | cons w ws ih =>
    obtain ⟨_, db₁, hw, hws⟩ := succeeds_bind.1 h
    have hupdated := updated_of_succeeds hthawed hw
    exact .cons hupdated (ih (hupdated.thawed hthawed) hws)

theorem Stored.thawed (h : Stored rlp ws db db') (hdb : db.Thawed) : db'.Thawed := by
  induction h with
  | nil => exact hdb
  | cons head _ ih => exact ih (head.thawed hdb)

theorem Stored.coherent (h : Stored rlp ws db db') (hdb : DB.Coherent rlp.codec db) :
    DB.Coherent rlp.codec db' := by
  induction h with
  | nil => exact hdb
  | cons head _ ih => exact ih (head.coherent hdb)

theorem same_of_addLogs {logs : List State.EventLog} (h : Succeeds rlp (addLogs logs) db u db') :
    DB.SameStaking rlp.codec db db' ∧ ∀ a, db'.getBalance a = db.getBalance a := by
  induction logs generalizing db with
  | nil =>
    obtain ⟨-, rfl⟩ := succeeds_pure.1 h
    exact ⟨.refl _, fun _ => rfl⟩
  | cons log logs ih =>
    obtain ⟨_, db₁, hlog, hlogs⟩ := succeeds_bind.1 h
    cases hlog
    obtain ⟨hsame, hbalance⟩ := ih hlogs
    exact ⟨(DB.SameStaking.addLog db log).trans hsame, fun a => hbalance a⟩

/-! ## Creating and editing -/

/-- No listed validator but this one has the identity or one of the keys. -/
def NoDuplicate (rlp : WrapperRlp) (db : DB ValidatorWrapper) (validator : Address)
    (identity : String) (blsKeys : List BLSKey) (addrs : List Address) : Prop :=
  ∀ addr ∈ addrs, validator ≠ addr → ∃ w, db.validatorWrapperCopy rlp.codec addr = some w ∧
    ¬ (identity ≠ "" ∧ w.description.identity = identity) ∧
    ∀ key ∈ w.slotPubKeys, key ∉ blsKeys

theorem noDuplicate_of_succeeds {addrs : List Address}
    (h : Succeeds rlp (checkDuplicates rlp validator identity blsKeys addrs) db u db') :
    NoDuplicate rlp db validator identity blsKeys addrs ∧ db' = db := by
  induction addrs with
  | nil => exact ⟨fun _ hmem => absurd hmem not_mem_nil, (succeeds_pure.1 h).2⟩
  | cons addr addrs ih =>
    unfold checkDuplicates at h
    by_cases hself : validator = addr
    · rw [if_pos hself] at h
      obtain ⟨hrest, hdb⟩ := ih h
      refine ⟨fun b hb hne => ?_, hdb⟩
      obtain rfl | hb := mem_cons.1 hb
      · exact absurd hself hne
      · exact hrest b hb hne
    · rw [if_neg hself] at h
      obtain ⟨w, hcopy, h⟩ := h.after succeeds_validatorWrapperCopy.1
      obtain ⟨hidentity, h⟩ := succeeds_guard.1 h
      obtain ⟨hkeys, h⟩ := succeeds_guard.1 h
      obtain ⟨hrest, hdb⟩ := ih h
      refine ⟨fun b hb hne => ?_, hdb⟩
      obtain rfl | hb := mem_cons.1 hb
      · exact ⟨w, hcopy, hidentity, fun key hkey hmem => hkeys ⟨key, hkey, hmem⟩⟩
      · exact hrest b hb hne

theorem noDuplicate_of_checkDuplicateFields
    (h : Succeeds rlp (checkDuplicateFields rlp bc validator identity blsKeys) db u db') :
    (∃ addrs, bc.readValidatorList = .ok addrs ∧
      NoDuplicate rlp db validator identity blsKeys addrs) ∧ db' = db := by
  obtain ⟨addrs, hlist, h⟩ := h.after succeeds_ofExcept.1
  obtain ⟨hunique, hdb⟩ := noDuplicate_of_succeeds h
  exact ⟨⟨addrs, hlist, hunique⟩, hdb⟩

/-- What a successful creation has found. -/
structure Created (rlp : WrapperRlp) (bc : ChainContext) (msg : CreateValidator)
    (db : DB ValidatorWrapper) (w : ValidatorWrapper) : Prop where
  amount_nonneg : 0 ≤ msg.amount
  unflagged : db.getState msg.validatorAddress Core.isValidatorKey = 0
  unique : ∃ addrs, bc.readValidatorList = .ok addrs ∧
    NoDuplicate rlp db msg.validatorAddress msg.description.identity msg.slotPubKeys addrs
  funded : msg.amount ≤ db.getBalance msg.validatorAddress
  address : w.address = msg.validatorAddress
  identity : w.description.identity = msg.description.identity
  keys : w.slotPubKeys = msg.slotPubKeys
  delegations : w.delegations = [newDelegation msg.validatorAddress msg.amount]
  sane : w.sanityCheck = .ok ()

theorem createValidatorFromNewMsg_eq_ok {v : Validator}
    (h : createValidatorFromNewMsg bc msg blockNum epoch = .ok v) :
    v.address = msg.validatorAddress ∧ v.description = msg.description ∧
      v.slotPubKeys = msg.slotPubKeys := by
  unfold createValidatorFromNewMsg at h
  obtain ⟨_, -, h⟩ := bind_eq_ok.1 h
  obtain ⟨_, -, h⟩ := bind_eq_ok.1 h
  obtain ⟨_, -, h⟩ := bind_eq_ok.1 h
  cases h
  exact ⟨rfl, rfl, rfl⟩

theorem created_of_succeeds
    (h : Succeeds rlp (verifyAndCreateValidatorFromMsg rlp bc epoch blockNum msg) db w db') :
    Created rlp bc msg db w ∧ db' = db := by
  unfold verifyAndCreateValidatorFromMsg at h
  obtain ⟨hamount, h⟩ := succeeds_guard.1 h
  obtain ⟨flag, rfl, h⟩ := h.after succeeds_isValidator.1
  obtain ⟨hflag, h⟩ := succeeds_guard.1 h
  obtain ⟨_, hunique, h⟩ := h.after noDuplicate_of_checkDuplicateFields
  replace h := (succeeds_reads (DB.run_getBalance rlp.codec _ _)).1 h
  obtain ⟨hfunded, h⟩ := succeeds_guard.1 h
  obtain ⟨v, hv, h⟩ := h.after succeeds_ofExcept.1
  obtain ⟨_, hsane, h⟩ := h.after succeeds_sane.1
  obtain ⟨rfl, hdb⟩ := succeeds_pure.1 h
  obtain ⟨haddress, hdescription, hkeys⟩ := createValidatorFromNewMsg_eq_ok hv
  refine ⟨⟨not_lt.1 hamount, by simpa using hflag, hunique, not_lt.1 hfunded,
    haddress, congrArg _ hdescription, hkeys, ?_, hsane⟩, hdb⟩
  rw [haddress]

/-! ## Undelegating -/

/-- What a successful undelegation has found: the first delegation of the delegator. -/
structure Undelegated (rlp : WrapperRlp) (epoch : ℕ) (msg : Delegate)
    (db : DB ValidatorWrapper) (w : ValidatorWrapper) : Prop where
  found : ∃ (w₀ : ValidatorWrapper) (i : ℕ) (d d' : Delegation),
    db.validatorWrapperCopy rlp.codec msg.validatorAddress = some w₀ ∧
    w₀.delegations[i]? = some d ∧ d.delegatorAddress = msg.delegatorAddress ∧
    d.undelegate epoch msg.amount = .ok d' ∧ w.address = w₀.address ∧
    w.delegations = w₀.delegations.set i d' ∧ w.slotPubKeys = w₀.slotPubKeys ∧
    w.description = w₀.description
  flagged : db.getState msg.validatorAddress Core.isValidatorKey ≠ 0

theorem afterUndelegation_eq_ok (h : afterUndelegation w = .ok w') :
    w'.address = w.address ∧ w'.delegations = w.delegations ∧ w'.slotPubKeys = w.slotPubKeys ∧
      w'.description = w.description := by
  unfold afterUndelegation at h
  split at h
  · cases h
    exact ⟨rfl, rfl, rfl, rfl⟩
  · cases h
    exact ⟨rfl, rfl, rfl, rfl⟩
  · cases h

theorem undelegated_of_succeeds {msg : Delegate}
    (h : Succeeds rlp (verifyAndUndelegateFromMsg rlp epoch msg) db w db') :
    Undelegated rlp epoch msg db w ∧ db' = db := by
  unfold verifyAndUndelegateFromMsg at h
  obtain ⟨-, h⟩ := succeeds_guard.1 h
  obtain ⟨flag, rfl, h⟩ := h.after succeeds_isValidator.1
  obtain ⟨hflag, h⟩ := succeeds_guard.1 h
  obtain ⟨w₀, hcopy, h⟩ := h.after succeeds_validatorWrapperCopy.1
  dsimp only at h
  split at h
  · exact absurd h not_succeeds_throw
  · rename_i d hd
    obtain ⟨d', hd', h⟩ := h.after succeeds_ofExcept.1
    obtain ⟨hw, hdb⟩ := succeeds_ofExcept.1 h
    obtain ⟨haddress, hdelegations, hkeys, hdescription⟩ := afterUndelegation_eq_ok hw
    obtain ⟨hlt, hget⟩ := List.getElem?_eq_some_iff.1 hd
    have hdelegator : d.delegatorAddress = msg.delegatorAddress := by
      have := findIdx_getElem (w := hlt)
      rw [hget] at this
      simpa using this
    exact ⟨⟨⟨w₀, _, d, d', hcopy, hd, hdelegator, mapError_eq_ok.1 hd', haddress, hdelegations, hkeys,
      hdescription⟩, by simpa using hflag⟩, hdb⟩

/-! ## Collecting -/

/-- The delegation without its reward. -/
def Delegation.collect (d : Delegation) : Delegation :=
  if 0 < d.reward then { d with reward := 0 } else d

/-- The reward that is collected. -/
def Delegation.collectable (d : Delegation) : ℤ := if 0 < d.reward then d.reward else 0

/-- What the loop over the index has found: a wrapper for each entry, and the total. -/
inductive Collected (rlp : WrapperRlp) (db : DB ValidatorWrapper) :
    List DelegationIndex → List ValidatorWrapper → ℤ → Prop
  | nil : Collected rlp db [] [] 0
  | cons {e : DelegationIndex} {es : List DelegationIndex} {w : ValidatorWrapper} {d : Delegation}
      {ws : List ValidatorWrapper} {total : ℤ}
      (copy : db.validatorWrapperCopy rlp.codec e.validatorAddress = some w)
      (entry : w.delegations[e.index]? = some d) (rest : Collected rlp db es ws total) :
      Collected rlp db (e :: es) (w.setDelegation e.index d.collect :: ws) (d.collectable + total)

theorem set_self_of_getElem? {α : Type} {l : List α} {i : ℕ} {x : α} (h : l[i]? = some x) :
    l.set i x = l := by
  obtain ⟨hlt, rfl⟩ := List.getElem?_eq_some_iff.1 h
  exact set_getElem_self hlt

theorem collected_of_collectFrom {total : ℤ} {r : List ValidatorWrapper × ℤ}
    (h : Succeeds rlp (collectFrom rlp ws total es) db r db') :
    (∃ ws' total', Collected rlp db es ws' total' ∧ r = (ws ++ ws', total + total')) ∧
      db' = db := by
  induction es generalizing ws total with
  | nil =>
    obtain ⟨rfl, hdb⟩ := succeeds_pure.1 h
    exact ⟨⟨[], 0, .nil, by simp⟩, hdb⟩
  | cons e es ih =>
    unfold collectFrom at h
    obtain ⟨w, hcopy, h⟩ := h.after succeeds_validatorWrapperCopy.1
    split at h
    · exact absurd h not_succeeds_throw
    · rename_i d hd
      by_cases hreward : 0 < d.reward
      · rw [if_pos hreward] at h
        obtain ⟨⟨ws', total', hcollected, hr⟩, hdb⟩ := ih h
        refine ⟨⟨_, _, .cons hcopy hd hcollected, ?_⟩, hdb⟩
        simp [hr, collect, collectable, hreward, add_assoc]
      · rw [if_neg hreward] at h
        obtain ⟨⟨ws', total', hcollected, hr⟩, hdb⟩ := ih h
        refine ⟨⟨_, _, .cons hcopy hd hcollected, ?_⟩, hdb⟩
        simp [hr, collect, collectable, hreward, setDelegation, set_self_of_getElem? hd]

theorem collected_of_succeeds {r : List ValidatorWrapper × ℤ}
    (h : Succeeds rlp (verifyAndCollectRewardsFromDelegation rlp es) db r db') :
    Collected rlp db es r.1 r.2 ∧ db' = db := by
  obtain ⟨r₁, ⟨ws, total, hcollected, rfl⟩, h⟩ := h.after collected_of_collectFrom
  obtain ⟨-, h⟩ := succeeds_guard.1 h
  obtain ⟨rfl, hdb⟩ := succeeds_pure.1 h
  exact ⟨by simpa using hcollected, hdb⟩

/-! ## Delegating -/

/-- What the redelegation loop has found: the balance left, and the drained wrappers. -/
inductive Drained (rlp : WrapperRlp) (db : DB ValidatorWrapper) (epoch : ℕ) :
    List DelegationIndex → ℤ → ℤ → List (Address × ValidatorWrapper) → Prop
  | nil (balance : ℤ) : Drained rlp db epoch [] balance balance []
  | used {e : DelegationIndex} {es : List DelegationIndex} {w : ValidatorWrapper}
      {d : Delegation} {balance left : ℤ} {ws : List (Address × ValidatorWrapper)}
      (copy : db.validatorWrapperCopy rlp.codec e.validatorAddress = some w)
      (entry : w.delegations[e.index]? = some d)
      (lt : (drain epoch balance d.undelegations).1 < balance)
      (rest : Drained rlp db epoch es (drain epoch balance d.undelegations).1 left ws) :
      Drained rlp db epoch (e :: es) balance left
        ((e.validatorAddress, w.setDelegation e.index
          { d with undelegations := (drain epoch balance d.undelegations).2 }) :: ws)
  | passed {e : DelegationIndex} {es : List DelegationIndex} {w : ValidatorWrapper}
      {d : Delegation} {balance left : ℤ} {ws : List (Address × ValidatorWrapper)}
      (copy : db.validatorWrapperCopy rlp.codec e.validatorAddress = some w)
      (entry : w.delegations[e.index]? = some d)
      (le : balance ≤ (drain epoch balance d.undelegations).1)
      (rest : Drained rlp db epoch es (drain epoch balance d.undelegations).1 left ws) :
      Drained rlp db epoch (e :: es) balance left ws

/-- The position of the last wrapper of the validator. -/
def lastAt (validator : Address) : ℕ → Option ℕ → List (Address × ValidatorWrapper) → Option ℕ
  | _, found, [] => found
  | n, found, p :: ps => lastAt validator (n + 1) (if p.1 = validator then some n else found) ps

/-- One entry of the index in the redelegation loop: it is drained, or it has nothing to give. -/
def DrainStep (rlp : WrapperRlp) (db : DB ValidatorWrapper) (epoch : ℕ) (validator : Address)
    (e : DelegationIndex) (r r' : Redelegation) : Prop :=
  ∃ w d, db.validatorWrapperCopy rlp.codec e.validatorAddress = some w ∧
    w.delegations[e.index]? = some d ∧
    r'.balance = (drain epoch r.balance d.undelegations).1 ∧
    ((r'.balance < r.balance ∧
      r'.wrappers = r.wrappers ++ [w.setDelegation e.index
        { d with undelegations := (drain epoch r.balance d.undelegations).2 }] ∧
      r'.delegatee = if e.validatorAddress = validator then some r.wrappers.length
        else r.delegatee) ∨
    (r.balance ≤ r'.balance ∧ r'.wrappers = r.wrappers ∧ r'.delegatee = r.delegatee))

theorem drainStep_of_redelegateFrom {e : DelegationIndex}
    (h : Succeeds rlp (redelegateFrom rlp epoch validator r e) db r' db') :
    DrainStep rlp db epoch validator e r r' ∧ db' = db := by
  unfold redelegateFrom at h
  obtain ⟨w, hcopy, h⟩ := h.after succeeds_validatorWrapperCopy.1
  split at h
  · exact absurd h not_succeeds_throw
  · rename_i d hd
    dsimp only at h
    by_cases hlt : (drain epoch r.balance d.undelegations).1 < r.balance
    · rw [if_pos hlt] at h
      obtain ⟨_, -, h⟩ := h.after succeeds_sane.1
      obtain ⟨rfl, hdb⟩ := succeeds_pure.1 h
      exact ⟨⟨w, d, hcopy, hd, rfl, .inl ⟨hlt, rfl, rfl⟩⟩, hdb⟩
    · rw [if_neg hlt] at h
      obtain ⟨rfl, hdb⟩ := succeeds_pure.1 h
      exact ⟨⟨w, d, hcopy, hd, rfl, .inr ⟨not_lt.1 hlt, rfl, rfl⟩⟩, hdb⟩

theorem drained_of_redelegate (h : Succeeds rlp (redelegate rlp epoch validator r es) db r' db') :
    (∃ ws, Drained rlp db epoch es r.balance r'.balance ws ∧
      r'.wrappers = r.wrappers ++ ws.map (·.2) ∧
      r'.delegatee = lastAt validator r.wrappers.length r.delegatee ws) ∧ db' = db := by
  induction es generalizing r with
  | nil =>
    obtain ⟨rfl, hdb⟩ := succeeds_pure.1 h
    exact ⟨⟨[], .nil _, by simp, rfl⟩, hdb⟩
  | cons e es ih =>
    obtain ⟨r₁, ⟨w, d, hcopy, hd, hbalance, hcase⟩, h⟩ := h.after drainStep_of_redelegateFrom
    obtain ⟨⟨ws, hdrained, hwrappers, hdelegatee⟩, hdb⟩ := ih h
    rw [hbalance] at hdrained hcase
    obtain ⟨hlt, hw, hat⟩ | ⟨hle, hw, hat⟩ := hcase
    · refine ⟨⟨_, .used hcopy hd hlt hdrained, by simp [hwrappers, hw], ?_⟩, hdb⟩
      simp [hdelegatee, hw, hat, lastAt]
    · exact ⟨⟨ws, .passed hcopy hd hle hdrained, by rw [hwrappers, hw],
        by rw [hdelegatee, hw, hat]⟩, hdb⟩

/-- The delegation with the amount added, if it is the delegator's. -/
def Delegation.bump (delegator : Address) (amount : ℤ) (d : Delegation) : Delegation :=
  if d.delegatorAddress = delegator then { d with amount := d.amount + amount } else d

/-- The delegations after a delegation. -/
def credited (delegator : Address) (amount : ℤ) (ds : List Delegation) : List Delegation :=
  if ∃ d ∈ ds, d.delegatorAddress = delegator then ds.map (bump delegator amount)
  else ds ++ [newDelegation delegator amount]

/-- The wrapper after a delegation. -/
def ValidatorWrapper.withDelegation (delegator : Address) (amount : ℤ) (w : ValidatorWrapper) :
    ValidatorWrapper :=
  { w with delegations := credited delegator amount w.delegations }

theorem bumped_of_creditFrom {amount : ℤ} {done rest : List Delegation}
    {found : Bool} {r : List Delegation × Bool}
    (h : Succeeds rlp (creditFrom delegator amount w done rest found) db r db') :
    r = (done ++ rest.map (bump delegator amount),
      found || decide (∃ d ∈ rest, d.delegatorAddress = delegator)) ∧ db' = db := by
  induction rest generalizing done found with
  | nil =>
    obtain ⟨rfl, hdb⟩ := succeeds_pure.1 h
    exact ⟨by simp, hdb⟩
  | cons d rest ih =>
    unfold creditFrom at h
    by_cases hd : d.delegatorAddress = delegator
    · rw [if_pos hd] at h
      obtain ⟨_, -, h⟩ := h.after succeeds_sane.1
      obtain ⟨rfl, hdb⟩ := ih h
      exact ⟨by simp [bump, hd], hdb⟩
    · rw [if_neg hd] at h
      obtain ⟨rfl, hdb⟩ := ih h
      exact ⟨by simp [bump, hd], hdb⟩

theorem credited_of_succeeds {amount : ℤ} (h : Succeeds rlp (credit delegator amount w) db w' db') :
    w' = w.withDelegation delegator amount ∧ db' = db := by
  unfold credit at h
  obtain ⟨r, rfl, h⟩ := h.after bumped_of_creditFrom
  by_cases hfound : ∃ d ∈ w.delegations, d.delegatorAddress = delegator
  · rw [if_pos (by simpa using hfound)] at h
    obtain ⟨rfl, hdb⟩ := succeeds_pure.1 h
    exact ⟨by simp [withDelegation, credited, if_pos hfound], hdb⟩
  · rw [if_neg (by simpa using hfound)] at h
    obtain ⟨_, -, h⟩ := h.after succeeds_sane.1
    obtain ⟨rfl, hdb⟩ := succeeds_pure.1 h
    have hmap : w.delegations.map (bump delegator amount) = w.delegations :=
      (map_congr_left fun d hd => if_neg fun heq => hfound ⟨d, hd, heq⟩).trans (map_id _)
    exact ⟨by simp [withDelegation, credited, if_neg hfound, hmap], hdb⟩

theorem lastAt_cases (validator : Address) (ws : List (Address × ValidatorWrapper)) (n : ℕ)
    (found : Option ℕ) :
    (lastAt validator n found ws = found ∧ ∀ p ∈ ws, p.1 ≠ validator) ∨
      ∃ i p, lastAt validator n found ws = some (n + i) ∧ ws[i]? = some p ∧ p.1 = validator := by
  induction ws generalizing n found with
  | nil => exact .inl ⟨rfl, fun _ h => absurd h not_mem_nil⟩
  | cons q ws ih =>
    obtain ⟨hlast, hnone⟩ | ⟨i, p, hlast, hp, hv⟩ :=
      ih (n + 1) (if q.1 = validator then some n else found)
    · by_cases hq : q.1 = validator
      · exact .inr ⟨0, q, by simpa [lastAt, hq] using hlast, rfl, hq⟩
      · refine .inl ⟨by simpa [lastAt, hq] using hlast, fun p hp => ?_⟩
        obtain rfl | hp := mem_cons.1 hp
        · exact hq
        · exact hnone p hp
    · exact .inr ⟨i + 1, p, by rw [lastAt, hlast]; congr 1; omega, hp, hv⟩

/-- What a successful delegation has found.  The delegatee is one of the drained wrappers `ws`, or a
fresh copy behind them. -/
structure Delegated (rlp : WrapperRlp) (bc : ChainContext) (epoch : ℕ) (msg : Delegate)
    (es : List DelegationIndex) (db : DB ValidatorWrapper)
    (r : List ValidatorWrapper × ℤ × List (Address × ℤ)) : Prop where
  flagged : db.getState msg.validatorAddress Core.isValidatorKey ≠ 0
  amount_nonneg : 0 ≤ msg.amount
  stored : ∃ (ws : List (Address × ValidatorWrapper)) (i : ℕ) (w : ValidatorWrapper),
    Drained rlp db epoch (if bc.config.isRedelegation epoch = true then es else []) msg.amount
      r.2.1 ws ∧
    ((ws[i]? = some (msg.validatorAddress, w) ∧
      r.1 = (ws.map (·.2)).set i (w.withDelegation msg.delegatorAddress msg.amount)) ∨
    ((∀ p ∈ ws, p.1 ≠ msg.validatorAddress) ∧
      db.validatorWrapperCopy rlp.codec msg.validatorAddress = some w ∧
      r.1 = ws.map (·.2) ++ [w.withDelegation msg.delegatorAddress msg.amount]))
  funded : r.2.1 = 0 ∨ r.2.1 ≤ db.getBalance msg.delegatorAddress

theorem delegatee_of_succeeds {ws : List (Address × ValidatorWrapper)}
    (hwrappers : r.wrappers = ws.map (·.2)) (hdelegatee : r.delegatee = lastAt validator 0 none ws)
    {x : ValidatorWrapper × ℕ × List ValidatorWrapper}
    (h : Succeeds rlp (delegateeOf rlp validator r) db x db') :
    ((ws[x.2.1]? = some (validator, x.1) ∧ x.2.2 = ws.map (·.2)) ∨
      ((∀ p ∈ ws, p.1 ≠ validator) ∧ db.validatorWrapperCopy rlp.codec validator = some x.1 ∧
        x.2.1 = ws.length ∧ x.2.2 = ws.map (·.2) ++ [x.1])) ∧ db' = db := by
  unfold delegateeOf at h
  obtain ⟨hlast, hnone⟩ | ⟨i, p, hlast, hp, hv⟩ := lastAt_cases validator ws 0 none
  · rw [hdelegatee, hlast] at h
    obtain ⟨w, hcopy, h⟩ := h.after succeeds_validatorWrapperCopy.1
    obtain ⟨rfl, hdb⟩ := succeeds_pure.1 h
    exact ⟨.inr ⟨hnone, hcopy, by simp [hwrappers], by rw [hwrappers]⟩, hdb⟩
  · have hget : r.wrappers[i]? = some p.2 := by rw [hwrappers, List.getElem?_map, hp]; rfl
    rw [hdelegatee, hlast, Nat.zero_add, bind_some, hget] at h
    obtain ⟨rfl, hdb⟩ := succeeds_pure.1 h
    exact ⟨.inl ⟨by rw [hp, ← hv], hwrappers⟩, hdb⟩

theorem delegated_of_succeeds {msg : Delegate} {r : List ValidatorWrapper × ℤ × List (Address × ℤ)}
    (h : Succeeds rlp (verifyAndDelegateFromMsg rlp bc epoch msg es) db r db') :
    Delegated rlp bc epoch msg es db r ∧ db' = db := by
  unfold verifyAndDelegateFromMsg at h
  obtain ⟨flag, rfl, h⟩ := h.after succeeds_isValidator.1
  obtain ⟨hflag, h⟩ := succeeds_guard.1 h
  obtain ⟨hamount, h⟩ := succeeds_guard.1 h
  obtain ⟨_, -, h⟩ := h.after succeeds_ofExcept.1
  obtain ⟨r₁, ⟨ws, hdrained, hwrappers, hdelegatee⟩, h⟩ := h.after drained_of_redelegate
  obtain ⟨⟨w, i, ws₁⟩, hat, h⟩ := h.after (delegatee_of_succeeds hwrappers hdelegatee)
  obtain ⟨w', rfl, h⟩ := h.after credited_of_succeeds
  -- the list that is stored does not depend on where the tokens come from
  have hstored : ∀ left locked,
      r = (ws₁.set i (w.withDelegation msg.delegatorAddress msg.amount), left, locked) →
      left = r₁.balance → (left = 0 ∨ left ≤ db.getBalance msg.delegatorAddress) →
      Delegated rlp bc epoch msg es db r := by
    rintro left locked rfl rfl hfunded
    refine ⟨by simpa using hflag, not_lt.1 hamount, ⟨ws, i, w, hdrained, ?_⟩, hfunded⟩
    obtain ⟨hget, hlist⟩ | ⟨hnone, hcopy, hi, hlist⟩ := hat
    · exact .inl ⟨hget, by rw [← hlist]⟩
    · refine .inr ⟨hnone, hcopy, ?_⟩
      dsimp only at hi hlist
      rw [hi, hlist, set_append_right _ _ (by simp)]
      simp
  by_cases hzero : r₁.balance = 0
  · rw [if_pos hzero] at h
    obtain ⟨hr, hdb⟩ := succeeds_pure.1 h
    exact ⟨hstored 0 _ hr hzero.symm (.inl rfl), hdb⟩
  · rw [if_neg hzero] at h
    replace h := (succeeds_reads (DB.run_getBalance rlp.codec _ _)).1 h
    obtain ⟨hfunded, h⟩ := succeeds_guard.1 h
    obtain ⟨hr, hdb⟩ := succeeds_pure.1 h
    exact ⟨hstored _ _ hr rfl (.inr (not_lt.1 hfunded)), hdb⟩

/-! ## Editing -/

/-- What a successful edit has found: a new key or identity is nobody else's. -/
structure Edited (rlp : WrapperRlp) (bc : ChainContext) (msg : EditValidator)
    (db : DB ValidatorWrapper) (w₀ w : ValidatorWrapper) : Prop where
  flagged : db.getState msg.validatorAddress Core.isValidatorKey ≠ 0
  unique : ∃ addrs, bc.readValidatorList = .ok addrs ∧
    NoDuplicate rlp db msg.validatorAddress msg.description.identity msg.slotKeyToAdd.toList addrs
  copy : db.validatorWrapperCopy rlp.codec msg.validatorAddress = some w₀
  address : w₀.address = msg.validatorAddress ∧ w.address = msg.validatorAddress
  delegations : w.delegations = w₀.delegations
  identity : w.description.identity =
    if msg.description.identity ≠ "" then msg.description.identity else w₀.description.identity
  keys : ∀ key ∈ w.slotPubKeys, key ∈ w₀.slotPubKeys ∨ key ∈ msg.slotKeyToAdd.toList

theorem updateDescription_eq_ok {d₁ d₂ d : Description} (h : updateDescription d₁ d₂ = .ok d) :
    d.identity = if d₂.identity ≠ "" then d₂.identity else d₁.identity := by
  obtain ⟨_, -, h⟩ := bind_eq_ok.1 h
  cases h
  rfl

theorem mem_of_removeKey (h : removeKey key keys = .ok keys') : ∀ k ∈ keys', k ∈ keys := by
  unfold removeKey at h
  split at h
  · cases h
    exact fun _ hk => hk
  · split_ifs at h
    cases h
    exact fun _ hk => mem_of_mem_erase hk

theorem mem_of_addKey {sig : Option BLSSignature}
    (h : addKey bc epoch key sig keys = .ok keys') : ∀ k ∈ keys', k ∈ keys ∨ k ∈ key.toList := by
  unfold addKey at h
  split at h
  · cases h
    exact fun _ hk => .inl hk
  · rename_i key
    split_ifs at h
    obtain ⟨_, -, h⟩ := bind_eq_ok.1 h
    have hkeys : keys' = keys ++ [key] := by
      split at h
      · cases h
      · obtain ⟨_, -, h⟩ := bind_eq_ok.1 h
        cases h
        rfl
    subst hkeys
    intro k hk
    simpa using hk

theorem updateValidatorFromEditMsg_eq_ok {v v' : Validator} {edit : EditValidator}
    (h : updateValidatorFromEditMsg bc v edit epoch = .ok v') :
    v.address = edit.validatorAddress ∧ v'.address = edit.validatorAddress ∧
      (v'.description.identity = if edit.description.identity ≠ "" then edit.description.identity
        else v.description.identity) ∧
      ∀ k ∈ v'.slotPubKeys, k ∈ v.slotPubKeys ∨ k ∈ edit.slotKeyToAdd.toList := by
  unfold updateValidatorFromEditMsg at h
  by_cases haddress : v.address = edit.validatorAddress
  · simp only [haddress, ne_eq, not_true_eq_false, if_false] at h
    obtain ⟨d, hd, h⟩ := bind_eq_ok.1 h
    obtain ⟨keys, hremove, h⟩ := bind_eq_ok.1 h
    obtain ⟨keys', hadd, h⟩ := bind_eq_ok.1 h
    by_cases hbanned : v.status = .banned
    · rw [if_pos hbanned] at h
      obtain ⟨_, h, -⟩ := bind_eq_ok.1 h
      cases h
    rw [if_neg hbanned] at h
    cases h
    refine ⟨haddress, rfl, updateDescription_eq_ok (mapError_eq_ok.1 hd), fun k hk => ?_⟩
    exact (mem_of_addKey hadd k hk).imp_left (mem_of_removeKey hremove k)
  · simp only [haddress, ne_eq, not_false_eq_true, if_true] at h
    obtain ⟨_, h, -⟩ := bind_eq_ok.1 h
    cases h

theorem succeeds_checkPromoPeriod {newRate : Numeric.Dec}
    (h : Succeeds rlp (checkPromoPeriod bc epoch newRate validator) db u db') :
    True ∧ db' = db := by
  unfold checkPromoPeriod at h
  by_cases hlow : bc.config.isMinCommissionRate epoch = true ∧ newRate.int < minCommissionRate.int
  · rw [if_pos hlow] at h
    replace h := (succeeds_reads (DB.run_getState rlp.codec _ _ _)).1 h
    obtain ⟨-, h⟩ := succeeds_guard.1 h
    exact ⟨trivial, (succeeds_pure.1 h).2⟩
  · rw [if_neg hlow] at h
    exact ⟨trivial, (succeeds_pure.1 h).2⟩

theorem edited_of_succeeds {msg : EditValidator}
    (h : Succeeds rlp (verifyAndEditValidatorFromMsg rlp bc epoch blockNum msg) db w db') :
    (∃ w₀, Edited rlp bc msg db w₀ w) ∧ db' = db := by
  unfold verifyAndEditValidatorFromMsg at h
  obtain ⟨flag, rfl, h⟩ := h.after succeeds_isValidator.1
  obtain ⟨hflag, h⟩ := succeeds_guard.1 h
  obtain ⟨_, hunique, h⟩ := h.after noDuplicate_of_checkDuplicateFields
  obtain ⟨w₀, hcopy, h⟩ := h.after succeeds_validatorWrapperCopy.1
  obtain ⟨v, hv, h⟩ := h.after succeeds_ofExcept.1
  obtain ⟨-, h⟩ := succeeds_guard.1 h
  obtain ⟨_, -, h⟩ := h.after succeeds_checkPromoPeriod
  obtain ⟨snapshot, -, h⟩ := h.after succeeds_ofExcept.1
  obtain ⟨change, -, h⟩ := h.after succeeds_ofExcept.1
  obtain ⟨-, h⟩ := succeeds_guard.1 h
  obtain ⟨_, -, h⟩ := h.after succeeds_sane.1
  obtain ⟨rfl, hdb⟩ := succeeds_pure.1 h
  obtain ⟨haddress, haddress', hidentity, hkeys⟩ := updateValidatorFromEditMsg_eq_ok hv
  exact ⟨⟨w₀, by simpa using hflag, hunique, hcopy, ⟨haddress, haddress'⟩, rfl, hidentity, hkeys⟩,
    hdb⟩

/-! ## Messages -/

/-- What a successful message has found and what it leaves. -/
inductive Applied (rlp : WrapperRlp) (bc : ChainContext) (epoch : ℕ) :
    StakeMsg → DB ValidatorWrapper → DB ValidatorWrapper → Prop
  | create {msg : CreateValidator} {w : ValidatorWrapper} {db db₁ : DB ValidatorWrapper}
      (found : Created rlp bc msg db w)
      (stored : DB.Updated rlp.codec db db₁ msg.validatorAddress w) :
      Applied rlp bc epoch (.createValidator msg) db
        ((db₁.setState msg.validatorAddress Core.isValidatorKey isValidatorValue).subBalance
          msg.validatorAddress msg.amount)
  | edit {msg : EditValidator} {w₀ w : ValidatorWrapper} {db db' : DB ValidatorWrapper}
      (found : Edited rlp bc msg db w₀ w)
      (stored : DB.Updated rlp.codec db db' msg.validatorAddress w) :
      Applied rlp bc epoch (.editValidator msg) db db'
  | delegate {msg : Delegate} {es : List DelegationIndex}
      {r : List ValidatorWrapper × ℤ × List (Address × ℤ)} {db db₁ db' : DB ValidatorWrapper}
      (index : bc.readDelegationsByDelegator msg.delegatorAddress = .ok es)
      (found : Delegated rlp bc epoch msg es db r) (stored : Stored rlp r.1 db db₁)
      (same : DB.SameStaking rlp.codec (db₁.subBalance msg.delegatorAddress r.2.1) db')
      (balance : ∀ a, db'.getBalance a = (db₁.subBalance msg.delegatorAddress r.2.1).getBalance a) :
      Applied rlp bc epoch (.delegate msg) db db'
  | undelegate {msg : Delegate} {w : ValidatorWrapper} {db db' : DB ValidatorWrapper}
      (found : Undelegated rlp epoch msg db w)
      (stored : DB.Updated rlp.codec db db' w.address w) :
      Applied rlp bc epoch (.undelegate msg) db db'
  | collect {delegator : Address} {es : List DelegationIndex} {ws : List ValidatorWrapper}
      {total : ℤ} {db db₁ db' : DB ValidatorWrapper}
      (index : bc.readDelegationsByDelegator delegator = .ok es)
      (found : Collected rlp db es ws total) (stored : Stored rlp ws db db₁)
      (same : DB.SameStaking rlp.codec (db₁.addBalance delegator total) db')
      (balance : ∀ a, db'.getBalance a = (db₁.addBalance delegator total).getBalance a) :
      Applied rlp bc epoch (.collectRewards delegator) db db'

theorem applied_of_succeeds {msg : StakeMsg} (hthawed : db.Thawed)
    (h : Succeeds rlp (applyMsg rlp bc epoch blockNum msg) db u db') :
    Applied rlp bc epoch msg db db' := by
  cases msg with
  | createValidator msg =>
    obtain ⟨w, hfound, h⟩ := Succeeds.after h created_of_succeeds
    obtain ⟨_, db₁, hstored, h⟩ := succeeds_bind.1 h
    obtain ⟨_, db₂, hflag, h⟩ := succeeds_bind.1 h
    cases succeeds_lift.1 hflag
    cases succeeds_lift.1 h
    have hupdated := updated_of_succeeds hthawed hstored
    rw [hfound.address] at hupdated
    exact .create hfound hupdated
  | editValidator msg =>
    obtain ⟨w, ⟨w₀, hfound⟩, h⟩ := Succeeds.after h edited_of_succeeds
    have hupdated := updated_of_succeeds hthawed h
    rw [hfound.address.2] at hupdated
    exact .edit hfound hupdated
  | delegate msg =>
    obtain ⟨es, hindex, h⟩ := Succeeds.after h succeeds_ofExcept.1
    obtain ⟨r, hfound, h⟩ := h.after delegated_of_succeeds
    obtain ⟨_, db₁, hstored, h⟩ := succeeds_bind.1 h
    obtain ⟨_, db₂, hsub, h⟩ := succeeds_bind.1 h
    cases succeeds_lift.1 hsub
    obtain ⟨hsame, hbalance⟩ := same_of_addLogs h
    exact .delegate hindex hfound (stored_of_succeeds hthawed hstored) hsame hbalance
  | undelegate msg =>
    obtain ⟨w, hfound, h⟩ := Succeeds.after h undelegated_of_succeeds
    exact .undelegate hfound (updated_of_succeeds hthawed h)
  | collectRewards delegator =>
    obtain ⟨es, hindex, h⟩ := Succeeds.after h succeeds_ofExcept.1
    obtain ⟨r, hfound, h⟩ := h.after collected_of_succeeds
    obtain ⟨_, db₁, hstored, h⟩ := succeeds_bind.1 h
    obtain ⟨_, db₂, hadd, h⟩ := succeeds_bind.1 h
    cases succeeds_lift.1 hadd
    obtain ⟨hsame, hbalance⟩ := same_of_addLogs h
    exact .collect hindex hfound (stored_of_succeeds hthawed hstored) hsame hbalance

theorem Applied.thawed {msg : StakeMsg} (h : Applied rlp bc epoch msg db db') (hdb : db.Thawed) :
    db'.Thawed := by
  cases h with
  | create _ stored => exact ((stored.thawed hdb).setState _ _ _).subBalance _ _
  | edit _ stored => exact stored.thawed hdb
  | delegate _ _ stored same => exact same.thawed ((stored.thawed hdb).subBalance _ _)
  | undelegate _ stored => exact stored.thawed hdb
  | collect _ _ stored same => exact same.thawed ((stored.thawed hdb).addBalance _ _)

/-! ## Transitions -/

theorem sameStaking_bought (msg : Core.Message) (db : DB ValidatorWrapper) :
    DB.SameStaking rlp.codec db (Core.bought msg db) :=
  (DB.SameStaking.subBalance db _ _).trans (DB.SameStaking.setNonce _ _ _)

theorem le_gas {msg : Core.Message} (gas : { left : UInt64 // left ≤ msg.gas }) :
    gas.1 ≤ msg.gas := gas.2

/-- The part of a staking transition that is the same for every kind of message. -/
def signed (staking : Core.Staking ValidatorWrapper) (ctx : Core.EVMContext) (msg : Core.Message)
    (type : TransactionType) (gas : { left : UInt64 // left ≤ msg.gas }) :
    State.Client ValidatorWrapper (Core.Spent UInt64) :=
  match staking.decode type msg.data with
  | .error e => return .lost msg.gas e
  | .ok signer =>
    if msg.sender ≠ signer then return .lost msg.gas .invalidSigner
    else do
      let err ← staking.verifyAndApply ctx msg type
      let left ← Core.refundGas msg gas (le_gas gas)
      return ⟨msg.gas, left, le_gas left, match err with
        | some e => .error e
        | none => .ok (msg.gas - left)⟩

variable {decodeMsg : TransactionType → List UInt8 → Except Core.Err StakeMsg}
  {spent : Core.Spent UInt64} {ctx : Core.EVMContext} {msg : Core.Message}

theorem applied_of_signed {type : TransactionType}
    {gas : { left : UInt64 // left ≤ msg.gas }} {used : UInt64} (hthawed : db.Thawed)
    (h : DB.run rlp.codec (signed (staking rlp bc decodeMsg) ctx msg type gas) db =
      some (spent, db')) (hok : spent.result = .ok used) :
    ∃ stkMsg db₁ left, decodeMsg type msg.data = .ok stkMsg ∧ stkMsg.signer = msg.sender ∧
      Applied rlp bc ctx.epochNumber stkMsg db db₁ ∧ left ≤ msg.gas ∧ used = msg.gas - left ∧
      db' = db₁.addBalance msg.sender (left.toNat * msg.gasPrice) := by
  unfold signed staking at h
  dsimp only at h
  cases hdecode : decodeMsg type msg.data with
  | error e =>
    rw [hdecode] at h
    cases h
    cases hok
  | ok stkMsg =>
    simp only [hdecode, Except.map] at h
    by_cases hsigner : msg.sender = stkMsg.signer
    · rw [if_neg (not_not.2 hsigner), DB.run_bind, DB.run_bind] at h
      obtain ⟨_, herr, h⟩ := bind_eq_some_iff.1 h
      obtain ⟨⟨result, db₁⟩, hrun, hresult⟩ := bind_eq_some_iff.1 herr
      cases result with
      | error e =>
        cases hresult
        cases h
        cases hok
      | ok u =>
        cases hresult
        cases h
        cases hok
        exact ⟨stkMsg, db₁, _, rfl, hsigner.symm, applied_of_succeeds hthawed hrun,
          Core.refundable_le db₁.refund gas.2, rfl, rfl⟩
    · rw [if_pos hsigner] at h
      cases h
      cases hok

/-- **A successful staking transition** buys its gas, applies the message and gives back the gas
that is left. -/
theorem transition_of_run {config : ChainConfig} {gp : UInt64} {used : UInt64} (hthawed : db.Thawed)
    (h : DB.run rlp.codec (Core.stakingTransitionDb config (staking rlp bc decodeMsg) ctx msg gp) db
      = some (spent, db')) (hok : spent.result = .ok used) :
    ∃ stkMsg db₁ left, decodeMsg (msg.type.getD .invalidTx) msg.data = .ok stkMsg ∧
      stkMsg.signer = msg.sender ∧
      Applied rlp bc ctx.epochNumber stkMsg (Core.bought msg db) db₁ ∧
      left ≤ msg.gas ∧ used = msg.gas - left ∧
      db' = db₁.addBalance msg.sender (left.toNat * msg.gasPrice) := by
  obtain ⟨r, hpre, -⟩ := Core.run_preCheck rlp.codec msg gp db
  unfold Core.stakingTransitionDb at h
  rw [DB.run_bind, hpre, bind_some] at h
  cases r with
  | some e =>
    cases h
    cases hok
  | none =>
    simp only [if_true] at h
    split at h
    · cases h
      cases hok
    · have hbought : DB.SameStaking rlp.codec db (Core.bought msg db) := sameStaking_bought msg db
      split at h
      case h_6 =>
        cases h
        cases hok
      all_goals exact applied_of_signed (hbought.thawed hthawed) h hok

end DyShard.Staking
