import DyShard.Staking.Advance

/-!
# Staking metadata

A node stores the list of validators and, for each delegator, an index of delegations.  After a
block they are updated from its messages and from the final state.
-/

namespace DyShard.Staking

open Function List Option Nat

open State (DB)

/-! ## The update -/

/-- `addDelegationIndex`, from the entry of the first delegation on. -/
def entriesOf (delegator validator : Address) (blockNum : ℕ) :
    ℕ → List Delegation → List DelegationIndex
  | _, [] => []
  | i, d :: ds =>
    if d.delegatorAddress = delegator then
      ⟨validator, i, blockNum⟩ :: entriesOf delegator validator blockNum (i + 1) ds
    else entriesOf delegator validator blockNum (i + 1) ds

variable (rlp : WrapperRlp)

/-- `addDelegationIndex`; `none` if the validator has no wrapper. -/
def addDelegationIndex (db : DB ValidatorWrapper) (blockNum : ℕ)
    (delegations : List DelegationIndex) (delegator validator : Address) :
    Option (List DelegationIndex) :=
  if ∃ e ∈ delegations, e.validatorAddress = validator then some delegations
  else (current rlp db validator).map fun w =>
    delegations ++ entriesOf delegator validator blockNum 0 w.delegations

/-- The validators and the indices that a block has changed. -/
structure MetaData where
  newValidators : List Address
  newDelegations : Address → Option (List DelegationIndex)

/-- One message in `prepareStakingMetaData`; `read` is the stored index. -/
def prepareMsg (db : DB ValidatorWrapper) (blockNum : ℕ) (read : Address → List DelegationIndex)
    (m : MetaData) : StakeMsg → Option MetaData
  | .createValidator msg =>
    if msg.validatorAddress ∈ m.newValidators then none
    else some {
      newValidators := m.newValidators ++ [msg.validatorAddress]
      newDelegations := Function.update m.newDelegations msg.validatorAddress
        (some ((m.newDelegations msg.validatorAddress).getD (read msg.validatorAddress) ++
          [⟨msg.validatorAddress, 0, blockNum⟩])) }
  | .delegate msg => do
    let delegations ← addDelegationIndex rlp db blockNum
      ((m.newDelegations msg.delegatorAddress).getD (read msg.delegatorAddress))
      msg.delegatorAddress msg.validatorAddress
    return { m with
      newDelegations := Function.update m.newDelegations msg.delegatorAddress (some delegations) }
  | _ => some m

/-- `prepareStakingMetaData`. -/
def prepareStakingMetaData (db : DB ValidatorWrapper) (blockNum : ℕ)
    (read : Address → List DelegationIndex) (msgs : List StakeMsg) : Option MetaData :=
  msgs.foldlM (prepareMsg rlp db blockNum read) ⟨[], fun _ => none⟩

/-! ## What is prepared -/

theorem mem_entriesOf {delegator validator : Address} {blockNum i : ℕ} {ds : List Delegation}
    {e : DelegationIndex} : e ∈ entriesOf delegator validator blockNum i ds ↔
      ∃ j d, ds[j]? = some d ∧ d.delegatorAddress = delegator ∧
        e = ⟨validator, i + j, blockNum⟩ := by
  induction ds generalizing i with
  | nil => simp [entriesOf]
  | cons d ds ih =>
    -- a place in the list is the first one or a place in the rest
    have hplaces : (∃ j x, (d :: ds)[j]? = some x ∧ x.delegatorAddress = delegator ∧
        e = ⟨validator, i + j, blockNum⟩) ↔
        (d.delegatorAddress = delegator ∧ e = ⟨validator, i, blockNum⟩) ∨
        ∃ j x, ds[j]? = some x ∧ x.delegatorAddress = delegator ∧
          e = ⟨validator, i + 1 + j, blockNum⟩ := by
      constructor
      · rintro ⟨j, x, hx, hd, he⟩
        cases j with
        | zero =>
          cases hx
          exact .inl ⟨hd, he⟩
        | succ j => exact .inr ⟨j, x, hx, hd, by rw [he, add_right_comm, add_assoc]⟩
      · rintro (⟨hd, he⟩ | ⟨j, x, hx, hd, he⟩)
        · exact ⟨0, d, rfl, hd, he⟩
        · exact ⟨j + 1, x, hx, hd, by rw [he, add_right_comm, add_assoc]⟩
    rw [hplaces]
    unfold entriesOf
    split_ifs with hd
    · rw [mem_cons, ih]
      exact or_congr_left ⟨fun he => ⟨hd, he⟩, fun he => he.2⟩
    · rw [ih]
      exact ⟨.inr, fun h => h.resolve_left fun he => hd he.1⟩

/-- The index of a delegator in the course of the update. -/
def MetaData.indexOf (m : MetaData) (read : Address → List DelegationIndex) (d : Address) :
    List DelegationIndex := (m.newDelegations d).getD (read d)

/-- The entry is a new one: of a validator that has been created, or for a delegation. -/
def Added (db : DB ValidatorWrapper) (blockNum : ℕ) (msgs : List StakeMsg) (d : Address)
    (e : DelegationIndex) : Prop :=
  e.blockNum = blockNum ∧ ∃ msg ∈ msgs,
    (∃ m, Creates msg d m ∧ e.validatorAddress = d ∧ e.index = 0) ∨
    Joins msg d e.validatorAddress ∧ ∃ w x, current rlp db e.validatorAddress = some w ∧
      w.delegations[e.index]? = some x ∧ x.delegatorAddress = d

/-- The validator asks for an entry: it has been created, or delegated to and the delegation is
there. -/
def Wanted (db : DB ValidatorWrapper) (msgs : List StakeMsg) (d v : Address) : Prop :=
  ∃ msg ∈ msgs, (∃ m, Creates msg d m ∧ v = d) ∨
    Joins msg d v ∧ ∃ w, current rlp db v = some w ∧ d ∈ w.delegators

/-- The update after some messages. -/
structure Prepared (rlp : WrapperRlp) (db : DB ValidatorWrapper) (blockNum : ℕ)
    (read : Address → List DelegationIndex) (msgs : List StakeMsg) (m : MetaData) : Prop where
  validators : ∀ v, v ∈ m.newValidators ↔ ∃ msg ∈ msgs, ∃ c, Creates msg v c
  nodup : m.newValidators.Nodup
  kept : ∀ d, ∀ e ∈ read d, e ∈ m.indexOf read d
  source : ∀ d, ∀ e ∈ m.indexOf read d, e ∈ read d ∨ Added rlp db blockNum msgs d e
  covers : ∀ d v, Wanted rlp db msgs d v → v ∈ (m.indexOf read d).map (·.validatorAddress)

section Prepared

variable {rlp : WrapperRlp} {db : DB ValidatorWrapper} {blockNum : ℕ}
  {read : Address → List DelegationIndex} {msgs : List StakeMsg} {m m' : MetaData} {msg : StakeMsg}

theorem prepared_nil (rlp : WrapperRlp) (db : DB ValidatorWrapper) (blockNum : ℕ)
    (read : Address → List DelegationIndex) :
    Prepared rlp db blockNum read [] ⟨[], fun _ => none⟩ where
  validators v := by simp
  nodup := nodup_nil
  kept _ _ he := he
  source _ _ he := .inl he
  covers d v h := by
    obtain ⟨msg, hmsg, -⟩ := h
    exact absurd hmsg not_mem_nil

theorem Added.concat {d : Address} {e : DelegationIndex} (h : Added rlp db blockNum msgs d e)
    (msg : StakeMsg) : Added rlp db blockNum (msgs ++ [msg]) d e := by
  obtain ⟨hnum, x, hx, hcases⟩ := h
  exact ⟨hnum, x, mem_append_left _ hx, hcases⟩

theorem exists_mem_concat {α : Type} {l : List α} {a : α} {p : α → Prop} :
    (∃ x ∈ l ++ [a], p x) ↔ (∃ x ∈ l, p x) ∨ p a := by
  simp [or_and_right, exists_or]

theorem wanted_concat {d v : Address}
    (h : Wanted rlp db (msgs ++ [msg]) d v) : Wanted rlp db msgs d v ∨ Wanted rlp db [msg] d v := by
  obtain ⟨x, hx, hcases⟩ := h
  exact (mem_append.1 hx).imp (fun hx => ⟨x, hx, hcases⟩) fun hx => ⟨x, hx, hcases⟩

section

variable (h : Prepared rlp db blockNum read msgs m)
include h

theorem Prepared.write {d₀ : Address} {es : List DelegationIndex}
    (hdelegations : m'.newDelegations = Function.update m.newDelegations d₀ (some es))
    (hvalidators : ∀ v, v ∈ m'.newValidators ↔ v ∈ m.newValidators ∨ ∃ c, Creates msg v c)
    (hnodup : m'.newValidators.Nodup) (hkept : ∀ e ∈ m.indexOf read d₀, e ∈ es)
    (hsource : ∀ e ∈ es, e ∈ m.indexOf read d₀ ∨ Added rlp db blockNum [msg] d₀ e)
    (hcovers : ∀ d v, Wanted rlp db [msg] d v → d = d₀ ∧ v ∈ es.map (·.validatorAddress)) :
    Prepared rlp db blockNum read (msgs ++ [msg]) m' := by
  have hself : m'.indexOf read d₀ = es := by
    rw [MetaData.indexOf, hdelegations, update_self, getD_some]
  have hother : ∀ d, d ≠ d₀ → m'.indexOf read d = m.indexOf read d := fun d hd => by
    rw [MetaData.indexOf, hdelegations, update_of_ne hd, MetaData.indexOf]
  have hgrows : ∀ d, ∀ e ∈ m.indexOf read d, e ∈ m'.indexOf read d := by
    intro d e he
    by_cases hd : d = d₀
    · subst hd
      rw [hself]
      exact hkept e he
    · rwa [hother d hd]
  refine ⟨fun v => ?_, hnodup, fun d e he => hgrows d e (h.kept d e he), fun d e he => ?_,
    fun d v hv => ?_⟩
  · rw [hvalidators, h.validators]
    exact exists_mem_concat.symm
  · have hold : e ∈ m.indexOf read d → e ∈ read d ∨ Added rlp db blockNum (msgs ++ [msg]) d e :=
      fun he => (h.source d e he).imp_right fun hadded => hadded.concat msg
    by_cases hd : d = d₀
    · subst hd
      rw [hself] at he
      obtain he | ⟨hnum, x, hx, hcases⟩ := hsource e he
      · exact hold he
      · exact .inr ⟨hnum, x, mem_append_right _ hx, hcases⟩
    · rw [hother d hd] at he
      exact hold he
  · obtain hv | hv := wanted_concat hv
    · obtain ⟨e, he, rfl⟩ := mem_map.1 (h.covers d v hv)
      exact mem_map.2 ⟨e, hgrows d e he, rfl⟩
    · obtain ⟨rfl, hmem⟩ := hcovers d v hv
      rwa [hself]

theorem Prepared.skip (hcreates : ∀ v c, ¬ Creates msg v c)
    (hjoins : ∀ d v, ¬ Joins msg d v) : Prepared rlp db blockNum read (msgs ++ [msg]) m := by
  refine ⟨fun v => ?_, h.nodup, h.kept, fun d e he => ?_, fun d v hv => ?_⟩
  · rw [h.validators]
    constructor
    · rintro ⟨x, hx, hc⟩
      exact ⟨x, mem_append_left _ hx, hc⟩
    · rintro ⟨x, hx, c, hc⟩
      obtain hx | hx := mem_append.1 hx
      · exact ⟨x, hx, c, hc⟩
      · cases mem_singleton.1 hx
        exact absurd hc (hcreates v c)
  · exact (h.source d e he).imp_right fun hadded => hadded.concat msg
  · obtain hv | ⟨x, hx, hcases⟩ := wanted_concat hv
    · exact h.covers d v hv
    · cases mem_singleton.1 hx
      obtain ⟨c, hc, -⟩ | ⟨hj, -⟩ := hcases
      · exact absurd hc (hcreates d c)
      · exact absurd hj (hjoins d v)

theorem Prepared.create {c : CreateValidator}
    (hprepare : prepareMsg rlp db blockNum read m (.createValidator c) = some m') :
    Prepared rlp db blockNum read (msgs ++ [.createValidator c]) m' := by
  unfold prepareMsg at hprepare
  dsimp only at hprepare
  split_ifs at hprepare with hnew
  cases hprepare
  have hcreates : ∀ v c', Creates (.createValidator c) v c' → v = c.validatorAddress := by
    rintro v c' ⟨hc, rfl⟩
    rw [StakeMsg.createValidator.inj hc]
  refine h.write rfl (fun v => ?_) ?_ (fun e he => mem_append_left _ he) (fun e he => ?_)
    fun d v hv => ?_
  · rw [mem_append, mem_singleton]
    refine or_congr_right ⟨fun hv => ⟨c, rfl, hv.symm⟩, fun ⟨c', hc'⟩ => hcreates v c' hc'⟩
  · exact nodup_append.2 ⟨h.nodup, nodup_singleton _, fun a ha b hb hab => by
      rw [mem_singleton.1 hb] at hab
      exact hnew (hab ▸ ha)⟩
  · obtain he | he := mem_append.1 he
    · exact .inl he
    · rw [mem_singleton.1 he]
      exact .inr ⟨rfl, _, mem_cons_self, .inl ⟨c, ⟨rfl, rfl⟩, rfl, rfl⟩⟩
  · obtain ⟨x, hx, hcases⟩ := hv
    cases mem_singleton.1 hx
    obtain ⟨c', hc', rfl⟩ | ⟨⟨_, hj, -⟩, -⟩ := hcases
    · have hv := hcreates v c' hc'
      exact ⟨hv, by simp [hv]⟩
    · cases hj

theorem Prepared.delegate {c : Delegate}
    (hprepare : prepareMsg rlp db blockNum read m (.delegate c) = some m') :
    Prepared rlp db blockNum read (msgs ++ [.delegate c]) m' := by
  obtain ⟨es, hes, hprepare⟩ := bind_eq_some_iff.1 hprepare
  cases hprepare
  have hcreates : ∀ v c', ¬ Creates (.delegate c) v c' := fun v c' hc' => by cases hc'.1
  have hjoins : ∀ {d v}, Joins (.delegate c) d v → d = c.delegatorAddress ∧
      v = c.validatorAddress := by
    rintro d v ⟨c', hc', rfl, rfl⟩
    rw [StakeMsg.delegate.inj hc']
    exact ⟨rfl, rfl⟩
  have hvalidators : ∀ v, v ∈ m.newValidators ↔ v ∈ m.newValidators ∨ ∃ c', Creates (.delegate c) v c' :=
    fun v => ⟨.inl, fun hv => hv.resolve_right fun ⟨c', hc'⟩ => hcreates v c' hc'⟩
  unfold addDelegationIndex at hes
  split_ifs at hes with hfound
  · -- the validator has an entry already
    cases hes
    refine h.write rfl hvalidators h.nodup (fun e he => he) (fun e he => .inl he) fun d v hv => ?_
    obtain ⟨x, hx, ⟨c', hc', -⟩ | ⟨hj, -⟩⟩ := hv
    · cases mem_singleton.1 hx
      exact absurd hc' (hcreates d c')
    · cases mem_singleton.1 hx
      obtain ⟨rfl, rfl⟩ := hjoins hj
      obtain ⟨e, he, hev⟩ := hfound
      exact ⟨rfl, mem_map.2 ⟨e, he, hev⟩⟩
  · obtain ⟨w, hw, rfl⟩ := map_eq_some_iff.1 hes
    refine h.write rfl hvalidators h.nodup (fun e he => mem_append_left _ he)
      (fun e he => ?_) fun d v hv => ?_
    · obtain he | he := mem_append.1 he
      · exact .inl he
      · obtain ⟨j, x, hx, hd, rfl⟩ := mem_entriesOf.1 he
        refine .inr ⟨rfl, _, mem_cons_self, .inr ⟨⟨c, rfl, rfl, rfl⟩, w, x, hw, ?_, hd⟩⟩
        rwa [zero_add]
    · obtain ⟨x, hx, ⟨c', hc', -⟩ | ⟨hj, w', hw', hd⟩⟩ := hv
      · cases mem_singleton.1 hx
        exact absurd hc' (hcreates d c')
      · cases mem_singleton.1 hx
        obtain ⟨rfl, rfl⟩ := hjoins hj
        cases hw.symm.trans hw'
        obtain ⟨y, hy, hyd⟩ := mem_map.1 hd
        obtain ⟨j, hj⟩ := getElem?_of_mem hy
        refine ⟨rfl, mem_map.2 ⟨⟨c.validatorAddress, 0 + j, blockNum⟩,
          mem_append_right _ (mem_entriesOf.2 ⟨j, y, hj, hyd, rfl⟩), rfl⟩⟩

theorem Prepared.step (hprepare : prepareMsg rlp db blockNum read m msg = some m') :
    Prepared rlp db blockNum read (msgs ++ [msg]) m' := by
  cases msg with
  | createValidator c => exact h.create hprepare
  | delegate c => exact h.delegate hprepare
  | editValidator c | undelegate c | collectRewards d =>
    cases hprepare
    exact h.skip (fun _ _ hc => by cases hc.1) fun _ _ ⟨_, hj, _⟩ => by cases hj

end

theorem prepared_of_prepare (h : prepareStakingMetaData rlp db blockNum read msgs = some m) :
    Prepared rlp db blockNum read msgs m := by
  unfold prepareStakingMetaData at h
  rw [Transition.foldlM_eq_exec] at h
  exact Transition.exec_induction
    (prepared_nil rlp db blockNum read)
    (fun done msg rest m₀ m₁ _ h₀ hm₁ => h₀.step hm₁) h

end Prepared

end DyShard.Staking
