import DyShard.Staking.Finalization

/-!
# The shape of a wrapper

The delegators of a validator are different, the first is the validator itself, nothing is negative
and the undelegations are strictly ordered by epoch.
-/

namespace DyShard.Staking

open List Delegation

open DyShard.Core (Undelegation)

/-- The shape of the wrapper of a validator. -/
structure Shape (v : Address) (w : ValidatorWrapper) : Prop where
  address : w.address = v
  distinct : w.delegators.Nodup
  own : w.delegators.head? = some v
  fine : ∀ d ∈ w.delegations, d.Fine

/-- A later wrapper of the same validator: no delegator has moved. -/
structure Grows (v : Address) (w w' : ValidatorWrapper) : Prop where
  shape : Shape v w'
  places : w.delegators <+: w'.delegators

variable {v : Address} {w : ValidatorWrapper} {amount : ℤ}

theorem Shape.refl (h : Shape v w) : Grows v w w :=
  ⟨h, prefix_rfl⟩

theorem Grows.trans {w' w'' : ValidatorWrapper} (h : Grows v w w') (h' : Grows v w' w'') :
    Grows v w w'' :=
  ⟨h'.shape, h.places.trans h'.places⟩

theorem Shape.aligned {w' : ValidatorWrapper} (h : Shape v w) (haddress : w'.address = w.address)
    (haligned : Aligned w.delegations w'.delegations) : Grows v w w' := by
  have hsame : w'.delegators = w.delegators := haligned.delegators
  exact ⟨⟨haddress.trans h.address, hsame ▸ h.distinct, hsame ▸ h.own, haligned.fine⟩,
    hsame ▸ prefix_rfl⟩

variable {d : Delegation}

theorem aligned_set {ds : List Delegation} {i : ℕ} {d' : Delegation} (hds : ∀ x ∈ ds, x.Fine)
    (hd : ds[i]? = some d) (haddress : d'.delegatorAddress = d.delegatorAddress) (hfine : d'.Fine) :
    Aligned ds (ds.set i d') := by
  refine ⟨delegators_set hd haddress, fun x hx => ?_⟩
  obtain hx | rfl := mem_or_eq_of_mem_set hx
  · exact hds x hx
  · exact hfine

theorem Delegation.Fine.undelegate {d' : Delegation} (h : d.Fine) {epoch amt : ℤ}
    (hundelegate : d.undelegate epoch amt = .ok d') :
    d'.Fine ∧ d'.delegatorAddress = d.delegatorAddress := by
  unfold Delegation.undelegate at hundelegate
  split_ifs at hundelegate with hzero hlow
  cases hundelegate
  have hpos : 0 ≤ amt := (not_le.1 hzero).le
  exact ⟨⟨sub_nonneg.2 (not_lt.1 hlow), h.reward, nonneg_addUndelegation h.undelegations hpos,
    strict_addUndelegation h.strict epoch amt⟩, rfl⟩

theorem Delegation.Fine.collect (h : d.Fine) :
    d.collect.Fine ∧ d.collect.delegatorAddress = d.delegatorAddress := by
  unfold Delegation.collect
  split_ifs
  · exact ⟨⟨h.amount, le_rfl, h.undelegations, h.strict⟩, rfl⟩
  · exact ⟨h, rfl⟩

theorem Delegation.Fine.drain (h : d.Fine) (epoch balance : ℤ) :
    ({ d with undelegations := (Staking.drain epoch balance d.undelegations).2 } :
      Delegation).Fine :=
  ⟨h.amount, h.reward, nonneg_drain h.undelegations epoch balance,
    strict_drain h.strict epoch balance⟩

theorem Delegation.Fine.bump (h : d.Fine) (delegator : Address) (hamount : 0 ≤ amount) :
    (d.bump delegator amount).Fine := by
  unfold Delegation.bump
  split_ifs
  · exact ⟨add_nonneg h.amount hamount, h.reward, h.undelegations, h.strict⟩
  · exact h

theorem fine_newDelegation (delegator : Address) (hamount : 0 ≤ amount) :
    (newDelegation delegator amount).Fine :=
  ⟨hamount, le_rfl, fun _ hu => absurd hu not_mem_nil, List.Pairwise.nil⟩

theorem delegators_bump (delegator : Address) (amount : ℤ) (ds : List Delegation) :
    (ds.map (bump delegator amount)).map (·.delegatorAddress) = ds.map (·.delegatorAddress) := by
  rw [map_map]
  refine map_congr_left fun d _ => ?_
  simp only [Function.comp_apply, bump]
  split_ifs <;> rfl

/-- **A delegation raises an amount or adds a delegator at the end.** -/
theorem Shape.withDelegation (h : Shape v w) (delegator : Address) (hamount : 0 ≤ amount) :
    Grows v w (w.withDelegation delegator amount) := by
  by_cases hfound : ∃ d ∈ w.delegations, d.delegatorAddress = delegator
  · have hcredited : credited delegator amount w.delegations =
        w.delegations.map (bump delegator amount) := if_pos hfound
    refine h.aligned rfl ⟨?_, fun d hd => ?_⟩
    · change (credited _ _ _).map _ = _
      rw [hcredited, delegators_bump]
    · change d ∈ credited _ _ _ at hd
      rw [hcredited] at hd
      obtain ⟨x, hx, rfl⟩ := mem_map.1 hd
      exact (h.fine x hx).bump delegator hamount
  · have hcredited : credited delegator amount w.delegations =
        w.delegations ++ [newDelegation delegator amount] := if_neg hfound
    have hdelegators : (w.withDelegation delegator amount).delegators =
        w.delegators ++ [delegator] := by
      change (credited _ _ _).map _ = _
      rw [hcredited, map_append]
      rfl
    have hnew : delegator ∉ w.delegators := by
      intro hmem
      obtain ⟨d, hd, hda⟩ := mem_map.1 hmem
      exact hfound ⟨d, hd, hda⟩
    refine ⟨⟨h.address, ?_, ?_, fun d hd => ?_⟩, ?_⟩
    · rw [hdelegators]
      refine nodup_append.2 ⟨h.distinct, nodup_singleton _, ?_⟩
      rintro a ha b hb rfl
      exact hnew (mem_singleton.1 hb ▸ ha)
    · rw [hdelegators, List.head?_append, h.own]
      rfl
    · change d ∈ credited _ _ _ at hd
      rw [hcredited] at hd
      obtain hd | hd := mem_append.1 hd
      · exact h.fine d hd
      · rw [mem_singleton.1 hd]
        exact fine_newDelegation delegator hamount
    · rw [hdelegators]
      exact prefix_append _ _

end DyShard.Staking
