import DyShard.Staking.Growth

/-!
# The index of delegations

After every block the index of a delegator names each validator with a delegation of the delegator
once, at the place of the delegation.  In the course of a block, what is missing is asked for by a
pending message.
-/

namespace DyShard.Staking

open List Option Node Sample ValidatorWrapper

open State (DB)
open Transition

variable {rlp : WrapperRlp} {n n' : Node}

/-! ## The update of the index -/

/-- A message that creates a validator comes before all messages about it. -/
def Ordered (msgs : List StakeMsg) : Prop :=
  msgs.Pairwise fun a b => ∀ v m, Creates b v m → (∀ m', ¬ Creates a v m') ∧ ∀ d, ¬ Joins a d v

theorem validators_entriesOf (delegator validator : Address) (blockNum i : ℕ)
    (ds : List Delegation) (hnodup : (ds.map (·.delegatorAddress)).Nodup) :
    ((entriesOf delegator validator blockNum i ds).map (·.validatorAddress)).Nodup ∧
      (delegator ∉ ds.map (·.delegatorAddress) →
        entriesOf delegator validator blockNum i ds = []) := by
  induction ds generalizing i with
  | nil => exact ⟨nodup_nil, fun _ => rfl⟩
  | cons d ds ih =>
    obtain ⟨hnew, hrest⟩ := nodup_cons.1 hnodup
    obtain ⟨hdistinct, hnone⟩ := ih (i + 1) hrest
    unfold entriesOf
    split_ifs with hd
    · -- the delegator is here, so it is nowhere else
      rw [hnone (hd ▸ hnew)]
      exact ⟨nodup_singleton _, fun habsent => absurd mem_cons_self (hd ▸ habsent)⟩
    · exact ⟨hdistinct, fun habsent => hnone fun hmem => habsent (mem_cons_of_mem _ hmem)⟩

section Distinct

variable {db : DB ValidatorWrapper} {blockNum : ℕ} {read : Address → List DelegationIndex}
  {msgs : List StakeMsg} {m m' : MetaData}

/-- No delegator has two entries for one validator. -/
def Distinct (read : Address → List DelegationIndex) (m : MetaData) : Prop :=
  ∀ d, ((m.indexOf read d).map (·.validatorAddress)).Nodup

theorem Distinct.write (h : Distinct read m) {d₀ : Address} {es : List DelegationIndex}
    (hdelegations : m'.newDelegations = Function.update m.newDelegations d₀ (some es))
    (hes : (es.map (·.validatorAddress)).Nodup) : Distinct read m' := by
  intro d
  by_cases hd : d = d₀
  · subst hd
    rwa [MetaData.indexOf, hdelegations, Function.update_self, getD_some]
  · rw [MetaData.indexOf, hdelegations, Function.update_of_ne hd]
    exact h d

theorem Distinct.create (h : Distinct read m) {c : CreateValidator}
    (hprepared : Prepared rlp db blockNum read msgs m)
    (hfresh : c.validatorAddress ∉ (read c.validatorAddress).map (·.validatorAddress))
    (hfirst : ∀ msg ∈ msgs, (∀ m', ¬ Creates msg c.validatorAddress m') ∧
      ∀ d, ¬ Joins msg d c.validatorAddress)
    (hprepare : prepareMsg rlp db blockNum read m (.createValidator c) = some m') :
    Distinct read m' := by
  unfold prepareMsg at hprepare
  dsimp only at hprepare
  split_ifs at hprepare
  cases hprepare
  refine h.write rfl ?_
  rw [map_append]
  refine nodup_append.2 ⟨h _, nodup_singleton _, ?_⟩
  rintro a ha b hb rfl
  obtain ⟨e, he, rfl⟩ := mem_map.1 ha
  have hself : e.validatorAddress = c.validatorAddress := mem_singleton.1 hb
  obtain hread | ⟨-, msg, hmsg, ⟨m', hm', -⟩ | ⟨hj, -⟩⟩ := hprepared.source _ e he
  · exact hfresh (mem_map.2 ⟨e, hread, hself⟩)
  · exact (hfirst msg hmsg).1 m' hm'
  · exact (hfirst msg hmsg).2 _ (hself ▸ hj)

theorem Distinct.delegate (h : Distinct read m) {c : Delegate}
    (hwrapper : ∀ w, current rlp db c.validatorAddress = some w → w.delegators.Nodup)
    (hprepare : prepareMsg rlp db blockNum read m (.delegate c) = some m') :
    Distinct read m' := by
  unfold prepareMsg at hprepare
  obtain ⟨es, hes, hprepare⟩ := bind_eq_some_iff.1 hprepare
  cases hprepare
  refine h.write rfl ?_
  unfold addDelegationIndex at hes
  split_ifs at hes with hfound
  · cases hes
    exact h _
  · obtain ⟨w, hw, rfl⟩ := map_eq_some_iff.1 hes
    rw [map_append]
    refine nodup_append.2 ⟨h _, (validators_entriesOf _ _ _ _ _ (hwrapper w hw)).1, ?_⟩
    rintro a ha b hb rfl
    obtain ⟨e, he, rfl⟩ := mem_map.1 ha
    obtain ⟨e', he', heq⟩ := mem_map.1 hb
    obtain ⟨j, x, -, -, rfl⟩ := mem_entriesOf.1 he'
    exact hfound ⟨e, he, heq.symm⟩

/-- **The update names no validator twice.** -/
theorem distinct_prepared (hordered : Ordered msgs)
    (hread : ∀ d, ((read d).map (·.validatorAddress)).Nodup)
    (hfresh : ∀ msg ∈ msgs, ∀ v c, Creates msg v c → v ∉ (read v).map (·.validatorAddress))
    (hwrappers : ∀ msg ∈ msgs, ∀ d v, Joins msg d v → ∀ w, current rlp db v = some w →
      w.delegators.Nodup)
    (h : prepareStakingMetaData rlp db blockNum read msgs = some m) : Distinct read m := by
  unfold prepareStakingMetaData at h
  rw [foldlM_eq_exec] at h
  refine (exec_induction (P := fun done m => Prepared rlp db blockNum read done m ∧
    Distinct read m) ⟨prepared_nil rlp db blockNum read, hread⟩ ?_ h).2
  rintro done msg rest m₀ m₁ hsplit ⟨hprepared, hdistinct⟩ hm₁
  refine ⟨hprepared.step hm₁, ?_⟩
  have hmsg : msg ∈ msgs := by
    rw [hsplit]
    exact mem_append_right _ mem_cons_self
  cases msg with
  | createValidator c =>
    refine hdistinct.create hprepared (hfresh _ hmsg _ c ⟨rfl, rfl⟩) (fun x hx => ?_) hm₁
    have hpairs : Ordered (done ++ .createValidator c :: rest) := hsplit ▸ hordered
    exact (pairwise_append.1 hpairs).2.2 x hx _ mem_cons_self _ c ⟨rfl, rfl⟩
  | delegate c => exact hdistinct.delegate (hwrappers _ hmsg _ _ ⟨c, rfl, rfl, rfl⟩) hm₁
  | editValidator c | undelegate c | collectRewards d =>
    cases hm₁
    exact hdistinct

end Distinct

/-! ## The invariant -/

/-- The index in the course of a block. -/
structure Indexed (rlp : WrapperRlp) (n : Node) : Prop where
  recent : ∀ d, ∀ e ∈ n.index d, e.blockNum ≤ n.number
  distinct : ∀ d, ((n.index d).map (·.validatorAddress)).Nodup
  points : ∀ d, ∀ e ∈ n.index d, ∀ w, n.db.validatorWrapperCopy rlp.codec e.validatorAddress =
    some w → w.delegators[e.index]? = some d
  complete : ∀ d v w, Flagged n.db v → n.db.validatorWrapperCopy rlp.codec v = some w →
    d ∈ w.delegators → v ∈ (n.index d).map (·.validatorAddress) ∨
      ∃ msg ∈ n.pending, (∃ m, Creates msg d m ∧ v = d) ∨ Joins msg d v
  fresh : ∀ msg ∈ n.pending, ∀ v m, Creates msg v m → ∀ d, v ∉ (n.index d).map (·.validatorAddress)
  ordered : Ordered n.pending

theorem indexed_genesis (h : Genesis rlp n) : Indexed rlp n where
  recent d e he := by
    rw [h.index d] at he
    exact absurd he not_mem_nil
  distinct d := by
    rw [h.index d]
    exact nodup_nil
  points d e he := by
    rw [h.index d] at he
    exact absurd he not_mem_nil
  complete d v w hflag := absurd hflag (h.unflagged v)
  fresh msg hmsg := by
    rw [h.pending] at hmsg
    exact absurd hmsg not_mem_nil
  ordered := by
    rw [h.pending]
    exact Pairwise.nil

theorem Indexed.points_kept (h : Indexed rlp n) (hstanding : Standing rlp n)
    {db' : DB ValidatorWrapper} (hcontinues : Continues rlp n.db db') (d : Address)
    (e : DelegationIndex) (he : e ∈ n.index d) (w' : ValidatorWrapper)
    (hcopy' : db'.validatorWrapperCopy rlp.codec e.validatorAddress = some w') :
    w'.delegators[e.index]? = some d := by
  have hflag := hstanding.index d e he
  obtain ⟨w, hcopy, -⟩ := hstanding.regulated _ hflag
  obtain ⟨x, hx, hplaces⟩ := hcontinues.places _ w hflag hcopy
  cases hcopy'.symm.trans hx
  obtain ⟨tail, htail⟩ := hplaces
  have hfound := h.points d e he w hcopy
  obtain ⟨hlt, -⟩ := List.getElem?_eq_some_iff.1 hfound
  rw [← htail, List.getElem?_append_left hlt, hfound]

theorem indexed_message (h : Indexed rlp n) (hstanding : Standing rlp n) {bc : ChainContext}
    {msg : StakeMsg} {db' : DB ValidatorWrapper} (hadvanced : Advanced rlp bc msg n.db db') :
    Indexed rlp { n with db := db', pending := n.pending ++ [msg] } where
  recent := h.recent
  distinct := h.distinct
  points := h.points_kept hstanding (continues_advanced hadvanced)
  complete d v w' hflag hcopy' hd := by
    have hlast : msg ∈ n.pending ++ [msg] := mem_append_right _ mem_cons_self
    obtain hflag | ⟨m, hm⟩ := (hadvanced.flagged v).1 hflag
    · obtain ⟨w, hcopy, -⟩ := hstanding.regulated v hflag
      obtain ⟨x, hx, hfollows, -⟩ := hadvanced.follows v w hflag hcopy
      cases hcopy'.symm.trans hx
      obtain hd | hjoins := hfollows.joined d hd
      · refine (h.complete d v w hflag hcopy hd).imp_right ?_
        rintro ⟨x, hx, hcases⟩
        exact ⟨x, mem_append_left _ hx, hcases⟩
      · exact .inr ⟨msg, hlast, .inr hjoins⟩
    · -- a new validator has itself as its only delegator
      obtain ⟨w, hcopy, -, hdelegators, -⟩ := (hadvanced.created v m hm).wrapper
      cases hcopy'.symm.trans hcopy
      rw [hdelegators] at hd
      cases mem_singleton.1 hd
      exact .inr ⟨msg, hlast, .inl ⟨m, hm, rfl⟩⟩
  fresh x hx v m hm d hmem := by
    obtain hx | hx := mem_append.1 hx
    · exact h.fresh x hx v m hm d hmem
    · cases mem_singleton.1 hx
      obtain ⟨e, he, rfl⟩ := mem_map.1 hmem
      exact (hadvanced.created _ m hm).unflagged (hstanding.index d e he)
  ordered := by
    refine pairwise_append.2 ⟨h.ordered, pairwise_singleton _ _, fun a ha b hb => ?_⟩
    cases mem_singleton.1 hb
    intro v m hm
    have hnew := (hadvanced.created v m hm).unflagged
    exact ⟨fun m' hm' => hnew ((hstanding.list v).2 (.inr ⟨a, ha, m', hm'⟩)),
      fun d hj => hnew (hstanding.joined a ha d v hj)⟩

theorem Quiet.delegators {db db' : DB ValidatorWrapper} (h : Quiet rlp db db')
    (hregulated : Regulated rlp db) {v : Address} (hflag : Flagged db' v) {w' : ValidatorWrapper}
    (hcopy' : db'.validatorWrapperCopy rlp.codec v = some w') :
    Flagged db v ∧ ∃ w, db.validatorWrapperCopy rlp.codec v = some w ∧ Matches w w' := by
  have hflag₀ := (h.flagged v).1 hflag
  obtain ⟨w, hcopy, -⟩ := hregulated v hflag₀
  obtain ⟨x, hx, hmatches⟩ := h.wrapper v w hflag₀ hcopy
  cases hcopy'.symm.trans hx
  exact ⟨hflag₀, w, hcopy, hmatches⟩

theorem indexed_quiet (h : Indexed rlp n) (hstanding : Standing rlp n)
    (hquiet : Quiet rlp n.db n'.db) (hindex : n'.index = n.index) (hnumber : n'.number = n.number)
    (hpending : n'.pending = n.pending) : Indexed rlp n' where
  recent := by
    rw [hindex, hnumber]
    exact h.recent
  distinct := by
    rw [hindex]
    exact h.distinct
  points := by
    rw [hindex]
    exact h.points_kept hstanding hquiet.continues
  complete d v w' hflag hcopy' hd := by
    rw [hindex, hpending]
    obtain ⟨hflag₀, w, hcopy, hmatches⟩ := hquiet.delegators hstanding.regulated hflag hcopy'
    exact h.complete d v w hflag₀ hcopy (hmatches.delegators ▸ hd)
  fresh := by
    rw [hindex, hpending]
    exact h.fresh
  ordered := by
    rw [hpending]
    exact h.ordered

theorem Indexed.read_eq (h : Indexed rlp n) : n.readDelegationsByDelegator = n.index := by
  funext d
  exact filter_eq_self.2 fun e he => decide_eq_true (h.recent d e he)

theorem indexed_sealed (h : Indexed rlp n) (hstanding : Standing rlp n)
    (hstanding' : Standing rlp n') {m : MetaData} (hquiet : Quiet rlp n.db n'.db)
    (hprepare : prepareStakingMetaData rlp n.db (n.number + 1) n.readDelegationsByDelegator
      n.pending = some m)
    (hindex : ∀ d, n'.index d = (m.newDelegations d).getD (n.index d))
    (hnumber : n'.number = n.number + 1) (hpending : n'.pending = []) : Indexed rlp n' := by
  rw [h.read_eq] at hprepare
  have hprepared := prepared_of_prepare hprepare
  have hindexOf : ∀ d, n'.index d = m.indexOf n.index d := hindex
  -- the wrapper in force, from which entries are made, has the delegators of the stored one
  have hcurrent : ∀ v w', Flagged n'.db v → n'.db.validatorWrapperCopy rlp.codec v = some w' →
      ∃ w, current rlp n.db v = some w ∧ w.delegators = w'.delegators := by
    intro v w' hflag hcopy'
    obtain ⟨hflag₀, w₀, hcopy₀, hmatches₀⟩ := hquiet.delegators hstanding.regulated hflag hcopy'
    obtain ⟨x, w, hcopy, -, hcurrent, -, hmatches⟩ := hstanding.validators v hflag₀
    cases hcopy.symm.trans hcopy₀
    exact ⟨w, hcurrent, hmatches.delegators.trans hmatches₀.delegators.symm⟩
  refine {
    recent := fun d e he => ?_
    distinct := fun d => ?_
    points := fun d e he w' hcopy' => ?_
    complete := fun d v w' hflag hcopy' hd => ?_
    fresh := fun msg hmsg => ?_
    ordered := ?_ }
  · rw [hindexOf] at he
    rw [hnumber]
    obtain hread | ⟨hnum, -⟩ := hprepared.source d e he
    · exact Nat.le_succ_of_le (h.recent d e hread)
    · exact hnum.le
  · rw [hindexOf]
    refine distinct_prepared h.ordered h.distinct (fun msg hmsg v c hc => h.fresh msg hmsg v c hc v)
      (fun msg hmsg x v hj w hw => ?_) hprepare d
    obtain ⟨-, w₁, -, -, hw₁, hregular, -⟩ :=
      hstanding.validators v (hstanding.joined msg hmsg x v hj)
    cases hw.symm.trans hw₁
    exact hregular.shape.distinct
  · have hflag := hstanding'.index d e he
    rw [hindexOf] at he
    obtain hread | ⟨-, msg, -, ⟨c, -, hv, hzero⟩ | ⟨-, w, x, hw, hx, hxd⟩⟩ :=
      hprepared.source d e he
    · exact h.points_kept hstanding hquiet.continues d e hread w' hcopy'
    · obtain ⟨x, hx, hregular⟩ := hstanding'.regulated _ hflag
      cases hcopy'.symm.trans hx
      rw [hzero, ← head?_eq_getElem?, hregular.shape.own, hv]
    · obtain ⟨y, hy, hdelegators⟩ := hcurrent _ w' hflag hcopy'
      cases hw.symm.trans hy
      rw [← hdelegators, delegators, getElem?_map, hx, map_some, hxd]
  · obtain ⟨hflag₀, w₀, hcopy₀, hmatches₀⟩ := hquiet.delegators hstanding.regulated hflag hcopy'
    left
    rw [hindexOf]
    obtain hmem | ⟨msg, hmsg, hcases⟩ :=
      h.complete d v w₀ hflag₀ hcopy₀ (hmatches₀.delegators ▸ hd)
    · obtain ⟨e, he, rfl⟩ := mem_map.1 hmem
      exact mem_map.2 ⟨e, hprepared.kept d e he, rfl⟩
    · refine hprepared.covers d v ⟨msg, hmsg, hcases.imp_right fun hj => ⟨hj, ?_⟩⟩
      obtain ⟨w, hw, hdelegators⟩ := hcurrent v w' hflag hcopy'
      exact ⟨w, hw, hdelegators ▸ hd⟩
  · rw [hpending] at hmsg
    exact absurd hmsg not_mem_nil
  · rw [hpending]
    exact Pairwise.nil

theorem indexed_step (h : Indexed rlp n) (hstanding : Standing rlp n) {a : Act}
    (hstep : n.step rlp a = some n') : Indexed rlp n' := by
  obtain ⟨hstanding', hmoved⟩ := standing_step hstanding hstep
  cases hmoved with
  | message _ advanced node =>
    rw [node]
    exact indexed_message h hstanding advanced
  | quiet quiet _ index number pending =>
    exact indexed_quiet h hstanding quiet index number pending
  | sealed quiet prepared _ index number pending =>
    exact indexed_sealed h hstanding hstanding' quiet prepared index number pending

theorem indexed_reach {n₀ : Node} (hgenesis : Genesis rlp n₀)
    (hreach : Reach (step rlp) anyStep n₀ n) : Standing rlp n ∧ Indexed rlp n :=
  hreach.invariant (P := fun n => Standing rlp n ∧ Indexed rlp n)
    ⟨standing_genesis hgenesis, indexed_genesis hgenesis⟩
    fun _ _ _ h _ hstep => ⟨(standing_step h.1 hstep).1, indexed_step h.2 h.1 hstep⟩

/-! ## Faithfulness -/

theorem Indexed.faithful (h : Indexed rlp n) (hstanding : Standing rlp n)
    (hpending : n.pending = []) (delegator : Address) :
    FaithfulIndex rlp n.db delegator (n.index delegator) where
  distinct := h.distinct delegator
  sound e he := by
    have hflag := hstanding.index delegator e he
    obtain ⟨w, hcopy, -⟩ := hstanding.regulated _ hflag
    have hfound := h.points delegator e he w hcopy
    rw [delegators, getElem?_map] at hfound
    obtain ⟨d, hd, haddress⟩ := map_eq_some_iff.1 hfound
    exact ⟨hflag, w, d, hcopy, hd, haddress⟩
  complete v w hflag hcopy hd := by
    obtain hmem | ⟨msg, hmsg, -⟩ := h.complete delegator v w hflag hcopy hd
    · exact hmem
    · rw [hpending] at hmsg
      exact absurd hmsg not_mem_nil

/-- **The index is faithful after every block**, and its readers see all of it. -/
theorem index_faithful_reach {n₀ : Node} (hgenesis : Genesis rlp n₀)
    (hreach : Reach (step rlp) anyStep n₀ n) {d : Bool}
    (hfinish : n.step rlp (.finish d) = some n') (delegator : Address) :
    FaithfulIndex rlp n'.db delegator (n'.index delegator) ∧
      n'.readDelegationsByDelegator delegator = n'.index delegator := by
  obtain ⟨hstanding, hindexed⟩ := indexed_reach hgenesis (hreach.tail trivial hfinish)
  have hpending : n'.pending = [] := by
    have hsealed : n.finish rlp d = some n' := hfinish
    unfold finish at hsealed
    split_ifs at hsealed
    obtain ⟨m, -, rfl⟩ := map_eq_some_iff.1 hsealed
    rfl
  exact ⟨hindexed.faithful hstanding hpending delegator, congrFun hindexed.read_eq delegator⟩

/-- The first block of the sample creates two validators; each finds itself in its index. -/
theorem index_faithful_sample :
    ∃ n, exec (step table) node (block [0xaa, 0xbb]) = some n ∧
      n.index 0xaa = [⟨0xaa, 0, 1⟩] ∧ n.index 0xbb = [⟨0xbb, 0, 1⟩] ∧
      ∀ delegator, FaithfulIndex table n.db delegator (n.index delegator) := by
  have hrun : ((exec (step table) node (block [0xaa, 0xbb])).map fun n =>
      (n.index 0xaa, n.index 0xbb)) = some ([⟨0xaa, 0, 1⟩], [⟨0xbb, 0, 1⟩]) := by decide +kernel
  obtain ⟨n, hn, haa, hbb⟩ := facts_of_map hrun
  have hblock : block [0xaa, 0xbb] =
      [.stake (tx 0xaa), .stake (tx 0xbb), .finalize] ++ [.finish true] := rfl
  obtain ⟨u, hu, hfinish⟩ := exec_concat_eq_some.1 (hblock ▸ hn)
  exact ⟨n, hn, haa, hbb, fun delegator =>
    (index_faithful_reach genesis_node (reach_of_exec hu) hfinish delegator).1⟩

/-! ## Tokens -/

theorem Standing.wellFormed (h : Standing rlp n) (hstaking : n.final = false) :
    WellFormed rlp n.db where
  thawed := h.thawed hstaking
  coherent := h.coherent hstaking
  proper v w hflag hcopy := by
    have hshape := (h.regulated.regular hflag hcopy).shape
    exact ⟨hshape.address, hshape.distinct, fun d hd => (hshape.fine d hd).undelegations⟩

/-- **No staking transaction of any block makes tokens**, in every state that a node reaches. -/
theorem tokens_reach {n₀ : Node} (hgenesis : Genesis rlp n₀)
    (hreach : Reach (step rlp) anyStep n₀ n) (hstaking : n.final = false) {tx : StakingTx}
    {spent : Core.Spent UInt64} {db' : DB ValidatorWrapper} {used : UInt64}
    (hrun : DB.run rlp.codec (Core.stakingTransitionDb tx.config
      (staking rlp (n.chain tx.bc) tx.decodeMsg) tx.ctx tx.msg tx.gasPool) n.db = some (spent, db'))
    (hok : spent.result = .ok used) :
    tokens rlp db' = tokens rlp n.db - used.toNat * tx.msg.gasPrice := by
  obtain ⟨hstanding, hindexed⟩ := indexed_reach hgenesis hreach
  refine tokens_stakingTransitionDb (hstanding.wellFormed hstaking) (fun delegator es hes => ?_)
    hrun hok
  have hread : n.index delegator = es := by
    rw [← hindexed.read_eq]
    exact Except.ok.inj hes
  exact hread ▸ ⟨hindexed.distinct delegator, hstanding.index delegator⟩

end DyShard.Staking
