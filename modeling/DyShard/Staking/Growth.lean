import DyShard.Staking.Chain

/-!
# The wrappers of a chain

Along every run of a node each validator has a wrapper of the right shape, in the code of its
account and in force, and no delegator ever moves.
-/

namespace DyShard.Staking

open List Node Sample

open State (DB)
open Transition

variable {rlp : WrapperRlp} {n n' : Node} {db db' : DB ValidatorWrapper} {msg : StakeMsg}
  {ok : Node → Act → Prop} {bc : ChainContext}

/-! ## The invariant -/

/-- The stored wrapper and the one in force: same delegators, keys and identity. -/
def Stands (rlp : WrapperRlp) (db : DB ValidatorWrapper) (v : Address) : Prop :=
  ∃ w₀ w, db.validatorWrapperCopy rlp.codec v = some w₀ ∧ Regular v w₀ ∧
    current rlp db v = some w ∧ Regular v w ∧ Matches w₀ w

/-- What holds of a node at any time. -/
structure Standing (rlp : WrapperRlp) (n : Node) : Prop where
  sound : n.db.Sound
  backed : n.db.Backed
  suicided : ∀ a, (n.db.face a).suicided = false
  thawed : n.final = false → n.db.Thawed
  coherent : n.final = false → DB.Coherent rlp.codec n.db
  validators : ∀ v, Flagged n.db v → Stands rlp n.db v
  snapshots : ∀ v, ∀ s ∈ n.snapshots v, Flagged n.db v ∧ Regular v s ∧
    ∀ w, n.db.validatorWrapperCopy rlp.codec v = some w → s.delegators <+: w.delegators
  list : ∀ v, Flagged n.db v ↔ v ∈ n.list ∨ ∃ msg ∈ n.pending, ∃ m, Creates msg v m
  index : ∀ d, ∀ e ∈ n.index d, Flagged n.db e.validatorAddress
  joined : ∀ msg ∈ n.pending, ∀ d v, Joins msg d v → Flagged n.db v

theorem standing_genesis (h : Genesis rlp n) : Standing rlp n where
  sound := h.sound
  backed := h.backed
  suicided := h.suicided
  thawed _ := h.thawed
  coherent _ := h.coherent
  validators v hflag := absurd hflag (h.unflagged v)
  snapshots v s hs := by
    rw [h.snapshots v] at hs
    exact absurd hs not_mem_nil
  list v := by simp [h.unflagged v, h.list, h.pending]
  index d e he := by
    rw [h.index d] at he
    exact absurd he not_mem_nil
  joined msg hmsg := by
    rw [h.pending] at hmsg
    exact absurd hmsg not_mem_nil

theorem Standing.regulated (h : Standing rlp n) : Regulated rlp n.db := by
  intro v hflag
  obtain ⟨w₀, -, hcopy, hregular, -⟩ := h.validators v hflag
  exact ⟨w₀, hcopy, hregular⟩

theorem stands_of_coherent (hcoherent : DB.Coherent rlp.codec db) (hregulated : Regulated rlp db)
    {v : Address} (hflag : Flagged db v) : Stands rlp db v := by
  obtain ⟨w, hcopy, hregular⟩ := hregulated v hflag
  refine ⟨w, w, hcopy, hregular, ?_, hregular, .refl w⟩
  rw [current_of_coherent hcoherent, hcopy]

/-! ## Steps between states -/

/-- Validators stay, and their delegators stay in place. -/
structure Continues (rlp : WrapperRlp) (db db' : DB ValidatorWrapper) : Prop where
  flagged : ∀ v, Flagged db v → Flagged db' v
  places : ∀ v w, Flagged db v → db.validatorWrapperCopy rlp.codec v = some w →
    ∃ w', db'.validatorWrapperCopy rlp.codec v = some w' ∧ w.delegators <+: w'.delegators

theorem Continues.refl (db : DB ValidatorWrapper) : Continues rlp db db :=
  ⟨fun _ h => h, fun _ w _ hcopy => ⟨w, hcopy, prefix_rfl⟩⟩

theorem Continues.trans {db'' : DB ValidatorWrapper} (h : Continues rlp db db')
    (h' : Continues rlp db' db'') : Continues rlp db db'' where
  flagged v hflag := h'.flagged v (h.flagged v hflag)
  places v w hflag hcopy := by
    obtain ⟨w', hcopy', hplaces⟩ := h.places v w hflag hcopy
    obtain ⟨w'', hcopy'', hplaces'⟩ := h'.places v w' (h.flagged v hflag) hcopy'
    exact ⟨w'', hcopy'', hplaces.trans hplaces'⟩

theorem continues_advanced (h : Advanced rlp bc msg db db') : Continues rlp db db' where
  flagged v hflag := (h.flagged v).2 (.inl hflag)
  places v w hflag hcopy := by
    obtain ⟨w', hcopy', hfollows, -⟩ := h.follows v w hflag hcopy
    exact ⟨w', hcopy', hfollows.grows.places⟩

/-- The validators are the same, and each stored wrapper matches the one before. -/
structure Quiet (rlp : WrapperRlp) (db db' : DB ValidatorWrapper) : Prop where
  flagged : ∀ v, Flagged db' v ↔ Flagged db v
  wrapper : ∀ v w, Flagged db v → db.validatorWrapperCopy rlp.codec v = some w →
    ∃ w', db'.validatorWrapperCopy rlp.codec v = some w' ∧ Matches w w'

theorem Quiet.continues (h : Quiet rlp db db') : Continues rlp db db' where
  flagged v hflag := (h.flagged v).2 hflag
  places v w hflag hcopy := by
    obtain ⟨w', hcopy', hmatches⟩ := h.wrapper v w hflag hcopy
    exact ⟨w', hcopy', by rw [hmatches.delegators]⟩

theorem quiet_same (h : DB.SameStaking rlp.codec db db') : Quiet rlp db db' where
  flagged v := by rw [Flagged, Flagged, h.storage]
  wrapper v w _ hcopy := ⟨w, by rw [h.wrapper, hcopy], .refl w⟩

theorem quiet_revised (h : Revised rlp db db') : Quiet rlp db db' where
  flagged := h.flagged
  wrapper v w _ hcopy := ⟨w, by rw [h.wrapper, hcopy], .refl w⟩

theorem Stands.stored {v : Address} (h : Stands rlp db v) (hstores : DB.Stores rlp.codec db db' v) :
    ∃ w₀ w', db.validatorWrapperCopy rlp.codec v = some w₀ ∧
      db'.validatorWrapperCopy rlp.codec v = some w' ∧ Regular v w' ∧ Matches w₀ w' ∧
      (db'.stateValidators v = none ∨ db'.stateValidators v = db.stateValidators v →
        Stands rlp db' v) := by
  obtain ⟨w₀, w, hcopy, hregular₀, hcurrent, hregular, hmatches⟩ := h
  obtain heq | ⟨val, hval, heq⟩ := hstores
  · refine ⟨w₀, w₀, hcopy, heq.trans hcopy, hregular₀, .refl w₀, ?_⟩
    rintro (hcached | hcached)
    · refine ⟨w₀, w₀, heq.trans hcopy, hregular₀, ?_, hregular₀, .refl w₀⟩
      rw [current, hcached, heq, hcopy, Option.none_or]
    · refine ⟨w₀, w, heq.trans hcopy, hregular₀, ?_, hregular, hmatches⟩
      rw [current, hcached, heq]
      exact hcurrent
  · -- the wrapper in force has been stored
    have hw : w = val := by
      rw [current, hval, Option.some_or] at hcurrent
      exact (Option.some.inj hcurrent).symm
    subst hw
    refine ⟨w₀, w, hcopy, heq, hregular, hmatches, ?_⟩
    rintro (hcached | hcached)
    · refine ⟨w, w, heq, hregular, ?_, hregular, .refl w⟩
      rw [current, hcached, heq, Option.none_or]
    · refine ⟨w, w, heq, hregular, ?_, hregular, .refl w⟩
      rw [current, hcached, hval, Option.some_or]

theorem quiet_stores (hstands : ∀ v, Flagged db v → Stands rlp db v)
    (hflag : ∀ v, Flagged db' v ↔ Flagged db v) (hstores : ∀ v, DB.Stores rlp.codec db db' v) :
    Quiet rlp db db' where
  flagged := hflag
  wrapper v w hv hcopy := by
    obtain ⟨w₀, w', hcopy₀, hcopy', -, hmatches, -⟩ := (hstands v hv).stored (hstores v)
    cases hcopy.symm.trans hcopy₀
    exact ⟨w', hcopy', hmatches⟩

/-! ## The invariant is kept -/

section

variable (h : Standing rlp n)
include h

theorem Standing.carry (hcontinues : Continues rlp n.db db') :
    (∀ v, ∀ s ∈ n.snapshots v, Flagged db' v ∧ Regular v s ∧
      ∀ w, db'.validatorWrapperCopy rlp.codec v = some w → s.delegators <+: w.delegators) ∧
    (∀ d, ∀ e ∈ n.index d, Flagged db' e.validatorAddress) ∧
    ∀ msg ∈ n.pending, ∀ d v, Joins msg d v → Flagged db' v := by
  refine ⟨fun v s hs => ?_, fun d e he => hcontinues.flagged _ (h.index d e he),
    fun msg hmsg d v hv => hcontinues.flagged v (h.joined msg hmsg d v hv)⟩
  obtain ⟨hflag, hregular, hplaces⟩ := h.snapshots v s hs
  obtain ⟨w₀, hcopy, -⟩ := h.regulated v hflag
  obtain ⟨w', hcopy', hgrown⟩ := hcontinues.places v w₀ hflag hcopy
  refine ⟨hcontinues.flagged v hflag, hregular, fun w hw => ?_⟩
  cases hcopy'.symm.trans hw
  exact (hplaces w₀ hcopy).trans hgrown

theorem Standing.advanced {tx : StakingTx} {db₁ db₂ : DB ValidatorWrapper}
    {refund : ℤ} (hstaking : n.final = false)
    (happlied : Applied rlp (n.chain tx.bc) tx.ctx.epochNumber msg (Core.bought tx.msg n.db) db₁)
    (hrefunded : db₂ = db₁.addBalance tx.msg.sender refund) (d : Bool) :
    Advanced rlp (n.chain tx.bc) msg n.db (db₂.finalise rlp.codec d) := by
  have hbought : DB.SameStaking rlp.codec n.db (Core.bought tx.msg n.db) :=
    sameStaking_bought tx.msg n.db
  have hindex : ∀ delegator es, (n.chain tx.bc).readDelegationsByDelegator delegator = .ok es →
      ∀ e ∈ es, Flagged (Core.bought tx.msg n.db) e.validatorAddress := by
    intro delegator es hes e he
    cases hes
    rw [Flagged, hbought.storage]
    exact h.index delegator e (mem_filter.1 he).1
  have hmessage : Advanced rlp (n.chain tx.bc) msg n.db db₁ :=
    (advanced_of_applied (hbought.thawed (h.thawed hstaking)) (h.regulated.same hbought) hindex
      happlied).before hbought
  have hsame : DB.SameStaking rlp.codec db₁ db₂ := by
    rw [hrefunded]
    exact DB.SameStaking.addBalance db₁ _ _
  have hsuicided : ∀ a, (db₂.face a).suicided = false := fun a => by
    rw [hsame.suicided, hmessage.suicided, h.suicided]
  exact hmessage.after h.regulated (h.coherent hstaking) hsame
    (DB.settled_finalise rlp.codec hsuicided d) h.suicided

theorem standing_message (hstaking : n.final = false)
    (hadvanced : Advanced rlp bc msg n.db db') (hsound : db'.Sound) :
    Standing rlp { n with db := db', pending := n.pending ++ [msg] } := by
  have hcontinues := continues_advanced hadvanced
  obtain ⟨hsnapshots, hindex, hjoined⟩ := h.carry hcontinues
  have hcoherent : DB.Coherent rlp.codec db' := hadvanced.coherent (h.coherent hstaking)
  exact {
    sound := hsound
    backed := hadvanced.backed h.backed
    suicided := fun a => (hadvanced.suicided a).trans (h.suicided a)
    thawed := fun _ => hadvanced.thawed
    coherent := fun _ => hcoherent
    validators := fun v hflag =>
      stands_of_coherent hcoherent (hadvanced.regulated h.regulated) hflag
    snapshots := hsnapshots
    index := hindex
    list := fun v => by
      rw [hadvanced.flagged v, h.list v, or_assoc]
      exact or_congr_right exists_mem_concat.symm
    joined := fun x hx d v hv => by
      obtain hx | hx := mem_append.1 hx
      · exact hjoined x hx d v hv
      · cases mem_singleton.1 hx
        exact hcontinues.flagged v (hadvanced.joins d v hv) }

theorem standing_settled (d : Bool) :
    Standing rlp { n with db := n.db.finalise rlp.codec d } ∧
      Quiet rlp n.db (n.db.finalise rlp.codec d) := by
  have hsettled := DB.settled_finalise rlp.codec h.suicided d
  have hflag := flagged_kept h.regulated hsettled.storage hsettled.cleared
  have hquiet := quiet_stores h.validators hflag hsettled.wrapper
  obtain ⟨hsnapshots, hindex, hjoined⟩ := h.carry hquiet.continues
  refine ⟨?_, hquiet⟩
  exact {
    sound := DB.sound_finalise h.sound d
    backed := hsettled.backed h.backed
    suicided := hsettled.suicided
    thawed := fun hfinal => hsettled.thawed (h.thawed hfinal)
    coherent := fun hfinal => hsettled.coherent (h.coherent hfinal)
    validators := fun v hv => by
      obtain ⟨-, -, -, -, -, -, hstands⟩ :=
        (h.validators v ((hflag v).1 hv)).stored (hsettled.wrapper v)
      exact hstands (.inr (congrFun hsettled.cached v))
    snapshots := hsnapshots
    list := fun v => (hflag v).trans (h.list v)
    index := hindex
    joined := hjoined }

theorem standing_balance (hsame : DB.SameStaking rlp.codec n.db db') (hsound : db'.Sound) :
    Standing rlp { n with db := db' } := by
  obtain ⟨hsnapshots, hindex, hjoined⟩ := h.carry (quiet_same hsame).continues
  exact {
    sound := hsound
    backed := hsame.backed h.backed
    suicided := fun a => (hsame.suicided a).trans (h.suicided a)
    thawed := fun hfinal => hsame.thawed (h.thawed hfinal)
    coherent := fun hfinal => hsame.coherent (h.coherent hfinal)
    validators := fun v hv => by
      rw [Flagged, hsame.storage] at hv
      unfold Stands
      rw [current_same hsame, hsame.wrapper]
      exact h.validators v hv
    snapshots := hsnapshots
    list := fun v => by
      rw [Flagged, hsame.storage]
      exact h.list v
    index := hindex
    joined := hjoined }

theorem standing_revised (hfinal : n.final = true) (hrevised : Revised rlp n.db db')
    (hsound : db'.Sound) : Standing rlp { n with db := db' } := by
  obtain ⟨hsnapshots, hindex, hjoined⟩ := h.carry (quiet_revised hrevised).continues
  have hover : n.final ≠ false := by
    rw [hfinal]
    exact Bool.noConfusion
  exact {
    sound := hsound
    backed := hrevised.backed h.backed
    suicided := fun a => (hrevised.suicided a).trans (h.suicided a)
    thawed := fun hstaking => absurd hstaking hover
    coherent := fun hstaking => absurd hstaking hover
    validators := fun v hv => by
      obtain ⟨w₀, w, hcopy, hregular₀, hcurrent, hregular, hmatches⟩ :=
        h.validators v ((hrevised.flagged v).1 hv)
      have hrel := hrevised.current v
      rw [hcurrent] at hrel
      cases hcurrent' : current rlp db' v with
      | none =>
        rw [hcurrent'] at hrel
        cases hrel
      | some w' =>
        rw [hcurrent'] at hrel
        obtain ⟨hrev⟩ := hrel
        exact ⟨w₀, w', by rw [hrevised.wrapper, hcopy], hregular₀, hcurrent', hrev.regular hregular,
          hmatches.trans (hrev.same hregular)⟩
    snapshots := hsnapshots
    list := fun v => (hrevised.flagged v).trans (h.list v)
    index := hindex
    joined := hjoined }

theorem standing_sealed {m : MetaData} {list : List Address} (d : Bool)
    (hprepared : Prepared rlp n.db (n.number + 1) n.readDelegationsByDelegator n.pending m)
    (hlist : list = n.list ++ m.newValidators.filter fun v => decide (v ∉ n.list)) :
    Standing rlp {
        db := DB.new (n.db.commit rlp.codec d).trie
        list := list
        index := fun d => (m.newDelegations d).getD (n.index d)
        snapshots := fun v =>
          if v ∈ list then (current rlp n.db v).toList ++ n.snapshots v else n.snapshots v
        number := n.number + 1
        pending := []
        final := false } ∧
      Quiet rlp n.db (DB.new (n.db.commit rlp.codec d).trie) := by
  have hopened := DB.reopened_commit rlp.codec h.suicided h.backed h.sound d
  have hflag := flagged_kept h.regulated hopened.storage hopened.cleared
  have hquiet := quiet_stores h.validators hflag hopened.wrapper
  obtain ⟨hsnapshots, hindex, hjoined⟩ := h.carry hquiet.continues
  have hlisted : ∀ v, v ∈ list ↔ Flagged n.db v := by
    intro v
    rw [h.list v, hlist, mem_append, mem_filter, hprepared.validators v]
    by_cases hv : v ∈ n.list <;> simp [hv]
  refine ⟨?_, hquiet⟩
  exact {
    sound := hopened.sound
    backed := hopened.backed
    suicided := hopened.suicided
    thawed := fun _ => hopened.thawed
    coherent := fun _ a val hval => by
      cases hval
    validators := fun v hv => by
      obtain ⟨-, -, -, -, -, -, hstands⟩ :=
        (h.validators v ((hflag v).1 hv)).stored (hopened.wrapper v)
      exact hstands (.inl (hopened.cached v))
    snapshots := fun v s hs => by
      dsimp only at hs
      split_ifs at hs with hv
      · obtain hs | hs := mem_append.1 hs
        · -- the wrapper in force is the new snapshot
          have hvalidator : Flagged n.db v := (hlisted v).1 hv
          obtain ⟨w₀, w, hcopy, -, hcurrent, hregular, hmatches⟩ := h.validators v hvalidator
          rw [hcurrent, Option.mem_toList] at hs
          cases hs
          obtain ⟨w', hcopy', hplaces⟩ := hquiet.continues.places v w₀ hvalidator hcopy
          refine ⟨(hflag v).2 hvalidator, hregular, fun x hx => ?_⟩
          cases hcopy'.symm.trans hx
          rwa [hmatches.delegators]
        · exact hsnapshots v s hs
      · exact hsnapshots v s hs
    list := fun v => by
      rw [hflag v, ← hlisted v]
      simp
    index := fun x e he => by
      cases hnew : m.newDelegations x with
      | none =>
        have he : e ∈ (m.newDelegations x).getD (n.index x) := he
        rw [hnew] at he
        exact hindex x e he
      | some es =>
        have hmem : e ∈ m.indexOf n.readDelegationsByDelegator x := by
          have he : e ∈ (m.newDelegations x).getD (n.index x) := he
          rwa [MetaData.indexOf, hnew] at *
        obtain hread | ⟨-, msg, hmsg, ⟨c, hc, hv, -⟩ | ⟨hj, -⟩⟩ := hprepared.source x e hmem
        · exact hindex x e (mem_filter.1 hread).1
        · rw [hv]
          exact (hflag x).2 ((h.list x).2 (.inr ⟨msg, hmsg, c, hc⟩))
        · exact hjoined msg hmsg x _ hj
    joined := fun msg hmsg => absurd hmsg not_mem_nil }

end

/-- A message lets the validators advance; the end of a block updates the metadata. -/
inductive Moved (rlp : WrapperRlp) (n n' : Node) : Prop
  | message {msg : StakeMsg} {tx : StakingTx} (decoded : tx.stakeMsg = .ok msg)
      (advanced : Advanced rlp (n.chain tx.bc) msg n.db n'.db)
      (node : n' = { n with db := n'.db, pending := n.pending ++ [msg] })
  | quiet (quiet : Quiet rlp n.db n'.db) (list : n'.list = n.list) (index : n'.index = n.index)
      (number : n'.number = n.number) (pending : n'.pending = n.pending)
  | sealed {m : MetaData} (quiet : Quiet rlp n.db n'.db)
      (prepared : prepareStakingMetaData rlp n.db (n.number + 1) n.readDelegationsByDelegator
        n.pending = some m)
      (list : n'.list = n.list ++ m.newValidators.filter fun v => decide (v ∉ n.list))
      (index : ∀ d, n'.index d = (m.newDelegations d).getD (n.index d))
      (number : n'.number = n.number + 1) (pending : n'.pending = [])

theorem Moved.continues (h : Moved rlp n n') : Continues rlp n.db n'.db := by
  cases h with
  | message _ advanced _ => exact continues_advanced advanced
  | quiet quiet _ _ _ _ => exact quiet.continues
  | sealed quiet _ _ _ _ _ => exact quiet.continues

theorem standing_step (h : Standing rlp n) {a : Act} (hstep : n.step rlp a = some n') :
    Standing rlp n' ∧ Moved rlp n n' := by
  have hstepped : Stepped rlp n n' :=
    stepped_of_step h.thawed (fun v s hs => (h.snapshots v s hs).2.1) hstep
  cases hstepped with
  | @message msg tx db₁ db₂ refund staking decoded applied refunded sound =>
    have hadvanced := h.advanced staking applied refunded tx.deleteEmptyObjects
    exact ⟨standing_message h staking hadvanced (DB.sound_finalise (sound h.sound) _),
      .message decoded hadvanced rfl⟩
  | settled d =>
    obtain ⟨hstanding, hquiet⟩ := standing_settled h d
    exact ⟨hstanding, .quiet hquiet rfl rfl rfl rfl⟩
  | balance same sound =>
    exact ⟨standing_balance h same (sound h.sound), .quiet (quiet_same same) rfl rfl rfl rfl⟩
  | finalized =>
    exact ⟨⟨h.sound, h.backed, h.suicided, Bool.noConfusion, Bool.noConfusion, h.validators,
      h.snapshots, h.list, h.index, h.joined⟩, .quiet (quiet_same (.refl _)) rfl rfl rfl rfl⟩
  | revised final revised sound =>
    exact ⟨standing_revised h final revised (sound h.sound),
      .quiet (quiet_revised revised) rfl rfl rfl rfl⟩
  | sealed d _ prepared listed =>
    obtain ⟨hstanding, hquiet⟩ := standing_sealed h d (prepared_of_prepare prepared) listed
    exact ⟨hstanding, .sealed hquiet prepared listed (fun _ => rfl) rfl rfl⟩

theorem standing_reach (h : Standing rlp n) (hreach : Reach (step rlp) ok n n') : Standing rlp n' :=
  hreach.invariant h fun _ _ _ hs _ hstep => (standing_step hs hstep).1

theorem continues_reach (h : Standing rlp n)
    (hreach : Reach (step rlp) ok n n') : Continues rlp n.db n'.db := by
  induction hreach with
  | refl => exact .refl _
  | tail hprev _ hstep ih =>
    exact ih.trans (standing_step (standing_reach h hprev) hstep).2.continues

/-! ## The shape of the wrappers -/

/-- **The wrappers of a chain have their shape** in every state of a run from a node without
validators, and so have the snapshots; the delegators keep their places. -/
theorem wrapper_shape_reach {n₀ : Node} (hgenesis : Genesis rlp n₀)
    (hreach : Reach (step rlp) anyStep n₀ n) :
    (∀ v, Flagged n.db v → ∃ w₀ w, n.db.validatorWrapperCopy rlp.codec v = some w₀ ∧ Shape v w₀ ∧
      current rlp n.db v = some w ∧ Shape v w ∧
      ∀ s ∈ n.snapshots v, Shape v s ∧ s.delegators <+: w.delegators) ∧
    ∀ n', Reach (step rlp) anyStep n n' → ∀ v w, Flagged n.db v →
      current rlp n.db v = some w → Flagged n'.db v ∧
        ∃ w', current rlp n'.db v = some w' ∧ Grows v w w' := by
  have hstanding := standing_reach (standing_genesis hgenesis) hreach
  refine ⟨fun v hflag => ?_, fun n' hlater v w hflag hcurrent => ?_⟩
  · obtain ⟨w₀, w, hcopy, hregular₀, hcurrent, hregular, hmatches⟩ := hstanding.validators v hflag
    refine ⟨w₀, w, hcopy, hregular₀.shape, hcurrent, hregular.shape, fun s hs => ?_⟩
    obtain ⟨-, hsnapshot, hplaces⟩ := hstanding.snapshots v s hs
    exact ⟨hsnapshot.shape, hmatches.delegators ▸ hplaces w₀ hcopy⟩
  · have hcontinues := continues_reach hstanding hlater
    have hflag' := hcontinues.flagged v hflag
    obtain ⟨w₀, w₁, hcopy, -, hcurrent₁, -, hmatches⟩ := hstanding.validators v hflag
    cases hcurrent.symm.trans hcurrent₁
    obtain ⟨x₀, x, hcopy', -, hcurrent', hregular', hmatches'⟩ :=
      (standing_reach hstanding hlater).validators v hflag'
    obtain ⟨y, hy, hplaces⟩ := hcontinues.places v w₀ hflag hcopy
    cases hcopy'.symm.trans hy
    refine ⟨hflag', x, hcurrent', hregular'.shape, ?_⟩
    rw [hmatches.delegators, hmatches'.delegators]
    exact hplaces

/-- Account `0xaa` becomes a validator in the first block. -/
theorem wrapper_shape_sample :
    ∃ n, exec (step table) node (block [0xaa]) = some n ∧
      ∃ w, current table n.db 0xaa = some w ∧ Shape 0xaa w := by
  have hrun : ((exec (step table) node (block [0xaa])).map fun n =>
      decide (Flagged n.db 0xaa)) = some true := by decide +kernel
  obtain ⟨n, hn, hflag⟩ := Option.map_eq_some_iff.1 hrun
  obtain ⟨-, w, -, -, hcurrent, hshape, -⟩ :=
    (wrapper_shape_reach genesis_node (reach_of_exec hn)).1 0xaa (of_decide_eq_true hflag)
  exact ⟨n, hn, w, hcurrent, hshape⟩

end DyShard.Staking
