import DyShard.Atomic.FollowerPool
import DyShard.Atomic.FollowerReads

/-!
# Where the transactions of the pool come from

What a node has in its pool was put there for a request, and a commit only once `reset` has seen a
freeze of its index on the chain.
-/

namespace DyShard.Atomic.Follower

open Node Option List LoopPc

/-- Which account each index moves, from which shard and to which. -/
abbrev Plan := UInt64 → ShardID × ShardID × Address

/-- The transaction belongs to the migration of its index. -/
def Planned (plan : Plan) (tx : StateTransferTransaction) : Prop :=
  plan tx.index = (tx.sourceShardID, tx.targetShardID, tx.address)

instance (plan : Plan) (tx : StateTransferTransaction) : Decidable (Planned plan tx) :=
  inferInstanceAs (Decidable (_ = _))

/-- The transaction that `AddFreezeTransaction` builds from a request. -/
def ProposeRequest.transaction (req : ProposeRequest) : StateTransferTransaction :=
  { sourceShardID := req.source, targetShardID := req.target, sourceHeight := 0,
    address := bytesToAddress req.msgPayload, balance := some 0, nonce := 0, data := [],
    toFreeze := true, index := req.index }

/-- Every request is about the migration of its index. -/
def planned (plan : Plan) : Action → Prop
  | .startPropose _ req => Planned plan req.transaction
  | .startCommit _ req => Planned plan req.transaction
  | _ => True

instance (plan : Plan) (a : Action) : Decidable (planned plan a) := by
  cases a <;> unfold planned <;> infer_instance

/-- What is in the pool belongs to the migration of its index; a commit comes after its freeze. -/
structure Origin (plan : Plan) (s : Node) : Prop where
  proposing : ∀ h req pc, s.handlers h = .propose req pc → Planned plan req.transaction
  freezes : ∀ i tx, s.freezeCache i = some tx →
    tx.index = i ∧ tx.toFreeze = true ∧ Planned plan tx
  commits : Built (fun req => Planned plan req.transaction) s
  cached : ∀ i, (s.cached i).isSome = true → s.seen .freeze i = true
  registering : ∀ h i, (s.handlers h).registers = some (.commit, i) → s.seen .freeze i = true
  committed : ∀ i, s.pending .commit i = true → s.seen .freeze i = true

variable {s t : Node} {a : Action} {plan : Plan} {i : UInt64} {j : ℕ}

theorem propose_of_step (hstep : step s a = some t) {req : ProposeRequest} {pc : ProposePc}
    (ht : t.handlers j = .propose req pc) :
    (∃ pc', s.handlers j = .propose req pc') ∨ a = .startPropose j req := by
  cases moves_of_step hstep j with
  | stay h => exact .inl ⟨pc, h ▸ ht⟩
  | startPropose _ ha hp =>
    cases hp.symm.trans ht
    exact .inr ha
  | startCommit _ _ hp => cases hp.symm.trans ht
  | propose hpc hs =>
    rcases answers_of_stepPropose hs with ⟨pc', hp⟩ | ⟨res, hp, -⟩
    · cases hp.symm.trans ht
      exact .inl ⟨_, hpc⟩
    · cases hp.symm.trans ht
  | commit hpc hs =>
    rcases goes_of_stepCommit hs with ⟨_, hp, -⟩ | hp | ⟨_, hp⟩ <;> cases hp.symm.trans ht
  | receive hp =>
    rw [ht] at hp
    generalize hq : s.handlers j = q at hp
    generalize hp' : Handler.propose req pc = p at hp
    cases hp with
    | propose req' side ftype =>
      cases Roles.proposeSignal_same hp'.symm
      exact .inl ⟨_, rfl⟩
    | commit req' ftype => cases hp'
  | expire hp =>
    rw [ht] at hp
    generalize hq : s.handlers j = q at hp
    cases hp
    exact .inl ⟨_, rfl⟩

theorem freezeCache_of_step (hstep : step s a = some t) {tx : StateTransferTransaction}
    (ht : t.freezeCache i = some tx) :
    s.freezeCache i = some tx ∨ ∃ j req, s.handlers j = .propose req .addFreeze ∧
      tx = req.transaction ∧ req.index = i := by
  cases (actionStep_of_step hstep).2 with
  | loop hl =>
    left
    cases hl with
    | @forgetFreeze ev tx' rest hloop htx =>
      by_cases hi : i = tx'.index <;> simp_all [deleteTxFromFreeze]
    | _ => exact ht
  | @handler j t hh =>
    cases hh with
    | @addFreeze req hpc hlock =>
      by_cases hi : i = req.index
      · subst hi
        simp only [setHandler, addFreezeTransaction, initSignal, Function.update_self] at ht
        exact .inr ⟨j, req, hpc, (Option.some.inj ht).symm, rfl⟩
      · simp only [setHandler, addFreezeTransaction, initSignal, Function.update_of_ne hi] at ht
        exact .inl ht
    | close =>
      left
      simp only [setHandler, closeSignal] at ht
      split at ht <;> exact ht
    | _ => exact .inl ht
  | closeNext hv hsig hi =>
    left
    simp only [closeSignal] at ht
    split at ht <;> exact ht
  | _ => exact .inl ht

theorem cached_of_step (hstep : step s a = some t) (ht : (t.cached i).isSome = true) :
    (s.cached i).isSome = true ∨ t.seen .freeze i = true := by
  cases (actionStep_of_step hstep).2 with
  | loop hl =>
    cases hl with
    | @seeFreeze ev tx rest hloop htx =>
      by_cases hi : i = tx.index
      · exact .inr (by simp [seen, hi])
      · left
        simp only [addCachedTransaction] at ht
        split at ht
        · exact ht
        · rwa [Function.update_of_ne hi] at ht
    | _ => exact .inl ht
  | handler hh =>
    obtain ⟨-, u, p, rfl, hm⟩ := handler_move (stepAction_of_step hstep)
    exact .inl (hm.quiet.cached i ht)
  | startPropose _ | startCommit _ | receiveZero _ _ | timeout _ | receive _ _ _ => exact .inl ht
  | _ => exact .inl (((actionStep_of_step hstep).2.quiet rfl).cached i ht)

/-- A handler is about to register a commit only after `cached` has been found to hold the
index. -/
theorem registers_of_step (hstep : step s a = some t)
    (ht : (t.handlers j).registers = some (.commit, i)) :
    (s.handlers j).registers = some (.commit, i) ∨ (s.cached i).isSome = true := by
  cases moves_of_step hstep j with
  | stay h => exact .inl (h ▸ ht)
  | startPropose _ _ hp | startCommit _ _ hp =>
    rw [hp] at ht
    cases ht
  | propose hpc hs =>
    rcases answers_of_stepPropose hs with ⟨pc', hp⟩ | ⟨res, hp, -⟩
    · rw [hp] at ht
      cases pc' <;> cases ht
    · rw [hp] at ht
      cases ht
  | commit hpc hs =>
    rcases goes_of_stepCommit hs with ⟨pc', hp, hcached, hfrom⟩ | hp | ⟨_, hp⟩ <;> rw [hp] at ht
    · cases pc' with
      | checkCommitted =>
        cases ht
        exact .inr (hcached rfl)
      | addCommitted =>
        cases ht
        rw [hpc, hfrom rfl]
        exact .inl rfl
      | _ => cases ht
    · cases ht
    · cases ht
  | @receive i' sig hp =>
    generalize t.handlers j = p at hp ht
    generalize s.handlers j = q at hp
    cases hp with
    | propose req side ftype =>
      cases side <;> by_cases hs : sig = 1 <;> simp [proposeSignal, hs, Handler.registers] at ht
    | commit req ftype =>
      by_cases hs : sig = 2 <;> simp [commitSignal, hs, Handler.registers] at ht
  | expire hp =>
    generalize t.handlers j = p at hp ht
    generalize s.handlers j = q at hp
    cases hp <;> cases ht

/-- **A step keeps the origin of what is in the pool.** -/
theorem origin_of_step (h : Origin plan s) (hplan : planned plan a) (hstep : step s a = some t) :
    Origin plan t := by
  have hseen := (readStep_of_step hstep).seen_mono .freeze
  constructor
  · intro j req pc ht
    rcases propose_of_step hstep ht with ⟨pc', hs⟩ | rfl
    · exact h.proposing j req pc' hs
    · exact hplan
  · intro i tx ht
    rcases freezeCache_of_step hstep ht with hs | ⟨j, req, hs, rfl, rfl⟩
    · exact h.freezes i tx hs
    · exact ⟨rfl, rfl, h.proposing j req _ hs⟩
  · refine h.commits.step hstep ?_
    rintro j req rfl
    exact hplan
  · intro i ht
    rcases cached_of_step hstep ht with hs | hs
    · exact hseen i (h.cached i hs)
    · exact hs
  · intro j i ht
    rcases registers_of_step hstep ht with hs | hs
    · exact hseen i (h.registering j i hs)
    · exact hseen i (h.cached i hs)
  · intro i ht
    obtain ⟨tx, htx⟩ := isSome_iff_exists.1 ht
    rcases committed_of_step hstep htx with hs | ⟨j, req, hs, -, rfl⟩
    · exact hseen i (h.committed i (isSome_iff_exists.2 ⟨tx, hs⟩))
    · exact hseen _ (h.registering j _ (by rw [hs]; rfl))

theorem origin_init (plan : Plan) (shardID : ShardID) (b : Block) (older : List Block)
    (hb : b.stateTransferTransactions = []) : Origin plan (init shardID b older) := by
  have hinit : init shardID b older = blank shardID b older := by rw [init, hb]; rfl
  refine ⟨?_, ?_, built_init _ shardID b older, ?_, ?_, ?_⟩ <;>
    simp [hinit, blank, Handler.registers, pending]

theorem Origin.returned (h : Origin plan s) {k : Phase} {tx : StateTransferTransaction}
    (ht : s.returned k i = some tx) : tx.index = i ∧ phaseOf tx = k ∧ Planned plan tx ∧
      (k = .commit → s.seen .freeze i = true) := by
  have hcache : s.cache k i = some tx := by
    unfold Node.returned at ht
    split at ht
    · cases ht
    · exact ht
  cases k with
  | freeze =>
    obtain ⟨hi, hf, hp⟩ := h.freezes i tx hcache
    exact ⟨hi, phaseOf_freeze hf, hp, nofun⟩
  | commit =>
    obtain ⟨req, hp, rfl, rfl⟩ := h.commits.committed i tx hcache
    exact ⟨rfl, rfl, hp, fun _ => h.committed _ (isSome_iff_exists.2 ⟨_, hcache⟩)⟩

end DyShard.Atomic.Follower
