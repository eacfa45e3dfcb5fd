import DyShard.Atomic.FollowerOrigin
import DyShard.Core.Replay

/-!
# The migrations of a shard with one proposer

No check of a block asks whether a migration has been executed before.  What keeps it from
happening is the pool of the proposer: it hands out each transaction once, and a commit only after
it has met the freeze on the chain.
-/

namespace DyShard.Core

open Atomic (StateTransferTransaction)
open Atomic.Follower (Node Phase Plan Planned planned phaseOf Origin ProposeRequest CommitRequest
  readStep_of_step origin_of_step origin_init chain_of_step returned_isSome onChain_of_reach
  phaseOf_commit)
open Transition List Atomic

variable {W H : Type}

/-! ## The node and its chain -/

/-- A shard and the node that proposes its blocks. -/
structure Proposer (H : Type) where
  node : Node
  chain : BlockChain H
  /-- What the pool has handed out and no block holds. -/
  handed : List StateTransferTransaction

/-- What happens at the node. -/
inductive ProposerAction (H : Type) where
  | node (a : Follower.Action)
  /-- `FreezeCache` or `Committed` goes through its cache in some order; what the worker cannot
  apply is left out. -/
  | collect (k : Phase) (order : List UInt64)
  | insert (b : SealedBlock H) (last : Bool)

/-- A block and its state, as the pool sees them. -/
def poolBlock (hashing : BodyHashing H) (b : SealedBlock H × Tip) : Follower.Block where
  number := .ofNat b.1.header.number
  hash := b.1.hash hashing
  parentHash := b.1.header.parentHash
  stateTransferTransactions := b.1.stateTransferTransactions
  balance a := (b.2.account a).balance
  nonce a := (b.2.account a).nonce

namespace Proposer

variable [DecidableEq H] (chain : Chain W H) (hashing : BodyHashing H) (s : Proposer H)

/-- One step of the node.  A block that is accepted takes its transactions away. -/
def step : ProposerAction H → Option (Proposer H)
  | .node a => (Follower.step s.node a).map fun node => { s with node }
  | .collect k order => (Follower.step s.node k.call).map fun node =>
    { s with node, handed := s.handed ++ order.dedup.filterMap (s.node.returned k) }
  | .insert b last => do
    let bc ← grow chain hashing s.chain b
    let head ← bc.blocks.head?
    let node ← Follower.step s.node (.insertBlock (poolBlock hashing head) last)
    return ⟨node, bc, s.handed.diff b.stateTransferTransactions⟩

/-- The node on its genesis block. -/
def start (shardID : ShardID) (genesis : SealedBlock H) (tip : Tip) : Proposer H where
  node := Follower.init shardID (poolBlock hashing (genesis, tip)) []
  chain := ⟨[(genesis, tip)], [genesis.header.root], [genesis.header.loadMapRoot]⟩
  handed := []

end Proposer

/-- The chain inserts a block. -/
def insertsBlock : Follower.Action → Bool
  | .insertBlock _ _ => true
  | _ => false

/-- Requests are about the migration of their index, and a block takes its state transfers from
those handed out. -/
def fromPool (plan : Plan) (s : Proposer H) : ProposerAction H → Prop
  | .node a => insertsBlock a = false ∧ planned plan a
  | .collect _ _ => True
  | .insert b _ => b.header.shardID = s.node.shardID ∧
    b.stateTransferTransactions <+~ s.handed

/-! ## What the chain executes -/

/-- The state-transfer transactions of a chain, in order. -/
def BlockChain.transfers (bc : BlockChain H) : List StateTransferTransaction :=
  bc.blocks.reverse.flatMap (·.1.stateTransferTransactions)

/-- A block of the shard executes the transaction. -/
def Concerns (shardID : ShardID) (stx : StateTransferTransaction) : Prop :=
  shardID = stx.sourceShardID ∨ shardID = stx.targetShardID

instance (shardID : ShardID) : DecidablePred (Concerns shardID) := fun _ => instDecidableOr

theorem BlockChain.applied_eq {bc : BlockChain H} {shardID : ShardID}
    (h : ∀ b ∈ bc.blocks, b.1.header.shardID = shardID) :
    bc.applied = bc.transfers.filter fun stx => Concerns shardID stx := by
  rw [BlockChain.applied, BlockChain.transfers, filter_flatMap]
  refine flatMap_congr fun b hb => ?_
  rw [SealedBlock.applied, h b (mem_reverse.1 hb)]
  rfl

/-- The two transactions are not the same step of the same migration. -/
def Distinct (a b : StateTransferTransaction) : Prop :=
  ¬ (a.index = b.index ∧ a.toFreeze = b.toFreeze)

/-- What has been handed out is marked as read, and the freezes of its commits are on the chain. -/
structure Pooled (plan : Plan) (shardID : ShardID) (genesis : Follower.Block)
    (s : Proposer H) : Prop where
  reach : Reach Follower.step anyStep (Follower.init shardID genesis []) s.node
  origin : Origin plan s.node
  node : s.node.shardID = shardID
  shard : ∀ b ∈ s.chain.blocks, b.1.header.shardID = shardID
  chain : ∀ tx, s.node.InChain tx → tx ∈ s.chain.transfers
  distinct : (s.chain.transfers ++ s.handed).Pairwise Distinct
  read : ∀ tx ∈ s.chain.transfers ++ s.handed, s.node.read (phaseOf tx) tx.index = true
  belongs : ∀ tx ∈ s.chain.transfers ++ s.handed, Planned plan tx
  frozen : ∀ tx ∈ s.handed, tx.toFreeze = false →
    ∃ f ∈ s.chain.transfers, f.toFreeze = true ∧ f.index = tx.index
  once : Once s.chain.applied

namespace Pooled

variable {plan : Plan} {shardID : ShardID} {genesis : Follower.Block} {s : Proposer H}
  {node : Node} {chain : Chain W H} {hashing : BodyHashing H}

theorem move (h : Pooled plan shardID genesis s) {a : Follower.Action}
    (hchain : insertsBlock a = false) (hplan : planned plan a)
    (hstep : Follower.step s.node a = some node) :
    Pooled plan shardID genesis { s with node } := by
  obtain ⟨hid, hsame | ⟨b, last, rfl, -⟩⟩ := chain_of_step hstep
  · exact
      { h with
        reach := h.reach.tail trivial hstep
        origin := origin_of_step h.origin hplan hstep
        node := hid.trans h.node
        chain := fun tx htx => h.chain tx (by simpa only [Node.InChain, hsame] using htx)
        read := fun tx htx => (readStep_of_step hstep).read_mono _ _ (h.read tx htx) }
  · cases hchain

theorem collect (h : Pooled plan shardID genesis s) {k : Phase} (order : List UInt64)
    (hstep : Follower.step s.node k.call = some node) :
    Pooled plan shardID genesis
      { s with node, handed := s.handed ++ order.dedup.filterMap (s.node.returned k) } := by
  have hread := readStep_of_step hstep
  have hmove : Pooled plan shardID genesis { s with node } :=
    h.move (by cases k <;> rfl) (by cases k <;> trivial) hstep
  -- what is handed out was not read before, and is read now
  have hnew : ∀ tx ∈ order.dedup.filterMap (s.node.returned k),
      s.node.returned k tx.index = some tx ∧ phaseOf tx = k ∧ Planned plan tx ∧
        (k = .commit → s.node.seen .freeze tx.index = true) := by
    intro tx htx
    obtain ⟨i, -, hi⟩ := mem_filterMap.1 htx
    obtain ⟨rfl, hk, hplan, hseen⟩ := h.origin.returned hi
    exact ⟨hi, hk, hplan, hseen⟩
  have hmem : ∀ {P : StateTransferTransaction → Prop},
      (∀ tx ∈ s.chain.transfers ++ s.handed, P tx) →
      (∀ tx ∈ order.dedup.filterMap (s.node.returned k), P tx) →
      ∀ tx ∈ s.chain.transfers ++ (s.handed ++ order.dedup.filterMap (s.node.returned k)), P tx := by
    intro P hold hnew tx htx
    rw [← append_assoc] at htx
    exact (mem_append.1 htx).elim (hold tx) (hnew tx)
  refine { hmove with distinct := ?_, read := ?_, belongs := ?_, frozen := ?_ }
  · rw [← append_assoc]
    refine pairwise_append.2 ⟨h.distinct, ?_, fun a ha b hb hsame => ?_⟩
    · refine pairwise_filterMap.2 ((nodup_dedup order).imp fun {i j} hij a ha b hb hsame => hij ?_)
      rw [← (h.origin.returned ha).1, ← (h.origin.returned hb).1]
      exact hsame.1
    · have hphase : phaseOf a = phaseOf b := by
        unfold phaseOf
        rw [hsame.2]
      obtain ⟨hret, hk, -⟩ := hnew b hb
      have hfree := returned_isSome.1 (by rw [hret]; rfl)
      have hused := h.read a ha
      rw [hphase, hk, hsame.1, hfree.1] at hused
      cases hused
  · refine hmem hmove.read fun tx htx => ?_
    obtain ⟨hret, hk, -⟩ := hnew tx htx
    rw [hk]
    exact hread.called k _ rfl (returned_isSome.1 (by rw [hret]; rfl)).2
  · exact hmem h.belongs fun tx htx => (hnew tx htx).2.2.1
  · intro tx htx hcommit
    rcases mem_append.1 htx with hold | htx
    · exact h.frozen tx hold hcommit
    · obtain ⟨-, rfl, -, hseen⟩ := hnew tx htx
      obtain ⟨f, hf, hphase, hi⟩ := (onChain_of_reach h.reach).seen .freeze _
        (hseen (phaseOf_commit (by simp [hcommit])))
      refine ⟨f, h.chain f hf, ?_, hi⟩
      by_contra hfreeze
      rw [phaseOf_commit hfreeze] at hphase
      cases hphase

theorem once_insert (h : Pooled plan shardID genesis s) {bc : BlockChain H}
    {stxs : List StateTransferTransaction} (hshard : ∀ b ∈ bc.blocks, b.1.header.shardID = shardID)
    (htransfers : bc.transfers = s.chain.transfers ++ stxs)
    (hdistinct : bc.transfers.Pairwise Distinct) (hsub : stxs <+~ s.handed) : Once bc.applied := by
  have happlied : bc.applied = s.chain.applied ++ stxs.filter fun stx => Concerns shardID stx := by
    rw [BlockChain.applied_eq hshard, BlockChain.applied_eq h.shard, htransfers, filter_append]
  rw [happlied]
  refine h.once.append ?_ fun tx htx hcommit => ?_
  · rw [← happlied, BlockChain.applied_eq hshard]
    exact hdistinct.filter _
  · obtain ⟨htx, hconcerns⟩ := mem_filter.1 htx
    have hhanded := hsub.subset htx
    obtain ⟨f, hf, hfreeze, hindex⟩ := h.frozen tx hhanded hcommit
    -- both belong to the migration of the index
    have hplanned : Planned plan f := h.belongs f (mem_append_left _ hf)
    have hplanned' : Planned plan tx := h.belongs tx (mem_append_right _ hhanded)
    rw [Planned, hindex, hplanned'] at hplanned
    obtain ⟨hsource, htarget, haddress⟩ : f.sourceShardID = tx.sourceShardID ∧
        f.targetShardID = tx.targetShardID ∧ f.address = tx.address := by
      simpa [eq_comm] using hplanned
    refine ⟨f, ?_, hfreeze, hindex, haddress, hsource, htarget⟩
    rw [BlockChain.applied_eq h.shard]
    have hconcerned : Concerns shardID f := by
      rw [Concerns, hsource, htarget]
      exact of_decide_eq_true hconcerns
    exact mem_filter.2 ⟨hf, decide_eq_true hconcerned⟩

theorem insert (h : Pooled plan shardID genesis s) {b : SealedBlock H} {last : Bool}
    {bc : BlockChain H} {tip : Tip} (hgrow : bc.blocks = (b, tip) :: s.chain.blocks)
    (hid : b.header.shardID = s.node.shardID) (hsub : b.stateTransferTransactions <+~ s.handed)
    (hstep : Follower.step s.node (.insertBlock (poolBlock hashing (b, tip)) last) =
      some node) :
    Pooled plan shardID genesis ⟨node, bc, s.handed.diff b.stateTransferTransactions⟩ := by
  have htransfers : bc.transfers = s.chain.transfers ++ b.stateTransferTransactions := by
    simp [BlockChain.transfers, hgrow]
  -- the transactions of the block go from what was handed out to the chain
  have hperm : bc.transfers ++ s.handed.diff b.stateTransferTransactions ~
      s.chain.transfers ++ s.handed := by
    rw [htransfers, append_assoc]
    exact (subperm_append_diff_self_of_count_le (subperm_ext_iff.1 hsub)).append_left _
  have hdistinct : (bc.transfers ++ s.handed.diff b.stateTransferTransactions).Pairwise Distinct :=
    hperm.symm.pairwise h.distinct fun hab hba => hab ⟨hba.1.symm, hba.2.symm⟩
  have hmem : ∀ tx ∈ bc.transfers ++ s.handed.diff b.stateTransferTransactions,
      tx ∈ s.chain.transfers ++ s.handed := fun tx => (hperm.mem_iff).1
  have hshard : ∀ b ∈ bc.blocks, b.1.header.shardID = shardID := by
    rw [hgrow]
    exact forall_mem_cons.2 ⟨hid.trans h.node, h.shard⟩
  obtain ⟨hid', hchain⟩ := chain_of_step hstep
  have horigin := origin_of_step (a := .insertBlock _ last) h.origin trivial hstep
  exact
    { reach := h.reach.tail trivial hstep
      origin := horigin
      node := hid'.trans h.node
      shard := hshard
      chain := by
        rintro tx ⟨block, hblock, htx⟩
        rw [htransfers, mem_append]
        rcases hchain with hsame | ⟨block', last', ha, hnew⟩
        · exact .inl (h.chain tx ⟨block, hsame ▸ hblock, htx⟩)
        · cases ha
          rcases mem_cons.1 (hnew ▸ hblock) with rfl | hold
          · exact .inr htx
          · exact .inl (h.chain tx ⟨block, hold, htx⟩)
      distinct := hdistinct
      read := fun tx htx =>
        (readStep_of_step hstep).read_mono _ _ (h.read tx (hmem tx htx))
      belongs := fun tx htx => h.belongs tx (hmem tx htx)
      frozen := by
        intro tx htx hcommit
        obtain ⟨f, hf, hfreeze⟩ := h.frozen tx (diff_subset _ _ htx) hcommit
        exact ⟨f, htransfers ▸ mem_append_left _ hf, hfreeze⟩
      once := h.once_insert hshard htransfers (pairwise_append.1 hdistinct).1 hsub }

theorem step [DecidableEq H] {t : Proposer H} {a : ProposerAction H}
    (h : Pooled plan shardID genesis s) (hok : fromPool plan s a)
    (hstep : s.step chain hashing a = some t) : Pooled plan shardID genesis t := by
  cases a with
  | node a =>
    obtain ⟨node, hnode, rfl⟩ := Option.map_eq_some_iff.1 hstep
    exact h.move hok.1 hok.2 hnode
  | collect k order =>
    obtain ⟨node, hnode, rfl⟩ := Option.map_eq_some_iff.1 hstep
    exact h.collect order hnode
  | insert b last =>
    obtain ⟨bc, hgrow, hstep⟩ := Option.bind_eq_some_iff.1 hstep
    obtain ⟨head, hhead, hstep⟩ := Option.bind_eq_some_iff.1 hstep
    obtain ⟨node, hnode, hstep⟩ := Option.bind_eq_some_iff.1 hstep
    cases hstep
    obtain ⟨tip, hblocks⟩ := blocks_grow hgrow
    obtain rfl : (b, tip) = head := by simpa [hblocks] using hhead
    exact h.insert hblocks hok.1 hok.2 hnode

end Pooled

/-- **Each migration is executed once** in every chain of blocks that one node proposes from its
pool. -/
theorem once_of_fromPool [DecidableEq H] {chain : Chain W H} {hashing : BodyHashing H} {plan : Plan}
    {shardID : ShardID} {genesis : SealedBlock H} {tip : Tip} {s : Proposer H}
    (h : Reach (Proposer.step chain hashing) (fromPool plan)
      (Proposer.start hashing shardID genesis tip) s)
    (hid : genesis.header.shardID = shardID) (hempty : genesis.stateTransferTransactions = []) :
    Once s.chain.applied := by
  have hstart : Pooled plan shardID (poolBlock hashing (genesis, tip))
      (Proposer.start hashing shardID genesis tip) := by
    have htransfers : (Proposer.start hashing shardID genesis tip).chain.transfers = [] := by
      simp [Proposer.start, BlockChain.transfers, hempty]
    have hshard : ∀ b ∈ (Proposer.start hashing shardID genesis tip).chain.blocks,
        b.1.header.shardID = shardID := by simpa [Proposer.start] using hid
    have hinit : (Proposer.start hashing shardID genesis tip).node =
        Follower.blank shardID (poolBlock hashing (genesis, tip)) [] := by
      simp [Proposer.start, Follower.init, poolBlock, hempty]
    exact
      { reach := .refl
        origin := origin_init plan shardID _ [] hempty
        node := by rw [hinit]; rfl
        shard := hshard
        chain := by
          rintro tx ⟨b, hb, htx⟩
          rw [hinit] at hb
          cases mem_singleton.1 hb
          rw [poolBlock, hempty] at htx
          cases htx
        distinct := by rw [htransfers]; exact .nil
        read := by rw [htransfers]; simp [Proposer.start]
        belongs := by rw [htransfers]; simp [Proposer.start]
        frozen := by simp [Proposer.start]
        once := by
          rw [BlockChain.applied_eq hshard, htransfers]
          exact ⟨.nil, by simp⟩ }
  exact (h.invariant hstart fun _ _ _ hs hok hstep => hs.step hok hstep).once

/-! ## Two migrations -/

instance (plan : Plan) (s : Proposer H) (a : ProposerAction H) : Decidable (fromPool plan s a) := by
  cases a <;> unfold fromPool <;> infer_instance

namespace TwoMigrations

/-- Index 0 moves account `0xaa` from shard 1 to shard 2, index 1 account `0xbb`. -/
def plan : Plan := fun i => (1, 2, if i = 0 then 0xaa else 0xbb)

/-- The freezes of the two. -/
def freezes : List StateTransferTransaction :=
  [ProposeRequest.transaction ⟨1, 2, 0, [0xaa]⟩,
    ProposeRequest.transaction ⟨1, 2, 1, [0xbb]⟩]

/-- The commit of the first, with a balance of 5. -/
def request : CommitRequest :=
  ⟨1, 2, [0xaa], 0, some ⟨0xaa, some 5, 0, [], 0⟩⟩

/-- Shard 1, on which account `0xaa` has a balance of 5. -/
def start : Proposer Digest :=
  .start sampleHashing 1 (sampleBlock 1 0 [] [] 5) (holding 5)

/-- Both are proposed and frozen in block 1; the first is committed in block 2. -/
def run : List (ProposerAction Digest) := flatten
  [[.node (.startPropose 0 ⟨1, 2, 0, [0xaa]⟩), .node (.startPropose 1 ⟨1, 2, 1, [0xbb]⟩)],
    replicate 7 (.node (.handler 0)), replicate 7 (.node (.handler 1)), [.collect .freeze [0, 1]],
    [.insert (sampleBlock 1 1 freezes [] 5) true, .node .postChainEvents],
    replicate 6 (.node .loop), [.node (.receive 0)], replicate 3 (.node .loop),
    [.node (.receive 1)], replicate 2 (.node .loop), [.node (.startCommit 2 request)],
    replicate 3 (.node (.handler 2)), [.collect .commit [0]],
    [.insert (sampleBlock 1 2 [request.transaction] [] 5) true]]

end TwoMigrations

open TwoMigrations in
/-- The two freezes and the commit come from the pool, and are executed once. -/
theorem once_twoMigrations :
    ∃ s, exec (guarded (Proposer.step (balanceChain 1) sampleHashing) (fromPool plan)) start run =
        some s ∧
      s.chain.applied = freezes ++ [request.transaction] ∧ Once s.chain.applied := by
  have hrun : (exec (guarded (Proposer.step (balanceChain 1) sampleHashing) (fromPool plan))
      start run).map (·.chain.applied) = some (freezes ++ [request.transaction]) := by decide +kernel
  obtain ⟨s, hs, happlied⟩ := Option.map_eq_some_iff.1 hrun
  have hreach : Reach (Proposer.step (balanceChain 1) sampleHashing) (fromPool plan) start s :=
    reach_of_exec_guarded hs
  exact ⟨s, hs, happlied, once_of_fromPool hreach rfl rfl⟩

end DyShard.Core
