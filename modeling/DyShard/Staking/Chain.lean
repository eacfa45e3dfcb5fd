import DyShard.Staking.MetaData

/-!
# The chain of blocks

A block runs its staking messages on a fresh state, then it is finalised, and then it is sealed:
the state is committed and the metadata is updated.  What a step can do is said once.
-/

namespace DyShard.Staking

open Option

open State (DB)
open Numeric (Dec)

/-! ## Nodes -/

/-- A node.  `snapshots` are the wrappers at the ends of the stored blocks, `pending` the staking
messages of the block in progress; `final` tells that it is being finalised. -/
structure Node where
  db : DB ValidatorWrapper
  list : List Address
  index : Address → List DelegationIndex
  snapshots : Address → List ValidatorWrapper
  number : ℕ
  pending : List StakeMsg
  final : Bool

namespace Node

/-- `ReadDelegationsByDelegator`: entries beyond the current block are left out. -/
def readDelegationsByDelegator (n : Node) (delegator : Address) : List DelegationIndex :=
  (n.index delegator).filter fun e => e.blockNum ≤ n.number

/-- The chain that a message is verified against: the metadata is the node's. -/
def chain (n : Node) (bc : ChainContext) : ChainContext :=
  { bc with
    readValidatorList := .ok n.list
    readDelegationsByDelegator := fun d => .ok (n.readDelegationsByDelegator d) }

end Node

/-- A staking transaction with its surroundings.  The state is finalised after the transaction. -/
structure StakingTx where
  bc : ChainContext
  config : Core.ChainConfig
  decodeMsg : Core.TransactionType → List UInt8 → Except Core.Err StakeMsg
  ctx : Core.EVMContext
  msg : Core.Message
  gasPool : UInt64
  deleteEmptyObjects : Bool

/-- The message in a transaction. -/
def StakingTx.stakeMsg (tx : StakingTx) : Except Core.Err StakeMsg :=
  tx.decodeMsg (tx.msg.type.getD .invalidTx) tx.msg.data

/-- Staking transactions; the end of another transaction; balances that it or a receipt changes;
and, when staking is over, freezes and thaws, and the parts of `Finalize1`. -/
inductive Act where
  | stake (tx : StakingTx)
  | settle (deleteEmptyObjects : Bool)
  | addBalance (a : Address) (amount : ℤ)
  | finalize
  | setFreezeState (a : Address) (isFreeze : Bool)
  | selectCommittee (config : Core.ChainConfig) (engine : Core.Engine ValidatorWrapper)
      (header : Core.Preamble)
  | sign (v : Address) (didSign : Bool)
  | reward (v : Address) (snapshot : ValidatorWrapper) (amount : ℕ)
  | slash (offender reporter : Address) (snapshot : ValidatorWrapper) (rate : Dec) (epoch : ℤ)
  | finish (deleteEmptyObjects : Bool)

namespace Node

variable (rlp : WrapperRlp)

/-- A part of `Finalize1`; an error rejects the block. -/
def finalizing (n : Node) (p : State.Client ValidatorWrapper (Option Core.Err)) : Option Node :=
  if n.final then
    (DB.run rlp.codec p n.db).bind fun r =>
      match r.1 with
      | none => some { n with db := r.2 }
      | some _ => none
  else none

/-- A successful staking transaction; an error rejects the block. -/
def stake (n : Node) (tx : StakingTx) : Option Node :=
  if n.final then none
  else
    (DB.run rlp.codec (Core.stakingTransitionDb tx.config
      (staking rlp (n.chain tx.bc) tx.decodeMsg) tx.ctx tx.msg tx.gasPool) n.db).bind fun r =>
    match r.1.result, tx.stakeMsg with
    | .ok _, .ok msg => some { n with
        db := r.2.finalise rlp.codec tx.deleteEmptyObjects
        pending := n.pending ++ [msg] }
    | _, _ => none

/-- `AddReward`, with the shares of the snapshot. -/
def reward (n : Node) (v : Address) (snapshot : ValidatorWrapper) (amount : ℕ) : Option Node :=
  if n.final ∧ snapshot ∈ n.snapshots v then do
    let shares ← lookupDelegatorShares snapshot
    let (db, ok) ← n.db.addReward rlp.codec rewardFields snapshot amount shares
    if ok then some { n with db := db } else none
  else none

/-- The block is sealed: the state is committed and the metadata updated from it. -/
def finish (n : Node) (deleteEmptyObjects : Bool) : Option Node :=
  if n.final then
    (prepareStakingMetaData rlp n.db (n.number + 1) n.readDelegationsByDelegator n.pending).map
      fun m =>
        let list := n.list ++ m.newValidators.filter fun v => decide (v ∉ n.list)
        { db := DB.new (n.db.commit rlp.codec deleteEmptyObjects).trie
          list := list
          index := fun d => (m.newDelegations d).getD (n.index d)
          snapshots := fun v =>
            if v ∈ list then (current rlp n.db v).toList ++ n.snapshots v else n.snapshots v
          number := n.number + 1
          pending := []
          final := false }
  else none

/-- One step of a node. -/
def step (n : Node) : Act → Option Node
  | .stake tx => n.stake rlp tx
  | .settle d => some { n with db := n.db.finalise rlp.codec d }
  | .addBalance a amount => some { n with db := n.db.addBalance a amount }
  | .finalize => some { n with final := true }
  | .setFreezeState a isFreeze =>
    if n.final then some { n with db := n.db.setFreezeState a isFreeze } else none
  | .selectCommittee config engine header =>
    n.finalizing rlp (Core.selectCommittee config (engineOf engine) header)
  | .sign v didSign => n.finalizing rlp (incrementValidatorSigningCounts v didSign)
  | .reward v snapshot amount => n.reward rlp v snapshot amount
  | .slash offender reporter snapshot rate epoch =>
    if snapshot ∈ n.snapshots offender then
      n.finalizing rlp (applySlash offender reporter snapshot rate epoch)
    else none
  | .finish d => n.finish rlp d

end Node

/-- A node before its first validator. -/
structure Genesis (rlp : WrapperRlp) (n : Node) : Prop where
  sound : n.db.Sound
  backed : n.db.Backed
  suicided : ∀ a, (n.db.face a).suicided = false
  thawed : n.db.Thawed
  coherent : DB.Coherent rlp.codec n.db
  unflagged : ∀ v, ¬ Flagged n.db v
  list : n.list = []
  index : ∀ d, n.index d = []
  snapshots : ∀ v, n.snapshots v = []
  pending : n.pending = []
  final : n.final = false

/-! ## What a step can do -/

variable {rlp : WrapperRlp} {n n' : Node}

/-- The kinds of steps. -/
inductive Stepped (rlp : WrapperRlp) (n : Node) : Node → Prop
  | message {msg : StakeMsg} {tx : StakingTx} {db₁ db₂ : DB ValidatorWrapper} {refund : ℤ}
      (staking : n.final = false) (decoded : tx.stakeMsg = .ok msg)
      (applied : Applied rlp (n.chain tx.bc) tx.ctx.epochNumber msg (Core.bought tx.msg n.db) db₁)
      (refunded : db₂ = db₁.addBalance tx.msg.sender refund) (sound : n.db.Sound → db₂.Sound) :
      Stepped rlp n { n with
        db := db₂.finalise rlp.codec tx.deleteEmptyObjects, pending := n.pending ++ [msg] }
  | settled (d : Bool) : Stepped rlp n { n with db := n.db.finalise rlp.codec d }
  | balance {db' : DB ValidatorWrapper} (same : DB.SameStaking rlp.codec n.db db')
      (sound : n.db.Sound → db'.Sound) : Stepped rlp n { n with db := db' }
  | finalized : Stepped rlp n { n with final := true }
  | revised {db' : DB ValidatorWrapper} (final : n.final = true)
      (revised : Revised rlp n.db db') (sound : n.db.Sound → db'.Sound) :
      Stepped rlp n { n with db := db' }
  | sealed {m : MetaData} {list : List Address} (d : Bool) (final : n.final = true)
      (prepared : prepareStakingMetaData rlp n.db (n.number + 1) n.readDelegationsByDelegator
        n.pending = some m)
      (listed : list = n.list ++ m.newValidators.filter fun v => decide (v ∉ n.list)) :
      Stepped rlp n {
        db := DB.new (n.db.commit rlp.codec d).trie
        list := list
        index := fun d => (m.newDelegations d).getD (n.index d)
        snapshots := fun v =>
          if v ∈ list then (current rlp n.db v).toList ++ n.snapshots v else n.snapshots v
        number := n.number + 1
        pending := []
        final := false }

theorem stepped_of_finalizing {p : State.Client ValidatorWrapper (Option Core.Err)}
    (hp : Revising rlp p) (h : n.finalizing rlp p = some n') : Stepped rlp n n' := by
  unfold Node.finalizing at h
  split_ifs at h with hfinal
  obtain ⟨⟨err, db'⟩, hrun, h⟩ := bind_eq_some_iff.1 h
  cases err with
  | some e => cases h
  | none =>
    cases h
    exact .revised hfinal (hp _ _ _ hrun) fun hsound => (DB.run_framed p hsound hrun).1

theorem stepped_of_stake {tx : StakingTx} (hthawed : n.final = false → n.db.Thawed)
    (h : n.stake rlp tx = some n') : Stepped rlp n n' := by
  unfold Node.stake at h
  split_ifs at h with hfinal
  have hstaking : n.final = false := Bool.eq_false_iff.2 hfinal
  obtain ⟨⟨spent, db₂⟩, hrun, h⟩ := bind_eq_some_iff.1 h
  split at h
  case h_2 => cases h
  case h_1 used msg hok hmsg =>
    cases h
    obtain ⟨stkMsg, db₁, left, hdecoded, -, happlied, -, -, hrefund⟩ :=
      transition_of_run (hthawed hstaking) hrun hok
    cases hmsg.symm.trans hdecoded
    exact .message hstaking hmsg happlied hrefund fun hsound => (DB.run_framed _ hsound hrun).1

theorem stepped_of_reward {v : Address} {snapshot : ValidatorWrapper} {amount : ℕ}
    (hsnapshots : ∀ v, ∀ w ∈ n.snapshots v, Regular v w)
    (h : n.reward rlp v snapshot amount = some n') : Stepped rlp n n' := by
  unfold Node.reward at h
  split_ifs at h with hguard
  obtain ⟨shares, hshares, h⟩ := bind_eq_some_iff.1 h
  obtain ⟨⟨db', ok⟩, hreward, h⟩ := bind_eq_some_iff.1 h
  dsimp only at h
  split_ifs at h with hok
  cases h
  have hregular : Regular v snapshot := hsnapshots v snapshot hguard.2
  have hset : DB.set rlp.codec rewardFields (.addReward snapshot amount shares) n.db =
      some (ok, db') := by
    change (n.db.addReward rlp.codec rewardFields snapshot amount shares).map
      (fun r => (r.2, r.1)) = _
    rw [hreward]
    rfl
  exact .revised hguard.1
    (revised_addReward hregular (Int.natCast_nonneg amount) hshares hreward)
    fun hsound => DB.set_sound hsound hset

theorem stepped_of_step {a : Act} (hthawed : n.final = false → n.db.Thawed)
    (hsnapshots : ∀ v, ∀ w ∈ n.snapshots v, Regular v w) (h : n.step rlp a = some n') :
    Stepped rlp n n' := by
  cases a with
  | stake tx => exact stepped_of_stake hthawed h
  | settle d =>
    cases h
    exact .settled d
  | addBalance a amount =>
    cases h
    have hrun : DB.run rlp.codec (State.Client.addBalance a amount) n.db =
        some ((), n.db.addBalance a amount) := rfl
    exact .balance (DB.SameStaking.addBalance n.db a amount) fun hsound =>
      (DB.run_framed _ hsound hrun).1
  | finalize =>
    cases h
    exact .finalized
  | setFreezeState a isFreeze =>
    unfold Node.step at h
    split_ifs at h with hfinal
    cases h
    have hset : DB.set rlp.codec rewardFields (.setFreezeState a isFreeze) n.db =
        some ((), n.db.setFreezeState a isFreeze) := rfl
    exact .revised hfinal (revised_setFreezeState n.db a isFreeze) fun hsound =>
      DB.set_sound hsound hset
  | selectCommittee config engine header =>
    exact stepped_of_finalizing (revising_selectCommittee rlp config engine header) h
  | sign v didSign =>
    exact stepped_of_finalizing (revising_incrementValidatorSigningCounts rlp v didSign) h
  | reward v snapshot amount => exact stepped_of_reward hsnapshots h
  | slash offender reporter snapshot rate epoch =>
    unfold Node.step at h
    dsimp only at h
    split_ifs at h with hsnapshot
    exact stepped_of_finalizing
      (revising_applySlash rlp offender reporter (hsnapshots offender snapshot hsnapshot) rate epoch) h
  | finish d =>
    change n.finish rlp d = some n' at h
    unfold Node.finish at h
    split_ifs at h with hfinal
    obtain ⟨m, hm, rfl⟩ := map_eq_some_iff.1 h
    exact .sealed d hfinal hm rfl

namespace Sample

/-- The transaction of a creation. -/
def tx (validator : Address) : StakingTx where
  bc := chain
  config := config
  decodeMsg := decodeMsg validator
  ctx := ctx validator
  msg := msg validator
  gasPool := 10 ^ 8
  deleteEmptyObjects := true

/-- A node with two rich accounts and without validators. -/
def node : Node where
  db := genesis
  list := []
  index _ := []
  snapshots _ := []
  number := 0
  pending := []
  final := false

/-- A block that creates validators. -/
def block (validators : List Address) : List Act :=
  validators.map (fun v => .stake (tx v)) ++ [.finalize, .finish true]

theorem genesis_node : Genesis table node where
  sound := DB.sound_new _
  backed := DB.backed_new _
  suicided a := by
    unfold DB.face DB.getStateObject DB.getDeletedStateObject node genesis
    by_cases ha : a = 0xaa ∨ a = 0xbb
    · simp only [if_pos ha]
      rfl
    · simp only [if_neg ha]
      rfl
  thawed := thawed_genesis
  coherent a val h := by cases h
  unflagged v hflag := hflag (getState_genesis v _)
  list := rfl
  index _ := rfl
  snapshots _ := rfl
  pending := rfl
  final := rfl

end Sample

end DyShard.Staking
