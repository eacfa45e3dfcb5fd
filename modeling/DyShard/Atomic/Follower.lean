import DyShard.Atomic.Transaction
import DyShard.Lib.Transition

/-!
# The follower: `ProposeHandler`, `CommitHandler` and the commit pool

A node runs a handler for every request, `reset` for every chain head, and inserts blocks; the
three run concurrently and meet in the pool.

* `reset` holds the pool's lock, also while it blocks in `SetSignal`; what registers in the pool
  takes the lock too, and each read without it is a step of its own.
* A `select` evaluates its channel once, on entry: a handler without a channel waits on nil.
* A send on an unbuffered channel completes together with a receive.
* The timer of a `select` may fire whenever the handler waits.

Left out: the logging, the hooks, which answer true, and Go's abort on a data race.
-/

namespace DyShard.Atomic.Follower

open Function

/-! ## Messages -/

/-- `FollowerType` of the replies. -/
inductive FollowerType where
  | source
  | target
  deriving DecidableEq

/-- `AckType` of the replies. -/
inductive AckType where
  | ack
  | nack
  deriving DecidableEq

/-- `ProposeRequest`; the payload is the address of the account. -/
structure ProposeRequest where
  source : ShardID
  target : ShardID
  index : UInt64
  msgPayload : List UInt8
  deriving DecidableEq

/-- `CommitRequest`.  The payload is given as it decodes, `none` if it does not. -/
structure CommitRequest where
  source : ShardID
  target : ShardID
  address : List UInt8
  index : UInt64
  msgPayload : Option StateData
  deriving DecidableEq

/-- `ProposeResponse`; `none` is the empty payload. -/
structure ProposeResponse where
  acktype : AckType
  index : UInt64
  ftype : FollowerType
  address : List UInt8
  msgPayload : Option StateData
  deriving DecidableEq

/-- `Response`, the answer to a commit request. -/
structure Response where
  acktype : AckType
  index : UInt64
  ftype : FollowerType
  deriving DecidableEq

/-- What the pool reads of a block: header, state transfers, and balances and nonces of its state.
-/
structure Block where
  number : UInt64
  hash : Word
  parentHash : Word
  stateTransferTransactions : List StateTransferTransaction
  balance : Address → ℤ
  nonce : Address → UInt64

/-! ## Program counters -/

/-- A channel of `Signal`. -/
inductive Chan where
  | absent
  | opened
  | closed
  deriving DecidableEq

/-- Where a `ProposeHandler` stands.  `ftype` is the follower type of the reply it has
prepared. -/
inductive ProposePc where
  | setSource
  | setTarget
  | checkCached
  | addFreeze
  | prepare
  | branch (ftype : FollowerType)
  | enter (side ftype : FollowerType)
  | wait (side ftype : FollowerType) (chan : Bool)
  | readBalance
  | readNonce (balance : ℤ)
  | reply (balance : ℤ) (nonce : UInt64)
  | closing
  | refuse
  deriving DecidableEq

/-- Where a `CommitHandler` stands. -/
inductive CommitPc where
  | checkCached
  | dropCached
  | checkCommitted
  | addCommitted
  | deleteCached
  | prepare
  | enter (ftype : FollowerType)
  | wait (ftype : FollowerType) (chan : Bool)
  | closing (ftype : FollowerType) (timedOut : Bool)
  | replyLate
  deriving DecidableEq

/-- A handler goroutine, from before its request to after its answer. -/
inductive Handler where
  | idle
  | propose (req : ProposeRequest) (pc : ProposePc)
  | commit (req : CommitRequest) (pc : CommitPc)
  | proposed (res : ProposeResponse)
  | committed (res : Response)
  | failed (index : UInt64)
  deriving DecidableEq

/-- Where `loop` stands: between two events, at the lock, or inside `reset`.  The first of the
transactions still to look at is the one in progress. -/
inductive LoopPc where
  | idle
  | lock (ev : Block)
  | opening (ev : Block)
  | current (ev : Block)
  | next (ev : Block) (rest : List StateTransferTransaction)
  | checkFreeze (ev : Block) (tx : StateTransferTransaction)
      (rest : List StateTransferTransaction)
  | send (ev : Block) (tx : StateTransferTransaction) (rest : List StateTransferTransaction)
      (chan : Bool)
  | forget (ev : Block) (tx : StateTransferTransaction)
      (rest : List StateTransferTransaction)
  | record (ev : Block) (tx : StateTransferTransaction)
      (rest : List StateTransferTransaction)

/-- `reset` runs under the pool's lock. -/
def LoopPc.locked : LoopPc → Bool
  | .idle | .lock _ => false
  | _ => true

/-! ## The node -/

/-- The capacity of the channel of chain-head events. -/
def chainHeadChanSize : ℕ := 100

/-- The deepest difference of heights that `reset` takes for a fork and skips. -/
def maxReorgDepth : ℕ := 64

/-- A node.  `chain` has the current block first, `unposted` the blocks whose event is still to be
posted.  `visited` are the indices that the `CloseAllSignal` of a stopping server has been to,
`none` before.  The last four fields record what `reset` has started on and finished with. -/
structure Node where
  shardID : ShardID
  chain : List Block
  unposted : List Block
  events : List Block
  head : Block
  loop : LoopPc
  pendingBalance : Address → ℤ
  pendingNonce : Address → UInt64
  freezeCache : UInt64 → Option StateTransferTransaction
  cached : UInt64 → Option StateTransferTransaction
  committed : UInt64 → Option StateTransferTransaction
  signal : UInt64 → Chan
  visited : Option (List UInt64)
  committedTxList : UInt64 → Bool
  freezeReadTxList : UInt64 → Bool
  committedReadTxList : UInt64 → Bool
  followerType : FollowerType
  handlers : ℕ → Handler
  crashed : Bool
  freezeSeen : UInt64 → Bool
  freezeDone : UInt64 → Bool
  commitSeen : UInt64 → Bool
  commitDone : UInt64 → Bool

/-- What can happen at a node. -/
inductive Action where
  /-- The chain inserts a block, the last of its `InsertChain` call or not. -/
  | insertBlock (b : Block) (last : Bool)
  /-- A finished `InsertChain` posts its chain-head event. -/
  | postChainEvents
  /-- `loop` takes its next step.  `opens` says whether the states under the roots of the
  event's block can be opened, where the step asks for them. -/
  | loop (opens : Bool := true)
  | startPropose (h : ℕ) (req : ProposeRequest)
  | startCommit (h : ℕ) (req : CommitRequest)
  /-- A handler that does not wait takes its next step. -/
  | handler (h : ℕ)
  /-- A waiting handler receives on its channel. -/
  | receive (h : ℕ)
  /-- The timer of a waiting handler fires. -/
  | timeout (h : ℕ)
  /-- The proposer collects the freeze transactions of the next block. -/
  | readFreezeCache
  /-- The proposer collects the commit transactions of the next block. -/
  | readCommitted
  /-- The server stops: `CloseAllSignal` begins. -/
  | stop
  /-- `CloseAllSignal`, which does not take the lock, closes a channel of the map that it
  has not been to: the iteration is over the live map and in no particular order. -/
  | closeNext (index : UInt64)

namespace Node

variable (s : Node)

/-- `InitSignal`, unless there is a channel already. -/
def initSignal (index : UInt64) : Node :=
  { s with
    signal := if s.signal index = .absent then update s.signal index .opened else s.signal }

/-- `AddFreezeTransaction`. -/
def addFreezeTransaction (index : UInt64) (source target : ShardID) (address : Address) : Node :=
  let newTx : StateTransferTransaction :=
    { sourceShardID := source, targetShardID := target, sourceHeight := 0, address,
      balance := some 0, nonce := 0, data := [], toFreeze := true, index }
  { s with freezeCache := update s.freezeCache index (some newTx) }.initSignal index

/-- `AddCachedTransaction`. -/
def addCachedTransaction (tx : StateTransferTransaction) : Node :=
  { s with
    cached :=
      if (s.cached tx.index).isSome then s.cached
      else update s.cached tx.index (some (tx.copy.setToFreeze false)) }

/-- `AddCommittedTransaction`. -/
def addCommittedTransaction (source target : ShardID) (addr : Address) (index : UInt64)
    (d : StateData) : Node :=
  let newTx : StateTransferTransaction :=
    { sourceShardID := source, targetShardID := target, sourceHeight := d.blockHeight,
      address := addr, balance := d.balance, nonce := d.nonce, data := d.data,
      toFreeze := false, index }
  { s with
    committed :=
      if (s.committed index).isSome then s.committed
      else update s.committed index (some newTx) }

/-- `DeleteTxFromFreeze`. -/
def deleteTxFromFreeze (index : UInt64) : Node :=
  { s with freezeCache := update s.freezeCache index none }

/-- `DeleteTxFromCached`. -/
def deleteTxFromCached (index : UInt64) : Node :=
  { s with cached := update s.cached index none }

/-- `DeleteTxFromCommitted`. -/
def deleteTxFromCommitted (index : UInt64) : Node :=
  { s with committed := update s.committed index none }

/-- `RecordCommittedTx`. -/
def recordCommittedTx (index : UInt64) : Node :=
  { s with committedTxList := update s.committedTxList index true }

/-- The close of a channel inside `CloseSignal`. -/
def closeSignal (index : UInt64) : Node :=
  if s.signal index = .opened then
    { s with signal := update s.signal index .closed }
  else { s with crashed := true }

/-- The handler moves on. -/
def setHandler (h : ℕ) (p : Handler) : Node :=
  { s with handlers := update s.handlers h p }

end Node

/-! ## The pool's loop -/

/-- The signal for a transaction of the chain: 1 for a freeze, 2 for a commit. -/
def signalOf (tx : StateTransferTransaction) : ℕ := if tx.toFreeze then 1 else 2

/-- `reset` takes the new head for a fork of the old one and returns at once. -/
def skipsReset (oldHead newHead : Block) : Bool :=
  oldHead.hash != newHead.parentHash &&
    Nat.dist oldHead.number.toNat newHead.number.toNat ≤ maxReorgDepth

variable (s : Node)

/-- `chain.CurrentBlock().StateTransferTransactions()`. -/
def Node.currentTransactions : List StateTransferTransaction :=
  (s.chain.head?.map Block.stateTransferTransactions).getD []

/-- One step of `loop`, those of `reset` included. -/
def stepLoop (opens : Bool) : Option Node :=
  match s.loop with
  | .idle =>
    match s.events with
    | [] => none
    | ev :: events => some { s with events, loop := .lock ev }
  | .lock ev =>
    if skipsReset s.head ev then some { s with head := ev, loop := .idle }
    else some { s with loop := .opening ev }
  | .opening ev =>
    -- `reset` returns on an error of `LoadMapStateAt` or `StateAt`, and leaves the old state
    if opens then
      some { s with
        pendingBalance := ev.balance, pendingNonce := ev.nonce, loop := .current ev }
    else some { s with head := ev, loop := .idle }
  | .current ev =>
    -- the state is that of the event's block, the transactions are the current block's
    some { s with loop := .next ev s.currentTransactions }
  | .next ev [] => some { s with head := ev, loop := .idle }
  | .next ev (tx :: rest) =>
    if tx.toFreeze then
      some { s.addCachedTransaction tx with
        freezeReadTxList := update s.freezeReadTxList tx.index true
        freezeSeen := update s.freezeSeen tx.index true
        loop := .checkFreeze ev tx rest }
    else
      some { s with
        committedReadTxList := update s.committedReadTxList tx.index true
        commitSeen := update s.commitSeen tx.index true
        loop :=
          if (s.committed tx.index).isSome then
            .send ev tx rest (s.signal tx.index != .absent)
          else .forget ev tx rest }
  | .checkFreeze ev tx rest =>
    if (s.freezeCache tx.index).isSome then
      some { s.initSignal tx.index with loop := .send ev tx rest true }
    else
      some { s with
        freezeDone := update s.freezeDone tx.index true
        loop := .next ev rest }
  | .send _ tx _ chan =>
    -- a send completes with a receive; on its own it can only panic
    if chan && s.signal tx.index == .closed then some { s with crashed := true } else none
  | .forget ev tx rest =>
    if tx.toFreeze then
      some { s.deleteTxFromFreeze tx.index with
        freezeDone := update s.freezeDone tx.index true
        loop := .next ev rest }
    else some { s.deleteTxFromCommitted tx.index with loop := .record ev tx rest }
  | .record ev tx rest =>
    some { s.recordCommittedTx tx.index with
      commitDone := update s.commitDone tx.index true
      loop := .next ev rest }

/-- A receive on the channel of an index: what it yields and the state after it. -/
def recv (index : UInt64) : Option (ℕ × Node) :=
  match s.signal index with
  | .absent => none
  | .closed => some (0, s)
  | .opened =>
    match s.loop with
    | .send ev tx rest true =>
      if tx.index = index then some (signalOf tx, { s with loop := .forget ev tx rest })
      else none
    | _ => none

/-! ## The handlers -/

/-- The next step of a `ProposeHandler` that does not wait. -/
def stepPropose (h : ℕ) (req : ProposeRequest) : ProposePc → Option Node
  | .setSource => some ({ s with followerType := .source }.setHandler h (.propose req .setTarget))
  | .setTarget =>
    let followerType := if req.target = s.shardID then .target else s.followerType
    some ({ s with followerType }.setHandler h (.propose req .checkCached))
  | .checkCached =>
    let pc := if (s.cached req.index).isSome then .prepare else .addFreeze
    some (s.setHandler h (.propose req pc))
  | .addFreeze =>
    if s.loop.locked then none
    else
      some ((s.addFreezeTransaction req.index req.source req.target
        (bytesToAddress req.msgPayload)).setHandler h (.propose req .prepare))
  | .prepare => some (s.setHandler h (.propose req (.branch s.followerType)))
  | .branch ftype => some (s.setHandler h (.propose req (.enter s.followerType ftype)))
  | .enter side ftype =>
    some (s.setHandler h (.propose req (.wait side ftype (s.signal req.index != .absent))))
  | .wait _ _ _ => none
  | .readBalance =>
    let balance := s.pendingBalance (bytesToAddress req.msgPayload)
    some (s.setHandler h (.propose req (.readNonce balance)))
  | .readNonce balance =>
    let nonce := s.pendingNonce (bytesToAddress req.msgPayload)
    some (s.setHandler h (.propose req (.reply balance nonce)))
  | .reply balance nonce =>
    let stateData : StateData :=
      { address := bytesToAddress req.msgPayload, balance := some balance, nonce, data := [],
        blockHeight := 0 }
    some (s.setHandler h (.proposed
      { acktype := .ack, index := req.index, ftype := s.followerType,
        address := req.msgPayload, msgPayload := some stateData }))
  | .closing =>
    if s.loop.locked then none
    else some ((s.closeSignal req.index).setHandler h (.propose req .refuse))
  | .refuse =>
    some (s.setHandler h (.proposed
      { acktype := .nack, index := req.index, ftype := s.followerType,
        address := req.msgPayload, msgPayload := none }))

/-- A signal for a waiting `ProposeHandler`.  Any value but 1 fails the source; the target waits on.
-/
def proposeSignal (req : ProposeRequest) (side ftype : FollowerType) (sig : ℕ) : Handler :=
  match side with
  | .source => .propose req (if sig = 1 then .readBalance else .closing)
  | .target =>
    if sig = 1 then
      .proposed { acktype := .ack, index := req.index, ftype, address := req.msgPayload,
                  msgPayload := none }
    else .propose req (.enter side ftype)

/-- The next step of a `CommitHandler` that does not wait; the first ones are
`HandleCommitMsg`. -/
def stepCommit (h : ℕ) (req : CommitRequest) : CommitPc → Option Node
  | .checkCached =>
    let pc := if (s.cached req.index).isSome then .checkCommitted else .dropCached
    some (s.setHandler h (.commit req pc))
  | .dropCached => some ((s.deleteTxFromCached req.index).setHandler h (.failed req.index))
  | .checkCommitted =>
    let pc := if s.committedTxList req.index then .deleteCached else .addCommitted
    some (s.setHandler h (.commit req pc))
  | .addCommitted =>
    if s.loop.locked then none
    else
      some ((s.addCommittedTransaction req.source req.target (bytesToAddress req.address)
        req.index (req.msgPayload.getD .zero)).setHandler h (.commit req .deleteCached))
  | .deleteCached => some ((s.deleteTxFromCached req.index).setHandler h (.commit req .prepare))
  | .prepare => some (s.setHandler h (.commit req (.enter s.followerType)))
  | .enter ftype =>
    some (s.setHandler h (.commit req (.wait ftype (s.signal req.index != .absent))))
  | .wait _ _ => none
  | .closing ftype timedOut =>
    if s.loop.locked then none
    else
      let next :=
        if timedOut then .commit req .replyLate
        else .committed { acktype := .ack, index := req.index, ftype }
      some ((s.closeSignal req.index).setHandler h next)
  | .replyLate =>
    -- the branch of the timer logs a failure and answers ACK all the same
    some (s.setHandler h
      (.committed { acktype := .ack, index := req.index, ftype := s.followerType }))

/-- What a waiting `CommitHandler` does with a signal. -/
def commitSignal (req : CommitRequest) (ftype : FollowerType) (sig : ℕ) : Handler :=
  .commit req (if sig = 2 then .closing ftype false else .enter ftype)

/-- A waiting handler receives. -/
def receive (h : ℕ) : Option Node :=
  match s.handlers h with
  | .propose req (.wait side ftype true) =>
    (recv s req.index).map fun r => r.2.setHandler h (proposeSignal req side ftype r.1)
  | .commit req (.wait ftype true) =>
    (recv s req.index).map fun r => r.2.setHandler h (commitSignal req ftype r.1)
  | _ => none

/-- The timer of a waiting handler fires. -/
def timeout (h : ℕ) : Option Node :=
  match s.handlers h with
  | .propose req (.wait _ _ _) => some (s.setHandler h (.propose req .closing))
  | .commit req (.wait ftype _) => some (s.setHandler h (.commit req (.closing ftype true)))
  | _ => none

/-! ## The node as a state machine -/

/-- The block extends the current one. -/
def isChild (b : Block) : Bool :=
  match s.chain with
  | [] => false
  | current :: _ => b.parentHash == current.hash && b.number == current.number + 1

/-- One step of a node that has not crashed. -/
def stepAction : Action → Option Node
  | .insertBlock b last =>
    if isChild s b then
      some { s with
        chain := b :: s.chain
        unposted := if last then s.unposted ++ [b] else s.unposted }
    else none
  | .postChainEvents =>
    match s.unposted with
    | b :: unposted =>
      if s.events.length < chainHeadChanSize then
        some { s with unposted, events := s.events ++ [b] }
      else none
    | [] => none
  | .loop opens => stepLoop s opens
  | .startPropose h req =>
    if s.handlers h = .idle then some (s.setHandler h (.propose req .setSource)) else none
  | .startCommit h req =>
    if s.handlers h = .idle then some (s.setHandler h (.commit req .checkCached)) else none
  | .handler h =>
    match s.handlers h with
    | .propose req pc => stepPropose s h req pc
    | .commit req pc => stepCommit s h req pc
    | _ => none
  | .receive h => receive s h
  | .timeout h => timeout s h
  | .readFreezeCache =>
    if s.loop.locked then none
    else
      some { s with
        freezeReadTxList := fun i => s.freezeReadTxList i || (s.freezeCache i).isSome }
  | .readCommitted =>
    if s.loop.locked then none
    else
      some { s with
        committedReadTxList := fun i => s.committedReadTxList i || (s.committed i).isSome }
  | .stop => if s.visited = none then some { s with visited := some [] } else none
  | .closeNext i =>
    match s.visited with
    | some visited =>
      if s.signal i ≠ .absent ∧ i ∉ visited then
        some ({ s with visited := some (i :: visited) }.closeSignal i)
      else none
    | none => none

/-- One step of a node.  A panic in one of its goroutines ends the process. -/
def step (a : Action) : Option Node := if s.crashed then none else stepAction s a

/-- `NewCommitPool` on a transaction of the block it starts on: nobody is signalled. -/
def Node.absorb (tx : StateTransferTransaction) : Node :=
  if tx.toFreeze then
    { s.addCachedTransaction tx with
      freezeReadTxList := update s.freezeReadTxList tx.index true
      freezeSeen := update s.freezeSeen tx.index true
      freezeDone := update s.freezeDone tx.index true }
  else
    { s.recordCommittedTx tx.index with
      committedReadTxList := update s.committedReadTxList tx.index true
      commitSeen := update s.commitSeen tx.index true
      commitDone := update s.commitDone tx.index true }

/-- The node before `NewCommitPool` looks at its current block `b`. -/
def blank (shardID : ShardID) (b : Block) (older : List Block) : Node where
  shardID
  chain := b :: older
  unposted := []
  events := []
  head := b
  loop := .idle
  pendingBalance := b.balance
  pendingNonce := b.nonce
  freezeCache _ := none
  cached _ := none
  committed _ := none
  signal _ := .absent
  visited := none
  committedTxList _ := false
  freezeReadTxList _ := false
  committedReadTxList _ := false
  followerType := .source
  handlers _ := .idle
  crashed := false
  freezeSeen _ := false
  freezeDone _ := false
  commitSeen _ := false
  commitDone _ := false

/-- The node when its server starts, on the chain with the current block `b`. -/
def init (shardID : ShardID) (b : Block) (older : List Block) : Node :=
  b.stateTransferTransactions.foldl Node.absorb (blank shardID b older)

end DyShard.Atomic.Follower
