import DyShard.Core.StateTransition
import DyShard.Lib.Loop
import DyShard.Lib.Outcome
import DyShard.Pool.TxList
import Mathlib.Data.List.AList

/-!
# The transaction pool

`core/tx_pool.go`.  The pool holds every transaction twice: under its hash in a lookup, and in one
of two lists of its account, *pending* or *queued*.  The state is what the pool reads of it, the
price index any type with the operations of `txPricedList`, and a Go map is ranged over in any
order.

Left out: the journal of local transactions, the error sink, the counters and the feeds.
-/

namespace DyShard.Pool

open DyShard.Core (ChainConfig intrinsicGas)

/-! ## What the pool is given -/

/-- `TxPoolConfig`, after `sanitize`. -/
structure TxPoolConfig where
  noLocals : Bool
  priceBump : ℕ
  accountSlots : ℕ
  globalSlots : ℕ
  accountQueue : ℕ
  globalQueue : ℕ
  lifetime : ℕ
  blacklist : List Address

/-- `state.DB`, as the pool reads it. -/
structure View where
  getNonce : Address → UInt64
  getBalance : Address → ℤ
  getFreezeState : Address → Bool

/-- `state.ManagedState`: a state with nonces that the pool sets. -/
structure ManagedState where
  db : View
  accounts : AList fun _ : Address => UInt64

namespace ManagedState

/-- `ManageState`. -/
def manageState (statedb : View) : ManagedState := ⟨statedb, ∅⟩

/-- `GetNonce`. -/
def getNonce (m : ManagedState) (addr : Address) : UInt64 :=
  (m.accounts.lookup addr).getD (m.db.getNonce addr)

/-- `SetNonce`. -/
def setNonce (m : ManagedState) (addr : Address) (nonce : UInt64) : ManagedState :=
  { m with accounts := m.accounts.insert addr nonce }

/-- The nonce goes down to that of a transaction that left the pending list. -/
def lower (m : ManagedState) (addr : Address) (nonce : UInt64) : ManagedState :=
  if nonce < m.getNonce addr then m.setNonce addr nonce else m

end ManagedState

/-- `block.Header`, as the pool reads it. -/
structure Header where
  hash : Word
  parentHash : Word
  number : UInt64
  root : Word
  gasLimit : UInt64
  epoch : ℕ

/-- `types.Block`, as the pool reads it. -/
structure Block where
  hash : Word
  parentHash : Word
  number : UInt64
  transactions : List PoolTransaction
  stakingTransactions : List PoolTransaction

/-- The transactions of a block in the order in which `reset` collects them. -/
def Block.body (b : Block) : List PoolTransaction := b.transactions ++ b.stakingTransactions

/-- The chain.  Blocks are stored under their number, and the genesis block has no parent. -/
structure Chain where
  shardID : ShardID
  getBlock : Word → UInt64 → Option Block
  stateAt : Word → Option View
  validateStakingTx : View → PoolTransaction → Option TxPoolError
  number_getBlock : ∀ {hash number b}, getBlock hash number = some b → b.number = number
  getBlock_wrap : ∀ hash, getBlock hash (0 - 1) = none

/-- An order in which Go ranges over the keys of a map. -/
structure MapOrder where
  order : List Address → List Address
  perm : ∀ keys, (order keys).Perm keys

/-- What an operation of the pool meets outside of it. -/
structure Outside where
  chain : Chain
  now : ℕ
  range : MapOrder

/-- `txLookup`, by hash. -/
abbrev TxLookup := AList fun _ : Word => PoolTransaction

/-- The lists of the accounts. -/
abbrev Lists := AList fun _ : Address => TxList

/-- The operations of `txPricedList`. -/
class PriceIndex (P : Type) where
  put : P → PoolTransaction → P
  removed : P → TxLookup → P
  cap : P → TxLookup → ℤ → List Address → List PoolTransaction × P
  underpriced : P → TxLookup → PoolTransaction → List Address → Bool × P
  discard : P → TxLookup → ℤ → List Address → List PoolTransaction × P

/-- `TxPool`. -/
structure TxPool (P : Type) where
  config : TxPoolConfig
  chainconfig : ChainConfig
  gasPrice : ℤ
  currentState : View
  pendingState : ManagedState
  currentMaxGas : UInt64
  locals : List Address
  pending : Lists
  queue : Lists
  beats : AList fun _ : Address => ℕ
  all : TxLookup
  priced : P
  homestead : Bool
  istanbul : Bool

namespace TxPool

variable {P : Type} [PriceIndex P]

/-! ## The indexes -/

variable (s : TxPool P)

/-- Write the list of an account with pending transactions. -/
def setPending (addr : Address) (list : TxList) : TxPool P :=
  { s with pending := s.pending.insert addr list }

/-- Write the list of an account with queued transactions. -/
def setQueue (addr : Address) (list : TxList) : TxPool P :=
  { s with queue := s.queue.insert addr list }

/-- `pool.all.Remove(tx.Hash())`, `pool.priced.Removed()`. -/
def dropTx (tx : PoolTransaction) : TxPool P :=
  { s with
    all := s.all.erase tx.hash
    priced := PriceIndex.removed s.priced (s.all.erase tx.hash) }

/-- The loop over transactions that are dropped. -/
def dropTxs (txs : List PoolTransaction) : TxPool P := txs.foldl dropTx s

/-- `pool.all.Add(tx)`, `pool.priced.Put(tx)`. -/
def indexTx (tx : PoolTransaction) : TxPool P :=
  { s with all := s.all.insert tx.hash tx, priced := PriceIndex.put s.priced tx }

/-- `pool.beats[addr] = time.Now()`. -/
def beat (o : Outside) (s : TxPool P) (addr : Address) : TxPool P :=
  { s with beats := s.beats.insert addr o.now }

/-- `pool.pendingState.SetNonce`. -/
def setNonce (s : TxPool P) (addr : Address) (nonce : UInt64) : TxPool P :=
  { s with pendingState := s.pendingState.setNonce addr nonce }

/-- The managed nonce goes down to that of a transaction that left the pending list. -/
def lowerNonce (addr : Address) (nonce : UInt64) : TxPool P :=
  { s with pendingState := s.pendingState.lower addr nonce }

/-! ## One transaction -/

/-- Drop the transaction that was replaced, if there is one. -/
def dropOld : Option PoolTransaction → TxPool P
  | some old => s.dropTx old
  | none => s

/-- Drop the transaction that was replaced, and index the new one unless it is known. -/
def reindex (old : Option PoolTransaction) (tx : PoolTransaction) : TxPool P :=
  if ((s.dropOld old).all.lookup tx.hash).isNone then (s.dropOld old).indexTx tx else s.dropOld old

/-- `enqueueTx`. -/
def enqueueTx (tx : PoolTransaction) : TxPool P × Except TxPoolError Bool :=
  let list := (s.queue.lookup tx.sender).getD (newTxList false)
  match list.add tx s.config.priceBump with
  | none => (s.setQueue tx.sender list, .error .replaceUnderpriced)
  | some (old, list) => ((s.setQueue tx.sender list).reindex old tx, .ok old.isSome)

/-- `promoteTx`. -/
def promoteTx (o : Outside) (s : TxPool P) (addr : Address) (tx : PoolTransaction) : TxPool P :=
  let list := (s.pending.lookup addr).getD (newTxList true)
  match list.add tx s.config.priceBump with
  | none => (s.setPending addr list).dropTx tx
  | some (old, list) =>
    (((s.setPending addr list).reindex old tx).beat o addr).setNonce addr (tx.nonce + 1)

/-- The end of `removeTx` for a queued transaction. -/
def removeQueued (tx : PoolTransaction) : TxPool P :=
  match s.queue.lookup tx.sender with
  | none => s
  | some future =>
    let future := match future.remove tx with
      | none => future
      | some (_, future) => future
    if future.isEmpty then { s with queue := s.queue.erase tx.sender }
    else s.setQueue tx.sender future

/-- The list of an account whose pending transactions became fewer; an empty one is deleted. -/
def shrinkPending (addr : Address) (list : TxList) : TxPool P :=
  if list.isEmpty then
    { s with pending := s.pending.erase addr, beats := s.beats.erase addr }
  else s.setPending addr list

/-- The loop that puts transactions back into the queue. -/
def postpone (invalids : List PoolTransaction) : TxPool P :=
  invalids.foldl (fun s tx => (s.enqueueTx tx).1) s

/-- The lookup and the price index without a transaction that `removeTx` deletes. -/
def forgetTx (tx : PoolTransaction) (outofbound : Bool) : TxPool P :=
  if outofbound then s.dropTx tx else { s with all := s.all.erase tx.hash }

/-- The rest of `removeTx`, for a transaction that the lookup no longer holds. -/
def unlistTx (tx : PoolTransaction) : TxPool P :=
  match (s.pending.lookup tx.sender).bind (·.remove tx) with
  | some (invalids, list) =>
    ((s.shrinkPending tx.sender list).postpone invalids).lowerNonce tx.sender tx.nonce
  | none => s.removeQueued tx

/-- `removeTx`. -/
def removeTx (hash : Word) (outofbound : Bool) : TxPool P :=
  match s.all.lookup hash with
  | none => s
  | some tx => (s.forgetTx tx outofbound).unlistTx tx

/-- The loop over transactions that are removed. -/
def removeTxs (txs : List PoolTransaction) (outofbound : Bool) : TxPool P :=
  txs.foldl (fun s tx => s.removeTx tx.hash outofbound) s

/-! ## Adding a transaction -/

/-- A check of `validateTx`. -/
def require (passed : Bool) (e : TxPoolError) : Outcome TxPoolError Unit :=
  if passed then .ok () else .error e

/-- `GetFreezeState(fromAddr) || GetFreezeState(*tx.To())`: the pointer is followed second. -/
def touchesFrozen (v : View) (tx : PoolTransaction) : Outcome TxPoolError Bool :=
  if v.getFreezeState tx.sender then .ok true
  else match tx.recipient with
    | none => .panic
    | some recipient => .ok (v.getFreezeState recipient)

/-- `types.MaxPoolTransactionDataSize`. -/
def maxPoolTransactionDataSize : ℕ := 1280 * 1024

/-- `validateTx`. -/
def validateTx (o : Outside) (s : TxPool P) (tx : PoolTransaction) (isLocal : Bool) :
    Outcome TxPoolError Unit := do
  require (tx.shardID == o.chain.shardID) (.invalidShard tx.shardID)
  let frozen ← touchesFrozen s.currentState tx
  require (!frozen) .addrHasFreezed
  require (tx.size < maxPoolTransactionDataSize) (.oversizedData tx.size)
  require (0 ≤ tx.value) (.negativeValue tx.value)
  require (tx.gasLimit ≤ s.currentMaxGas) (.gasLimit tx.gasLimit)
  let sender ← match tx.senderAddress with
    | .error _ => .error .invalidSender
    | .ok sender => .ok sender
  require (!s.config.blacklist.contains sender) (.blacklistFrom sender)
  match tx.recipient with
    | none => pure ()
    | some recipient => require (!s.config.blacklist.contains recipient) (.blacklistTo recipient)
  require (isLocal || s.locals.contains sender || decide (s.gasPrice ≤ tx.gasPrice))
    (.underpriced tx.gasPrice)
  require (s.currentState.getNonce sender ≤ tx.nonce) (.nonceTooLow tx.nonce)
  let cost ← Outcome.ofExcept tx.cost
  require (tx.stakingType == some .delegate || decide (cost ≤ s.currentState.getBalance sender))
    (.insufficientFunds o.chain.shardID)
  let creates := match tx.stakingType with
    | none => tx.recipient.isNone
    | some _ => false
  match intrinsicGas tx.data creates s.homestead s.istanbul
      (tx.stakingType == some .createValidator) with
    | none => .error .outOfGas
    | some intrGas => require (intrGas ≤ tx.gasLimit) (.intrinsicGas tx.gasLimit)
  match tx.stakingType with
    | none => pure ()
    | some _ => match o.chain.validateStakingTx s.currentState tx with
      | none => pure ()
      | some e => .error e

/-- `add` for a full pool: the new transaction is too cheap, or the cheapest are removed. -/
def makeRoom (tx : PoolTransaction) (isLocal : Bool) : TxPool P × Bool :=
  let count := s.all.keys.length
  let limit := s.config.globalSlots + s.config.globalQueue
  if limit ≤ count then
    let (cheap, priced) :=
      if isLocal then (false, s.priced) else PriceIndex.underpriced s.priced s.all tx s.locals
    if cheap then ({ s with priced }, false)
    else
      let (drop, priced) := PriceIndex.discard priced s.all (count - (limit - 1)) s.locals
      (({ s with priced } : TxPool P).removeTxs drop false, true)
  else (s, true)

/-- The part of `add` for a transaction that replaces a pending one. -/
def replacePending (o : Outside) (s : TxPool P) (tx : PoolTransaction) (list : TxList) :
    TxPool P × Except TxPoolError Bool :=
  match list.add tx s.config.priceBump with
  | none => (s, .error .replaceUnderpriced)
  | some (old, list) =>
    ((((s.setPending tx.sender list).dropOld old).indexTx tx).beat o tx.sender, .ok old.isSome)

/-- The part of `add` for a transaction that is queued. -/
def addQueued (o : Outside) (s : TxPool P) (tx : PoolTransaction) (isLocal : Bool) :
    TxPool P × Except TxPoolError Bool :=
  match s.enqueueTx tx with
  | (s, .error e) => (s, .error e)
  | (s, .ok replace) =>
    let locals := if isLocal && !s.locals.contains tx.sender then tx.sender :: s.locals else s.locals
    (({ s with locals } : TxPool P).beat o tx.sender, .ok replace)

/-- The end of `add`, once there is room. -/
def insertTx (o : Outside) (s : TxPool P) (tx : PoolTransaction) (isLocal : Bool) :
    TxPool P × Except TxPoolError Bool :=
  match (s.pending.lookup tx.sender).filter (·.overlaps tx) with
  | some list => s.replacePending o tx list
  | none => s.addQueued o tx isLocal

/-- `add`: whether a transaction was replaced. -/
def add (o : Outside) (s : TxPool P) (tx : PoolTransaction) (isLocal : Bool) :
    Option (TxPool P × Except TxPoolError Bool) :=
  if (s.all.lookup tx.hash).isSome then some (s, .error (.knownTransaction tx.hash))
  else match s.validateTx o tx isLocal with
    | .panic => none
    | .error e => some (s, .error e)
    | .ok () => match s.makeRoom tx isLocal with
      | (s, false) => some (s, .error (.underpriced tx.gasPrice))
      | (s, true) => some (s.insertTx o tx isLocal)

/-! ## Promotion -/

/-- Queued transactions of an account that are too old or too costly are dropped. -/
def pruneQueue (o : Outside) (s : TxPool P) (addr : Address) (list : TxList) :
    TxPool P × TxList :=
  let (olds, list) := list.forward (s.currentState.getNonce addr)
  let s := (s.setQueue addr list).dropTxs olds
  let (drops, _, list) := list.filterValid (s.currentState.getBalance addr) s.currentMaxGas
    (o.chain.validateStakingTx s.currentState) 0
  ((s.setQueue addr list).dropTxs drops, list)

/-- Queued transactions of an account that can be executed become pending. -/
def promoteReady (o : Outside) (s : TxPool P) (addr : Address) (list : TxList) :
    TxPool P × TxList :=
  let (ready, list) := list.ready (s.pendingState.getNonce addr)
  (ready.foldl (fun s tx => s.promoteTx o addr tx) (s.setQueue addr list), list)

/-- The queued transactions of an account over the limit; a local account has none. -/
def overLimit (addr : Address) (list : TxList) : Option (List PoolTransaction × TxList) :=
  if s.locals.contains addr then some ([], list) else list.cap s.config.accountQueue

/-- Queued transactions of an account over the limit are dropped, and an empty list is deleted. -/
def capAccount (addr : Address) (list : TxList) : Option (TxPool P) := do
  let (drops, list) ← s.overLimit addr list
  let s := (s.setQueue addr list).dropTxs drops
  if list.isEmpty then some { s with queue := s.queue.erase addr } else some s

/-- The turn of the first loop of `promoteExecutables`. -/
def promoteAccount (o : Outside) (s : TxPool P) (addr : Address) : Option (TxPool P) :=
  match s.queue.lookup addr with
  | none => some s
  | some list =>
    let (s, list) := s.pruneQueue o addr list
    let (s, list) := s.promoteReady o addr list
    s.capAccount addr list

/-- The number of transactions in lists. -/
def total (lists : Lists) : ℕ := (lists.entries.map fun e => e.2.len).sum

/-- The length of the list of an account; `none` is a list that is missing. -/
def pendingLen (addr : Address) : Option ℕ := (s.pending.lookup addr).map (·.len)

/-- One step of the equalisation: an account loses its last pending transaction. -/
def trimPending (addr : Address) : Option (TxPool P) := do
  let list ← s.pending.lookup addr
  let (drops, list) ← list.cap (list.len - 1)
  some (drops.foldl (fun s tx => (s.dropTx tx).lowerNonce addr tx.nonce) (s.setPending addr list))

/-- One round of the equalisation, with the count of pending transactions. -/
def trimRound (offenders : List Address) (x : TxPool P × ℕ) : Option (TxPool P × ℕ) :=
  offenders.foldlM (fun x addr => (x.1.trimPending addr).map fun s => (s, x.2 - 1)) x

/-- The loop over the rounds: the list of `last`, compared with `floor`, gets one shorter. -/
def trimLoop (offenders : List Address) (last : Address) (floor : ℕ) (x : TxPool P × ℕ) :
    Option (TxPool P × ℕ) := do
  let bound ← x.1.pendingLen last
  Loop.iterate
    (fun x => decide (x.1.config.globalSlots < x.2) &&
      decide (floor < (x.1.pendingLen last).getD 0))
    (trimRound offenders) bound x

/-- The earlier offenders are cut to the length of a new one. -/
def trimTo (offenders : List Address) (offender : Address) (x : TxPool P × ℕ) :
    Option (TxPool P × ℕ) :=
  match offenders.getLast? with
  | none => some x
  | some last => do
    let threshold ← x.1.pendingLen offender
    trimLoop offenders last threshold x

/-- The loop over the spammers, with the offenders so far. -/
def equalize : List Address → List Address → TxPool P × ℕ → Option (List Address × TxPool P × ℕ)
  | [], offenders, x => some (offenders, x)
  | offender :: spammers, offenders, x =>
    if x.1.config.globalSlots < x.2 then do
      let x ← trimTo offenders offender x
      equalize spammers (offenders ++ [offender]) x
    else some (offenders, x)

/-- The accounts that may lose pending transactions, the largest first. -/
def spammers (o : Outside) (s : TxPool P) : List Address :=
  let large := (o.range.order s.pending.keys).filter fun addr =>
    !s.locals.contains addr && decide (s.config.accountSlots < (s.pendingLen addr).getD 0)
  large.insertionSort fun a b => (s.pendingLen b).getD 0 ≤ (s.pendingLen a).getD 0

/-- The part of `promoteExecutables` for too many pending transactions. -/
def capPending (o : Outside) (s : TxPool P) : Option (TxPool P) :=
  let pending := total s.pending
  if s.config.globalSlots < pending then do
    let (offenders, s, pending) ← equalize (s.spammers o) [] (s, pending)
    match offenders.getLast? with
    | none => some s
    | some last =>
      if s.config.globalSlots < pending then
        (trimLoop offenders last s.config.accountSlots (s, pending)).map (·.1)
      else some s
  else some s

/-- The loop that drops queued transactions, of the account with the latest heartbeat first. -/
def dropQueued : List Address → ℕ → TxPool P → Option (TxPool P)
  | [], _, s => some s
  | addr :: addresses, drop, s =>
    if drop = 0 then some s
    else do
      let list ← s.queue.lookup addr
      if list.len ≤ drop then
        dropQueued addresses (drop - list.len) (s.removeTxs list.flatten true)
      else some (s.removeTxs (list.flatten.reverse.take drop) true)

/-- The part of `promoteExecutables` for too many queued transactions. -/
def capQueue (o : Outside) (s : TxPool P) : Option (TxPool P) :=
  let queued := total s.queue
  if s.config.globalQueue < queued then
    let addresses := (o.range.order s.queue.keys).filter fun addr => !s.locals.contains addr
    let byHeartbeat := addresses.insertionSort fun a b =>
      (s.beats.lookup a).getD 0 ≤ (s.beats.lookup b).getD 0
    dropQueued byHeartbeat.reverse (queued - s.config.globalQueue) s
  else some s

/-- `promoteExecutables`; without accounts, for all that have queued transactions. -/
def promoteExecutables (o : Outside) (s : TxPool P) (accounts : Option (List Address)) :
    Option (TxPool P) := do
  let s ← (accounts.getD (o.range.order s.queue.keys)).foldlM (promoteAccount o) s
  let s ← s.capPending o
  s.capQueue o

/-- `addTx`. -/
def addTx (o : Outside) (s : TxPool P) (tx : PoolTransaction) (isLocal : Bool) :
    Option (TxPool P × Option TxPoolError) := do
  let (s, result) ← s.add o tx isLocal
  match result with
  | .error e => some (s, some e)
  | .ok true => some (s, none)
  | .ok false => (s.promoteExecutables o (some [tx.sender])).map (·, none)

/-- The turn of the loop of `addTxsLocked`, collecting the accounts with new transactions. -/
def addDirty (o : Outside) (isLocal : Bool) (x : TxPool P × List Address) (tx : PoolTransaction) :
    Option (TxPool P × List Address) := do
  let (s, result) ← x.1.add o tx isLocal
  match result with
  | .ok false => some (s, if tx.sender ∈ x.2 then x.2 else tx.sender :: x.2)
  | _ => some (s, x.2)

/-- `addTxsLocked`. -/
def addTxsLocked (o : Outside) (s : TxPool P) (txs : List PoolTransaction) (isLocal : Bool) :
    Option (TxPool P) := do
  let (s, dirty) ← txs.foldlM (addDirty o isLocal) (s, [])
  if dirty.isEmpty then some s
  else s.promoteExecutables o (some (o.range.order dirty))

/-! ## Demotion and a new head -/

/-- Pending transactions that are too old or too costly are dropped, later ones queued. -/
def prunePending (o : Outside) (bn : UInt64) (s : TxPool P) (addr : Address) (list : TxList) :
    TxPool P × TxList :=
  let (olds, list) := list.forward (s.currentState.getNonce addr)
  let s := (s.setPending addr list).dropTxs olds
  let (drops, invalids, list) := list.filterValid (s.currentState.getBalance addr) s.currentMaxGas
    (o.chain.validateStakingTx s.currentState) bn
  (((s.setPending addr list).dropTxs drops).postpone invalids, list)

/-- All transactions of a list with a gap in front. -/
def gapped (list : TxList) (nonce : UInt64) : Option (List PoolTransaction × TxList) :=
  if 0 < list.len ∧ list.txs.get nonce.toNat = none then list.cap 0 else some ([], list)

/-- The turn of the loop of `demoteUnexecutables`. -/
def demoteAccount (o : Outside) (bn : UInt64) (s : TxPool P) (addr : Address) :
    Option (TxPool P) := do
  let list ← s.pending.lookup addr
  let nonce := s.currentState.getNonce addr
  let (s, list) := s.prunePending o bn addr list
  let (invalids, list) ← gapped list nonce
  let s := (s.setPending addr list).postpone invalids
  if list.isEmpty then
    some { s with pending := s.pending.erase addr, beats := s.beats.erase addr }
  else some s

/-- `demoteUnexecutables`. -/
def demoteUnexecutables (o : Outside) (s : TxPool P) (bn : UInt64) : Option (TxPool P) :=
  (o.range.order s.pending.keys).foldlM (demoteAccount o bn) s

end TxPool

/-- So many steps towards the genesis block; an error is a chain that ends before. -/
def unwind (chain : Chain) : ℕ → Block → List PoolTransaction →
    Outcome Unit (Block × List PoolTransaction)
  | 0, b, txs => .ok (b, txs)
  | steps + 1, b, txs =>
    match chain.getBlock b.parentHash (b.number - 1) with
    | none => .error ()
    | some parent => unwind chain steps parent (txs ++ b.body)

/-- The loop `for rem.Hash() != add.Hash()` of `reset`, for at most so many turns. -/
def meet (chain : Chain) : ℕ → Block → Block → List PoolTransaction → List PoolTransaction →
    Outcome Unit (List PoolTransaction × List PoolTransaction)
  | 0, _, _, _, _ => .panic
  | bound + 1, rem, add, discarded, included =>
    if rem.hash = add.hash then .ok (discarded, included)
    else match chain.getBlock rem.parentHash (rem.number - 1) with
      | none => .error ()
      | some rem' => match chain.getBlock add.parentHash (add.number - 1) with
        | none => .error ()
        | some add' => meet chain bound rem' add' (discarded ++ rem.body) (included ++ add.body)

/-- The walk to a common block ends before its bound does. -/
theorem meet_ne_panic {chain : Chain} {bound : ℕ} {rem add : Block}
    {discarded included : List PoolTransaction} (h : rem.number.toNat < bound) :
    meet chain bound rem add discarded included ≠ .panic := by
  induction bound generalizing rem add discarded included with
  | zero => omega
  | succ bound ih =>
    unfold meet
    split
    · nofun
    · split
      · nofun
      case h_2 rem' hrem =>
        split
        · nofun
        · have hpos : rem.number ≠ 0 := by
            intro hzero
            rw [hzero, chain.getBlock_wrap] at hrem
            cases hrem
          have hlt : rem'.number.toNat < rem.number.toNat := by
            rw [chain.number_getBlock hrem]
            have hpos' : rem.number.toNat ≠ 0 := fun h => hpos (UInt64.toNat_inj.1 h)
            have hone : (1 : UInt64) ≤ rem.number := by
              exact Nat.one_le_iff_ne_zero.2 hpos'
            rw [UInt64.toNat_sub_of_le _ _ hone]
            exact Nat.sub_lt (Nat.pos_of_ne_zero hpos') Nat.one_pos
          exact ih (by omega)

/-- `types.PoolTxDifference`. -/
def poolTxDifference (a b : List PoolTransaction) : List PoolTransaction :=
  a.filter fun tx => !b.any fun u => u.hash == tx.hash

/-- The transactions of abandoned blocks; an error is a chain without a common block. -/
def reinject (chain : Chain) (oldHead : Option Header) (newHead : Header) :
    Outcome Unit (List PoolTransaction) :=
  match oldHead with
  | none => .ok []
  | some oldHead =>
    if oldHead.hash = newHead.parentHash then .ok []
    else if 64 < (oldHead.number.toNat - newHead.number.toNat) +
        (newHead.number.toNat - oldHead.number.toNat) then .ok []
    else match chain.getBlock oldHead.hash oldHead.number,
        chain.getBlock newHead.hash newHead.number with
      | some rem, some add => do
        let (rem, discarded) ← unwind chain (rem.number.toNat - add.number.toNat) rem []
        let (add, included) ← unwind chain (add.number.toNat - rem.number.toNat) add []
        let (discarded, included) ← meet chain (rem.number.toNat + 1) rem add discarded included
        .ok (poolTxDifference discarded included)
      | _, _ => .panic

namespace TxPool

variable {P : Type} [PriceIndex P]

/-- The managed nonce of an account follows its last pending transaction. -/
def raiseNonce (s : TxPool P) (addr : Address) : Option (TxPool P) := do
  let list ← s.pending.lookup addr
  let tx ← list.flatten.getLast?
  some (s.setNonce addr (tx.nonce + 1))

/-- The part of `reset` in which the pool takes over the state of the new head. -/
def setHead (s : TxPool P) (statedb : View) (newHead : Header) : TxPool P :=
  { s with
    currentState := statedb
    pendingState := .manageState statedb
    currentMaxGas := newHead.gasLimit }

/-- `reset`. -/
def reset (o : Outside) (s : TxPool P) (oldHead : Option Header) (newHead : Header) :
    Option (TxPool P) :=
  match reinject o.chain oldHead newHead with
  | .panic => none
  | .error () => some s
  | .ok txs => match o.chain.stateAt newHead.root with
    | none => some s
    | some statedb => do
      let s ← (s.setHead statedb newHead).addTxsLocked o txs false
      let s ← s.demoteUnexecutables o newHead.number
      let s ← (o.range.order s.pending.keys).foldlM raiseNonce s
      s.promoteExecutables o none

/-! ## The operations of a pool -/

/-- `SetGasPrice`. -/
def setGasPrice (s : TxPool P) (price : ℤ) : TxPool P :=
  let (drop, priced) := PriceIndex.cap s.priced s.all price s.locals
  ({ s with gasPrice := price, priced } : TxPool P).removeTxs drop false

/-- The turn of the eviction loop. -/
def evictAccount (o : Outside) (s : TxPool P) (addr : Address) : TxPool P :=
  match s.queue.lookup addr with
  | none => s
  | some list =>
    if !s.locals.contains addr && decide (s.config.lifetime < o.now - (s.beats.lookup addr).getD 0)
    then s.removeTxs list.flatten true
    else s

/-- The eviction of queued transactions of accounts without a recent heartbeat. -/
def evict (o : Outside) (s : TxPool P) : TxPool P :=
  (o.range.order s.queue.keys).foldl (evictAccount o) s

/-- The event of a new head, in `loop`. -/
def chainHead (o : Outside) (s : TxPool P) (oldHead : Option Header) (newHead : Header) :
    Option (TxPool P) :=
  TxPool.reset o
    { s with
      homestead := s.homestead || s.chainconfig.isS3 newHead.epoch
      istanbul := s.istanbul || s.chainconfig.isIstanbul newHead.epoch }
    oldHead newHead

/-- `NewTxPool`, on the state of the current head. -/
def newTxPool (config : TxPoolConfig) (chainconfig : ChainConfig) (gasPrice : ℤ)
    (locals : List Address) (priced : P) (statedb : View) (gasLimit : UInt64) : TxPool P where
  config
  chainconfig
  gasPrice
  currentState := statedb
  pendingState := .manageState statedb
  currentMaxGas := gasLimit
  locals
  pending := ∅
  queue := ∅
  beats := ∅
  all := ∅
  priced
  homestead := false
  istanbul := false

end TxPool

/-- What can be done with a pool. -/
inductive PoolOp where
  | addTx (tx : PoolTransaction) (isLocal : Bool)
  | addTxs (txs : List PoolTransaction) (isLocal : Bool)
  | removeTx (hash : Word) (outofbound : Bool)
  | promoteExecutables (accounts : Option (List Address))
  | demoteUnexecutables (bn : UInt64)
  | chainHead (oldHead : Option Header) (newHead : Header)
  | setGasPrice (price : ℤ)
  | evict

/-- One operation, with what it meets outside; `none` is a panic. -/
def TxPool.step {P : Type} [PriceIndex P] (s : TxPool P) (a : Outside × PoolOp) :
    Option (TxPool P) :=
  match a with
  | (o, .addTx tx isLocal) => (s.addTx o tx isLocal).map (·.1)
  | (o, .addTxs txs isLocal) => s.addTxsLocked o txs isLocal
  | (_, .removeTx hash outofbound) => some (s.removeTx hash outofbound)
  | (o, .promoteExecutables accounts) => s.promoteExecutables o accounts
  | (o, .demoteUnexecutables bn) => s.demoteUnexecutables o bn
  | (o, .chainHead oldHead newHead) => s.chainHead o oldHead newHead
  | (_, .setGasPrice price) => some (s.setGasPrice price)
  | (o, .evict) => some (s.evict o)

end DyShard.Pool
