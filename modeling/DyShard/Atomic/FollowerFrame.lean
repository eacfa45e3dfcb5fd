import DyShard.Atomic.Follower

/-!
# What the steps of a follower can do

The two phases of a migration treat the pool alike.  A node is read by phase, and what a step of a
handler, of the loop and of the node can change is said once, for all invariants.
-/

namespace DyShard.Atomic.Follower

open Function Handler List Node Follower

/-- The two phases of a migration. -/
inductive Phase where
  | freeze
  | commit
  deriving DecidableEq

/-- The phase a transaction of the chain belongs to. -/
def phaseOf (tx : StateTransferTransaction) : Phase := if tx.toFreeze then .freeze else .commit

variable {tx : StateTransferTransaction} {s s' t : Node} {h : ℕ} {i : UInt64}

theorem phaseOf_freeze (h : tx.toFreeze = true) : phaseOf tx = .freeze := by
  simp [phaseOf, h]

theorem phaseOf_commit (h : ¬ tx.toFreeze = true) : phaseOf tx = .commit := by
  simp [phaseOf, h]

/-- The signal that ends the wait of a phase. -/
def Phase.sig : Phase → ℕ
  | .freeze => 1
  | .commit => 2

theorem signalOf_eq (tx : StateTransferTransaction) : signalOf tx = (phaseOf tx).sig := by
  unfold signalOf phaseOf
  split <;> rfl

theorem of_unlocked {b : Bool} (h : (if b = true then none else some s) = some t) :
    b = false ∧ s = t := by
  simpa using h

/-! ## The node, phase by phase -/

namespace Node

variable (s : Node)

/-- A handler has put the transaction into the cache of its phase. -/
def pending : Phase → UInt64 → Bool
  | .freeze, i => (s.freezeCache i).isSome
  | .commit, i => (s.committed i).isSome

/-- `reset` has started on the transaction. -/
def seen : Phase → UInt64 → Bool
  | .freeze => s.freezeSeen
  | .commit => s.commitSeen

/-- `reset` has finished with the transaction. -/
def done : Phase → UInt64 → Bool
  | .freeze => s.freezeDone
  | .commit => s.commitDone

theorem handlers_setHandler (h : ℕ) (p : Handler) (h' : ℕ) :
    (s.setHandler h p).handlers h' = if h' = h then p else s.handlers h' := by
  simp [setHandler, update_apply]

theorem pending_setHandler (h : ℕ) (p : Handler) : (s.setHandler h p).pending = s.pending := by
  funext k
  cases k <;> rfl

/-- A transaction of an inserted block. -/
def InChain (tx : StateTransferTransaction) : Prop :=
  ∃ b ∈ s.chain, tx ∈ b.stateTransferTransactions

end Node

/-! ## The loop -/

namespace LoopPc

/-- The transactions `reset` has still to deal with, the one in progress first. -/
def transactions : LoopPc → List StateTransferTransaction
  | .idle | .lock _ | .opening _ | .current _ => []
  | .next _ rest => rest
  | .checkFreeze _ tx rest | .send _ tx rest _ | .forget _ tx rest | .record _ tx rest =>
    tx :: rest

/-- `reset` is blocked in a send on the channel of the index. -/
def Sends : LoopPc → UInt64 → Prop
  | .send _ tx _ _, i => tx.index = i
  | _, _ => False

/-- `reset` is past the signal for the transaction and about to take it out of the
cache. -/
def Forgets : LoopPc → Phase → UInt64 → Prop
  | .forget _ tx _, k, i => phaseOf tx = k ∧ tx.index = i
  | .record _ tx _, k, i => phaseOf tx = k ∧ tx.index = i
  | _, _, _ => False

/-- `reset` is busy with the transaction. -/
def Holds : LoopPc → Phase → UInt64 → Prop
  | .checkFreeze _ tx _, k, i | .send _ tx _ _, k, i | .forget _ tx _, k, i
  | .record _ tx _, k, i => phaseOf tx = k ∧ tx.index = i
  | _, _, _ => False

/-- `reset` asks `freezeCache` about freeze transactions only, and records only commits. -/
def Sorted : LoopPc → Prop
  | .checkFreeze _ tx _ => phaseOf tx = .freeze
  | .record _ tx _ => phaseOf tx = .commit
  | _ => True

theorem not_forgets_of_unlocked {pc : LoopPc} (h : pc.locked = false) (k : Phase)
    (i : UInt64) : ¬ pc.Forgets k i := by
  cases pc <;> simp_all [locked, Forgets]

theorem not_sends_of_unlocked {pc : LoopPc} (h : pc.locked = false) (i : UInt64) :
    ¬ pc.Sends i := by
  cases pc <;> simp_all [locked, Sends]

end LoopPc

/-! ## The handlers -/

namespace Handler

/-- The index of a handler that has not answered. -/
def active : Handler → Option UInt64
  | .propose req _ => some req.index
  | .commit req _ => some req.index
  | _ => none

/-- The signal a handler has still to wait for. -/
def awaits : Handler → Option (Phase × UInt64)
  | .propose req .prepare | .propose req (.branch _) | .propose req (.enter _ _)
  | .propose req (.wait _ _ _) => some (.freeze, req.index)
  | .commit req .deleteCached | .commit req .prepare | .commit req (.enter _)
  | .commit req (.wait _ _) => some (.commit, req.index)
  | _ => none

/-- The signal a handler is blocked for in its `select`. -/
def waits : Handler → Option (Phase × UInt64)
  | .propose req (.wait _ _ _) => some (.freeze, req.index)
  | .commit req (.wait _ _) => some (.commit, req.index)
  | _ => none

/-- The signal a handler is about to register for. -/
def registers : Handler → Option (Phase × UInt64)
  | .propose req .checkCached | .propose req .addFreeze => some (.freeze, req.index)
  | .commit req .checkCommitted | .commit req .addCommitted => some (.commit, req.index)
  | _ => none

/-- The index whose commit a handler has acknowledged, or is going to. -/
def vouches : Handler → Option UInt64
  | .commit req (.closing _ _) | .commit req .replyLate => some req.index
  | .committed res => if res.acktype = .ack then some res.index else none
  | _ => none

/-- The index whose channel a handler is about to close. -/
def closes : Handler → Option UInt64
  | .propose req .closing => some req.index
  | .commit req (.closing _ _) => some req.index
  | _ => none

/-- The index of a handler that may still use the channel or register in the pool. -/
def engaged : Handler → Option UInt64
  | .propose _ .readBalance | .propose _ (.readNonce _) | .propose _ (.reply _ _)
  | .propose _ .refuse | .commit _ .replyLate => none
  | .propose req _ => some req.index
  | .commit req _ => some req.index
  | _ => none

/-- The signal a handler is blocked for in its `select`, and whether it has a channel. -/
def listens : Handler → Option (Phase × UInt64 × Bool)
  | .propose req (.wait _ _ chan) => some (.freeze, req.index, chan)
  | .commit req (.wait _ chan) => some (.commit, req.index, chan)
  | _ => none

variable {p : Handler} {k : Phase} {i : UInt64}

theorem awaits_of_waits {k : Phase × UInt64} (h : p.waits = some k) : p.awaits = some k := by
  unfold waits at h
  split at h <;> simp_all [awaits]

theorem active_of_awaits (h : p.awaits = some (k, i)) : p.active = some i := by
  unfold awaits at h
  split at h <;> simp_all [active]

theorem engaged_of_awaits (h : p.awaits = some (k, i)) : p.engaged = some i := by
  unfold awaits at h
  split at h <;> simp_all [engaged]

theorem engaged_of_closes (h : p.closes = some i) : p.engaged = some i := by
  unfold closes at h
  split at h <;> simp_all [engaged]

theorem awaits_of_listens {chan : Bool} (h : p.listens = some (k, i, chan)) :
    p.awaits = some (k, i) := by
  unfold listens at h
  split at h <;> simp_all [awaits]

end Handler

/-! ## Changes that `reset` does not notice -/

/-- A change by somebody else: the chain and the caches that `reset` signals from only grow. -/
structure Quiet (s t : Node) : Prop where
  chain : ∀ b ∈ s.chain, b ∈ t.chain := by exact fun _ h => h
  loop : t.loop = s.loop := by rfl
  handlers : t.handlers = s.handlers := by rfl
  seen : t.seen = s.seen := by rfl
  done : t.done = s.done := by rfl
  committedTxList : t.committedTxList = s.committedTxList := by rfl
  pending : ∀ k i, s.pending k i = true → t.pending k i = true := by exact fun _ _ h => h
  cached : ∀ i, (t.cached i).isSome = true → (s.cached i).isSome = true := by
    exact fun _ h => h

namespace Quiet

variable {s t u : Node}

theorem refl (s : Node) : Quiet s s := {}

theorem trans (h : Quiet s t) (h' : Quiet t u) : Quiet s u where
  chain b hb := h'.chain b (h.chain b hb)
  loop := h'.loop.trans h.loop
  handlers := h'.handlers.trans h.handlers
  seen := h'.seen.trans h.seen
  done := h'.done.trans h.done
  committedTxList := h'.committedTxList.trans h.committedTxList
  pending k i hp := h'.pending k i (h.pending k i hp)
  cached i hc := h.cached i (h'.cached i hc)

theorem closeSignal (s : Node) (i : UInt64) : Quiet s (s.closeSignal i) := by
  unfold Node.closeSignal
  split <;> exact {}

theorem deleteTxFromCached (s : Node) (i : UInt64) : Quiet s (s.deleteTxFromCached i) where
  cached j h := by
    by_cases hji : j = i
    · simp [Node.deleteTxFromCached, hji] at h
    · simpa [Node.deleteTxFromCached, hji] using h

theorem addFreezeTransaction (s : Node) (i : UInt64) (source target : ShardID) (a : Address) :
    Quiet s (s.addFreezeTransaction i source target a) where
  pending k j h := by
    cases k with
    | freeze =>
      by_cases hji : j = i
      · simp [Node.pending, Node.addFreezeTransaction, Node.initSignal, hji]
      · simpa [Node.pending, Node.addFreezeTransaction, Node.initSignal, hji] using h
    | commit => exact h

theorem addCommittedTransaction (s : Node) (source target : ShardID) (a : Address) (i : UInt64)
    (d : StateData) : Quiet s (s.addCommittedTransaction source target a i d) where
  pending k j h := by
    cases k with
    | freeze => exact h
    | commit =>
      simp only [Node.pending, Node.addCommittedTransaction] at h ⊢
      split
      · exact h
      · by_cases hji : j = i
        · simp [hji]
        · simpa [hji] using h

end Quiet

theorem pending_addFreezeTransaction (s : Node) (i : UInt64) (source target : ShardID)
    (a : Address) : (s.addFreezeTransaction i source target a).pending .freeze i = true := by
  simp [pending, addFreezeTransaction, initSignal]

theorem pending_addCommittedTransaction (s : Node) (source target : ShardID) (a : Address)
    (i : UInt64) (d : StateData) :
    (s.addCommittedTransaction source target a i d).pending .commit i = true := by
  simp only [pending, addCommittedTransaction]
  split
  case isTrue h => exact h
  case isFalse => simp

/-! ## A step of a handler -/

/-- A step of the handler `h` to `p`, while the pool goes quietly from `s` to `t`.  It waits for a
signal only if it did before or was about to register for it. -/
structure HandlerMove (s : Node) (h : ℕ) (t : Node) (p : Handler) : Prop where
  quiet : Quiet s t
  active : ∀ i, p.active = some i → (s.handlers h).active = some i
  awaits : ∀ k i, p.awaits = some (k, i) → (s.handlers h).awaits = some (k, i) ∨
    (s.handlers h).registers = some (k, i) ∧
      (s.loop.locked = false ∧ t.pending k i = true ∨
        k = .freeze ∧ (s.cached i).isSome = true ∨
        k = .commit ∧ s.committedTxList i = true)
  vouches : ∀ i, p.vouches = some i → (s.handlers h).vouches = some i

namespace HandlerMove

variable {s : Node} {h : ℕ} {p q : Handler}

theorem of_awaits {t : Node} (hq : s.handlers h = q) (quiet : Quiet s t)
    (active : p.active = q.active) (awaits : p.awaits = q.awaits)
    (vouches : p.vouches = q.vouches) : HandlerMove s h t p :=
  ⟨quiet, fun i hi => by rw [hq, ← active, hi], fun k i hi => .inl (by rw [hq, ← awaits, hi]),
    fun i hi => by rw [hq, ← vouches, hi]⟩

theorem of_awaits_none {t : Node} (hq : s.handlers h = q) (quiet : Quiet s t)
    (active : p.active = none ∨ p.active = q.active) (awaits : p.awaits = none)
    (vouches : p.vouches = none ∨ p.vouches = q.vouches) : HandlerMove s h t p := by
  refine ⟨quiet, fun i hi => ?_, fun k i hi => ?_, fun i hi => ?_⟩
  · rcases active with ha | ha
    · rw [ha] at hi
      cases hi
    · rw [hq, ← ha, hi]
  · rw [awaits] at hi
    cases hi
  · rcases vouches with hv | hv
    · rw [hv] at hi
      cases hi
    · rw [hq, ← hv, hi]

theorem of_registers {t : Node} {k : Phase} (hq : s.handlers h = q) (quiet : Quiet s t)
    (active : p.active = q.active) (registers : q.registers = some (k, i))
    (awaits : p.awaits = some (k, i)) (vouches : p.vouches = none)
    (how : s.loop.locked = false ∧ t.pending k i = true ∨
      k = .freeze ∧ (s.cached i).isSome = true ∨ k = .commit ∧ s.committedTxList i = true) :
    HandlerMove s h t p := by
  refine ⟨quiet, fun i hi => by rw [hq, ← active, hi], fun k' i' hi => .inr ?_, fun i hi => ?_⟩
  · cases awaits.symm.trans hi
    exact ⟨hq ▸ registers, how⟩
  · cases vouches.symm.trans hi

end HandlerMove

theorem stepAction_of_step {a : Action} (hstep : step s a = some s') : stepAction s a = some s' := by
  unfold step at hstep
  split at hstep
  · cases hstep
  · exact hstep

theorem handler_cases (hstep : stepAction s (.handler h) = some s') :
    (∃ req pc, s.handlers h = .propose req pc ∧ stepPropose s h req pc = some s') ∨
      ∃ req pc, s.handlers h = .commit req pc ∧ stepCommit s h req pc = some s' := by
  simp only [stepAction] at hstep
  split at hstep
  case h_1 req pc hpc => exact .inl ⟨req, pc, hpc, hstep⟩
  case h_2 req pc hpc => exact .inr ⟨req, pc, hpc, hstep⟩
  case h_3 => cases hstep

/-! ## A receive -/

/-- A handler of phase `k` receives `sig`: it waits on unless the signal is its own. -/
structure Receipt (k : Phase) (i : UInt64) (sig : ℕ) (p : Handler) : Prop where
  active : ∀ j, p.active = some j → j = i
  awaits : ∀ k' j, p.awaits = some (k', j) → k' = k ∧ j = i ∧ sig ≠ k.sig
  vouches : ∀ j, p.vouches = some j → j = i ∧ sig = Phase.commit.sig

theorem receipt_proposeSignal (req : ProposeRequest) (side ftype : FollowerType) (sig : ℕ) :
    Receipt .freeze req.index sig (proposeSignal req side ftype sig) := by
  cases side <;> by_cases hs : sig = 1 <;>
    exact ⟨by simp +contextual [proposeSignal, hs, active, eq_comm],
      by simp +contextual [proposeSignal, hs, awaits, Phase.sig, eq_comm],
      by simp [proposeSignal, hs, vouches]⟩

theorem receipt_commitSignal (req : CommitRequest) (ftype : FollowerType) (sig : ℕ) :
    Receipt .commit req.index sig (commitSignal req ftype sig) := by
  by_cases hs : sig = 2 <;>
    exact ⟨by simp +contextual [commitSignal, hs, active, eq_comm],
      by simp +contextual [commitSignal, hs, awaits, Phase.sig, eq_comm],
      by simp +contextual [commitSignal, hs, vouches, Phase.sig, eq_comm]⟩

/-- The actions of the chain, of the block proposer and of the stopping server. -/
def Action.outside : Action → Bool
  | .insertBlock _ _ | .postChainEvents | .readFreezeCache | .readCommitted | .stop
  | .closeNext _ => true
  | _ => false

variable {a : Action}

/-! ## The steps spelled out -/

/-- **The steps of the loop**, with what each of them finds and leaves. -/
inductive LoopStep (s : Node) (opens : Bool) : Node → Prop
  | take {ev : Block} {events : List Block} (hloop : s.loop = .idle) (hev : s.events = ev :: events) :
      LoopStep s opens { s with events, loop := .lock ev }
  | skip {ev : Block} (hloop : s.loop = .lock ev) (hskip : skipsReset s.head ev = true) :
      LoopStep s opens { s with head := ev, loop := .idle }
  | enter {ev : Block} (hloop : s.loop = .lock ev) (hskip : skipsReset s.head ev = false) :
      LoopStep s opens { s with loop := .opening ev }
  | load {ev : Block} (hloop : s.loop = .opening ev) (hopens : opens = true) :
      LoopStep s opens { s with
        pendingBalance := ev.balance, pendingNonce := ev.nonce, loop := .current ev }
  | fail {ev : Block} (hloop : s.loop = .opening ev) (hopens : opens = false) :
      LoopStep s opens { s with head := ev, loop := .idle }
  | read {ev : Block} (hloop : s.loop = .current ev) :
      LoopStep s opens { s with loop := .next ev s.currentTransactions }
  | finish {ev : Block} (hloop : s.loop = .next ev []) :
      LoopStep s opens { s with head := ev, loop := .idle }
  | seeFreeze {ev : Block} {tx : StateTransferTransaction} {rest : List StateTransferTransaction}
      (hloop : s.loop = .next ev (tx :: rest)) (htx : phaseOf tx = .freeze) :
      LoopStep s opens { s.addCachedTransaction tx with
        freezeReadTxList := update s.freezeReadTxList tx.index true
        freezeSeen := update s.freezeSeen tx.index true
        loop := .checkFreeze ev tx rest }
  | seeCommit {ev : Block} {tx : StateTransferTransaction} {rest : List StateTransferTransaction}
      {loop : LoopPc} (hloop : s.loop = .next ev (tx :: rest)) (htx : phaseOf tx = .commit)
      (hnext : s.pending .commit tx.index = true ∧
          loop = .send ev tx rest (s.signal tx.index != .absent) ∨
        s.pending .commit tx.index = false ∧ loop = .forget ev tx rest) :
      LoopStep s opens { s with
        committedReadTxList := update s.committedReadTxList tx.index true
        commitSeen := update s.commitSeen tx.index true
        loop }
  | sendFreeze {ev : Block} {tx : StateTransferTransaction} {rest : List StateTransferTransaction}
      (hloop : s.loop = .checkFreeze ev tx rest) (hp : s.pending .freeze tx.index = true) :
      LoopStep s opens { s.initSignal tx.index with loop := .send ev tx rest true }
  | passFreeze {ev : Block} {tx : StateTransferTransaction} {rest : List StateTransferTransaction}
      (hloop : s.loop = .checkFreeze ev tx rest) (hp : s.pending .freeze tx.index = false) :
      LoopStep s opens { s with
        freezeDone := update s.freezeDone tx.index true
        loop := .next ev rest }
  | panic {ev : Block} {tx : StateTransferTransaction} {rest : List StateTransferTransaction}
      (hloop : s.loop = .send ev tx rest true) (hsig : s.signal tx.index = .closed) :
      LoopStep s opens { s with crashed := true }
  | forgetFreeze {ev : Block} {tx : StateTransferTransaction}
      {rest : List StateTransferTransaction} (hloop : s.loop = .forget ev tx rest)
      (htx : phaseOf tx = .freeze) :
      LoopStep s opens { s.deleteTxFromFreeze tx.index with
        freezeDone := update s.freezeDone tx.index true
        loop := .next ev rest }
  | forgetCommit {ev : Block} {tx : StateTransferTransaction}
      {rest : List StateTransferTransaction} (hloop : s.loop = .forget ev tx rest)
      (htx : phaseOf tx = .commit) :
      LoopStep s opens { s.deleteTxFromCommitted tx.index with loop := .record ev tx rest }
  | record {ev : Block} {tx : StateTransferTransaction} {rest : List StateTransferTransaction}
      (hloop : s.loop = .record ev tx rest) :
      LoopStep s opens { s.recordCommittedTx tx.index with
        commitDone := update s.commitDone tx.index true
        loop := .next ev rest }

theorem loopStep_of_stepLoop {opens : Bool} (hstep : stepLoop s opens = some s') :
    LoopStep s opens s' := by
  unfold stepLoop at hstep
  split at hstep
  case h_1 hl =>
    split at hstep
    · cases hstep
    · next ev events hev =>
      cases hstep
      exact .take hl hev
  case h_2 ev hl =>
    split at hstep <;> cases hstep
    case isTrue h => exact .skip hl h
    case isFalse h => exact .enter hl (Bool.eq_false_iff.2 h)
  case h_3 ev hl =>
    split at hstep <;> cases hstep
    case isTrue h => exact .load hl h
    case isFalse h => exact .fail hl (Bool.eq_false_iff.2 h)
  case h_4 ev hl =>
    cases hstep
    exact .read hl
  case h_5 ev hl =>
    cases hstep
    exact .finish hl
  case h_6 ev tx rest hl =>
    split at hstep <;> cases hstep
    case isTrue h => exact .seeFreeze hl (phaseOf_freeze h)
    case isFalse h =>
      refine .seeCommit hl (phaseOf_commit h) ?_
      split
      case isTrue hp => exact .inl ⟨hp, rfl⟩
      case isFalse hp => exact .inr ⟨Bool.eq_false_iff.2 hp, rfl⟩
  case h_7 ev tx rest hl =>
    split at hstep <;> cases hstep
    case isTrue hp => exact .sendFreeze hl hp
    case isFalse hp => exact .passFreeze hl (Bool.eq_false_iff.2 hp)
  case h_8 ev tx rest chan hl =>
    split at hstep
    case isTrue h =>
      cases hstep
      obtain ⟨rfl, hsig⟩ : chan = true ∧ s.signal tx.index = .closed := by simpa using h
      exact .panic hl hsig
    case isFalse => cases hstep
  case h_9 ev tx rest hl =>
    split at hstep <;> cases hstep
    case isTrue h => exact .forgetFreeze hl (phaseOf_freeze h)
    case isFalse h => exact .forgetCommit hl (phaseOf_commit h)
  case h_10 ev tx rest hl =>
    cases hstep
    exact .record hl

/-- A handler goes on from `q` to `p` without touching channels or registering. -/
structure Proceeds (s : Node) (q p : Handler) : Prop where
  active : ∀ i, p.active = some i → q.active = some i
  engaged : ∀ i, p.engaged = some i → q.engaged = some i
  awaits : ∀ k i, q.awaits = some (k, i) → p.awaits = some (k, i)
  closes : p.closes = none
  listens : ∀ k i chan, p.listens = some (k, i, chan) → chan = (s.signal i != .absent)

namespace Proceeds

variable {s : Node} {q p : Handler}

theorem of_same (active : p.active = q.active) (engaged : p.engaged = q.engaged)
    (awaits : q.awaits = none ∨ q.awaits = p.awaits) (closes : p.closes = none)
    (listens : p.listens = none) : Proceeds s q p := by
  refine ⟨fun i hi => active ▸ hi, fun i hi => engaged ▸ hi, fun k i hi => ?_, closes, ?_⟩
  · rcases awaits with ha | ha
    · rw [ha] at hi
      cases hi
    · rw [← ha, hi]
  · intro k i chan hl
    rw [listens] at hl
    cases hl

theorem of_answer (active : p.active = none) (engaged : p.engaged = none)
    (awaits : q.awaits = none) (closes : p.closes = none) (listens : p.listens = none) :
    Proceeds s q p := by
  constructor
  · simp [active]
  · simp [engaged]
  · simp [awaits]
  · exact closes
  · simp [listens]

end Proceeds

/-- **The steps of a handler**, with what each of them finds and leaves in the pool. -/
inductive HandlerStep (s : Node) (h : ℕ) : Node → Prop
  | proceed (p : Handler) (followerType : FollowerType)
      (cached : UInt64 → Option StateTransferTransaction) (hp : Proceeds s (s.handlers h) p) :
      HandlerStep s h ({ s with followerType, cached }.setHandler h p)
  | addFreeze {req : ProposeRequest} (hpc : s.handlers h = .propose req .addFreeze)
      (hlock : s.loop.locked = false) :
      HandlerStep s h ((s.addFreezeTransaction req.index req.source req.target
        (bytesToAddress req.msgPayload)).setHandler h (.propose req .prepare))
  | addCommitted {req : CommitRequest} (hpc : s.handlers h = .commit req .addCommitted)
      (hlock : s.loop.locked = false) :
      HandlerStep s h ((s.addCommittedTransaction req.source req.target
        (bytesToAddress req.address) req.index (req.msgPayload.getD .zero)).setHandler h
          (.commit req .deleteCached))
  | close {i : UInt64} {p : Handler} (hpc : (s.handlers h).closes = some i)
      (hlock : s.loop.locked = false) (hactive : p.active = none ∨ p.active = some i)
      (hengaged : p.engaged = none) (hcloses : p.closes = none) (hlistens : p.listens = none) :
      HandlerStep s h ((s.closeSignal i).setHandler h p)

theorem handlerStep_of_stepPropose {req : ProposeRequest} {pc : ProposePc}
    (hpc : s.handlers h = .propose req pc) (hstep : stepPropose s h req pc = some s') :
    HandlerStep s h s' ∧ ∃ t p, s' = t.setHandler h p ∧ HandlerMove s h t p := by
  cases pc with
  | setSource | setTarget =>
    cases hstep
    exact ⟨.proceed _ _ s.cached (hpc ▸ .of_same rfl rfl (.inl rfl) rfl rfl), _, _, rfl,
      .of_awaits_none hpc {} (.inr rfl) rfl (.inl rfl)⟩
  | checkCached =>
    cases hstep
    refine ⟨.proceed _ s.followerType s.cached ?_, _, _, rfl, ?_⟩
    · rw [hpc]
      split <;> exact .of_same rfl rfl (.inl rfl) rfl rfl
    split
    case isTrue hc =>
      -- the chain was there first: the handler goes on to wait without registering
      exact .of_registers hpc (.refl s) rfl rfl rfl rfl (.inr (.inl ⟨rfl, hc⟩))
    case isFalse => exact .of_awaits_none hpc (.refl s) (.inr rfl) rfl (.inl rfl)
  | addFreeze =>
    obtain ⟨hlock, rfl⟩ := of_unlocked hstep
    exact ⟨.addFreeze hpc hlock, _, _, rfl,
      .of_registers hpc (.addFreezeTransaction s _ _ _ _) rfl rfl rfl rfl
        (.inl ⟨hlock, pending_addFreezeTransaction s _ _ _ _⟩)⟩
  | prepare | branch =>
    cases hstep
    exact ⟨.proceed _ s.followerType s.cached (hpc ▸ .of_same rfl rfl (.inr rfl) rfl rfl), _, _, rfl,
      .of_awaits hpc (.refl s) rfl rfl rfl⟩
  | enter side ftype =>
    cases hstep
    refine ⟨.proceed _ s.followerType s.cached ?_, _, _, rfl, .of_awaits hpc (.refl s) rfl rfl rfl⟩
    rw [hpc]
    refine ⟨fun _ => id, fun _ => id, fun _ _ => id, rfl, ?_⟩
    rintro k i chan ⟨⟩
    rfl
  | wait => cases hstep
  | readBalance | readNonce =>
    cases hstep
    exact ⟨.proceed _ s.followerType s.cached (hpc ▸ .of_same rfl rfl (.inl rfl) rfl rfl), _, _, rfl,
      .of_awaits_none hpc (.refl s) (.inr rfl) rfl (.inl rfl)⟩
  | reply | refuse =>
    cases hstep
    exact ⟨.proceed _ s.followerType s.cached (hpc ▸ .of_answer rfl rfl rfl rfl rfl), _, _, rfl,
      .of_awaits_none hpc (.refl s) (.inl rfl) rfl (.inl rfl)⟩
  | closing =>
    obtain ⟨hlock, rfl⟩ := of_unlocked hstep
    exact ⟨.close (by rw [hpc]; rfl) hlock (.inr rfl) rfl rfl rfl, _, _, rfl,
      .of_awaits_none hpc (.closeSignal s _) (.inr rfl) rfl (.inl rfl)⟩

theorem handlerStep_of_stepCommit {req : CommitRequest} {pc : CommitPc}
    (hpc : s.handlers h = .commit req pc) (hstep : stepCommit s h req pc = some s') :
    HandlerStep s h s' ∧ ∃ t p, s' = t.setHandler h p ∧ HandlerMove s h t p := by
  cases pc with
  | checkCached =>
    cases hstep
    refine ⟨.proceed _ s.followerType s.cached ?_, _, _, rfl, ?_⟩
    · rw [hpc]
      split <;> exact .of_same rfl rfl (.inl rfl) rfl rfl
    · split <;> exact .of_awaits_none hpc (.refl s) (.inr rfl) rfl (.inl rfl)
  | dropCached =>
    cases hstep
    exact ⟨.proceed _ s.followerType _ (hpc ▸ .of_answer rfl rfl rfl rfl rfl), _, _, rfl,
      .of_awaits_none hpc (.deleteTxFromCached s _) (.inl rfl) rfl (.inl rfl)⟩
  | checkCommitted =>
    cases hstep
    refine ⟨.proceed _ s.followerType s.cached ?_, _, _, rfl, ?_⟩
    · rw [hpc]
      split <;> exact .of_same rfl rfl (.inl rfl) rfl rfl
    split
    case isTrue hc =>
      -- the commit is on the chain already: the handler waits without registering
      exact .of_registers hpc (.refl s) rfl rfl rfl rfl (.inr (.inr ⟨rfl, hc⟩))
    case isFalse => exact .of_awaits_none hpc (.refl s) (.inr rfl) rfl (.inl rfl)
  | addCommitted =>
    obtain ⟨hlock, rfl⟩ := of_unlocked hstep
    exact ⟨.addCommitted hpc hlock, _, _, rfl,
      .of_registers hpc (.addCommittedTransaction s _ _ _ _ _) rfl rfl rfl rfl
        (.inl ⟨hlock, pending_addCommittedTransaction s _ _ _ _ _⟩)⟩
  | deleteCached =>
    cases hstep
    exact ⟨.proceed _ s.followerType _ (hpc ▸ .of_same rfl rfl (.inr rfl) rfl rfl), _, _, rfl,
      .of_awaits hpc (.deleteTxFromCached s _) rfl rfl rfl⟩
  | prepare =>
    cases hstep
    exact ⟨.proceed _ s.followerType s.cached (hpc ▸ .of_same rfl rfl (.inr rfl) rfl rfl), _, _, rfl,
      .of_awaits hpc (.refl s) rfl rfl rfl⟩
  | enter ftype =>
    cases hstep
    refine ⟨.proceed _ s.followerType s.cached ?_, _, _, rfl, .of_awaits hpc (.refl s) rfl rfl rfl⟩
    rw [hpc]
    refine ⟨fun _ => id, fun _ => id, fun _ _ => id, rfl, ?_⟩
    rintro k i chan ⟨⟩
    rfl
  | wait => cases hstep
  | closing ftype timedOut =>
    obtain ⟨hlock, rfl⟩ := of_unlocked hstep
    have hcloses : (s.handlers h).closes = some req.index := by rw [hpc]; rfl
    cases timedOut with
    | false =>
      exact ⟨.close hcloses hlock (.inl rfl) rfl rfl rfl, _, _, rfl,
        .of_awaits_none hpc (.closeSignal s _) (.inl rfl) rfl (.inr rfl)⟩
    | true =>
      exact ⟨.close hcloses hlock (.inr rfl) rfl rfl rfl, _, _, rfl,
        .of_awaits_none hpc (.closeSignal s _) (.inr rfl) rfl (.inr rfl)⟩
  | replyLate =>
    cases hstep
    exact ⟨.proceed _ s.followerType s.cached (hpc ▸ .of_answer rfl rfl rfl rfl rfl), _, _, rfl,
      .of_awaits_none hpc (.refl s) (.inl rfl) rfl (.inr rfl)⟩

/-- **A step of a handler.** -/
theorem handler_move (hstep : stepAction s (.handler h) = some s') :
    HandlerStep s h s' ∧ ∃ t p, s' = t.setHandler h p ∧ HandlerMove s h t p := by
  rcases handler_cases hstep with ⟨req, pc, hpc, hstep⟩ | ⟨req, pc, hpc, hstep⟩
  · exact handlerStep_of_stepPropose hpc hstep
  · exact handlerStep_of_stepCommit hpc hstep

/-- The handler `q`, waiting on the channel of an index, goes on to `p` with a signal. -/
inductive Receives : Handler → UInt64 → ℕ → Handler → Prop
  | propose (req : ProposeRequest) (side ftype : FollowerType) (sig : ℕ) :
      Receives (.propose req (.wait side ftype true)) req.index sig
        (proposeSignal req side ftype sig)
  | commit (req : CommitRequest) (ftype : FollowerType) (sig : ℕ) :
      Receives (.commit req (.wait ftype true)) req.index sig (commitSignal req ftype sig)

/-- The waiting handler `q` gives up. -/
inductive Expires : Handler → UInt64 → Handler → Prop
  | propose (req : ProposeRequest) (side ftype : FollowerType) (chan : Bool) :
      Expires (.propose req (.wait side ftype chan)) req.index (.propose req .closing)
  | commit (req : CommitRequest) (ftype : FollowerType) (chan : Bool) :
      Expires (.commit req (.wait ftype chan)) req.index (.commit req (.closing ftype true))

/-- **The steps of a node**, with what each of them finds and leaves. -/
inductive ActionStep (s : Node) : Action → Node → Prop
  | insertBlock {b : Block} {last : Bool} (hchild : isChild s b = true) :
      ActionStep s (.insertBlock b last) { s with
        chain := b :: s.chain
        unposted := if last then s.unposted ++ [b] else s.unposted }
  | postChainEvents {b : Block} {unposted : List Block} (hu : s.unposted = b :: unposted) :
      ActionStep s .postChainEvents { s with unposted, events := s.events ++ [b] }
  | loop {opens : Bool} {t : Node} (h : LoopStep s opens t) : ActionStep s (.loop opens) t
  | startPropose {h : ℕ} {req : ProposeRequest} (hidle : s.handlers h = .idle) :
      ActionStep s (.startPropose h req) (s.setHandler h (.propose req .setSource))
  | startCommit {h : ℕ} {req : CommitRequest} (hidle : s.handlers h = .idle) :
      ActionStep s (.startCommit h req) (s.setHandler h (.commit req .checkCached))
  | handler {h : ℕ} {t : Node} (hstep : HandlerStep s h t) : ActionStep s (.handler h) t
  | receiveZero {h : ℕ} {i : UInt64} {p : Handler} (hsig : s.signal i = .closed)
      (hp : Receives (s.handlers h) i 0 p) : ActionStep s (.receive h) (s.setHandler h p)
  | receive {h : ℕ} {ev : Block} {tx : StateTransferTransaction}
      {rest : List StateTransferTransaction} {p : Handler} (hsig : s.signal tx.index = .opened)
      (hloop : s.loop = .send ev tx rest true)
      (hp : Receives (s.handlers h) tx.index (phaseOf tx).sig p) :
      ActionStep s (.receive h) ({ s with loop := .forget ev tx rest }.setHandler h p)
  | timeout {h : ℕ} {i : UInt64} {p : Handler} (hp : Expires (s.handlers h) i p) :
      ActionStep s (.timeout h) (s.setHandler h p)
  | readFreezeCache (hlock : s.loop.locked = false) :
      ActionStep s .readFreezeCache { s with
        freezeReadTxList := fun i => s.freezeReadTxList i || (s.freezeCache i).isSome }
  | readCommitted (hlock : s.loop.locked = false) :
      ActionStep s .readCommitted { s with
        committedReadTxList := fun i => s.committedReadTxList i || (s.committed i).isSome }
  | stop (hnone : s.visited = none) : ActionStep s .stop { s with visited := some [] }
  | closeNext {i : UInt64} {visited : List UInt64} (hv : s.visited = some visited)
      (hsig : s.signal i ≠ .absent) (hi : i ∉ visited) :
      ActionStep s (.closeNext i) ({ s with visited := some (i :: visited) }.closeSignal i)

/-- A receive: the channel is closed, or `reset` is blocked in the send. -/
theorem actionStep_of_recv {sig : ℕ} {p : Handler} (hrecv : recv s i = some (sig, t))
    (hp : Receives (s.handlers h) i sig p) : ActionStep s (.receive h) (t.setHandler h p) := by
  unfold recv at hrecv
  split at hrecv
  · cases hrecv
  · next hsig =>
    cases hrecv
    exact .receiveZero hsig hp
  · next hsig =>
    split at hrecv
    · next ev tx rest hloop =>
      split at hrecv
      · next hi =>
        cases hrecv
        subst hi
        exact .receive hsig hloop (signalOf_eq tx ▸ hp)
      · cases hrecv
    · cases hrecv

theorem actionStep_of_step (hstep : step s a = some t) : s.crashed = false ∧ ActionStep s a t := by
  obtain ⟨hc, hstep⟩ : s.crashed = false ∧ stepAction s a = some t := by
    simpa [step] using hstep
  refine ⟨hc, ?_⟩
  cases a with
  | insertBlock b last =>
    obtain ⟨hchild, rfl⟩ : isChild s b = true ∧ _ = t := by simpa [stepAction] using hstep
    exact .insertBlock hchild
  | postChainEvents =>
    simp only [stepAction] at hstep
    split at hstep
    · next b unposted hu =>
      split at hstep
      · cases hstep
        exact .postChainEvents hu
      · cases hstep
    · cases hstep
  | loop opens => exact .loop (loopStep_of_stepLoop hstep)
  | startPropose h req =>
    obtain ⟨hidle, rfl⟩ : s.handlers h = .idle ∧ _ = t := by simpa [stepAction] using hstep
    exact .startPropose hidle
  | startCommit h req =>
    obtain ⟨hidle, rfl⟩ : s.handlers h = .idle ∧ _ = t := by simpa [stepAction] using hstep
    exact .startCommit hidle
  | handler h => exact .handler (handler_move hstep).1
  | receive h =>
    simp only [stepAction, receive] at hstep
    split at hstep
    · next req side ftype hpc =>
      obtain ⟨⟨sig, u⟩, hr, rfl⟩ := Option.map_eq_some_iff.1 hstep
      exact actionStep_of_recv hr (hpc ▸ .propose req side ftype sig)
    · next req ftype hpc =>
      obtain ⟨⟨sig, u⟩, hr, rfl⟩ := Option.map_eq_some_iff.1 hstep
      exact actionStep_of_recv hr (hpc ▸ .commit req ftype sig)
    · cases hstep
  | timeout h =>
    simp only [stepAction, timeout] at hstep
    split at hstep
    · next req side ftype chan hpc =>
      cases hstep
      apply ActionStep.timeout
      rw [hpc]
      exact .propose req side ftype chan
    · next req ftype chan hpc =>
      cases hstep
      apply ActionStep.timeout
      rw [hpc]
      exact .commit req ftype chan
    · cases hstep
  | readFreezeCache =>
    obtain ⟨hlock, rfl⟩ := of_unlocked hstep
    exact .readFreezeCache hlock
  | readCommitted =>
    obtain ⟨hlock, rfl⟩ := of_unlocked hstep
    exact .readCommitted hlock
  | stop =>
    obtain ⟨hnone, rfl⟩ : s.visited = none ∧ _ = t := by simpa [stepAction] using hstep
    exact .stop hnone
  | closeNext i =>
    simp only [stepAction] at hstep
    split at hstep
    · next visited hv =>
      split at hstep
      · next h =>
        cases hstep
        exact .closeNext hv h.1 h.2
      · cases hstep
    · cases hstep

theorem ActionStep.quiet (h : ActionStep s a t) (ha : a.outside = true) : Quiet s t := by
  cases h with
  | insertBlock hchild => exact { chain := fun _ h => mem_cons_of_mem _ h }
  | postChainEvents hu | readFreezeCache hlock | readCommitted hlock | stop hnone => exact {}
  | closeNext hv hsig hi => exact Quiet.trans {} (Quiet.closeSignal _ _)
  | _ => cases ha

theorem Receives.receipt {q p : Handler} {sig : ℕ} (h : Receives q i sig p) :
    ∃ k, q.waits = some (k, i) ∧ Receipt k i sig p := by
  cases h with
  | propose req side ftype sig => exact ⟨.freeze, rfl, receipt_proposeSignal req side ftype sig⟩
  | commit req ftype sig => exact ⟨.commit, rfl, receipt_commitSignal req ftype sig⟩

/-- **The timer fires**: the handler stops waiting, and a `CommitHandler` will acknowledge. -/
theorem Expires.move {q p : Handler} (h : Expires q i p) :
    p.active = some i ∧ q.active = some i ∧ p.awaits = none ∧
      ∀ j, p.vouches = some j → q.waits = some (.commit, j) := by
  cases h with
  | propose req side ftype chan => exact ⟨rfl, rfl, rfl, nofun⟩
  | commit req ftype chan =>
    exact ⟨rfl, rfl, rfl, by simp [vouches, waits]⟩

theorem LoopStep.sorted {opens : Bool} (h : LoopStep s opens t) (hs : s.loop.Sorted) : t.loop.Sorted := by
  cases h with
  | seeFreeze hloop htx => exact htx
  | seeCommit hloop htx hnext => rcases hnext with ⟨-, rfl⟩ | ⟨-, rfl⟩ <;> trivial
  | panic hloop hsig => exact hs
  | forgetCommit hloop htx => exact htx
  | _ => trivial

theorem ActionStep.loop_cases (h : ActionStep s a t) :
    (∃ opens, LoopStep s opens t) ∨
      (∃ ev tx rest, s.loop = .send ev tx rest true ∧ t.loop = .forget ev tx rest) ∨
      t.loop = s.loop := by
  cases h with
  | loop hl => exact .inl ⟨_, hl⟩
  | handler hh =>
    cases hh with
    | close => exact .inr (.inr (Quiet.closeSignal s _).loop)
    | _ => exact .inr (.inr rfl)
  | receive hsig hloop hp => exact .inr (.inl ⟨_, _, _, hloop, rfl⟩)
  | closeNext hv hsig hi => exact .inr (.inr (Quiet.closeSignal _ _).loop)
  | _ => exact .inr (.inr rfl)

theorem ActionStep.sorted (h : ActionStep s a t) (hs : s.loop.Sorted) : t.loop.Sorted := by
  rcases h.loop_cases with ⟨opens, hl⟩ | ⟨ev, tx, rest, -, ht⟩ | ht
  · exact hl.sorted hs
  · rw [ht]
    trivial
  · rwa [ht]

/-! ## The transactions of the chain -/

theorem Quiet.inChain (hq : Quiet s t) (h : s.InChain tx) : t.InChain tx := by
  obtain ⟨b, hb, htx⟩ := h
  exact ⟨b, hq.chain b hb, htx⟩

theorem inChain_of_current (h : tx ∈ s.currentTransactions) : s.InChain tx := by
  unfold currentTransactions at h
  rcases hc : s.chain with _ | ⟨b, older⟩
  · simp [hc] at h
  · exact ⟨b, by simp [hc], by simpa [hc] using h⟩

theorem LoopStep.frame {opens : Bool} (h : LoopStep s opens t) :
    t.handlers = s.handlers ∧ t.chain = s.chain ∧
    ∀ tx ∈ t.loop.transactions, tx ∈ s.loop.transactions ∨ tx ∈ s.currentTransactions := by
  cases h with
  | take hloop | skip hloop | enter hloop | load hloop | fail hloop | finish hloop =>
    exact ⟨rfl, rfl, by simp [LoopPc.transactions]⟩
  | read hloop => exact ⟨rfl, rfl, fun tx h => .inr h⟩
  | seeFreeze hloop htx | sendFreeze hloop hp | forgetCommit hloop htx =>
    exact ⟨rfl, rfl, fun tx h => .inl (hloop ▸ h)⟩
  | seeCommit hloop htx hnext =>
    refine ⟨rfl, rfl, fun tx h => .inl ?_⟩
    rw [hloop]
    rcases hnext with ⟨-, rfl⟩ | ⟨-, rfl⟩ <;> exact h
  | passFreeze hloop hp | forgetFreeze hloop htx =>
    exact ⟨rfl, rfl, fun tx h => .inl (hloop ▸ mem_cons_of_mem _ h)⟩
  | panic hloop hsig => exact ⟨rfl, rfl, fun tx h => .inl h⟩
  | record hloop => exact ⟨rfl, rfl, fun tx h => .inl (hloop ▸ mem_cons_of_mem _ h)⟩

/-! ## The start -/

theorem init_induction {P : Node → Prop} (shardID : ShardID) (b : Block) (older : List Block)
    (hblank : P (blank shardID b older)) (habsorb : ∀ s tx, P s → P (s.absorb tx)) :
    P (init shardID b older) :=
  foldlRecOn b.stateTransferTransactions _ hblank fun s hs tx _ => habsorb s tx hs

theorem init_idle (shardID : ShardID) (b : Block) (older : List Block) :
    (∀ h, (init shardID b older).handlers h = .idle) ∧ (init shardID b older).loop = .idle := by
  refine init_induction (P := fun s => (∀ h, s.handlers h = .idle) ∧ s.loop = .idle) shardID b
    older ⟨fun _ => rfl, rfl⟩ fun s tx hs => ?_
  unfold absorb
  split <;> exact hs

/-! ## A small chain -/

/-- The action starts a handler. -/
def Action.starts : Action → Bool
  | .startPropose _ _ | .startCommit _ _ => true
  | _ => false

/-- The transaction 0 from shard 0 to shard 1, for the account at address 0. -/
def sampleTx (toFreeze : Bool) : StateTransferTransaction :=
  ⟨0, 1, 0, 0, some 0, 0, [], toFreeze, 0⟩

/-- A block of height `n` on the block before it. -/
def sampleBlock (n : ℕ) (txs : List StateTransferTransaction) : Block :=
  ⟨.ofNat n, BitVec.ofNat 256 n, BitVec.ofNat 256 (n - 1), txs, fun _ => 0, fun _ => 0⟩

/-- A node of shard 0 that has just started. -/
abbrev sampleNode : Node := init 0 (sampleBlock 0 []) []

/-- It has taken up the propose request of `frozenRun`. -/
abbrev sampleStarted : Node := sampleNode.setHandler 0 (.propose ⟨0, 1, 0, []⟩ .setSource)

theorem reach_sampleStarted {ok : Node → Action → Prop}
    (h : ok sampleNode (.startPropose 0 ⟨0, 1, 0, []⟩)) :
    Transition.Reach step ok sampleNode sampleStarted := .tail .refl h rfl

/-- A source follower registers the freeze, and is signalled when the block comes. -/
def frozenRun : List Action :=
  .startPropose 0 ⟨0, 1, 0, []⟩ :: replicate 7 (.handler 0) ++
    [.insertBlock (sampleBlock 1 [sampleTx true]) true, .postChainEvents, .loop, .loop, .loop,
      .loop, .loop, .loop, .receive 0, .loop, .loop, .handler 0, .handler 0, .handler 0]

end DyShard.Atomic.Follower
