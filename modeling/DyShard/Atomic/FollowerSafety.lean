import DyShard.Atomic.FollowerFrame

/-!
# What a follower's answers and waits are worth

A commit ACK is truthful unless a timer fires, and no signal is lost unless `reset` comes between a
look at the pool and the registration.
-/

namespace DyShard.Atomic.Follower

open Transition Function Node LoopPc Handler Option List

/-! ## Truthful acknowledgements -/

/-- An inserted block holds the commit transaction of the index. -/
def Node.Committed (s : Node) (i : UInt64) : Prop :=
  ∃ b ∈ s.chain, ∃ tx ∈ b.stateTransferTransactions, tx.toFreeze = false ∧ tx.index = i

/-- Whenever a `CommitHandler` has answered ACK, an inserted block holds the commit
transaction. -/
def AcksCommitted (s : Node) : Prop :=
  ∀ h res, s.handlers h = .committed res → res.acktype = .ack → s.Committed res.index

/-- The timer of a `CommitHandler` fires only once the commit is on the chain. -/
def timely (s : Node) : Action → Prop
  | .timeout h => ∀ k ∈ (s.handlers h).waits, k.1 = .commit → s.Committed k.2
  | _ => True

instance (s : Node) (i : UInt64) : Decidable (s.Committed i) := by
  unfold Committed
  infer_instance

instance (s : Node) : (a : Action) → Decidable (timely s a)
  | .timeout h => inferInstanceAs
    (Decidable (∀ k ∈ (s.handlers h).waits, k.1 = .commit → s.Committed k.2))
  | .insertBlock _ _ | .postChainEvents | .loop _ | .startPropose _ _ | .startCommit _ _
  | .handler _ | .receive _ | .readFreezeCache | .readCommitted | .stop | .closeNext _ =>
    .isTrue trivial

/-- Handlers vouch only for what is on the chain, and `reset` works only on that. -/
structure Truthful (s : Node) : Prop where
  vouches : ∀ h i, (s.handlers h).vouches = some i → s.Committed i
  loop : ∀ tx ∈ s.loop.transactions, s.InChain tx

variable {s : Node} {s' : Node} {i : UInt64} {a : Action} {j : UInt64}

theorem Quiet.isCommitted {t : Node} (hq : Quiet s t) (h : s.Committed i) :
    t.Committed i := by
  obtain ⟨b, hb, hi⟩ := h
  exact ⟨b, hq.chain b hb, hi⟩

namespace Truthful

variable {s t : Node}

theorem of_quiet (ht : Truthful s) (hq : Quiet s t) : Truthful t where
  vouches h i hv := hq.isCommitted (ht.vouches h i (hq.handlers ▸ hv))
  loop tx htx := hq.inChain (ht.loop tx (hq.loop ▸ htx))

theorem setHandler (ht : Truthful s) {h : ℕ} {p : Handler}
    (hp : ∀ i, p.vouches = some i → s.Committed i) : Truthful (s.setHandler h p) where
  vouches h' i hv := by
    by_cases hh : h' = h
    · subst hh
      exact hp i (by simpa [Node.setHandler] using hv)
    · exact ht.vouches h' i (by simpa [Node.setHandler, hh] using hv)
  loop := ht.loop

end Truthful

namespace Truthful

variable {s : Node}

theorem step_loop {opens : Bool} (ht : Truthful s) (hstep : LoopStep s opens s') : Truthful s' := by
  obtain ⟨hhandlers, hchain, htx⟩ := hstep.frame
  refine ⟨fun h i hv => ?_, fun tx h => ?_⟩
  · have hc := ht.vouches h i (hhandlers ▸ hv)
    simpa only [Committed, hchain] using hc
  · have hc : s.InChain tx := (htx tx h).elim (ht.loop tx) inChain_of_current
    simpa only [InChain, hchain] using hc

theorem step_handler {h : ℕ} (ht : Truthful s)
    (hstep : stepAction s (.handler h) = some s') : Truthful s' := by
  obtain ⟨-, t, p, rfl, hm⟩ := handler_move hstep
  refine (ht.of_quiet hm.quiet).setHandler fun i hi => ?_
  exact hm.quiet.isCommitted (ht.vouches h i (hm.vouches i hi))

theorem step_receive {h : ℕ} {ev : Block} {tx : StateTransferTransaction}
    {rest : List StateTransferTransaction} {p : Handler} (ht : Truthful s)
    (hl : s.loop = .send ev tx rest true) (hp : Receives (s.handlers h) tx.index (phaseOf tx).sig p) :
    Truthful ({ s with loop := .forget ev tx rest }.setHandler h p) := by
  obtain ⟨k, -, hreceipt⟩ := hp.receipt
  -- the signal 2 comes from a commit transaction that `reset` has read off the chain
  have ht' : Truthful { s with loop := .forget ev tx rest } :=
    ⟨ht.vouches, fun tx' h' => ht.loop tx' (by rw [hl]; exact h')⟩
  refine ht'.setHandler fun j hj => ?_
  obtain ⟨rfl, h2⟩ := hreceipt.vouches j hj
  obtain ⟨b, hb, htx⟩ := ht.loop tx (by simp [hl, transactions])
  refine ⟨b, hb, tx, htx, ?_, rfl⟩
  by_contra hf
  simp [phaseOf_freeze (by simpa using hf), Phase.sig] at h2

theorem step (ht : Truthful s) (hok : timely s a)
    (hstep : Follower.step s a = some s') : Truthful s' := by
  cases (actionStep_of_step hstep).2 with
  | loop hl => exact ht.step_loop hl
  | startPropose hidle | startCommit hidle => exact ht.setHandler (by simp [Handler.vouches])
  | handler hh => exact ht.step_handler (stepAction_of_step hstep)
  | receiveZero hsig hp =>
    obtain ⟨k, -, hreceipt⟩ := hp.receipt
    refine ht.setHandler fun j hj => ?_
    cases (hreceipt.vouches j hj).2
  | receive hsig hl hp => exact ht.step_receive hl hp
  | timeout hp => exact ht.setHandler fun j hj => hok _ (hp.move.2.2.2 j hj) rfl
  | _ => exact ht.of_quiet ((actionStep_of_step hstep).2.quiet rfl)

end Truthful

/-- **A commit ACK is truthful** if timers fire only after the commit has been inserted. -/
theorem acksCommitted_of_reach {shardID : ShardID} {b : Block} {older : List Block} {s : Node}
    (hreach : Reach step timely (init shardID b older) s) : AcksCommitted s := by
  obtain ⟨hidle, hloop⟩ := init_idle shardID b older
  have ht : Truthful s := by
    refine Reach.invariant ⟨?_, ?_⟩ (fun _ _ _ ht hok => ht.step hok) hreach
    · intro h i hv
      simp [hidle, Handler.vouches] at hv
    · simp [hloop, transactions]
  intro h res hres hack
  exact ht.vouches h res.index (by simp [hres, Handler.vouches, hack])

/-- The commit is registered, inserted and acknowledged. -/
theorem acksCommitted_committed :
    ∃ s res, Reach step timely sampleNode s ∧
      s.handlers 1 = .committed res ∧ AcksCommitted s := by
  have hrun : (exec (guarded step timely) sampleNode
      (flatten [frozenRun, [.startCommit 1 ⟨0, 1, [], 0, none⟩], replicate 6 (.handler 1),
        [.insertBlock (sampleBlock 2 [sampleTx false]) true, .postChainEvents, .loop, .loop,
          .loop, .loop, .loop, .receive 1, .loop, .loop, .loop, .handler 1]])).map (fun s => s.handlers 1) =
      some (.committed ⟨.ack, 0, .source⟩) := by decide +kernel
  obtain ⟨s, hs, hres⟩ := map_eq_some_iff.1 hrun
  have hreach := reach_of_exec_guarded hs
  exact ⟨s, _, hreach, hres, acksCommitted_of_reach hreach⟩

/-- **The timer acknowledges.**  No block with the commit comes; ten minutes later the
handler answers ACK. -/
theorem ack_without_commit :
    ∃ s res, Reach step anyStep sampleNode s ∧
      s.handlers 1 = .committed res ∧ res.acktype = .ack ∧ ¬ s.Committed res.index := by
  have hrun : (exec step sampleNode
      (flatten [frozenRun, [.startCommit 1 ⟨0, 1, [], 0, none⟩], replicate 6 (.handler 1),
        [.timeout 1, .handler 1, .handler 1]])).map
        (fun s => (s.handlers 1, decide (s.Committed 0))) =
      some (.committed ⟨.ack, 0, .source⟩, false) := by decide +kernel
  obtain ⟨s, hs, hres, hno⟩ := facts_of_map hrun
  exact ⟨s, _, reach_of_exec hs, hres, rfl, of_decide_eq_false hno⟩

/-! ## No lost signals -/

/-- No handler waits for a signal that `reset` has dealt with, unless a send is under way. -/
def NoLostSignal (s : Node) : Prop :=
  ∀ h k i, (s.handlers h).waits = some (k, i) → s.done k i = true → s.loop.Sends i

/-- A handler starts only when no other handler works on its index. -/
def alone (s : Node) : Action → Prop
  | .startPropose _ req => ∀ h, (s.handlers h).active ≠ some req.index
  | .startCommit _ req => ∀ h, (s.handlers h).active ≠ some req.index
  | _ => True

/-- A handler looks at the pool only before `reset` has started on its transaction. -/
def inTime (s : Node) : Action → Prop
  | .handler h => ∀ k ∈ (s.handlers h).registers, s.seen k.1 k.2 = false
  | _ => True

instance (s : Node) : (a : Action) → Decidable (inTime s a)
  | .handler h => inferInstanceAs (Decidable (∀ k ∈ (s.handlers h).registers, s.seen k.1 k.2 = false))
  | .insertBlock _ _ | .postChainEvents | .loop _ | .startPropose _ _ | .startCommit _ _
  | .receive _ | .timeout _ | .readFreezeCache | .readCommitted | .stop | .closeNext _ =>
    .isTrue trivial

/-- The two conditions together. -/
def punctual (s : Node) (a : Action) : Prop := alone s a ∧ inTime s a

/-- `reset` has not finished with the transaction, finds it in the cache and is not past its signal.
-/
structure Registered (s : Node) (k : Phase) (i : UInt64) : Prop where
  done : s.done k i = false
  pending : s.pending k i = true
  forgets : ¬ s.loop.Forgets k i

/-- What carries the property. -/
structure WaitInv (s : Node) : Prop where
  unique : ∀ h h' i, (s.handlers h).active = some i → (s.handlers h').active = some i → h = h'
  registered : ∀ h k i, (s.handlers h).awaits = some (k, i) → Registered s k i
  done_seen : ∀ k i, s.done k i = true → s.seen k i = true
  sorted : s.loop.Sorted
  holds_seen : ∀ k i, s.loop.Holds k i → s.seen k i = true
  cached_seen : ∀ i, (s.cached i).isSome = true → s.seen .freeze i = true
  committed_seen : ∀ i, s.committedTxList i = true → s.seen .commit i = true

theorem done_iff_freeze (hf : s'.freezeDone = update s.freezeDone j true)
    (hc : s'.commitDone = s.commitDone) (k : Phase) (i : UInt64) :
    s'.done k i = true ↔ (k = .freeze ∧ i = j) ∨ s.done k i = true := by
  cases k <;> by_cases hij : i = j <;> simp [done, hf, hc, hij]

theorem done_iff_commit (hc : s'.commitDone = update s.commitDone j true)
    (hf : s'.freezeDone = s.freezeDone) (k : Phase) (i : UInt64) :
    s'.done k i = true ↔ (k = .commit ∧ i = j) ∨ s.done k i = true := by
  cases k <;> by_cases hij : i = j <;> simp [done, hf, hc, hij]

theorem update_of_true (f : UInt64 → Bool) (j : UInt64) (h : f i = true) :
    update f j true i = true := by
  by_cases hij : i = j
  · simp [hij]
  · simpa [hij] using h

namespace WaitInv

variable {s s' t : Node}

section

variable (hi : WaitInv s)
include hi

theorem noLostSignal : NoLostSignal s := by
  intro h k i hw hd
  rw [(hi.registered h k i (awaits_of_waits hw)).done] at hd
  cases hd

theorem of_quiet (hq : Quiet s t) : WaitInv t where
  unique h h' i := by
    rw [hq.handlers]
    exact hi.unique h h' i
  registered h k i ha := by
    rw [hq.handlers] at ha
    obtain ⟨hd, hp, hf⟩ := hi.registered h k i ha
    exact ⟨hq.done ▸ hd, hq.pending k i hp, hq.loop ▸ hf⟩
  done_seen := by
    rw [hq.done, hq.seen]
    exact hi.done_seen
  sorted := hq.loop ▸ hi.sorted
  holds_seen := by
    rw [hq.loop, hq.seen]
    exact hi.holds_seen
  cached_seen i hc := by
    rw [hq.seen]
    exact hi.cached_seen i (hq.cached i hc)
  committed_seen := by
    rw [hq.committedTxList, hq.seen]
    exact hi.committed_seen

variable {h : ℕ} {p : Handler}

/-- A handler may move on if it keeps its index to itself and is registered for whatever
it goes on to wait for. -/
theorem setHandler
    (hactive : ∀ i, p.active = some i → ∀ h', (s.handlers h').active = some i → h' = h)
    (hawaits : ∀ k i, p.awaits = some (k, i) → Registered s k i) :
    WaitInv (s.setHandler h p) where
  unique h₁ h₂ i h1 h2 := by
    simp only [Node.setHandler, update_apply] at h1 h2
    split_ifs at h1 h2 with e1 e2 e2
    · rw [e1, e2]
    · rw [e1, hactive i h1 h₂ h2]
    · rw [e2, hactive i h2 h₁ h1]
    · exact hi.unique h₁ h₂ i h1 h2
  registered h' k i ha := by
    simp only [Node.setHandler, update_apply] at ha
    split_ifs at ha with e
    · obtain ⟨hd, hp, hf⟩ := hawaits k i ha
      exact ⟨hd, hp, hf⟩
    · obtain ⟨hd, hp, hf⟩ := hi.registered h' k i ha
      exact ⟨hd, hp, hf⟩
  done_seen := hi.done_seen
  sorted := hi.sorted
  holds_seen := hi.holds_seen
  cached_seen := hi.cached_seen
  committed_seen := hi.committed_seen

theorem of_loop (hhandlers : s'.handlers = s.handlers) (hsorted : s'.loop.Sorted)
    (hreg : ∀ k i, Registered s k i → Registered s' k i)
    (hseen : ∀ k i, s.seen k i = true → s'.seen k i = true)
    (hdone : ∀ k i, s'.done k i = true → s.done k i = true ∨ s'.seen k i = true)
    (hholds : ∀ k i, s'.loop.Holds k i → s.loop.Holds k i ∨ s'.seen k i = true)
    (hcached : ∀ i, (s'.cached i).isSome = true →
      (s.cached i).isSome = true ∨ s'.seen .freeze i = true)
    (hlist : ∀ i, s'.committedTxList i = true →
      s.committedTxList i = true ∨ s'.seen .commit i = true) : WaitInv s' where
  unique h h' i := by
    rw [hhandlers]
    exact hi.unique h h' i
  registered h k i ha := hreg k i (hi.registered h k i (hhandlers ▸ ha))
  done_seen k i hd := (hdone k i hd).elim (fun h => hseen k i (hi.done_seen k i h)) id
  sorted := hsorted
  holds_seen k i hh := (hholds k i hh).elim (fun h => hseen k i (hi.holds_seen k i h)) id
  cached_seen i hc := (hcached i hc).elim (fun h => hseen .freeze i (hi.cached_seen i h)) id
  committed_seen i hc :=
    (hlist i hc).elim (fun h => hseen .commit i (hi.committed_seen i h)) id

theorem of_loop_only (hhandlers : s'.handlers = s.handlers) (hsorted : s'.loop.Sorted)
    (hseen : s'.seen = s.seen) (hdone : s'.done = s.done) (hpending : s'.pending = s.pending)
    (hcached : s'.cached = s.cached) (hlist : s'.committedTxList = s.committedTxList)
    (hforgets : ∀ k i, Registered s k i → ¬ s'.loop.Forgets k i)
    (hholds : ∀ k i, s'.loop.Holds k i → s.loop.Holds k i) : WaitInv s' := by
  refine hi.of_loop hhandlers hsorted (fun k i hr => ?_) (fun k i h => hseen ▸ h)
    (fun k i h => .inl (hdone ▸ h)) (fun k i h => .inl (hholds k i h))
    (fun i h => .inl (hcached ▸ h)) fun i h => .inl (hlist ▸ h)
  exact ⟨hdone ▸ hr.done, hpending ▸ hr.pending, hforgets k i hr⟩

theorem of_finish {k : Phase} (hheld : s.loop.Holds k j) (hfree : ¬ Registered s k j)
    (hhandlers : s'.handlers = s.handlers)
    (hdone : ∀ k' i, s'.done k' i = true ↔ (k' = k ∧ i = j) ∨ s.done k' i = true)
    (hpending : ∀ k' i, Registered s k' i → s'.pending k' i = true)
    (hlist : ∀ i, s'.committedTxList i = true → s.committedTxList i = true ∨ (k = .commit ∧ i = j))
    (hloop : ∃ ev rest, s'.loop = .next ev rest) (hseen : s'.seen = s.seen)
    (hcached : s'.cached = s.cached) : WaitInv s' := by
  obtain ⟨ev, rest, hloop⟩ := hloop
  have hkj : s'.seen k j = true := hseen ▸ hi.holds_seen k j hheld
  refine hi.of_loop hhandlers (by rw [hloop]; trivial) (fun k' i hr => ⟨?_, hpending k' i hr, ?_⟩)
    (fun k' i h => hseen ▸ h) (fun k' i h => ?_) (by simp [hloop, Holds])
    (fun i h => .inl (hcached ▸ h)) (fun i h => ?_)
  · rw [Bool.eq_false_iff, ne_eq, hdone]
    rintro (⟨rfl, rfl⟩ | hd)
    · exact hfree hr
    · rw [hr.done] at hd
      cases hd
  · simp [hloop, Forgets]
  · rcases (hdone k' i).1 h with ⟨rfl, rfl⟩ | hd
    · exact .inr hkj
    · exact .inl hd
  · rcases hlist i h with hl | ⟨rfl, rfl⟩
    · exact .inl hl
    · exact .inr hkj

theorem step_loop {opens : Bool} (hstep : LoopStep s opens s') : WaitInv s' := by
  cases hstep with
  | take hl | skip hl | enter hl | load hl | fail hl | read hl | finish hl =>
    exact hi.of_loop_only rfl trivial rfl rfl rfl rfl rfl (by simp [Forgets]) (by simp [Holds])
  | @seeFreeze ev tx rest hl htx =>
    refine hi.of_loop rfl htx (fun k i hr => ⟨hr.done, hr.pending, id⟩)
      (fun k i h => ?_) (fun k i h => .inl h) (fun k i h => .inr ?_) (fun i h => ?_)
      fun i h => .inl h
    · cases k with
      | freeze => exact update_of_true _ _ h
      | commit => exact h
    · obtain ⟨hk, rfl⟩ := h
      rw [htx] at hk
      subst hk
      exact update_self ..
    · by_cases hix : i = tx.index
      · subst hix
        exact .inr (update_self ..)
      · refine .inl ?_
        simp only [addCachedTransaction] at h
        split at h
        · exact h
        · simpa [hix] using h
  | @seeCommit ev tx rest loop hl htx hnext =>
    refine hi.of_loop rfl ?_ (fun k i hr => ⟨hr.done, hr.pending, ?_⟩)
      (fun k i h => ?_) (fun k i h => .inl h) (fun k i h => .inr ?_) (fun i h => .inl h)
      fun i h => .inl h
    · rcases hnext with ⟨-, rfl⟩ | ⟨-, rfl⟩ <;> trivial
    · -- a registered commit is in the cache, so `reset` goes on to signal it
      rcases hnext with ⟨-, rfl⟩ | ⟨hc, rfl⟩
      · exact id
      · rintro ⟨rfl, rfl⟩
        rw [htx] at hr
        rw [hr.pending] at hc
        cases hc
    · cases k with
      | freeze => exact h
      | commit => exact update_of_true _ _ h
    · have hk : phaseOf tx = k ∧ tx.index = i := by
        rcases hnext with ⟨-, rfl⟩ | ⟨-, rfl⟩ <;> exact h
      obtain ⟨rfl, rfl⟩ := hk
      rw [htx]
      exact update_self ..
  | sendFreeze hl hp =>
    exact hi.of_loop_only rfl trivial rfl rfl rfl rfl rfl (by simp [Forgets])
      fun k i h => by rw [hl]; exact h
  | @passFreeze ev tx rest hl hp =>
    have hfreeze : phaseOf tx = .freeze := by simpa [hl, Sorted] using hi.sorted
    -- nobody has registered for the freeze, so nobody misses the signal
    refine hi.of_finish (by rw [hl]; exact ⟨hfreeze, rfl⟩) (fun hr => ?_) rfl
      (done_iff_freeze rfl rfl) (fun k' i hr => hr.pending) (fun i h => .inl h) ⟨ev, rest, rfl⟩
      rfl rfl
    rw [hr.pending] at hp
    cases hp
  | panic hl hsig =>
    exact hi.of_loop_only rfl hi.sorted rfl rfl rfl rfl rfl (fun k i hr => hr.forgets)
      fun k i h => h
  | @forgetFreeze ev tx rest hl htx =>
    have hfree : ¬ Registered s .freeze tx.index := fun hr =>
      hr.forgets (by rw [hl]; exact ⟨htx, rfl⟩)
    refine hi.of_finish (by rw [hl]; exact ⟨htx, rfl⟩) hfree rfl
      (done_iff_freeze rfl rfl) (fun k' i hr => ?_) (fun i h => .inl h) ⟨ev, rest, rfl⟩ rfl rfl
    cases k' with
    | freeze =>
      have hne : i ≠ tx.index := fun he => hfree (he ▸ hr)
      simpa [pending, deleteTxFromFreeze, hne] using hr.pending
    | commit => exact hr.pending
  | @forgetCommit ev tx rest hl htx =>
    have hfree : ¬ Registered s .commit tx.index := fun hr =>
      hr.forgets (by rw [hl]; exact ⟨htx, rfl⟩)
    refine hi.of_loop rfl htx (fun k' i hr => ⟨hr.done, ?_, ?_⟩)
      (fun k i h => h) (fun k i h => .inl h) (fun k i h => .inl (by rw [hl]; exact h))
      (fun i h => .inl h) fun i h => .inl h
    · cases k' with
      | freeze => exact hr.pending
      | commit =>
        have hne : i ≠ tx.index := fun he => hfree (he ▸ hr)
        simpa [pending, deleteTxFromCommitted, hne] using hr.pending
    · rintro ⟨hk, rfl⟩
      rw [htx] at hk
      exact hfree (hk ▸ hr)
  | @record ev tx rest hl =>
    have hcommit : phaseOf tx = .commit := by simpa [hl, Sorted] using hi.sorted
    refine hi.of_finish (by rw [hl]; exact ⟨hcommit, rfl⟩)
      (fun hr => hr.forgets (by rw [hl]; exact ⟨hcommit, rfl⟩)) rfl (done_iff_commit rfl rfl)
      (fun k' i hr => hr.pending) (fun i h => ?_) ⟨ev, rest, rfl⟩ rfl rfl
    by_cases hix : i = tx.index
    · exact .inr ⟨rfl, hix⟩
    · exact .inl (by simpa [recordCommittedTx, hix] using h)

theorem step_handler (hok : inTime s (.handler h)) (hstep : stepAction s (.handler h) = some s') :
    WaitInv s' := by
  obtain ⟨-, t, p, rfl, hm⟩ := handler_move hstep
  have ht := hi.of_quiet hm.quiet
  refine ht.setHandler (fun i ha h' ha' => ?_) fun k i ha => ?_
  · exact ht.unique h' h i ha' (by rw [hm.quiet.handlers]; exact hm.active i ha)
  · rcases hm.awaits k i ha with hw | ⟨hreg, hhow⟩
    · exact ht.registered h k i (by rw [hm.quiet.handlers]; exact hw)
    · -- a handler that looks in time finds nothing, so it has registered
      have hnew : s.seen k i = false := hok (k, i) hreg
      rcases hhow with ⟨hlock, hp⟩ | ⟨rfl, hc⟩ | ⟨rfl, hc⟩
      · refine ⟨?_, hp, ?_⟩
        · rw [Bool.eq_false_iff]
          intro hd
          have := ht.done_seen k i hd
          rw [hm.quiet.seen, hnew] at this
          cases this
        · rw [hm.quiet.loop]
          exact not_forgets_of_unlocked hlock k i
      · rw [hi.cached_seen i hc] at hnew
        cases hnew
      · rw [hi.committed_seen i hc] at hnew
        cases hnew

theorem step_receiveZero (hp : Receives (s.handlers h) i 0 p) :
    WaitInv (s.setHandler h p) := by
  obtain ⟨k, hw, hreceipt⟩ := hp.receipt
  have ha := awaits_of_waits hw
  refine hi.setHandler (fun j hj h' h1 => ?_) fun k' j hj => ?_
  · obtain rfl := hreceipt.active j hj
    exact hi.unique h' h j h1 (active_of_awaits ha)
  · obtain ⟨rfl, rfl, -⟩ := hreceipt.awaits k' j hj
    exact hi.registered h k' j ha

/-- The send is complete: whoever received the signal was the only one to want it. -/
theorem step_receive {ev : Block} {tx : StateTransferTransaction}
    {rest : List StateTransferTransaction} (hl : s.loop = .send ev tx rest true)
    (hp : Receives (s.handlers h) tx.index (phaseOf tx).sig p) :
    WaitInv ({ s with loop := .forget ev tx rest }.setHandler h p) := by
  obtain ⟨k, hw, hreceipt⟩ := hp.receipt
  have ha := awaits_of_waits hw
  have halone : ∀ h', (s.handlers h').active = some tx.index → h' = h := fun h' h1 =>
    hi.unique h' h tx.index h1 (active_of_awaits ha)
  have hreg : ∀ k' j, Registered s k' j → ¬ (phaseOf tx = k' ∧ tx.index = j) →
      Registered ({ s with loop := .forget ev tx rest }.setHandler h p) k' j :=
    fun k' j hr hne => ⟨hr.done, hr.pending, hne⟩
  refine ⟨fun h₁ h₂ j h1 h2 => ?_, fun h' k' j hj => ?_, hi.done_seen, trivial,
    fun k' j hj => hi.holds_seen k' j (by rw [hl]; exact hj), hi.cached_seen, hi.committed_seen⟩
  · simp only [Node.setHandler, update_apply] at h1 h2
    split_ifs at h1 h2 with e1 e2 e2
    · rw [e1, e2]
    · cases hreceipt.active j h1
      rw [e1, halone h₂ h2]
    · cases hreceipt.active j h2
      rw [e2, halone h₁ h1]
    · exact hi.unique h₁ h₂ j h1 h2
  · simp only [Node.setHandler, update_apply] at hj
    split_ifs at hj with e
    · obtain ⟨rfl, rfl, hsig⟩ := hreceipt.awaits k' j hj
      exact hreg k' tx.index (hi.registered h k' _ ha) fun hk => hsig (by rw [hk.1])
    · exact hreg k' j (hi.registered h' k' j hj) fun hk =>
        e (halone h' (hk.2 ▸ active_of_awaits hj))

theorem step_start (hp : p.active = some i) (hw : p.awaits = none)
    (halone : ∀ h', (s.handlers h').active ≠ some i) : WaitInv (s.setHandler h p) := by
  refine hi.setHandler (fun j hj h' h1 => ?_) fun k j hj => ?_
  · rw [hp] at hj
    cases hj
    exact absurd h1 (halone h')
  · rw [hw] at hj
    cases hj

theorem step (hok : punctual s a) (hstep : Follower.step s a = some s') :
    WaitInv s' := by
  cases (actionStep_of_step hstep).2 with
  | loop hl => exact hi.step_loop hl
  | startPropose hidle | startCommit hidle => exact hi.step_start rfl rfl hok.1
  | handler hh => exact hi.step_handler hok.2 (stepAction_of_step hstep)
  | receiveZero hsig hp => exact hi.step_receiveZero hp
  | receive hsig hl hp => exact hi.step_receive hl hp
  | @timeout h i p hp =>
    obtain ⟨hnew, hold, hw, -⟩ := hp.move
    refine hi.setHandler (fun j hj h' h1 => ?_) fun k j hj => ?_
    · rw [hnew] at hj
      cases hj
      exact hi.unique h' h i h1 hold
    · rw [hw] at hj
      cases hj
  | _ => exact hi.of_quiet ((actionStep_of_step hstep).2.quiet rfl)

end

end WaitInv

/-- The part of `WaitInv` that is about the pool. -/
structure PoolSeen (s : Node) : Prop where
  done : ∀ k i, s.done k i = true → s.seen k i = true
  cached : ∀ i, (s.cached i).isSome = true → s.seen .freeze i = true
  committed : ∀ i, s.committedTxList i = true → s.seen .commit i = true

theorem PoolSeen.absorb (hs : PoolSeen s) (tx : StateTransferTransaction) :
    PoolSeen (s.absorb tx) := by
  unfold Node.absorb
  split
  · refine ⟨fun k i hd => ?_, fun i hc => ?_, hs.committed⟩
    · cases k with
      | freeze =>
        by_cases hix : i = tx.index
        · simp [seen, hix]
        · have hd' : s.done .freeze i = true := by simpa [Node.done, hix] using hd
          exact update_of_true _ _ (hs.done .freeze i hd')
      | commit => exact hs.done .commit i hd
    · by_cases hix : i = tx.index
      · simp [seen, hix]
      · refine update_of_true _ _ (hs.cached i ?_)
        simp only [addCachedTransaction] at hc
        split at hc
        · exact hc
        · simpa [hix] using hc
  · refine ⟨fun k i hd => ?_, hs.cached, fun i hc => ?_⟩
    · cases k with
      | freeze => exact hs.done .freeze i hd
      | commit =>
        by_cases hix : i = tx.index
        · simp [seen, hix]
        · have hd' : s.done .commit i = true := by simpa [Node.done, hix] using hd
          exact update_of_true _ _ (hs.done .commit i hd')
    · by_cases hix : i = tx.index
      · simp [seen, hix]
      · refine update_of_true _ _ (hs.committed i ?_)
        simpa [recordCommittedTx, hix] using hc

theorem waitInv_init (shardID : ShardID) (b : Block) (older : List Block) :
    WaitInv (init shardID b older) := by
  obtain ⟨hidle, hloop⟩ := init_idle shardID b older
  have hpool : PoolSeen (init shardID b older) := by
    refine init_induction shardID b older ⟨fun k i h => ?_, by simp [blank], by simp [blank]⟩
      fun s tx hs => hs.absorb tx
    cases k <;> simp [done, blank] at h
  refine ⟨fun h h' i ha => ?_, fun h k i ha => ?_, hpool.done, ?_, fun k i hh => ?_, hpool.cached,
    hpool.committed⟩
  · simp [hidle, active] at ha
  · simp [hidle, awaits] at ha
  · simp [hloop, Sorted]
  · simp [hloop, Holds] at hh

/-- **No lost signal** if handlers of one index do not overlap and look at the pool before `reset`
starts on their transaction. -/
theorem noLostSignal_of_reach {shardID : ShardID} {b : Block} {older : List Block} {s : Node}
    (hreach : Reach step punctual (init shardID b older) s) : NoLostSignal s :=
  (Reach.invariant (waitInv_init shardID b older)
    (fun _ _ _ hi hok => hi.step hok) hreach).noLostSignal

theorem alone_of_not_starts (s : Node) (ha : a.starts = false) : alone s a := by
  cases a <;> simp_all [alone, Action.starts]

/-- The follower of `frozenRun`, up to its wait. -/
theorem noLostSignal_waiting :
    ∃ s, Reach step punctual sampleNode s ∧
      (s.handlers 0).waits = some (.freeze, 0) ∧ NoLostSignal s := by
  have hstart : ∀ h, (sampleNode.handlers h).active ≠ some 0 := by
    simp [init_idle, active]
  have hfirst : Reach step punctual sampleNode sampleStarted :=
    reach_sampleStarted ⟨hstart, trivial⟩
  have hrun : (exec (guarded step fun s a => a.starts = false ∧ inTime s a) sampleStarted
      (replicate 7 (.handler 0))).map (fun s => (s.handlers 0).waits) =
      some (some (.freeze, 0)) := by decide +kernel
  obtain ⟨s, hs, hw⟩ := map_eq_some_iff.1 hrun
  have hrest : Reach step punctual _ s :=
    (reach_of_exec_guarded hs).mono fun s a ha => ⟨alone_of_not_starts s ha.1, ha.2⟩
  exact ⟨s, hfirst.trans hrest, hw, noLostSignal_of_reach (hfirst.trans hrest)⟩

/-- **A lost signal**: the handler finds nothing in `cached`; `reset` deals with the freeze and
finds nobody to signal; the handler registers, and waits for ever. -/
theorem signal_lost_before_registration :
    ∃ s, Reach step anyStep sampleNode s ∧
      (s.handlers 0).waits = some (.freeze, 0) ∧ s.signal 0 = .opened ∧
      s.done .freeze 0 = true ∧ ¬ s.loop.Sends 0 := by
  have hrun : (exec step sampleNode
      (flatten [[.startPropose 0 ⟨0, 1, 0, []⟩], replicate 3 (.handler 0),
        [.insertBlock (sampleBlock 1 [sampleTx true]) true, .postChainEvents],
        replicate 7 .loop, replicate 4 (.handler 0)])).map
        (fun s => ((s.handlers 0).waits, s.signal 0, s.done .freeze 0, s.loop.locked)) =
      some (some (.freeze, 0), .opened, true, false) := by decide +kernel
  obtain ⟨s, hs, hst⟩ := map_eq_some_iff.1 hrun
  simp only [Prod.mk.injEq] at hst
  obtain ⟨hw, hopen, hd, hl⟩ := hst
  exact ⟨s, reach_of_exec hs, hw, hopen, hd, not_sends_of_unlocked hl 0⟩

end DyShard.Atomic.Follower
