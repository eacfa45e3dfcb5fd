import DyShard.Atomic.FollowerPool

/-!
# How the commit pool follows the chain

`reset` is called with the block of an event, but takes the transactions from the current block; a
batch of inserted blocks posts one event; and an event whose block is not a child of the last one
is skipped.
-/

namespace DyShard.Atomic.Follower

open Transition List Node LoopPc

/-! ## The property -/

/-- A freeze is not in `freezeCache`, a commit is in `committedTxList` and not in `committed`. -/
def Node.Reflects (s : Node) (tx : StateTransferTransaction) : Prop :=
  s.pending (phaseOf tx) tx.index = false ∧
    (phaseOf tx = .commit → s.committedTxList tx.index = true)

/-- The blocks inserted since the node has started on `n` blocks, the latest first. -/
def Node.inserted (s : Node) (n : ℕ) : List Block := s.chain.take (s.chain.length - n)

/-- The pool reflects every inserted block up to the one of the last event it has handled. -/
def FollowsChain (n : ℕ) (s : Node) : Prop :=
  ∀ k, (s.inserted n)[k]? = some s.head → ∀ b ∈ (s.inserted n).drop k,
    ∀ tx ∈ b.stateTransferTransactions, s.Reflects tx

/-! ## The condition -/

/-- The event whose `reset` has not read the chain's current block yet. -/
def LoopPc.locking : LoopPc → List Block
  | .lock ev | .opening ev | .current ev => [ev]
  | _ => []

/-- The block that `reset` works on. -/
def LoopPc.working : LoopPc → List Block
  | .idle | .lock _ | .opening _ | .current _ => []
  | .next ev _ | .checkFreeze ev _ _ | .send ev _ _ _ | .forget ev _ _ | .record ev _ _ => [ev]

/-- The blocks that `reset` has not taken up yet. -/
def Node.queue (s : Node) : List Block := s.loop.locking ++ s.events ++ s.unposted

/-- The transaction that a handler is about to put into the pool. -/
def Handler.adds : Handler → Option (Phase × UInt64)
  | .propose req .addFreeze => some (.freeze, req.index)
  | .commit req .addCommitted => some (.commit, req.index)
  | _ => none

/-- Blocks come one by one, after `reset` has read the one before, their states can be opened, and a
handler registers only what `reset` has not seen. -/
def steady (s : Node) : Action → Prop
  | .insertBlock _ last => last = true ∧ s.queue = []
  | .loop opens => opens = true
  | .handler h => ∀ k ∈ (s.handlers h).adds, s.seen k.1 k.2 = false
  | _ => True

instance (s : Node) : (a : Action) → Decidable (steady s a)
  | .insertBlock _ last => inferInstanceAs (Decidable (last = true ∧ s.queue = []))
  | .handler h => inferInstanceAs (Decidable (∀ k ∈ (s.handlers h).adds, s.seen k.1 k.2 = false))
  | .loop opens => inferInstanceAs (Decidable (opens = true))
  | .postChainEvents | .startPropose _ _ | .startCommit _ _ | .receive _ | .timeout _
  | .readFreezeCache | .readCommitted | .stop | .closeNext _ => .isTrue trivial

/-! ## What is settled stays settled -/

/-- `reset` has seen the transaction, and the pool reflects it. -/
structure Settled (s : Node) (tx : StateTransferTransaction) : Prop where
  seen : s.seen (phaseOf tx) tx.index = true
  reflects : s.Reflects tx

/-- What a step may do to the pool if what is settled is to stay so. -/
structure Retains (s t : Node) : Prop where
  seen : ∀ k i, s.seen k i = true → t.seen k i = true
  listed : ∀ i, s.committedTxList i = true → t.committedTxList i = true
  pending : ∀ k i, t.pending k i = true → s.pending k i = true ∨ s.seen k i = false

variable {s t : Node}

theorem Retains.of_eq (hseen : t.seen = s.seen) (hlist : t.committedTxList = s.committedTxList)
    (hpending : t.pending = s.pending := by funext k; cases k <;> rfl) :
    Retains s t where
  seen _ _ h := hseen ▸ h
  listed _ h := hlist ▸ h
  pending _ _ h := .inl (hpending ▸ h)

theorem Settled.retain {tx : StateTransferTransaction} (h : Settled s tx) (hr : Retains s t) :
    Settled t tx := by
  refine ⟨hr.seen _ _ h.seen, ?_, fun hc => hr.listed _ (h.reflects.2 hc)⟩
  by_contra hp
  rcases hr.pending _ _ (by simpa using hp) with hs | hs
  · rw [h.reflects.1] at hs
    cases hs
  · rw [h.seen] at hs
    cases hs

theorem pending_addFreezeTransaction_iff (s : Node) (i : UInt64) (source target : ShardID)
    (a : Address) (k : Phase) (j : UInt64) :
    (s.addFreezeTransaction i source target a).pending k j = true ↔
      (k = .freeze ∧ j = i) ∨ s.pending k j = true := by
  cases k with
  | freeze =>
    by_cases hji : j = i <;> simp [pending, addFreezeTransaction, initSignal, hji]
  | commit => simp [pending, addFreezeTransaction, initSignal]

theorem pending_addCommittedTransaction_iff (s : Node) (source target : ShardID) (a : Address)
    (i : UInt64) (d : StateData) (k : Phase) (j : UInt64) :
    (s.addCommittedTransaction source target a i d).pending k j = true ↔
      (k = .commit ∧ j = i) ∨ s.pending k j = true := by
  cases k with
  | freeze => simp [pending, addCommittedTransaction]
  | commit =>
    by_cases hji : j = i
    · simp only [pending, addCommittedTransaction]
      split <;> simp_all
    · simp only [pending, addCommittedTransaction]
      split <;> simp [hji]

theorem retains_handler {h : ℕ} (hok : steady s (.handler h)) (hstep : HandlerStep s h t) :
    Retains s t := by
  cases hstep with
  | proceed p followerType cached hp => exact .of_eq rfl rfl
  | @addFreeze req hpc hlock =>
    refine ⟨fun k i h => h, fun i h => h, fun k i h => ?_⟩
    rcases (pending_addFreezeTransaction_iff s _ _ _ _ k i).1 h with ⟨rfl, rfl⟩ | hp
    · exact .inr (hok (.freeze, req.index) (by rw [hpc]; rfl))
    · exact .inl hp
  | @addCommitted req hpc hlock =>
    refine ⟨fun k i h => h, fun i h => h, fun k i h => ?_⟩
    rcases (pending_addCommittedTransaction_iff s _ _ _ _ _ k i).1 h with ⟨rfl, rfl⟩ | hp
    · exact .inr (hok (.commit, req.index) (by rw [hpc]; rfl))
    · exact .inl hp
  | @close i p hpc hlock hactive hengaged hcloses hlistens =>
    have hq := Quiet.closeSignal s i
    refine .of_eq hq.seen hq.committedTxList ?_
    funext k
    unfold closeSignal
    split <;> cases k <;> rfl

/-- `reset` is about to take the transaction out of its cache. -/
def LoopPc.Drops : LoopPc → Phase → UInt64 → Prop
  | .forget _ tx _, k, i => phaseOf tx = k ∧ tx.index = i
  | _, _, _ => False

theorem LoopStep.pending {opens : Bool} (h : LoopStep s opens t) {k : Phase} {i : UInt64}
    (hp : t.pending k i = true) : s.pending k i = true ∧ ¬ s.loop.Drops k i := by
  cases h with
  | @forgetFreeze ev tx rest hloop htx | @forgetCommit ev tx rest hloop htx =>
    by_cases hi : tx.index = i
    · subst hi
      cases k <;> simp_all [pending, deleteTxFromFreeze, deleteTxFromCommitted, Drops]
    · cases k <;> simp_all [pending, deleteTxFromFreeze, deleteTxFromCommitted, Drops, Ne.symm]
  | _ hloop => exact ⟨by cases k <;> exact hp, by simp [hloop, Drops]⟩

theorem retains_loop {opens : Bool} (hstep : LoopStep s opens t) : Retains s t := by
  have hr := readStep_loop hstep
  refine ⟨hr.seen_mono, ?_, fun k i hp => .inl (hstep.pending hp).1⟩
  cases hstep with
  | @record ev tx rest hloop =>
    intro i hi
    by_cases hti : i = tx.index <;> simp_all [recordCommittedTx]
  | _ => exact fun i hi => hi

/-! ## `reset` settles the block it works on -/

/-- What holds of `reset` while it goes through its block. -/
structure Working (s : Node) : Prop where
  work : ∀ ev ∈ s.loop.working, ∀ tx ∈ ev.stateTransferTransactions,
    tx ∈ s.loop.transactions ∨ Settled s tx
  sorted : s.loop.Sorted
  held : ∀ k i, s.loop.Holds k i → s.seen k i = true
  dropped : ∀ ev tx rest, s.loop = .record ev tx rest → s.pending .commit tx.index = false

theorem working_of_idle (h : s.loop.working = []) : Working s := by
  refine ⟨by simp [h], ?_, ?_, ?_⟩
  · cases hl : s.loop <;> simp_all [working, Sorted]
  · intro k i hk
    cases hl : s.loop <;> simp_all [working, Holds]
  · intro ev tx rest hl
    simp [hl, working] at h

theorem Working.retain (h : Working s) (hr : Retains s t) (hloop : t.loop = s.loop) :
    Working t := by
  refine ⟨?_, hloop ▸ h.sorted, ?_, ?_⟩
  · rw [hloop]
    intro ev hev tx htx
    exact (h.work ev hev tx htx).imp_right fun hs => hs.retain hr
  · rw [hloop]
    intro k i hk
    exact hr.seen k i (h.held k i hk)
  · intro ev tx rest hl
    rw [hloop] at hl
    by_contra hp
    rcases hr.pending _ _ (by simpa using hp) with hs | hs
    · rw [h.dropped ev tx rest hl] at hs
      cases hs
    · have hc : phaseOf tx = .commit := by simpa [hl, Sorted] using h.sorted
      rw [h.held .commit tx.index (by rw [hl]; exact ⟨hc, rfl⟩)] at hs
      cases hs

theorem Working.settle {ev : Block} {tx : StateTransferTransaction}
    {rest : List StateTransferTransaction} {pc : LoopPc} (h : Working s) (hr : Retains s t)
    (hpc : s.loop = pc) (hwork : pc.working = [ev]) (htxs : pc.transactions = tx :: rest)
    (hholds : pc.Holds (phaseOf tx) tx.index) (hloop : t.loop = .next ev rest)
    (hpending : t.pending (phaseOf tx) tx.index = false)
    (hlist : phaseOf tx = .commit → t.committedTxList tx.index = true) : Working t := by
  subst hpc
  refine ⟨?_, by simp [hloop, Sorted], by simp [hloop, Holds], by simp [hloop]⟩
  intro ev' hev tx' htx'
  obtain rfl : ev' = ev := by simpa [hloop, working] using hev
  have hold := h.work ev' (by simp [hwork]) tx' htx'
  rw [htxs, mem_cons] at hold
  rw [hloop]
  rcases hold with (rfl | hrest) | hs
  · exact .inr ⟨hr.seen _ _ (h.held _ _ hholds), hpending, hlist⟩
  · exact .inl hrest
  · exact .inr (hs.retain hr)

theorem Working.stay {pc : LoopPc} (h : Working s) (hr : Retains s t) (hpc : s.loop = pc)
    (hwork : t.loop.working = pc.working) (htxs : t.loop.transactions = pc.transactions)
    (hsorted : t.loop.Sorted) (hheld : ∀ k i, t.loop.Holds k i → pc.Holds k i ∨ t.seen k i = true)
    (hdropped : ∀ ev tx rest, t.loop = .record ev tx rest → t.pending .commit tx.index = false) :
    Working t := by
  subst hpc
  refine ⟨?_, hsorted, ?_, hdropped⟩
  · rw [hwork, htxs]
    intro ev hev tx htx
    exact (h.work ev hev tx htx).imp_right fun hs => hs.retain hr
  · intro k i hk
    exact (hheld k i hk).elim (fun hs => hr.seen k i (h.held k i hs)) id

theorem working_loop {opens : Bool} (h : Working s)
    (hcurrent : ∀ ev, s.loop = .current ev →
      s.currentTransactions = ev.stateTransferTransactions)
    (hstep : LoopStep s opens t) : Working t := by
  have hr := retains_loop hstep
  cases hstep with
  | take hloop | skip hloop | enter hloop | load hloop | fail hloop => exact working_of_idle rfl
  | @read ev hloop =>
    refine ⟨?_, trivial, fun _ _ => False.elim, by simp⟩
    intro ev' hev tx htx
    obtain rfl : ev' = ev := by simpa [working] using hev
    left
    show tx ∈ s.currentTransactions
    rwa [hcurrent ev' hloop]
  | finish hloop => exact working_of_idle rfl
  | @seeFreeze ev tx rest hloop htx =>
    refine h.stay hr hloop rfl rfl htx ?_ (by simp)
    rintro k i ⟨rfl, rfl⟩
    simp [htx, seen]
  | @seeCommit ev tx rest loop hloop htx hnext =>
    rcases hnext with ⟨hp, rfl⟩ | ⟨hp, rfl⟩
    all_goals
      refine h.stay hr hloop rfl rfl trivial ?_ (by simp)
      rintro k i ⟨rfl, rfl⟩
      simp [htx, seen]
  | @sendFreeze ev tx rest hloop hp =>
    exact h.stay hr hloop rfl rfl trivial (fun _ _ => .inl) (by simp)
  | @passFreeze ev tx rest hloop hp =>
    have hf : phaseOf tx = .freeze := by simpa [hloop, Sorted] using h.sorted
    refine h.settle hr hloop rfl rfl ⟨rfl, rfl⟩ rfl ?_ ?_
    · rw [hf]
      exact hp
    · simp [hf]
  | panic hloop hsig => exact h.retain hr rfl
  | @forgetFreeze ev tx rest hloop htx =>
    refine h.settle hr hloop rfl rfl ⟨rfl, rfl⟩ rfl ?_ ?_
    · simp [htx, pending, deleteTxFromFreeze]
    · simp [htx]
  | @forgetCommit ev tx rest hloop htx =>
    refine h.stay hr hloop rfl rfl htx (fun _ _ => .inl) ?_
    rintro ev' tx' rest' ⟨⟩
    simp [pending, deleteTxFromCommitted]
  | @record ev tx rest hloop =>
    have hc : phaseOf tx = .commit := by simpa [hloop, Sorted] using h.sorted
    refine h.settle hr hloop rfl rfl ⟨rfl, rfl⟩ rfl ?_ ?_
    · rw [hc]
      exact h.dropped ev tx rest hloop
    · simp [recordCommittedTx]

/-! ## The node and its chain -/

/-- The block `b` is the next one after `a`. -/
def Follows (b a : Block) : Prop := b.parentHash = a.hash ∧ b.number = a.number + 1

/-- **What carries the pool along the chain**: since the blocks `start` those of `done` have been
handled, and at most one waits. -/
structure Following (start done : List Block) (s : Node) : Prop where
  chain : s.chain = s.queue ++ s.loop.working ++ done ++ start
  head : (done ++ start).head? = some s.head
  short : s.queue.length ≤ 1
  follows : List.IsChain Follows (s.queue ++ s.loop.working ++ [s.head])
  settled : ∀ b ∈ done, ∀ tx ∈ b.stateTransferTransactions, Settled s tx
  working : Working s

namespace Following

variable {start done : List Block} {s t : Node}

section

variable (h : Following start done s)
include h

theorem of_same (hr : Retains s t) (hw : Working t) (hchain : t.chain = s.chain)
    (hqueue : t.queue = s.queue) (hworking : t.loop.working = s.loop.working)
    (hhead : t.head = s.head) :
    Following start done t where
  chain := by rw [hchain, hqueue, hworking, h.chain]
  head := by rw [hhead, h.head]
  short := by rw [hqueue]; exact h.short
  follows := by rw [hqueue, hworking, hhead]; exact h.follows
  settled b hb tx htx := (h.settled b hb tx htx).retain hr
  working := hw

theorem of_quiet (hr : Retains s t) (hloop : t.loop = s.loop) (hchain : t.chain = s.chain)
    (hqueue : t.queue = s.queue) (hhead : t.head = s.head) : Following start done t :=
  h.of_same hr (h.working.retain hr hloop) hchain hqueue (by rw [hloop]) hhead

theorem queue_eq_of_locking {ev : Block} (hloop : s.loop.locking = [ev]) :
    s.events = [] ∧ s.unposted = [] := by
  have hshort := h.short
  simp only [queue, hloop, length_append, length_singleton] at hshort
  constructor
  · exact length_eq_zero_iff.1 (by omega)
  · exact length_eq_zero_iff.1 (by omega)

theorem currentTransactions_of_current {ev : Block} (hloop : s.loop = .current ev) :
    s.currentTransactions = ev.stateTransferTransactions := by
  obtain ⟨he, hu⟩ := h.queue_eq_of_locking (by rw [hloop]; rfl)
  have hchain := h.chain
  simp only [queue, hloop, he, hu, LoopPc.locking, LoopPc.working] at hchain
  simp [currentTransactions, hchain]

theorem loop (hstep : LoopStep s true t) : ∃ done', Following start done' t := by
  have hr := retains_loop hstep
  have hw := working_loop h.working (fun ev hloop => h.currentTransactions_of_current hloop) hstep
  cases hstep with
  | @take ev events hloop hev =>
    refine ⟨done, h.of_same hr hw rfl ?_ ?_ rfl⟩
    · simp [queue, hloop, hev, LoopPc.locking]
    · simp [hloop, LoopPc.working]
  | enter hloop | load hloop =>
    refine ⟨done, h.of_same hr hw rfl ?_ ?_ rfl⟩
    · simp [queue, hloop, LoopPc.locking]
    · simp [hloop, LoopPc.working]
  | fail hloop hopens => cases hopens
  | @skip ev hloop hskip =>
    -- the block that waits is the child of the last one
    obtain ⟨he, hu⟩ := h.queue_eq_of_locking (by rw [hloop]; rfl)
    have hfollows := h.follows
    simp only [queue, hloop, he, hu, LoopPc.locking, LoopPc.working] at hfollows
    have hchild : Follows ev s.head := by simpa using hfollows
    simp [skipsReset, hchild.1] at hskip
  | @read ev hloop =>
    obtain ⟨he, hu⟩ := h.queue_eq_of_locking (by rw [hloop]; rfl)
    have hchain := h.chain
    have hfollows := h.follows
    simp only [queue, hloop, he, hu, LoopPc.locking, LoopPc.working] at hchain hfollows
    refine ⟨done, ?_, h.head, ?_, ?_, ?_, hw⟩
    · simpa [queue, he, hu, LoopPc.locking, LoopPc.working] using hchain
    · simp [queue, he, hu, LoopPc.locking]
    · simpa [queue, he, hu, LoopPc.locking, LoopPc.working] using hfollows
    · intro b hb tx htx
      exact (h.settled b hb tx htx).retain hr
  | @finish ev hloop =>
    have hchain := h.chain
    have hfollows := h.follows
    have hshort := h.short
    simp only [queue, hloop, LoopPc.locking, LoopPc.working] at hchain hfollows hshort
    refine ⟨ev :: done, ?_, rfl, ?_, ?_, ?_, hw⟩
    · simpa [queue, LoopPc.locking, LoopPc.working] using hchain
    · simpa [queue, LoopPc.locking] using hshort
    · simpa [queue, LoopPc.locking, LoopPc.working] using hfollows.left_of_append
    · intro b hb tx htx
      rcases mem_cons.1 hb with rfl | hb
      · have hold := h.working.work b (by simp [hloop, LoopPc.working]) tx htx
        simp only [hloop, transactions, not_mem_nil, false_or] at hold
        exact hold.retain hr
      · exact (h.settled b hb tx htx).retain hr
  | seeCommit hloop htx hnext =>
    refine ⟨done, h.of_same hr hw rfl ?_ ?_ rfl⟩ <;>
      rcases hnext with ⟨-, rfl⟩ | ⟨-, rfl⟩ <;>
      simp [queue, hloop, LoopPc.locking, LoopPc.working]
  | panic hloop hsig => exact ⟨done, h.of_same hr hw rfl rfl rfl rfl⟩
  | seeFreeze hloop | sendFreeze hloop | passFreeze hloop | forgetFreeze hloop
  | forgetCommit hloop | record hloop =>
    refine ⟨done, h.of_same hr hw rfl ?_ ?_ rfl⟩
    · simp [queue, hloop, LoopPc.locking, addCachedTransaction, initSignal,
        deleteTxFromFreeze, deleteTxFromCommitted, recordCommittedTx]
    · simp [hloop, LoopPc.working]

theorem insert {b : Block} (hchild : isChild s b = true) (hqueue : s.queue = []) :
    Following start done { s with chain := b :: s.chain, unposted := s.unposted ++ [b] } := by
  have hr : Retains s { s with chain := b :: s.chain, unposted := s.unposted ++ [b] } := by
    exact .of_eq rfl rfl
  have hqueue' : queue { s with chain := b :: s.chain, unposted := s.unposted ++ [b] } = [b] := by
    simp only [queue] at hqueue ⊢
    rw [← append_assoc, hqueue, nil_append]
  have hchain := h.chain
  have hfollows := h.follows
  rw [hqueue, nil_append] at hchain hfollows
  refine ⟨?_, h.head, by rw [hqueue']; rfl, ?_, ?_, h.working.retain hr rfl⟩
  · rw [hqueue', hchain]
    rfl
  · rw [hqueue']
    refine isChain_cons.2 ⟨?_, hfollows⟩
    intro a ha
    have hcur : s.chain.head? = some a := by
      rw [hchain]
      rcases hw : s.loop.working with _ | ⟨ev, l⟩
      · rw [nil_append, h.head]
        simpa [hw] using ha
      · simpa [hw] using ha
    unfold isChild at hchild
    rcases hc : s.chain with _ | ⟨c, older⟩
    · simp [hc] at hcur
    · obtain rfl : c = a := by simpa [hc] using hcur
      simpa [hc, Follows] using hchild
  · intro b' hb' tx htx
    exact (h.settled b' hb' tx htx).retain hr

theorem step {a : Action} (hok : steady s a) (hstep : Follower.step s a = some t) :
    ∃ done', Following start done' t := by
  have hsame : ∀ u : Node, Retains s u → u.loop = s.loop → u.chain = s.chain → u.queue = s.queue →
      u.head = s.head → ∃ done', Following start done' u :=
    fun u hr hloop hchain hqueue hhead => ⟨done, h.of_quiet hr hloop hchain hqueue hhead⟩
  cases (actionStep_of_step hstep).2 with
  | @insertBlock b last hchild =>
    obtain ⟨rfl, hqueue⟩ : last = true ∧ s.queue = [] := hok
    exact ⟨done, h.insert hchild hqueue⟩
  | @postChainEvents b unposted hu =>
    exact hsame _ (.of_eq rfl rfl) rfl rfl (by simp [queue, hu]) rfl
  | loop hl => exact h.loop ((hok : _ = true) ▸ hl)
  | handler hh =>
    have hr := retains_handler hok hh
    refine ⟨done, ?_⟩
    cases hh with
    | proceed | addFreeze | addCommitted => exact h.of_quiet hr rfl rfl rfl rfl
    | @close i p hpc hlock hactive hengaged hcloses hlistens =>
      obtain ⟨hl, hc, hq, hh⟩ : (s.closeSignal i).loop = s.loop ∧
          (s.closeSignal i).chain = s.chain ∧ (s.closeSignal i).queue = s.queue ∧
          (s.closeSignal i).head = s.head := by
        unfold closeSignal
        split <;> exact ⟨rfl, rfl, rfl, rfl⟩
      exact h.of_quiet hr hl hc hq hh
  | @receive j ev tx rest p hsig hloop hp =>
    -- the send completes: `reset` stays at its transaction
    have hr : Retains s ({ s with loop := .forget ev tx rest }.setHandler j p) := by
      exact .of_eq rfl rfl
    have hw := h.working.stay hr hloop rfl rfl trivial (fun _ _ => .inl) nofun
    refine ⟨done, h.of_same hr hw rfl ?_ ?_ rfl⟩
    · simp [queue, setHandler, hloop, locking]
    · rw [hloop]; rfl
  | closeNext hv hsig hi =>
    unfold closeSignal
    split <;> exact hsame _ (.of_eq rfl rfl) rfl rfl rfl rfl
  | _ => exact hsame _ (.of_eq rfl rfl) rfl rfl rfl rfl

end

end Following

theorem following_init (shardID : ShardID) (b : Block) (older : List Block) :
    Following (b :: older) [] (init shardID b older) := by
  obtain ⟨hchain, hhead, hloop, he, hu⟩ : (init shardID b older).chain = b :: older ∧
      (init shardID b older).head = b ∧ (init shardID b older).loop = .idle ∧
      (init shardID b older).events = [] ∧ (init shardID b older).unposted = [] := by
    refine init_induction (P := fun s => s.chain = b :: older ∧ s.head = b ∧ s.loop = .idle ∧
      s.events = [] ∧ s.unposted = []) shardID b older ⟨rfl, rfl, rfl, rfl, rfl⟩ ?_
    intro s tx hs
    unfold absorb
    split <;> exact hs
  have hqueue : (init shardID b older).queue = [] := by
    simp [queue, hloop, he, hu, locking]
  refine ⟨?_, ?_, ?_, ?_, nofun, working_of_idle (by rw [hloop]; rfl)⟩
  · simp [hqueue, hchain, hloop, working]
  · simp [hhead]
  · simp [hqueue]
  · simp [hqueue, hloop, working]

/-! ## The pool follows the chain -/

section Runs

variable {shardID : ShardID} {b : Block} {older start done : List Block} {s : Node}

theorem Following.ne_head (h : Following start done s) (hb : b ∈ s.queue ++ s.loop.working) :
    b ≠ s.head := by
  have hwork : s.loop.working.length ≤ 1 := by
    cases s.loop <;> simp [LoopPc.working]
  have hlen : (s.queue ++ s.loop.working).length ≤ 2 := by
    have hshort := h.short
    rw [length_append]
    omega
  have hfollows := h.follows
  rintro rfl
  match hl : s.queue ++ s.loop.working with
  | [] => simp [hl] at hb
  | [a] =>
    obtain rfl : s.head = a := by simpa [hl] using hb
    have hnum : s.head.number = s.head.number + 1 := by
      rw [hl] at hfollows
      exact (isChain_pair.1 hfollows).2
    exact absurd hnum (by grind)
  | [a, c] =>
    rw [hl] at hfollows hb
    simp only [cons_append, nil_append, isChain_cons_cons] at hfollows
    obtain ⟨⟨-, ha⟩, ⟨-, hc⟩, -⟩ := hfollows
    rcases mem_pair.1 hb with h | h <;> rw [← h] at * <;> grind
  | _ :: _ :: _ :: _ => simp [hl] at hlen

theorem Following.followsChain (h : Following start done s) : FollowsChain start.length s := by
  intro k hk b hb tx htx
  have hinserted : s.inserted start.length = (s.queue ++ s.loop.working) ++ done := by
    rw [inserted, h.chain, length_append, Nat.add_sub_cancel]
    exact take_left
  rw [hinserted] at hk hb
  -- the head is none of the blocks that wait, so all blocks from it on are done
  have hle : (s.queue ++ s.loop.working).length ≤ k := by
    by_contra hlt
    rw [List.getElem?_append_left (by omega)] at hk
    exact h.ne_head (mem_of_getElem? hk) rfl
  rw [drop_append, drop_eq_nil_of_le hle, nil_append] at hb
  exact (h.settled b (mem_of_mem_drop hb) tx htx).reflects

/-- **The pool follows the chain** if each block posts its own event and comes when the one before
has been read, and handlers register only what `reset` has not seen. -/
theorem followsChain_of_reach (hreach : Reach step steady (init shardID b older) s) :
    FollowsChain (older.length + 1) s := by
  have hinv : ∃ done, Following (b :: older) done s := by
    refine Reach.invariant (P := fun s => ∃ done, Following (b :: older) done s)
      ⟨[], following_init shardID b older⟩ ?_ hreach
    rintro s a t ⟨done, h⟩ hok hstep
    exact h.step hok hstep
  obtain ⟨done, h⟩ := hinv
  exact h.followsChain

/-- The freeze has come with its own block, and the pool has let go of it. -/
theorem followsChain_frozen :
    ∃ s, Reach step steady sampleNode s ∧ s.head.number = 1 ∧
      s.seen .freeze 0 = true ∧ FollowsChain 1 s := by
  have hrun : (exec (guarded step steady) sampleNode frozenRun).map
      (fun s => (s.head.number, s.seen .freeze 0)) = some (1, true) := by decide +kernel
  obtain ⟨s, hs, hnum, hseen⟩ := facts_of_map hrun
  have hreach := reach_of_exec_guarded hs
  exact ⟨s, hreach, hnum, hseen, followsChain_of_reach hreach⟩

/-- **A batch is skipped**: its one event is that of the second block, which `reset` takes for a
fork; the freeze of the first stays in the pool. -/
theorem batch_skipped :
    ∃ s, Reach step anyStep sampleNode s ∧ s.loop = .idle ∧
      s.head.number = 2 ∧ s.pending .freeze 0 = true ∧ ¬ FollowsChain 1 s := by
  let b₁ := sampleBlock 1 [sampleTx true]
  let b₂ := sampleBlock 2 []
  obtain ⟨s, hs, hchain, hhead, hloop, hp⟩ : ∃ s, exec step sampleNode
      (registeringRun ++ [.insertBlock b₁ false, .insertBlock b₂ true, .postChainEvents, .loop,
        .loop]) = some s ∧ s.chain = [b₂, b₁, sampleBlock 0 []] ∧ s.head = b₂ ∧ s.loop = .idle ∧
      s.pending .freeze 0 = true :=
    ⟨_, rfl, rfl, rfl, rfl, rfl⟩
  refine ⟨s, reach_of_exec hs, hloop, by rw [hhead]; rfl, hp, ?_⟩
  intro h
  have hinserted : s.inserted 1 = [b₂, b₁] := by simp [inserted, hchain]
  have hreflects : s.Reflects (sampleTx true) := by
    apply h 0 (by simp [hinserted, hhead]) b₁ (by simp [hinserted])
    simp [b₁, sampleBlock]
  have hgone : s.pending .freeze 0 = false := hreflects.1
  rw [hp] at hgone
  cases hgone

end Runs

end DyShard.Atomic.Follower
