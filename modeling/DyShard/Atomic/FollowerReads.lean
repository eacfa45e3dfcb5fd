import DyShard.Atomic.FollowerReplies

/-!
# What a source follower reads

When the freeze is on the chain, the handler reads balance and nonce from the pool's pending state,
in two steps and without the lock.  That state belongs to the event of `reset`, the signal to the
block that is current a moment later.
-/

namespace DyShard.Atomic.Follower

open Transition Node List Follower

/-! ## The condition -/

/-- The handler has been signalled and has not finished reading. -/
def Handler.reading : Handler → Bool
  | .propose _ .readBalance | .propose _ (.readNonce _) => true
  | _ => false

/-- `reset` replaces the pending state when nobody reads it and finds the block of its event;
proposals run side by side only if all of them are sources. -/
def undisturbed (s : Node) : Action → Prop
  | .loop _ => match s.loop with
    | .opening _ => ∀ h, (s.handlers h).reading = false
    | .current ev => s.chain.head? = some ev
    | _ => True
  | a => uniform s a

variable {s : Node} {a : Action} {i : UInt64} {p q : Handler} {j : ℕ} {pc : CommitPc}

theorem uniform_of_undisturbed (h : undisturbed s a) : uniform s a := by
  cases a with
  | loop opens => trivial
  | _ => exact h

/-! ## The reads -/

/-- A block of the chain with the freeze of the index. -/
def Node.Freezes (s : Node) (i : UInt64) (b : Block) : Prop :=
  b ∈ s.chain ∧ ∃ tx ∈ b.stateTransferTransactions, phaseOf tx = .freeze ∧ tx.index = i

variable {t : Node}

theorem Node.Freezes.mono {b : Block} (h : s.Freezes i b) (hchain : ∀ b ∈ s.chain, b ∈ t.chain) :
    t.Freezes i b :=
  ⟨hchain b h.1, h.2⟩

/-- What a handler has read, and is going to read, is the state after a block with its
freeze. -/
def Handler.HasRead (s : Node) : Handler → Prop
  | .propose req .readBalance =>
    ∃ b, s.Freezes req.index b ∧ s.pendingBalance = b.balance ∧ s.pendingNonce = b.nonce
  | .propose req (.readNonce balance) =>
    ∃ b, s.Freezes req.index b ∧ balance = b.balance (bytesToAddress req.msgPayload) ∧
      s.pendingNonce = b.nonce
  | .propose req (.reply balance nonce) =>
    ∃ b, s.Freezes req.index b ∧ balance = b.balance (bytesToAddress req.msgPayload) ∧
      nonce = b.nonce (bytesToAddress req.msgPayload)
  | _ => True

/-- The block whose state `reset` has put in place. -/
def LoopPc.loaded : LoopPc → Option Block
  | .idle | .lock _ | .opening _ => none
  | .current ev | .next ev _ | .checkFreeze ev _ _ | .send ev _ _ _ | .forget ev _ _
  | .record ev _ _ => some ev

/-- **What the reads rest on.** -/
structure Reads (s : Node) : Prop where
  /-- `reset` goes through the transactions of the block whose state is pending. -/
  loop : ∀ ev ∈ s.loop.loaded, s.pendingBalance = ev.balance ∧ s.pendingNonce = ev.nonce ∧
    ∀ tx ∈ s.loop.transactions, ev ∈ s.chain ∧ tx ∈ ev.stateTransferTransactions
  handlers : ∀ h, (s.handlers h).HasRead s

theorem hasRead_of_eq (h : p.HasRead s) (hchain : ∀ b ∈ s.chain, b ∈ t.chain)
    (hpending : p.reading = true →
      t.pendingBalance = s.pendingBalance ∧ t.pendingNonce = s.pendingNonce) :
    p.HasRead t := by
  cases p with
  | propose req pc =>
    cases pc with
    | readBalance =>
      obtain ⟨b, hb, hread⟩ := h
      obtain ⟨hbalance, hnonce⟩ := hpending rfl
      exact ⟨b, hb.mono hchain, by rwa [hbalance, hnonce]⟩
    | readNonce balance =>
      obtain ⟨b, hb, hread⟩ := h
      exact ⟨b, hb.mono hchain, by rwa [(hpending rfl).2]⟩
    | reply balance nonce =>
      obtain ⟨b, hb, hread⟩ := h
      exact ⟨b, hb.mono hchain, hread⟩
    | _ => trivial
  | _ => trivial

namespace Reads

variable {s t : Node}

theorem of_eq (h : Reads s) (hchain : ∀ b ∈ s.chain, b ∈ t.chain)
    (hbalance : t.pendingBalance = s.pendingBalance) (hnonce : t.pendingNonce = s.pendingNonce)
    (hloop : ∀ ev ∈ t.loop.loaded, ev ∈ s.loop.loaded ∧
      ∀ tx ∈ t.loop.transactions, tx ∈ s.loop.transactions)
    (hhandlers : ∀ j, t.handlers j = s.handlers j ∨ (t.handlers j).HasRead s) : Reads t := by
  constructor
  · intro ev hev
    obtain ⟨hs, htxs⟩ := hloop ev hev
    obtain ⟨hpb, hpn, htx⟩ := h.loop ev hs
    refine ⟨hbalance.trans hpb, hnonce.trans hpn, fun tx h' => ?_⟩
    obtain ⟨hmem, hin⟩ := htx tx (htxs tx h')
    exact ⟨hchain ev hmem, hin⟩
  · intro j
    apply hasRead_of_eq ?_ hchain fun _ => ⟨hbalance, hnonce⟩
    rcases hhandlers j with heq | hread
    · rw [heq]
      exact h.handlers j
    · exact hread

theorem keep (h : Reads s) (hchain : ∀ b ∈ s.chain, b ∈ t.chain)
    (hbalance : t.pendingBalance = s.pendingBalance) (hnonce : t.pendingNonce = s.pendingNonce)
    (hhandlers : t.handlers = s.handlers)
    (hloop : ∀ ev ∈ t.loop.loaded, ev ∈ s.loop.loaded ∧
      ∀ tx ∈ t.loop.transactions, tx ∈ s.loop.transactions) : Reads t := by
  refine h.of_eq hchain hbalance hnonce hloop fun j => ?_
  rw [hhandlers]
  exact .inl rfl

theorem loopStep {opens : Bool} (h : Reads s) (hok : undisturbed s (.loop opens))
    (hstep : LoopStep s opens t) : Reads t := by
  cases hstep with
  | take hloop | skip hloop | enter hloop | fail hloop | finish hloop =>
    exact h.keep (fun _ => id) rfl rfl rfl nofun
  | load hloop =>
    simp only [undisturbed, hloop] at hok
    constructor
    · rintro _ ⟨⟩
      exact ⟨rfl, rfl, nofun⟩
    · intro j
      exact hasRead_of_eq (h.handlers j) (fun _ => id) (by simp [hok j])
  | @read ev hloop =>
    simp only [undisturbed, hloop] at hok
    refine ⟨?_, fun j => hasRead_of_eq (h.handlers j) (fun _ => id) fun _ => ⟨rfl, rfl⟩⟩
    rintro _ ⟨⟩
    obtain ⟨hbalance, hnonce, -⟩ := h.loop ev (by rw [hloop]; rfl)
    refine ⟨hbalance, hnonce, fun tx htx => ⟨mem_of_mem_head? hok, ?_⟩⟩
    -- the current block is the one whose state has been put in place
    have hcur : s.currentTransactions = ev.stateTransferTransactions := by
      simp [currentTransactions, hok]
    rw [← hcur]
    exact htx
  | seeCommit hloop htx hnext =>
    refine h.keep (fun _ => id) rfl rfl rfl fun ev hev => ?_
    rw [hloop]
    rcases hnext with ⟨-, rfl⟩ | ⟨-, rfl⟩ <;> exact ⟨hev, fun _ => id⟩
  | panic hloop hsig => exact h.keep (fun _ => id) rfl rfl rfl fun _ hev => ⟨hev, fun _ => id⟩
  | seeFreeze hloop | sendFreeze hloop | forgetCommit hloop =>
    refine h.keep (fun _ => id) rfl rfl rfl fun _ hev => ?_
    rw [hloop]
    exact ⟨hev, fun _ => id⟩
  | passFreeze hloop | forgetFreeze hloop | record hloop =>
    refine h.keep (fun _ => id) rfl rfl rfl fun _ hev => ?_
    rw [hloop]
    exact ⟨hev, fun _ => mem_cons_of_mem _⟩

variable {j : ℕ}

theorem set (h : Reads s) {u : Node} (hchain : u.chain = s.chain)
    (hbalance : u.pendingBalance = s.pendingBalance) (hnonce : u.pendingNonce = s.pendingNonce)
    (hloop : u.loop = s.loop) (hhandlers : u.handlers = s.handlers) (hp : p.HasRead s) :
    Reads (u.setHandler j p) := by
  refine h.of_eq (by rw [setHandler, hchain]; exact fun _ => id) hbalance hnonce ?_ ?_
  · intro ev hev
    rw [setHandler, hloop] at hev ⊢
    exact ⟨hev, fun _ => id⟩
  · intro j'
    rw [handlers_setHandler, hhandlers]
    split
    · exact .inr hp
    · exact .inl rfl

theorem stepPropose (h : Reads s) {req : ProposeRequest} {pc : ProposePc}
    (hpc : s.handlers j = .propose req pc) (hstep : stepPropose s j req pc = some t) : Reads t := by
  have hread : (Handler.propose req pc).HasRead s := hpc ▸ h.handlers j
  cases pc with
  | checkCached =>
    cases hstep
    refine h.set rfl rfl rfl rfl rfl ?_
    split <;> trivial
  | addFreeze =>
    obtain ⟨-, rfl⟩ := of_unlocked hstep
    exact h.set rfl rfl rfl rfl rfl trivial
  | closing =>
    obtain ⟨-, rfl⟩ := of_unlocked hstep
    unfold closeSignal
    split <;> exact h.set rfl rfl rfl rfl rfl trivial
  | wait => cases hstep
  | readBalance =>
    cases hstep
    obtain ⟨b, hb, hbalance, hnonce⟩ := hread
    exact h.set rfl rfl rfl rfl rfl ⟨b, hb, by rw [hbalance], hnonce⟩
  | readNonce balance =>
    cases hstep
    obtain ⟨b, hb, hbalance, hnonce⟩ := hread
    exact h.set rfl rfl rfl rfl rfl ⟨b, hb, hbalance, by rw [hnonce]⟩
  | _ =>
    cases hstep
    exact h.set rfl rfl rfl rfl rfl trivial

theorem stepCommit (h : Reads s) {req : CommitRequest} (hstep : stepCommit s j req pc = some t) :
    Reads t := by
  cases pc with
  | addCommitted =>
    obtain ⟨-, rfl⟩ := of_unlocked hstep
    exact h.set rfl rfl rfl rfl rfl trivial
  | wait => cases hstep
  | closing ftype timedOut =>
    obtain ⟨-, rfl⟩ := of_unlocked hstep
    unfold closeSignal
    cases timedOut <;> split <;> exact h.set rfl rfl rfl rfl rfl trivial
  | _ =>
    cases hstep
    exact h.set rfl rfl rfl rfl rfl trivial

theorem receive (h : Reads s) {ev : Block} {tx : StateTransferTransaction}
    {rest : List StateTransferTransaction} (hloop : s.loop = .send ev tx rest true)
    (hp : Receives (s.handlers j) tx.index (phaseOf tx).sig p) :
    Reads ({ s with loop := .forget ev tx rest }.setHandler j p) := by
  obtain ⟨hbalance, hnonce, htxs⟩ := h.loop ev (by rw [hloop]; rfl)
  obtain ⟨hev, hmem⟩ := htxs tx (by simp [hloop, LoopPc.transactions])
  have hread : p.HasRead s := by
    generalize hi : tx.index = i at hp
    generalize hsig : (phaseOf tx).sig = sig at hp
    generalize s.handlers j = q at hp
    cases hp with
    | commit req ftype => unfold commitSignal; split <;> trivial
    | propose req side ftype =>
      cases side with
      | target => simp only [proposeSignal]; split <;> trivial
      | source =>
        by_cases hs : sig = 1
        · have hf : phaseOf tx = .freeze := by
            cases hk : phaseOf tx with
            | freeze => rfl
            | commit =>
              rw [hk, hs] at hsig
              cases hsig
          simp only [proposeSignal, hs, if_true]
          exact ⟨ev, ⟨hev, tx, hmem, hf, hi⟩, hbalance, hnonce⟩
        · simp only [proposeSignal, hs, if_false]
          trivial
  refine h.of_eq (fun _ => id) rfl rfl ?_ ?_
  · rw [hloop]
    exact fun _ hev => ⟨hev, fun _ => id⟩
  · intro j'
    rw [handlers_setHandler]
    split
    · exact .inr hread
    · exact .inl rfl

theorem step (h : Reads s) (hok : undisturbed s a) (hstep : step s a = some t) :
    Reads t := by
  cases (actionStep_of_step hstep).2 with
  | @insertBlock b last hchild =>
    exact h.keep (fun _ => mem_cons_of_mem b) rfl rfl rfl fun _ hev => ⟨hev, fun _ => id⟩
  | loop hl => exact h.loopStep hok hl
  | startPropose hidle => exact h.set rfl rfl rfl rfl rfl trivial
  | startCommit hidle => exact h.set rfl rfl rfl rfl rfl trivial
  | handler hh =>
    rcases handler_cases (stepAction_of_step hstep) with ⟨req, pc, hpc, hs⟩ | ⟨req, pc, hpc, hs⟩
    · exact h.stepPropose hpc hs
    · exact h.stepCommit hs
  | @receiveZero j i p hsig hp =>
    refine h.set rfl rfl rfl rfl rfl ?_
    generalize s.handlers j = q at hp
    cases hp with
    | commit req ftype => trivial
    | propose req side ftype => cases side <;> trivial
  | receive hsig hloop hp => exact h.receive hloop hp
  | @timeout j i p hp =>
    refine h.set rfl rfl rfl rfl rfl ?_
    generalize s.handlers j = q at hp
    cases hp <;> trivial
  | closeNext hv hsig hi =>
    unfold closeSignal
    split <;> exact h.keep (fun _ => id) rfl rfl rfl fun _ hev => ⟨hev, fun _ => id⟩
  | _ => exact h.keep (fun _ => id) rfl rfl rfl fun _ hev => ⟨hev, fun _ => id⟩

end Reads

theorem reads_init (shardID : ShardID) (b : Block) (older : List Block) :
    Reads (init shardID b older) := by
  obtain ⟨hidle, hloop⟩ := init_idle shardID b older
  refine ⟨by rw [hloop]; nofun, ?_⟩
  intro h
  rw [hidle]
  trivial

/-! ## The handler and its request -/

/-- The reply belongs to the request, and a state in it is that after a block with the freeze. -/
structure Faithful (s : Node) (req : ProposeRequest) (res : ProposeResponse) : Prop where
  index : res.index = req.index
  address : res.address = req.msgPayload
  msgPayload : ∀ d ∈ res.msgPayload, roleIn s.shardID req = .source ∧
    ∃ b, s.Freezes req.index b ∧ d.balance = some (b.balance (bytesToAddress req.msgPayload)) ∧
      d.nonce = b.nonce (bytesToAddress req.msgPayload)

/-- The handler works on the request, or has answered it. -/
def Serves (s : Node) (h : ℕ) (req : ProposeRequest) : Prop :=
  (∃ pc, s.handlers h = .propose req pc) ∨ ∃ res, s.handlers h = .proposed res ∧ Faithful s req res

/-- Where a proposal may go: on with the same request, or to its answer. -/
def Handler.GoesTo (q p : Handler) : Prop :=
  (∀ req pc, q = .propose req pc → (∃ pc', p = .propose req pc') ∨ ∃ res, p = .proposed res) ∧
    ∀ res, q = .proposed res → p = .proposed res

theorem goesTo_receives {sig : ℕ} (h : Receives q i sig p) : q.GoesTo p := by
  cases h with
  | commit req ftype => exact ⟨nofun, nofun⟩
  | propose req side ftype =>
    refine ⟨?_, nofun⟩
    rintro req' pc' ⟨⟩
    cases side with
    | source => exact .inl ⟨_, rfl⟩
    | target =>
      simp only [proposeSignal]
      split
      · exact .inr ⟨_, rfl⟩
      · exact .inl ⟨_, rfl⟩

theorem goesTo_expires (h : Expires q i p) : q.GoesTo p := by
  cases h with
  | commit req ftype => exact ⟨nofun, nofun⟩
  | propose req side ftype =>
    refine ⟨?_, nofun⟩
    rintro req' pc' ⟨⟩
    exact .inl ⟨_, rfl⟩

/-- **A handler goes on with its request** until it has answered it. -/
theorem goesTo_of_step (hstep : step s a = some t) (j : ℕ) :
    (s.handlers j).GoesTo (t.handlers j) := by
  cases moves_of_step hstep j with
  | stay h =>
    rw [h]
    exact ⟨fun _ pc h => .inl ⟨pc, h⟩, fun _ h => h⟩
  | startPropose h | startCommit h =>
    rw [h]
    exact ⟨nofun, nofun⟩
  | propose hpc hs =>
    rw [hpc]
    refine ⟨?_, nofun⟩
    rintro req pc ⟨⟩
    exact (answers_of_stepPropose hs).imp_right fun ⟨res, hres, _⟩ => ⟨res, hres⟩
  | commit hpc =>
    rw [hpc]
    exact ⟨nofun, nofun⟩
  | receive hp => exact goesTo_receives hp
  | expire hp => exact goesTo_expires hp

theorem chain_of_step (hstep : step s a = some t) : t.shardID = s.shardID ∧
    (t.chain = s.chain ∨ ∃ b last, a = .insertBlock b last ∧ t.chain = b :: s.chain) := by
  cases (actionStep_of_step hstep).2 with
  | insertBlock hchild => exact ⟨rfl, .inr ⟨_, _, rfl, rfl⟩⟩
  | loop hl => cases hl <;> exact ⟨rfl, .inl rfl⟩
  | handler hh =>
    cases hh with
    | close =>
      unfold closeSignal
      split <;> exact ⟨rfl, .inl rfl⟩
    | _ => exact ⟨rfl, .inl rfl⟩
  | closeNext hv hsig hi =>
    unfold closeSignal
    split <;> exact ⟨rfl, .inl rfl⟩
  | _ => exact ⟨rfl, .inl rfl⟩

theorem mem_chain_of_step (hstep : step s a = some t) {b : Block} (hb : b ∈ s.chain) :
    b ∈ t.chain := by
  rcases (chain_of_step hstep).2 with h | ⟨b', -, -, h⟩
  · rwa [h]
  · rw [h]
    exact mem_cons_of_mem b' hb

/-- **A handler serves its request to the end**, and answers with the state after the block
with the freeze. -/
theorem served_step {shardID : ShardID} (hroles : Roles shardID s) (hreads : Reads s)
    (hstep : step s a = some t) {req : ProposeRequest} (h : Serves s j req) : Serves t j req := by
  have hshard := (chain_of_step hstep).1
  have hchain : ∀ b ∈ s.chain, b ∈ t.chain := fun _ => mem_chain_of_step hstep
  obtain ⟨hgo, hstay⟩ := goesTo_of_step hstep j
  rcases h with ⟨pc, hpc⟩ | ⟨res, hres, htrue⟩
  · rcases hgo req pc hpc with hpc' | ⟨res, hres⟩
    · exact .inl hpc'
    · refine .inr ⟨res, hres, ?_⟩
      have hplays := hpc ▸ hroles.plays j
      have hread := hpc ▸ hreads.handlers j
      cases answers_of_step hstep hpc hres with
      | reply balance nonce =>
        refine ⟨rfl, rfl, ?_⟩
        rintro d ⟨⟩
        obtain ⟨b, hb, hbalance, hnonce⟩ := hread
        refine ⟨?_, b, hb.mono hchain, by rw [hbalance], hnonce⟩
        rw [hshard, hroles.shard]
        exact hplays.2
      | refuse => exact ⟨rfl, rfl, nofun⟩
      | target ftype => exact ⟨rfl, rfl, nofun⟩
  · refine .inr ⟨res, hstay res hres, htrue.index, htrue.address, ?_⟩
    intro d hd
    obtain ⟨hrole, b, hb, hread⟩ := htrue.msgPayload d hd
    exact ⟨hshard ▸ hrole, b, hb.mono hchain, hread⟩

/-! ## The commits in the pool -/

/-- The transaction that `HandleCommitMsg` builds from a request. -/
def CommitRequest.transaction (req : CommitRequest) : StateTransferTransaction :=
  let d := req.msgPayload.getD .zero
  { sourceShardID := req.source, targetShardID := req.target, sourceHeight := d.blockHeight,
    address := bytesToAddress req.address, balance := d.balance, nonce := d.nonce, data := d.data,
    toFreeze := false, index := req.index }

/-- The commits in the pool and of the handlers at work are built from requests that meet `ok`. -/
structure Built (ok : CommitRequest → Prop) (s : Node) : Prop where
  handlers : ∀ h req pc, s.handlers h = .commit req pc → ok req
  committed : ∀ i tx, s.committed i = some tx → ∃ req, ok req ∧ tx = req.transaction ∧ req.index = i

theorem Built.mono {ok ok' : CommitRequest → Prop} (h : Built ok s) (hok : ∀ req, ok req → ok' req)
    : Built ok' s := by
  refine ⟨fun j req pc hj => hok req (h.handlers j req pc hj), ?_⟩
  intro i tx hi
  obtain ⟨req, hreq, htx⟩ := h.committed i tx hi
  exact ⟨req, hok req hreq, htx⟩

variable {req : CommitRequest}

theorem commit_of_receives {sig : ℕ} (h : Receives q i sig (.commit req pc)) :
    ∃ pc', q = .commit req pc' := by
  generalize hp : Handler.commit req pc = p at h
  cases h with
  | propose req' side ftype =>
    cases side <;> simp only [proposeSignal] at hp
    · cases hp
    · split at hp <;> cases hp
  | commit req' ftype =>
    cases hp
    exact ⟨_, rfl⟩

theorem commit_of_expires (h : Expires q i (.commit req pc)) : ∃ pc', q = .commit req pc' := by
  cases h
  exact ⟨_, rfl⟩

/-- A `CommitHandler` goes on with its request or answers it.  It comes to the registration only if
the index is cached. -/
theorem goes_of_stepCommit (hstep : stepCommit s j req pc = some t) :
    (∃ pc', t.handlers j = .commit req pc' ∧
      (pc' = .checkCommitted → (s.cached req.index).isSome = true) ∧
      (pc' = .addCommitted → pc = .checkCommitted)) ∨
    t.handlers j = .failed req.index ∨ ∃ res, t.handlers j = .committed res := by
  have hset : ∀ (u : Node) p, (u.setHandler j p).handlers j = p := by simp [handlers_setHandler]
  cases pc with
  | checkCached | checkCommitted =>
    cases hstep
    refine .inl ⟨_, hset _ _, ?_⟩
    split <;> simp_all
  | dropCached =>
    cases hstep
    exact .inr (.inl (hset _ _))
  | addCommitted =>
    obtain ⟨-, rfl⟩ := of_unlocked hstep
    exact .inl ⟨_, hset _ _, by simp⟩
  | wait => cases hstep
  | closing ftype timedOut =>
    obtain ⟨-, rfl⟩ := of_unlocked hstep
    cases timedOut with
    | true => exact .inl ⟨_, hset _ _, by simp⟩
    | false => exact .inr (.inr ⟨_, hset _ _⟩)
  | replyLate =>
    cases hstep
    exact .inr (.inr ⟨_, hset _ _⟩)
  | deleteCached | prepare | enter =>
    cases hstep
    exact .inl ⟨_, hset _ _, by simp⟩

theorem commit_of_step (hstep : step s a = some t) (ht : t.handlers j = .commit req pc) :
    (∃ pc', s.handlers j = .commit req pc') ∨ a = .startCommit j req := by
  cases moves_of_step hstep j with
  | stay h => exact .inl ⟨pc, h ▸ ht⟩
  | startPropose _ _ hp => cases hp.symm.trans ht
  | startCommit _ ha hp =>
    cases hp.symm.trans ht
    exact .inr ha
  | propose hpc hs =>
    rcases answers_of_stepPropose hs with ⟨pc', hp⟩ | ⟨res, hp, -⟩ <;> cases hp.symm.trans ht
  | @commit req' pc' hpc hs =>
    rcases goes_of_stepCommit hs with ⟨_, hp, -⟩ | hp | ⟨_, hp⟩ <;> cases hp.symm.trans ht
    exact .inl ⟨pc', hpc⟩
  | receive hp => exact .inl (commit_of_receives (ht ▸ hp))
  | expire hp => exact .inl (commit_of_expires (ht ▸ hp))

theorem committed_of_step (hstep : step s a = some t) {tx : StateTransferTransaction}
    (ht : t.committed i = some tx) :
    s.committed i = some tx ∨ ∃ j req, s.handlers j = .commit req .addCommitted ∧
      tx = req.transaction ∧ req.index = i := by
  cases (actionStep_of_step hstep).2 with
  | loop hl =>
    left
    cases hl with
    | @forgetCommit ev tx' rest hloop htx =>
      by_cases hi : i = tx'.index <;> simp_all [deleteTxFromCommitted]
    | _ => exact ht
  | @handler j t hh =>
    cases hh with
    | @addCommitted req hpc hlock =>
      simp only [setHandler, addCommittedTransaction] at ht
      split at ht
      · exact .inl ht
      · by_cases hi : i = req.index
        · subst hi
          rw [Function.update_self] at ht
          exact .inr ⟨j, req, hpc, (Option.some.inj ht).symm, rfl⟩
        · rw [Function.update_of_ne hi] at ht
          exact .inl ht
    | close =>
      left
      simp only [setHandler, closeSignal] at ht
      split at ht <;> exact ht
    | _ => exact .inl ht
  | closeNext hv hsig hi =>
    left
    simp only [closeSignal] at ht
    split at ht <;> exact ht
  | _ => exact .inl ht

theorem Built.step {ok : CommitRequest → Prop} (h : Built ok s) (hstep : step s a = some t)
    (hstart : ∀ j req, a = .startCommit j req → ok req) : Built ok t := by
  constructor
  · intro j req pc hj
    rcases commit_of_step hstep hj with ⟨pc', hs⟩ | rfl
    · exact h.handlers j req pc' hs
    · exact hstart j req rfl
  · intro i tx hi
    rcases committed_of_step hstep hi with hs | ⟨j, req, hs, htx, hreq⟩
    · exact h.committed i tx hs
    · exact ⟨req, h.handlers j req _ hs, htx, hreq⟩

theorem built_init (ok : CommitRequest → Prop) (shardID : ShardID) (b : Block) (older : List Block) :
    Built ok (init shardID b older) := by
  have hnone : ∀ i, (init shardID b older).committed i = none := by
    refine init_induction (P := fun s => ∀ i, s.committed i = none) shardID b older (fun _ => rfl) ?_
    intro s tx hs
    unfold absorb
    split <;> exact hs
  exact ⟨by simp [init_idle], by simp [hnone]⟩

end DyShard.Atomic.Follower
