import DyShard.Atomic.FollowerFrame

/-!
# What the commit pool hands out

`FreezeCache` and `Committed` give the proposer what waits in the pool.  Each index is given out
once: the pool keeps a list of what has been read, and `reset` adds what it meets on the chain.
-/

namespace DyShard.Atomic.Follower

open Transition Node Option List LoopPc Block

/-- The proposer's call for the transactions of a phase. -/
def Phase.call : Phase → Action
  | .freeze => .readFreezeCache
  | .commit => .readCommitted

namespace Node

variable (s : Node)

/-- The cache that a phase waits in. -/
def cache : Phase → UInt64 → Option StateTransferTransaction
  | .freeze => s.freezeCache
  | .commit => s.committed

/-- The indices that are not handed out any more. -/
def read : Phase → UInt64 → Bool
  | .freeze => s.freezeReadTxList
  | .commit => s.committedReadTxList

/-- What `FreezeCache` and `Committed` return, by index. -/
def returned (k : Phase) (i : UInt64) : Option StateTransferTransaction :=
  if s.read k i then none else s.cache k i

end Node

theorem isSome_cache (s : Node) (k : Phase) (i : UInt64) :
    (s.cache k i).isSome = s.pending k i := by
  cases k <;> rfl

variable {s t : Node}

theorem returned_isSome {k : Phase} {i : UInt64} :
    (s.returned k i).isSome = true ↔ s.read k i = false ∧ s.pending k i = true := by
  unfold returned
  rw [← isSome_cache]
  cases s.read k i <;> simp

/-! ## What a step does to the lists -/

/-- What a step can do to the lists of read and of seen transactions. -/
structure ReadStep (s : Node) (a : Action) (t : Node) : Prop where
  read_mono : ∀ k i, s.read k i = true → t.read k i = true
  called : ∀ k i, a = k.call → s.pending k i = true → t.read k i = true
  read_new : ∀ k i, t.read k i = true →
    s.read k i = true ∨ (a = k.call ∧ s.pending k i = true) ∨ t.seen k i = true
  seen_mono : ∀ k i, s.seen k i = true → t.seen k i = true
  seen_new : ∀ k i, t.seen k i = true → s.seen k i = true ∨
    t.read k i = true ∧ ∃ tx ∈ s.loop.transactions, phaseOf tx = k ∧ tx.index = i

theorem ReadStep.of_eq {a : Action} (hread : t.read = s.read) (hseen : t.seen = s.seen)
    (hf : a ≠ .readFreezeCache) (hc : a ≠ .readCommitted) :
    ReadStep s a t where
  read_mono k i h := hread ▸ h
  called k i h := by
    cases k with
    | freeze => exact absurd h hf
    | commit => exact absurd h hc
  read_new k i h := .inl (hread ▸ h)
  seen_mono k i h := hseen ▸ h
  seen_new k i h := .inl (hseen ▸ h)

theorem ReadStep.of_see {opens : Bool} {tx : StateTransferTransaction}
    (htx : tx ∈ s.loop.transactions)
    (hread : ∀ k i, t.read k i = true ↔ (k = phaseOf tx ∧ i = tx.index) ∨ s.read k i = true)
    (hseen : ∀ k i, t.seen k i = true ↔ (k = phaseOf tx ∧ i = tx.index) ∨ s.seen k i = true) :
    ReadStep s (.loop opens) t where
  read_mono k i h := (hread k i).2 (.inr h)
  called k i h := by cases k <;> cases h
  read_new k i h := by
    rcases (hread k i).1 h with hk | hr
    · exact .inr (.inr ((hseen k i).2 (.inl hk)))
    · exact .inl hr
  seen_mono k i h := (hseen k i).2 (.inr h)
  seen_new k i h := by
    rcases (hseen k i).1 h with ⟨rfl, rfl⟩ | hs
    · exact .inr ⟨(hread _ _).2 (.inl ⟨rfl, rfl⟩), tx, htx, rfl, rfl⟩
    · exact .inl hs

theorem ReadStep.of_call {k : Phase}
    (hread : ∀ k' i, t.read k' i = true ↔ s.read k' i = true ∨ (k' = k ∧ s.pending k' i = true))
    (hseen : t.seen = s.seen) : ReadStep s k.call t := by
  have hinj : ∀ k' : Phase, k.call = k'.call → k' = k := by
    intro k'
    cases k <;> cases k' <;> simp [Phase.call]
  constructor
  · intro k' i h
    exact (hread k' i).2 (.inl h)
  · intro k' i hk hp
    exact (hread k' i).2 (.inr ⟨hinj k' hk, hp⟩)
  · intro k' i h
    rcases (hread k' i).1 h with hr | ⟨rfl, hp⟩
    · exact .inl hr
    · exact .inr (.inl ⟨rfl, hp⟩)
  · intro k' i h
    rwa [hseen]
  · intro k' i h
    exact .inl (hseen ▸ h)

theorem readStep_loop {opens : Bool} (hstep : LoopStep s opens t) :
    ReadStep s (.loop opens) t := by
  cases hstep with
  | @seeFreeze ev tx rest hloop htx =>
    have hmem : tx ∈ s.loop.transactions := by simp [hloop, transactions]
    apply ReadStep.of_see hmem
    · intro k i
      cases k <;> by_cases hi : i = tx.index <;> simp [Node.read, htx, hi, Node.addCachedTransaction]
    · intro k i
      cases k <;> by_cases hi : i = tx.index <;> simp [Node.seen, htx, hi, Node.addCachedTransaction]
  | @seeCommit ev tx rest loop hloop htx hnext =>
    have hmem : tx ∈ s.loop.transactions := by simp [hloop, transactions]
    apply ReadStep.of_see hmem
    · intro k i
      cases k <;> by_cases hi : i = tx.index <;> simp [Node.read, htx, hi]
    · intro k i
      cases k <;> by_cases hi : i = tx.index <;> simp [Node.seen, htx, hi]
  | _ => exact .of_eq rfl rfl (by simp) (by simp)

theorem read_closeSignal (s : Node) (i : UInt64) :
    (s.closeSignal i).read = s.read ∧ (s.closeSignal i).seen = s.seen := by
  unfold closeSignal
  split <;> exact ⟨rfl, rfl⟩

theorem readStep_handler {h : ℕ} (hstep : HandlerStep s h t) : ReadStep s (.handler h) t := by
  cases hstep with
  | proceed p followerType cached hp => exact .of_eq rfl rfl nofun nofun
  | addFreeze hpc hlock => exact .of_eq rfl rfl nofun nofun
  | addCommitted hpc hlock => exact .of_eq rfl rfl nofun nofun
  | @close i p hpc hlock hactive hengaged hcloses hlistens =>
    exact .of_eq (read_closeSignal s i).1 (read_closeSignal s i).2 nofun nofun

/-- **A step and the lists of the pool.** -/
theorem readStep_of_step {a : Action} (hstep : step s a = some t) : ReadStep s a t := by
  cases (actionStep_of_step hstep).2 with
  | loop h => exact readStep_loop h
  | handler h => exact readStep_handler h
  | readFreezeCache hlock =>
    refine .of_call (k := .freeze) (fun k' i => ?_) rfl
    cases k' <;> simp [Node.read, Node.pending]
  | readCommitted hlock =>
    refine .of_call (k := .commit) (fun k' i => ?_) rfl
    cases k' <;> simp [Node.read, Node.pending]
  | @closeNext i visited hv hsig hi =>
    obtain ⟨hread, hseen⟩ := read_closeSignal { s with visited := some (i :: visited) } i
    exact .of_eq hread hseen (by simp) (by simp)
  | _ => exact .of_eq rfl rfl (by simp) (by simp)

/-! ## At most once -/

section Runs

variable {shardID : ShardID} {b : Block} {older : List Block}

theorem absorb_lists (s : Node) (tx : StateTransferTransaction) (k : Phase) (i : UInt64) :
    ((s.absorb tx).read k i = true ↔ (phaseOf tx = k ∧ tx.index = i) ∨ s.read k i = true) ∧
      ((s.absorb tx).seen k i = true ↔ (phaseOf tx = k ∧ tx.index = i) ∨ s.seen k i = true) := by
  unfold absorb
  by_cases hf : tx.toFreeze = true
  · rw [if_pos hf, phaseOf_freeze hf]
    rcases eq_or_ne i tx.index with rfl | hi
    · cases k <;> simp [Node.read, Node.seen, Node.addCachedTransaction]
    · cases k <;> simp [Node.read, Node.seen, Node.addCachedTransaction, hi, hi.symm]
  · rw [if_neg hf, phaseOf_commit hf]
    rcases eq_or_ne i tx.index with rfl | hi
    · cases k <;> simp [Node.read, Node.seen, Node.recordCommittedTx]
    · cases k <;> simp [Node.read, Node.seen, Node.recordCommittedTx, hi, hi.symm]

theorem init_read (k : Phase) (i : UInt64) :
    (init shardID b older).read k i = (init shardID b older).seen k i := by
  refine init_induction (P := fun s => ∀ k i, s.read k i = s.seen k i) shardID b older ?_ ?_ k i
  · intro k i
    cases k <;> rfl
  · intro s tx hs k i
    obtain ⟨hr, hv⟩ := absorb_lists s tx k i
    rw [Bool.eq_iff_iff, hr, hv, hs k i]

variable {s : Node} {k : Phase} {i : UInt64} {as : List Action}

theorem read_of_seen (hreach : Reach step anyStep (init shardID b older) s) :
    ∀ k i, s.seen k i = true → s.read k i = true := by
  refine Reach.invariant (P := fun s => ∀ k i, s.seen k i = true → s.read k i = true) ?_ ?_ hreach
  · intro k i hseen
    rwa [init_read]
  · intro s a t hs _ hstep k i hseen
    have hr := readStep_of_step hstep
    rcases hr.seen_new k i hseen with h | ⟨h, -⟩
    · exact hr.read_mono k i (hs k i h)
    · exact h

theorem read_of_reach {t : Node} (hreach : Reach step anyStep s t) (h : s.read k i = true) :
    t.read k i = true := by
  induction hreach with
  | refl => exact h
  | tail _ _ hstep ih => exact (readStep_of_step hstep).read_mono k i ih

theorem returned_of_read (h : s.read k i = true) : s.returned k i = none := by
  simp [returned, h]

/-- **No index is handed out twice, and none that `reset` has seen.** -/
theorem returned_once {s : Node} (hreach : Reach step anyStep (init shardID b older) s)
    (k : Phase) (i : UInt64) :
    (s.seen k i = true → s.returned k i = none) ∧
      ∀ t u, (s.returned k i).isSome = true → step s k.call = some t → Reach step anyStep t u →
        u.returned k i = none := by
  constructor
  · intro hseen
    exact returned_of_read (read_of_seen hreach k i hseen)
  · intro t u hret hcall hlater
    have hread : t.read k i = true :=
      (readStep_of_step hcall).called k i rfl (returned_isSome.1 hret).2
    exact returned_of_read (read_of_reach hlater hread)

/-- A source follower registers a freeze. -/
def registeringRun : List Action := .startPropose 0 ⟨0, 1, 0, []⟩ :: replicate 4 (.handler 0)

/-- The freeze is handed out by the first call and not by the second. -/
theorem returned_once_registered :
    ∃ s t, Reach step anyStep sampleNode s ∧
      (s.returned .freeze 0).isSome = true ∧ step s .readFreezeCache = some t ∧
      t.returned .freeze 0 = none := by
  have hrun : ((exec step sampleNode registeringRun).bind fun s =>
      (step s .readFreezeCache).map fun _ => (s.returned .freeze 0).isSome) = some true := by
    decide +kernel
  obtain ⟨s, hs, hrest⟩ := bind_eq_some_iff.1 hrun
  obtain ⟨t, ht, hret⟩ := map_eq_some_iff.1 hrest
  have hreach := reach_of_exec hs
  exact ⟨s, t, hreach, hret, ht, (returned_once hreach .freeze 0).2 t t hret ht .refl⟩

/-! ## What an abandoned proposal takes with it -/

/-- An earlier call of the run has found the index in the cache of its phase. -/
def FoundEarlier (s : Node) (as : List Action) (k : Phase) (i : UInt64) : Prop :=
  ∃ as₁ as₂ t, as = as₁ ++ k.call :: as₂ ∧ exec step s as₁ = some t ∧ t.pending k i = true

theorem FoundEarlier.concat (h : FoundEarlier s as k i) (a : Action) :
    FoundEarlier s (as ++ [a]) k i := by
  obtain ⟨as₁, as₂, t, rfl, ht, hp⟩ := h
  exact ⟨as₁, as₂ ++ [a], t, by simp, ht, hp⟩

theorem foundEarlier_of_read {s₀ : Node} (h₀ : s₀.read k i = true → s₀.seen k i = true)
    (hrun : exec step s₀ as = some s) (hread : s.read k i = true) :
    FoundEarlier s₀ as k i ∨ s.seen k i = true := by
  induction as using reverseRecOn generalizing s with
  | nil =>
    cases hrun
    exact .inr (h₀ hread)
  | append_singleton as a ih =>
    obtain ⟨t, ht, hstep⟩ := exec_concat_eq_some.1 hrun
    have hr := readStep_of_step hstep
    rcases hr.read_new k i hread with h | ⟨rfl, hp⟩ | h
    · rcases ih ht h with hf | hs
      · exact .inl (hf.concat a)
      · exact .inr (hr.seen_mono k i hs)
    · exact .inl ⟨as, [], t, rfl, ht, hp⟩
    · exact .inr h

theorem read_of_foundEarlier {s₀ : Node} (hrun : exec step s₀ as = some s)
    (h : FoundEarlier s₀ as k i) : s.read k i = true := by
  obtain ⟨as₁, as₂, t, rfl, ht, hp⟩ := h
  rw [exec_append, ht, bind_some, exec_cons] at hrun
  obtain ⟨u, hcall, hrest⟩ := bind_eq_some_iff.1 hrun
  exact read_of_reach (reach_of_exec hrest) ((readStep_of_step hcall).called k i rfl hp)

/-- What `reset` works on and what it has seen is on the chain. -/
structure OnChain (s : Node) : Prop where
  loop : ∀ tx ∈ s.loop.transactions, s.InChain tx
  seen : ∀ k i, s.seen k i = true → ∃ tx, s.InChain tx ∧ phaseOf tx = k ∧ tx.index = i

theorem onChain_init : OnChain (init shardID b older) := by
  obtain ⟨hchain, hloop⟩ : (init shardID b older).chain = b :: older ∧
      (init shardID b older).loop = .idle := by
    refine init_induction (P := fun s => s.chain = b :: older ∧ s.loop = .idle) shardID b older
      ⟨rfl, rfl⟩ ?_
    intro s tx hs
    unfold absorb
    split <;> exact hs
  -- what the start has seen is on the block it has started on
  have hseen : ∀ k i, (init shardID b older).seen k i = true →
      ∃ tx ∈ b.stateTransferTransactions, phaseOf tx = k ∧ tx.index = i := by
    refine foldlRecOn (motive := fun s : Node => ∀ k i, s.seen k i = true →
        ∃ tx ∈ b.stateTransferTransactions, phaseOf tx = k ∧ tx.index = i) _ absorb
      (fun k i h => ?_) fun s hs tx hmem k i h => ?_
    · cases k <;> cases h
    · rcases (absorb_lists s tx k i).2.1 h with hi | h
      · exact ⟨tx, hmem, hi⟩
      · exact hs k i h
  constructor
  · simp [hloop, transactions]
  · intro k i h
    obtain ⟨tx, hmem, htx⟩ := hseen k i h
    exact ⟨tx, ⟨b, by simp [hchain], hmem⟩, htx⟩

theorem step_inChain {t : Node} {a : Action} (hstep : step s a = some t) :
    (∀ tx, s.InChain tx → t.InChain tx) ∧
      ∀ tx ∈ t.loop.transactions, tx ∈ s.loop.transactions ∨ t.InChain tx := by
  have hquiet : ∀ {u : Node}, Quiet s u → (∀ tx, s.InChain tx → u.InChain tx) ∧
      ∀ tx ∈ u.loop.transactions, tx ∈ s.loop.transactions ∨ u.InChain tx := by
    intro u hq
    exact ⟨fun tx h => hq.inChain h, fun tx h => .inl (hq.loop ▸ h)⟩
  cases (actionStep_of_step hstep).2 with
  | loop hl =>
    obtain ⟨-, hchain, htxs⟩ := hl.frame
    have hin : ∀ tx, s.InChain tx → t.InChain tx := by
      intro tx h
      simpa only [InChain, hchain] using h
    refine ⟨hin, fun tx h => ?_⟩
    exact (htxs tx h).imp_right fun hcur => hin tx (inChain_of_current hcur)
  | startPropose _ | startCommit _ | receiveZero _ _ | timeout _ =>
    exact ⟨fun _ h => h, fun _ h => .inl h⟩
  | handler hh =>
    obtain ⟨-, u, p, rfl, hm⟩ := handler_move (stepAction_of_step hstep)
    obtain ⟨hin, hloop⟩ := hquiet hm.quiet
    exact ⟨hin, hloop⟩
  | receive hsig hl hp => exact ⟨fun _ h => h, fun _ h => .inl (hl ▸ h)⟩
  | _ => exact hquiet ((actionStep_of_step hstep).2.quiet rfl)

theorem onChain_of_reach (hreach : Reach step anyStep (init shardID b older) s) : OnChain s := by
  refine Reach.invariant onChain_init (fun s a t hs _ hstep => ?_) hreach
  obtain ⟨hin, hloop⟩ := step_inChain hstep
  refine ⟨fun tx h => (hloop tx h).elim (fun h => hin tx (hs.loop tx h)) id, fun k i h => ?_⟩
  rcases (readStep_of_step hstep).seen_new k i h with hseen | ⟨-, tx, htx, hki⟩
  · obtain ⟨tx, htx, hki⟩ := hs.seen k i hseen
    exact ⟨tx, hin tx htx, hki⟩
  · exact ⟨tx, hin tx (hs.loop tx htx), hki⟩

/-- **What waits in the pool is handed out exactly if no earlier call has found it there**, whether
or not a block has come of that call. -/
theorem returned_iff_unread {as : List Action} {s : Node} {k : Phase} {i : UInt64}
    (hrun : exec step (init shardID b older) as = some s) (hpending : s.pending k i = true)
    (hchain : ∀ tx, s.InChain tx → phaseOf tx = k → tx.index ≠ i) :
    (s.returned k i).isSome = true ↔ ¬ FoundEarlier (init shardID b older) as k i := by
  have hunseen : ¬ s.seen k i = true := by
    intro hseen
    obtain ⟨tx, htx, hk, hi⟩ := (onChain_of_reach (reach_of_exec hrun)).seen k i hseen
    exact hchain tx htx hk hi
  have hread : s.read k i = true ↔ FoundEarlier (init shardID b older) as k i := by
    constructor
    · intro h
      exact (foundEarlier_of_read (fun h => by rwa [← init_read]) hrun h).resolve_right hunseen
    · exact read_of_foundEarlier hrun
  rw [returned_isSome, ← hread, and_iff_left hpending, Bool.not_eq_true]

theorem not_inChain (h : s.chain.flatMap stateTransferTransactions = [])
    (tx : StateTransferTransaction) : ¬ s.InChain tx := by
  rintro ⟨b, hb, htx⟩
  have hmem : tx ∈ s.chain.flatMap stateTransferTransactions := mem_flatMap.2 ⟨b, hb, htx⟩
  rw [h] at hmem
  cases hmem

/-- The registered freeze is handed out when it is asked for the first time. -/
theorem returned_iff_unread_registered :
    ∃ s, exec step sampleNode registeringRun = some s ∧
      s.pending .freeze 0 = true ∧ ((s.returned .freeze 0).isSome = true ↔
        ¬ FoundEarlier sampleNode registeringRun .freeze 0) := by
  have hrun : (exec step sampleNode registeringRun).map (fun s =>
      (s.pending .freeze 0, s.chain.flatMap stateTransferTransactions)) =
      some (true, []) := by decide +kernel
  obtain ⟨s, hs, hp, htxs⟩ := facts_of_map hrun
  exact ⟨s, hs, hp, returned_iff_unread hs hp fun tx htx => absurd htx (not_inChain htxs tx)⟩

/-- **An abandoned proposal takes its transactions with it**: they are not returned again. -/
theorem dropped_with_proposal :
    ∃ s, Reach step anyStep sampleNode s ∧ s.pending .freeze 0 = true ∧
      (∀ tx, ¬ s.InChain tx) ∧ s.returned .freeze 0 = none := by
  have hrun : (exec step sampleNode (registeringRun ++ [.readFreezeCache])).map
      (fun s => (s.pending .freeze 0, s.chain.flatMap stateTransferTransactions,
        s.returned .freeze 0)) = some (true, [], none) := by decide +kernel
  obtain ⟨s, hs, hp, hst⟩ := facts_of_map hrun
  obtain ⟨htxs, hret⟩ := Prod.mk.inj hst
  exact ⟨s, reach_of_exec hs, hp, not_inChain htxs, hret⟩

end Runs

end DyShard.Atomic.Follower
