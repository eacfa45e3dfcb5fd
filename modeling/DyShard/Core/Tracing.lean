import DyShard.Core.Replay

/-!
# Rebuilding states for tracing: `Process`

The tracer replays a chain with the processor from before dynamic sharding, which has no loop over
the state-transfer transactions and no load map.
-/

namespace DyShard.Core

open Progress Outcome List

open State (DB)
open Load (LoadMapDB)

variable {W H : Type}

/-! ## The older processor -/

variable (chain : Chain W H)

/-- `Finalize`, as far as the state goes; `Process` drops the block it assembles. -/
def finalize (M : StateMachine W) (header : Preamble) (db : DB W) (doubleSigners : List SlashRecord)
    (sigsReady : Bool) : Outcome Err (DB W) := do
  let (err, db) ← .ofOption <|
    M.run (chain.engine.finalizeState chain.config header doubleSigners sigsReady) db
  match err with
  | some e => .error e
  | none => pure (db.intermediateRoot chain.codec (chain.config.isS3 header.epoch))

/-- What `Process` leaves and returns. -/
structure Traced (W H : Type) where
  db : DB W
  receipts : List (Receipt H)
  cxReceipts : List CXReceipt
  allLogs : List State.EventLog
  usedGas : UInt64

/-- The end of `Process`: the slashes are decoded and the block is finalised. -/
def finalizeTrace (block : Block H) (p : Progress W H) : Outcome Err (Traced W H) :=
  match block.header.slashes with
  | none => .error (.msg "[Process] Cannot finalize block")
  | some slashes =>
    match finalize chain (DB.machine chain.codec) block.header.toPreamble p.db slashes true with
    | .panic => .panic
    | .error _ => .error (.msg "[Process] Cannot finalize block")
    | .ok db => .ok ⟨db, p.receipts, p.outcxs, p.allLogs, p.usedGas⟩

/-- `Process`: the loops of `Process1` without load map and state transfers. -/
def process (block : Block H) (db : DB W) : Outcome Err (Traced W H) := do
  let p ← executeTransactions chain (DB.machine chain.codec) block db (.new fun _ => none)
  let p ← block.incomingReceipts.foldlM (processIncomingReceipt chain block.header.toPreamble) p
  finalizeTrace chain block p

/-! ## The loops do not look at the load map -/

/-- The same progress with another load map. -/
def Progress.withMap (lm : LoadMapDB) (p : Progress W H) : Progress W H := { p with loadmapdb := lm }

section WithMap

variable (chain : Chain W H) (M : StateMachine W) (lm : LoadMapDB)

theorem processTransaction_withMap (beneficiary : Address) (header : Preamble) (p : Progress W H)
    (tx : Transaction × ℕ) :
    processTransaction chain M beneficiary header (p.withMap lm) tx =
      withMap lm <$> processTransaction chain M beneficiary header p tx := by
  simp only [processTransaction, withMap]
  cases applyTransaction chain M beneficiary p.gp (p.db.prepare tx.1.hash tx.2) header tx.1
    p.usedGas with
  | none => rfl
  | some applied =>
    simp only [ofOption, Outcome.ok_bind]
    cases applied.result <;> rfl

theorem processStakingTransaction_withMap (beneficiary : Address) (header : Preamble)
    (p : Progress W H) (tx : StakingTransaction × ℕ) :
    processStakingTransaction chain M beneficiary header (p.withMap lm) tx =
      withMap lm <$> processStakingTransaction chain M beneficiary header p tx := by
  simp only [processStakingTransaction, withMap]
  cases applyStakingTransaction chain M beneficiary p.gp (p.db.prepare tx.1.hash tx.2) header tx.1
    p.usedGas with
  | none => rfl
  | some applied =>
    simp only [ofOption, Outcome.ok_bind]
    cases applied.result <;> rfl

theorem processIncomingReceipt_withMap (header : Preamble) (p : Progress W H)
    (cx : Option CXReceiptsProof) :
    processIncomingReceipt chain header (p.withMap lm) cx =
      withMap lm <$> processIncomingReceipt chain header p cx := by
  simp only [processIncomingReceipt, withMap]
  cases applyIncomingReceipt chain header p.db cx <;> rfl

theorem executeTransactions_withMap (block : Block H) (db : DB W) (lm' : LoadMapDB) :
    executeTransactions chain M block db lm =
      withMap lm <$> executeTransactions chain M block db lm' := by
  simp only [executeTransactions]
  cases chain.getECDSAFromCoinbase block.header.toPreamble with
  | error e => rfl
  | ok beneficiary =>
    simp only [Outcome.ofExcept, Outcome.ok_bind]
    have htxs := foldlM_map
      (processTransaction_withMap chain M lm beneficiary block.header.toPreamble)
      block.transactions.zipIdx
      { db, loadmapdb := lm', gp := block.header.gasLimit }
    have hstart : withMap (H := H) lm
        { db, loadmapdb := lm', gp := block.header.gasLimit } =
          { db, loadmapdb := lm, gp := block.header.gasLimit } := rfl
    rw [hstart] at htxs
    rw [htxs]
    cases block.transactions.zipIdx.foldlM (processTransaction chain M beneficiary
        block.header.toPreamble) { db, loadmapdb := lm', gp := block.header.gasLimit } with
    | panic => rfl
    | error e => rfl
    | ok p =>
      exact foldlM_map
        (processStakingTransaction_withMap chain M lm beneficiary block.header.toPreamble) _ p

end WithMap

/-! ## One receipt for each transaction -/

section Receipts

variable {chain : Chain W H} {M : StateMachine W}

variable {header : Preamble} {p p' : Progress W H} {block : Block H} {db : DB W}
  {beneficiary : Address}

theorem receipts_processTransaction {tx : Transaction × ℕ}
    (h : processTransaction chain M beneficiary header p tx = .ok p') :
    p'.receipts.length = p.receipts.length + 1 := by
  obtain ⟨applied, -, h⟩ := bind_eq_ok.1 h
  obtain ⟨r, -, h⟩ := bind_eq_ok.1 h
  cases h
  simp

theorem receipts_processStakingTransaction {tx : StakingTransaction × ℕ}
    (h : processStakingTransaction chain M beneficiary header p tx = .ok p') :
    p'.receipts.length = p.receipts.length + 1 := by
  obtain ⟨applied, -, h⟩ := bind_eq_ok.1 h
  obtain ⟨r, -, h⟩ := bind_eq_ok.1 h
  cases h
  simp

theorem receipts_processStateTransferTransaction {stx : Atomic.StateTransferTransaction × ℕ}
    (h : processStateTransferTransaction chain header p stx = .ok p') :
    p'.receipts.length = p.receipts.length + 1 := by
  obtain ⟨r, -, h⟩ := bind_eq_ok.1 h
  cases h
  simp

theorem receipts_executeTransactions {lm : LoadMapDB}
    (h : executeTransactions chain M block db lm = .ok p) :
    p.receipts.length = block.transactions.length + block.stakingTransactions.length := by
  obtain ⟨beneficiary, -, h⟩ := bind_eq_ok.1 h
  obtain ⟨p₁, h₁, h₂⟩ := bind_eq_ok.1 h
  have hplain := foldlM_count (fun _ _ _ => receipts_processTransaction) h₁
  have hstaking := foldlM_count (fun _ _ _ => receipts_processStakingTransaction) h₂
  simp only [length_nil, length_zipIdx, Nat.zero_add] at hplain hstaking
  rw [hstaking, hplain]

theorem receipts_incoming {cxs : List (Option CXReceiptsProof)}
    (h : cxs.foldlM (processIncomingReceipt chain header) p = .ok p') :
    p'.receipts = p.receipts := by
  refine foldlM_ok (P := fun q => q.receipts = p.receipts) ?_ rfl h
  intro cx _ q q' hq hstep
  unfold processIncomingReceipt at hstep
  split at hstep
  · cases hstep
  · cases hstep
  · cases hstep
    exact hq

theorem receipts_process1 {lm : LoadMapDB} {q : Processed W H}
    (h : process1 chain block db lm = .ok q) :
    q.receipts.length = block.transactions.length + block.stakingTransactions.length +
      block.stateTransferTransactions.length := by
  obtain ⟨p, hp, hfinal⟩ := bind_eq_ok.1 h
  obtain ⟨p₁, h₁, hp⟩ := bind_eq_ok.1 hp
  obtain ⟨p₂, h₂, h₃⟩ := bind_eq_ok.1 hp
  have hreceipts : q.receipts = p.receipts := by
    unfold finalizeBlock at hfinal
    split at hfinal
    · cases hfinal
    · split at hfinal
      · cases hfinal
      · cases hfinal
      · cases hfinal
        rfl
  have hcount := foldlM_count (fun _ _ _ => receipts_processStateTransferTransaction) h₂
  rw [hreceipts, receipts_incoming h₃, hcount, receipts_executeTransactions h₁, Block.transfers,
    length_zipIdx]

theorem receipts_process {q : Traced W H} (h : process chain block db = .ok q) :
    q.receipts.length = block.transactions.length + block.stakingTransactions.length := by
  obtain ⟨p₁, h₁, h⟩ := bind_eq_ok.1 h
  obtain ⟨p, hp, h⟩ := bind_eq_ok.1 h
  have hreceipts : q.receipts = p.receipts := by
    unfold finalizeTrace at h
    split at h
    · cases h
    · split at h
      · cases h
      · cases h
      · cases h
        rfl
  rw [hreceipts, receipts_incoming hp, receipts_executeTransactions h₁]

end Receipts

/-! ## When the tracer rebuilds the state -/

/-- What `Process1` leaves, without the load map. -/
def Processed.traced (q : Processed W H) : Traced W H :=
  ⟨q.db, q.receipts, q.cxReceipts, q.allLogs, q.usedGas⟩

theorem finalize_eq {chain : Chain W H} {M : StateMachine W} {block : Block H} (db : DB W)
    (lm : LoadMapDB) (receipts : List (Receipt H)) (outcxs : List CXReceipt)
    (slashes : List SlashRecord) :
    finalize chain M block.header.toPreamble db slashes true =
      Finalized.db <$> finalize1 chain M block.header db lm block.transactions receipts outcxs
        block.incomingReceipts block.stakingTransactions block.stateTransferTransactions slashes
        true block.header.viewID := by
  simp only [finalize, finalize1]
  cases M.run (chain.engine.finalizeState chain.config block.header.toPreamble slashes true) db with
  | none => rfl
  | some r =>
    simp only [ofOption, Outcome.ok_bind]
    cases r.1 <;> rfl

theorem finalizeTrace_eq (block : Block H) (lm : LoadMapDB) (p : Progress W H) :
    finalizeTrace chain block p =
      Processed.traced <$> finalizeBlock chain (DB.machine chain.codec) block (p.withMap lm) := by
  unfold finalizeTrace finalizeBlock
  cases block.header.slashes with
  | none => rfl
  | some slashes =>
    dsimp only
    rw [finalize_eq p.db lm p.receipts p.outcxs slashes]
    simp only [withMap]
    cases finalize1 chain (DB.machine chain.codec) block.header p.db lm block.transactions
      p.receipts p.outcxs block.incomingReceipts block.stakingTransactions
      block.stateTransferTransactions slashes true block.header.viewID <;> rfl

/-- Without state-transfer transactions the older processor does what the newer one does. -/
theorem process_eq {chain : Chain W H} {block : Block H} {db : DB W} (lm : LoadMapDB)
    (hnone : block.stateTransferTransactions = []) :
    process chain block db = Processed.traced <$> process1 chain block db lm := by
  have htransfers : block.transfers = [] := by simp [Block.transfers, hnone]
  simp only [process, process1, process1On, executeBlock, htransfers, foldlM_nil,
    executeTransactions_withMap chain (DB.machine chain.codec) lm block db (.new fun _ => none)]
  cases executeTransactions chain (DB.machine chain.codec) block db (.new fun _ => none) with
  | panic => rfl
  | error e => rfl
  | ok p =>
    have hloop := foldlM_map
      (processIncomingReceipt_withMap chain lm block.header.toPreamble) block.incomingReceipts p
    change (block.incomingReceipts.foldlM (processIncomingReceipt chain block.header.toPreamble)
      p).bind (finalizeTrace chain block) = Processed.traced <$> (block.incomingReceipts.foldlM
        (processIncomingReceipt chain block.header.toPreamble) (p.withMap lm)).bind
          (finalizeBlock chain (DB.machine chain.codec) block)
    rw [hloop]
    cases block.incomingReceipts.foldlM (processIncomingReceipt chain block.header.toPreamble) p with
    | panic => rfl
    | error e => rfl
    | ok p' => exact finalizeTrace_eq chain block lm p'

/-- The tracer rebuilds the state root, the receipts, the logs and the gas of the block. -/
def Retraces (block : Block H) (db : DB W) (lm : LoadMapDB) : Prop :=
  ∃ p q, process1 chain block db lm = .ok p ∧ process chain block db = .ok q ∧
    chain.hashing.stateRoot q.db.trie = chain.hashing.stateRoot p.db.trie ∧
    q.receipts = p.receipts ∧ q.allLogs = p.allLogs ∧ q.usedGas = p.usedGas

/-- **The tracer rebuilds an executed block exactly when the block has no state-transfer
transaction.** -/
theorem retraces_iff {chain : Chain W H} {block : Block H} {db : DB W} {lm : LoadMapDB}
    {p : Processed W H} (hp : process1 chain block db lm = .ok p) :
    Retraces chain block db lm ↔ block.stateTransferTransactions = [] := by
  constructor
  · rintro ⟨p, q, hp, hq, -, hreceipts, -⟩
    have hnew := receipts_process1 hp
    have hold := receipts_process hq
    rw [hreceipts] at hold
    exact length_eq_zero_iff.1 (by omega)
  · intro hnone
    have hq : process chain block db = .ok p.traced := by
      rw [process_eq lm hnone, hp]
      rfl
    exact ⟨p, p.traced, hp, hq, rfl, rfl, rfl, rfl⟩

theorem process1_of_accepts [DecidableEq H] {chain : Chain W H} {block : Block H} {db : DB W}
    {lm : LoadMapDB} (h : accepts chain block db lm = true) :
    ∃ p, process1 chain block db lm = .ok p := by
  unfold accepts at h
  split at h
  · next p hp => exact ⟨p, hp⟩
  · cases h

/-- A block that credits account `0xaa` and moves nothing is accepted, and rebuilt. -/
theorem retraces_credit :
    accepts (balanceChain 1) (sampleBlock 1 1 [] [credit] 6).toBlock (.new (holding 5).state)
        (.new (holding 5).loadMap) = true ∧
      Retraces (balanceChain 1) (sampleBlock 1 1 [] [credit] 6).toBlock (.new (holding 5).state)
        (.new (holding 5).loadMap) := by
  have haccepts : accepts (balanceChain 1) (sampleBlock 1 1 [] [credit] 6).toBlock
      (.new (holding 5).state) (.new (holding 5).loadMap) = true := by decide +kernel
  obtain ⟨p, hp⟩ := process1_of_accepts haccepts
  exact ⟨haccepts, (retraces_iff hp).2 rfl⟩

/-- The commit on the target shard. -/
abbrev commitBlock : Block Digest := (sampleBlock 2 1 [migration false (some 5)] [] 5).toBlock

/-- **The commit of a migration is lost in tracing.** -/
theorem migration_not_retraced :
    accepts (balanceChain 2) commitBlock (.new (holding 0).state) (.new (holding 0).loadMap) = true ∧
      (∃ p q, process1 (balanceChain 2) commitBlock (.new (holding 0).state)
          (.new (holding 0).loadMap) = .ok p ∧
        process (balanceChain 2) commitBlock (.new (holding 0).state) = .ok q ∧
        p.db.getBalance 0xaa = 5 ∧ q.db.getBalance 0xaa = 0) ∧
      ¬ Retraces (balanceChain 2) commitBlock (.new (holding 0).state)
        (.new (holding 0).loadMap) := by
  have haccepts : accepts (balanceChain 2) commitBlock (.new (holding 0).state)
      (.new (holding 0).loadMap) = true := by decide +kernel
  have hrun : (process1 (balanceChain 2) commitBlock (.new (holding 0).state)
      (.new (holding 0).loadMap) >>= fun p =>
      process (balanceChain 2) commitBlock (.new (holding 0).state) >>= fun q =>
      pure (p.db.getBalance 0xaa, q.db.getBalance 0xaa)) = .ok (5, 0) := by decide +kernel
  obtain ⟨p, hp, hrest⟩ := bind_eq_ok.1 hrun
  obtain ⟨q, hq, hbalances⟩ := bind_eq_ok.1 hrest
  obtain ⟨hnew, hold⟩ := Prod.mk.inj (ok.inj hbalances)
  refine ⟨haccepts, ⟨p, q, hp, hq, hnew, hold⟩, ?_⟩
  rintro ⟨p', q', hp', hq', -, hreceipts, -⟩
  have hcount := receipts_process1 hp'
  rw [← hreceipts, receipts_process hq'] at hcount
  simp [commitBlock, sampleBlock] at hcount

end DyShard.Core
