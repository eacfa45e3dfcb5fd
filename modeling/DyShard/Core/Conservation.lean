import DyShard.Core.Freeze

/-!
# What a migration does to the money

The freeze and the commit on the source shard leave the balance there as it is; the commit on the
target shard overwrites the balance with the one it carries.
-/

namespace DyShard.Core

open List State DB Outcome

open State (DB Account)
open State.DB (Holds Frozen)
open Atomic (StateTransferTransaction)
open Load (LoadMapDB)

variable {W H : Type} {chain : Chain W H}

/-! ## A balance at rest -/

/-- The account is at rest with a balance, and no validator wrapper of it is loaded. -/
structure Rests (a : Address) (v : ℤ) (db : DB W) : Prop where
  holds : ∃ x, Holds a x db ∧ (x.getD .zero).balance = v
  unloaded : db.stateValidators a = none

section Rests

variable {a : Address} {v : ℤ} {db : DB W} {header : Preamble}

theorem Rests.prepare (h : Rests a v db) (thash : Word) (i : ℕ) :
    Rests a v (db.prepare thash i) := by
  obtain ⟨⟨x, hx, hv⟩, hnone⟩ := h
  exact ⟨⟨x, holds_prepare hx thash i, hv⟩, hnone⟩

theorem unloaded_finalise (codec : WrapperCodec W) (d : Bool)
    (h : db.stateValidators a = none) : (db.finalise codec d).stateValidators a = none :=
  (away_flushValidators codec (.inl h)).2 h

theorem unloaded_settle (epoch : ℕ) (h : db.stateValidators a = none) :
    (chain.settle epoch db).1.stateValidators a = none := by
  unfold Chain.settle
  split
  · exact unloaded_finalise chain.codec true h
  · exact unloaded_finalise chain.codec false h

theorem Rests.settle (h : Rests a v db) (epoch : ℕ) : Rests a v (chain.settle epoch db).1 := by
  obtain ⟨⟨x, hx, hv⟩, hnone⟩ := h
  exact ⟨⟨x, (holds_settle hx epoch).1, hv⟩, unloaded_settle epoch hnone⟩

theorem Rests.intermediateRoot (h : Rests a v db) (codec : WrapperCodec W) (d : Bool) :
    Rests a v (db.intermediateRoot codec d) := by
  obtain ⟨⟨x, hx, hv⟩, hnone⟩ := h
  exact ⟨⟨x, (hx.intermediateRoot codec d).1, hv⟩, unloaded_finalise codec d hnone⟩

theorem keeps_rests (epoch : ℕ) : Keeps chain (locked chain.codec a) epoch (Rests a v) where
  prepare _ thash i h := h.prepare thash i
  run := by
    rintro α p db y db' ⟨⟨x, hx, hv⟩, hnone⟩ hrun
    exact ⟨⟨x, hx.run hrun, hv⟩, (away_run_avoids p hx.quiet hrun).2.trans hnone⟩
  settle _ h := h.settle epoch
  root _ h := h.intermediateRoot chain.codec _

/-! ## Writes to other accounts -/

theorem stateValidators_addBalance (db : DB W) (b : Address) (amount : ℤ) :
    (db.addBalance b amount).stateValidators = db.stateValidators := by
  refine (congrArg Kept.validators (shows_addBalance db b amount).kept).trans ?_
  unfold Kept.touch
  split <;> rfl

theorem stateValidators_freezeAccount (db : DB W) (b : Address) :
    (freezeAccount db b).stateValidators = db.stateValidators := by
  obtain ⟨db₀, o, heq, hval, -⟩ := freezeAccount_eq db b
  rw [heq, ← hval]
  rfl

theorem stateValidators_installAccount (db : DB W) (b : Address) (balance : ℤ) (nonce : UInt64) :
    (installAccount db b balance nonce).stateValidators = db.stateValidators := by
  have hnew : (if db.exist b then db else db.createAccount b).stateValidators =
      db.stateValidators := by
    split
    · rfl
    · exact stateValidators_createAccount db b
  unfold installAccount
  rw [← hnew]
  generalize (if db.exist b then db else db.createAccount b) = db₁
  calc (((db₁.setFreezeState b false).setBalance b balance).setNonce b nonce).stateValidators
      = ((db₁.setFreezeState b false).setBalance b balance).stateValidators :=
        congrArg Kept.validators (shows_setNonce _ b nonce).kept
    _ = (db₁.setFreezeState b false).stateValidators :=
        congrArg Kept.validators (shows_setBalance _ b balance).kept
    _ = db₁.stateValidators :=
        congrArg Kept.validators (shows_setFreezeState db₁ b false).kept

theorem rests_applyCXReceipt {db' : DB W} {cx : Option CXReceipt} (h : Rests a v db)
    (hcx : ∀ c ∈ cx, c.recipient ≠ some a)
    (hstep : applyCXReceipt chain header db cx = .ok db') : Rests a v db' := by
  obtain ⟨⟨x, hx, hv⟩, hnone⟩ := h
  refine ⟨⟨x, (holds_applyCXReceipt hx (fun c hc => .inl (hcx c hc)) hstep).1, hv⟩, ?_⟩
  unfold applyCXReceipt at hstep
  split at hstep
  · cases hstep
  · split at hstep
    · cases hstep
    · next b _ =>
      cases hstep
      refine unloaded_finalise chain.codec (chain.config.isS3 header.epoch) ?_
      rw [stateValidators_addBalance]
      split
      · exact hnone
      · rw [stateValidators_createAccount, hnone]

/-! ## Writes to the account -/

theorem balance_trieEntry_finaliseObject {o : Object} (d : Bool) (hdel : o.deleted = false)
    (hlive : o.suicided = false) :
    ((trieEntry (finaliseObject d o)).getD .zero).balance = o.data.balance := by
  unfold finaliseObject
  split
  · next h =>
    -- deleted because it is empty
    have hempty : o.empty = true := by
      rw [hlive, Bool.false_or, Bool.and_eq_true] at h
      exact h.2
    have hzero : o.data.balance = 0 := by
      simp only [Object.empty, Bool.and_eq_true, beq_iff_eq] at hempty
      exact hempty.1.2
    rw [hzero]
    rfl
  · have hdel' : o.finalise.deleted = false := hdel
    rw [trieEntry, hdel', if_neg Bool.false_ne_true]
    rfl

theorem rests_settle_update {db₀ : DB W} {e : JournalEntry Object} {o : Object}
    (epoch : ℕ) (he : e.dirtied = some a) (hnone : db₀.stateValidators a = none)
    (hdel : o.deleted = false) (hlive : o.suicided = false) :
    Rests a o.data.balance (chain.settle epoch (db₀.update a e o)).1 where
  holds := ⟨_, holds_settle_update epoch he (.inl hnone),
    balance_trieEntry_finaliseObject _ hdel hlive⟩
  unloaded := unloaded_settle epoch (by exact hnone)

theorem Rests.freeze (h : Rests a v db) (epoch : ℕ) :
    Rests a v (chain.settle epoch (freezeAccount db a)).1 := by
  obtain ⟨⟨x, hx, hv⟩, hnone⟩ := h
  obtain ⟨db₀, o, heq, hval, hget, hdata, hlive⟩ := freezeAccount_eq db a
  have hbalance : o.data.balance = v := by
    rw [← hv, ← hx.account_eq, ← hdata]
    rfl
  have hrest : Rests a (o.setFreezeState true).data.balance (chain.settle epoch
      (db₀.update a (.freezeChange a o.freeze) (o.setFreezeState true))).1 :=
    rests_settle_update epoch rfl (by rw [hval, hnone]) (getStateObject_eq_some hget).2
      (hlive fun o' => hx.living_of_getStateObject)
  rw [heq, ← hbalance]
  exact hrest

theorem installAccount_eq (db : DB W) (a : Address) (balance : ℤ) (nonce : UInt64)
    (hliving : ∀ o, db.getStateObject a = some o → o.suicided = false) :
    ∃ (db₀ : DB W) (o : Object),
      installAccount db a balance nonce = db₀.update a (.nonceChange a o.data.nonce)
        ((o.setBalance balance).setNonce nonce) ∧
      db₀.stateValidators = db.stateValidators ∧ o.deleted = false ∧ o.suicided = false := by
  obtain ⟨o, hget, hval, hlive⟩ : ∃ o, (if db.exist a then db else
      db.createAccount a).getStateObject a = some o ∧
      (if db.exist a then db else db.createAccount a).stateValidators = db.stateValidators ∧
      o.suicided = false := by
    rcases getStateObject_of_exist db a with ⟨o, hget, hexist⟩ | ⟨-, hexist⟩
    · rw [hexist, if_pos rfl]
      exact ⟨o, hget, rfl, hliving o hget⟩
    · rw [hexist, if_neg Bool.false_ne_true]
      exact ⟨_, getStateObject_createAccount db a, stateValidators_createAccount db a, rfl⟩
  have hdel := (getStateObject_eq_some hget).2
  unfold installAccount
  dsimp only
  generalize (if db.exist a then db else db.createAccount a) = db₁ at hget hval ⊢
  rw [setFreezeState_eq hget]
  have hget₁ := getStateObject_update (a := a) db₁ (.freezeChange a o.freeze)
    (o := o.setFreezeState false) hdel
  rw [setBalance_eq hget₁ rfl]
  have hget₂ := getStateObject_update (a := a)
    (db₁.update a (.freezeChange a o.freeze) (o.setFreezeState false))
    (.balanceChange a (o.setFreezeState false).data.balance)
    (o := (o.setFreezeState false).setBalance balance) hdel
  rw [setNonce_eq hget₂ rfl]
  exact ⟨_, o.setFreezeState false, rfl, hval, hdel, hlive⟩

theorem Rests.install (h : Rests a v db) (epoch : ℕ) (balance : ℤ) (nonce : UInt64) :
    Rests a balance (chain.settle epoch (installAccount db a balance nonce)).1 := by
  obtain ⟨⟨x, hx, -⟩, hnone⟩ := h
  obtain ⟨db₀, o, heq, hval, hdel, hlive⟩ := installAccount_eq db a balance nonce
    fun o => hx.living_of_getStateObject
  have hrest : Rests a ((o.setBalance balance).setNonce nonce).data.balance (chain.settle epoch
      (db₀.update a (.nonceChange a o.data.nonce) ((o.setBalance balance).setNonce nonce))).1 :=
    rests_settle_update epoch rfl (by rw [hval, hnone]) hdel hlive
  rw [heq]
  exact hrest

end Rests

/-! ## State-transfer transactions -/

/-- The balance of an account on a shard after a state-transfer transaction. -/
def balanceAfter (a : Address) (shardID : ShardID) (v : ℤ) (stx : StateTransferTransaction) : ℤ :=
  if stx.address = a ∧ stx.toFreeze = false ∧ writesAccount shardID stx = true then
    stx.balance.getD 0
  else v

section Transfers

variable {a : Address} {v : ℤ} {header : Preamble}

variable {stx : StateTransferTransaction} {r : DB W × LoadMapDB × Receipt H}

theorem unloaded_applyStateTransferTransaction {db : DB W} {lm : LoadMapDB}
    (h : db.stateValidators a = none)
    (hstep : applyStateTransferTransaction chain db header lm stx = some r) :
    r.1.stateValidators a = none := by
  rcases applyStateTransferTransaction_cases hstep with
    ⟨-, hr | hr⟩ | ⟨-, ⟨-, hr⟩ | ⟨-, hr⟩⟩ <;> rw [hr]
  · exact h
  · exact unloaded_settle _ h
  · exact unloaded_settle _ (by rw [stateValidators_freezeAccount, h])
  · exact unloaded_settle _ (by rw [stateValidators_installAccount, h])

/-- **What a state-transfer transaction does to the balance of an account at rest.** -/
theorem Rests.applyStateTransferTransaction {db : DB W} {lm : LoadMapDB} (h : Rests a v db)
    (hstep : applyStateTransferTransaction chain db header lm stx = some r) :
    Rests a (balanceAfter a header.shardID v stx) r.1 := by
  by_cases hwrites : stx.address = a ∧ writesAccount header.shardID stx = true
  · obtain ⟨rfl, hw⟩ := hwrites
    unfold balanceAfter
    rcases applyStateTransferTransaction_cases hstep with
      ⟨hn, -⟩ | ⟨-, ⟨hfreeze, hr⟩ | ⟨hfreeze, hr⟩⟩
    · cases hw.symm.trans hn
    · -- a freeze on the source shard
      rw [if_neg (by simp [hfreeze]), hr]
      exact h.freeze _
    · -- a commit on the target shard
      rw [if_pos ⟨rfl, hfreeze, hw⟩, hr]
      exact h.install _ _ stx.nonce
  · have hv : balanceAfter a header.shardID v stx = v :=
      if_neg fun hw => hwrites ⟨hw.1, hw.2.2⟩
    have hne : stx.address ≠ a ∨ writesAccount header.shardID stx = false := by
      rw [← Bool.not_eq_true]
      exact not_and_or.1 hwrites
    obtain ⟨⟨x, hx, hxv⟩, hnone⟩ := h
    rw [hv]
    exact ⟨⟨x, (holds_applyStateTransferTransaction hx hne hstep).1, hxv⟩,
      unloaded_applyStateTransferTransaction hnone hstep⟩

theorem Rests.transfers {stxs : List (StateTransferTransaction × ℕ)} {p p' : Progress W H}
    (h : Rests a v p.db)
    (hrun : stxs.foldlM (processStateTransferTransaction chain header) p = .ok p') :
    Rests a ((stxs.map Prod.fst).foldl (balanceAfter a header.shardID) v) p'.db := by
  induction stxs generalizing v p with
  | nil =>
    cases hrun
    exact h
  | cons stx stxs ih =>
    rw [foldlM_cons, bind_eq_ok] at hrun
    obtain ⟨p₁, hstep, hrun⟩ := hrun
    obtain ⟨r, hr, hstep⟩ := bind_eq_ok.1 hstep
    cases hstep
    rw [ofOption_eq_ok] at hr
    have hprepared := h.prepare (chain.hashing.stateTransferTxHash stx.1) stx.2
    exact ih (hprepared.applyStateTransferTransaction hr) hrun

end Transfers

/-! ## Blocks in which only state-transfer transactions touch an account -/

/-- Nothing but the state-transfer transactions of the block touches the account. -/
structure Confines (chain : Chain W H) (a : Address) (tip : Tip) (block : Block H) : Prop where
  clients : process1On chain (locked chain.codec a) block (DB.new tip.state)
    (LoadMapDB.new tip.loadMap) ≠ .panic
  receipts : ∀ cxp ∈ block.incomingReceipts, ∀ c ∈ cxp, ∀ cx ∈ c.receipts, ∀ r ∈ cx,
    r.recipient ≠ some a

/-- **The balance after a block**: the commits for which the shard is the target overwrite it. -/
theorem balance_extend {a : Address} {tip tip' : Tip} {block : Block H}
    (h : Confines chain a tip block) (hext : extend chain tip block = .ok tip') :
    (tip'.account a).balance = block.stateTransferTransactions.foldl
      (balanceAfter a block.header.shardID) (tip.account a).balance := by
  obtain ⟨q, hq, hext⟩ := bind_eq_ok.1 hext
  cases hext
  have hlocked : process1On chain (locked chain.codec a) block (new tip.state)
      (LoadMapDB.new tip.loadMap) = .ok q :=
    ((process1On_restrict _ block _ _).resolve_left h.clients).trans hq
  obtain ⟨p, hp, hfin⟩ := bind_eq_ok.1 hlocked
  obtain ⟨p₁, h₁, hp⟩ := bind_eq_ok.1 hp
  obtain ⟨p₂, h₂, h₃⟩ := bind_eq_ok.1 hp
  have hr₀ : Rests a (tip.account a).balance (new tip.state : DB W) :=
    ⟨⟨_, holds_new tip.state a, rfl⟩, rfl⟩
  have hr₁ := executeTransactions_inv (keeps_rests _) hr₀ h₁
  have hr₂ := hr₁.transfers h₂
  have hr₃ := receipts_inv (fun cxp hcxp c hc cx hcx db db' hdb hstep =>
    rests_applyCXReceipt hdb (h.receipts cxp hcxp c hc cx hcx) hstep) hr₂ h₃
  obtain ⟨⟨x, hx, hv⟩, -⟩ := finalizeBlock_inv (keeps_rests _) hr₃ hfin
  have htrie := (hx.intermediateRoot chain.codec (chain.config.isS3 block.header.epoch)).2.1
  rw [← htrie, Block.transfers, zipIdx_map_fst] at hv
  exact hv

/-! ## Migrations -/

/-- The migration of an account from one shard to another. -/
structure Migration where
  address : Address
  index : UInt64
  source : ShardID
  target : ShardID
  distinct : source ≠ target

/-- The transaction belongs to the migration. -/
structure Migration.Has (m : Migration) (stx : StateTransferTransaction) : Prop where
  address : stx.address = m.address
  index : stx.index = m.index
  source : stx.sourceShardID = m.source
  target : stx.targetShardID = m.target

/-- A block of a shard in which nothing but the migration touches the account. -/
structure Migration.Alone (m : Migration) (shardID : ShardID) (chain : Chain W H) (tip : Tip)
    (block : Block H) : Prop extends Confines chain m.address tip block where
  shard : block.header.shardID = shardID
  transfers : ∀ stx ∈ block.stateTransferTransactions, stx.address = m.address → m.Has stx

/-- The freeze in a block of the source shard, the commit in a block of either shard, with the
balance after the block of the freeze; nothing else touches the account. -/
structure Migration.Completes (m : Migration) (chain : Chain W H) (freezeBlock : Block H)
    (blocksS blocksT : List (Chain W H × Block H)) (tipS tipF tipS' tipT tipT' : Tip) : Prop where
  frozen : ∃ stx ∈ freezeBlock.stateTransferTransactions, m.Has stx ∧ stx.toFreeze = true
  alone : m.Alone m.source chain tipS freezeBlock
  accepted : extend chain tipS freezeBlock = .ok tipF
  source : Runs (m.Alone m.source) blocksS tipF tipS'
  released : ∃ b ∈ (chain, freezeBlock) :: blocksS, ∃ stx ∈ b.2.stateTransferTransactions,
    m.Has stx ∧ stx.toFreeze = false
  target : Runs (m.Alone m.target) blocksT tipT tipT'
  installed : ∃ b ∈ blocksT, ∃ stx ∈ b.2.stateTransferTransactions,
    m.Has stx ∧ stx.toFreeze = false
  carried : ∀ b ∈ blocksT, ∀ stx ∈ b.2.stateTransferTransactions, m.Has stx →
    stx.toFreeze = false → stx.balance = some (tipF.account m.address).balance

namespace Migration

variable {m : Migration} {freezeBlock : Block H}
  {blocksS blocksT : List (Chain W H × Block H)} {tipS tipF tipS' tipT tipT' : Tip}

variable {stx : StateTransferTransaction} {stxs : List StateTransferTransaction}

theorem balanceAfter_source (v : ℤ) (h : stx.address = m.address → m.Has stx) :
    balanceAfter m.address m.source v stx = v := by
  refine if_neg ?_
  rintro ⟨hadr, hfreeze, hwrites⟩
  rw [writesAccount, if_pos (h hadr).source.symm, hfreeze] at hwrites
  cases hwrites

theorem foldl_source (v : ℤ) (h : ∀ stx ∈ stxs, stx.address = m.address → m.Has stx) :
    stxs.foldl (balanceAfter m.address m.source) v = v := by
  refine foldlRecOn (motive := (· = v)) stxs _ rfl fun w hw stx hmem => ?_
  rw [hw, balanceAfter_source v (h stx hmem)]

theorem balanceAfter_target {c : ℤ} (v : ℤ) (hhas : m.Has stx) (hcommit : stx.toFreeze = false)
    (hc : stx.balance = some c) : balanceAfter m.address m.target v stx = c := by
  have hne : m.target ≠ stx.sourceShardID := fun h => m.distinct (hhas.source ▸ h).symm
  have hwrites : writesAccount m.target stx = true := by
    rw [writesAccount, if_neg hne, hhas.target, hcommit]
    simp
  rw [balanceAfter, if_pos ⟨hhas.address, hcommit, hwrites⟩, hc]
  rfl

theorem foldl_target {c : ℤ} (v : ℤ) (h : ∀ stx ∈ stxs, stx.address = m.address → m.Has stx)
    (hc : ∀ stx ∈ stxs, m.Has stx → stx.toFreeze = false → stx.balance = some c)
    (hex : v = c ∨ ∃ stx ∈ stxs, m.Has stx ∧ stx.toFreeze = false) :
    stxs.foldl (balanceAfter m.address m.target) v = c := by
  induction stxs generalizing v with
  | nil => simpa using hex
  | cons stx stxs ih =>
    have hstep : m.Has stx ∧ stx.toFreeze = false ∧ balanceAfter m.address m.target v stx = c ∨
        ¬ (m.Has stx ∧ stx.toFreeze = false) ∧ balanceAfter m.address m.target v stx = v := by
      by_cases hcommit : m.Has stx ∧ stx.toFreeze = false
      · exact .inl ⟨hcommit.1, hcommit.2, balanceAfter_target v hcommit.1 hcommit.2
          (hc stx mem_cons_self hcommit.1 hcommit.2)⟩
      · refine .inr ⟨hcommit, if_neg fun hw => hcommit ⟨?_, hw.2.1⟩⟩
        exact h stx mem_cons_self hw.1
    refine ih _ (fun stx hmem => h stx (mem_cons_of_mem _ hmem))
      (fun stx hmem => hc stx (mem_cons_of_mem _ hmem)) ?_
    rcases hstep with ⟨-, -, hv⟩ | ⟨hno, hv⟩
    · exact .inl hv
    · rcases hex with rfl | ⟨stx', hmem, hcommit⟩
      · exact .inl hv
      · rcases mem_cons.1 hmem with rfl | hmem
        · exact absurd hcommit hno
        · exact .inr ⟨stx', hmem, hcommit⟩

variable {shardID : ShardID} {tip tip' : Tip}

theorem balance_runs {blocks : List (Chain W H × Block H)}
    (h : Runs (m.Alone shardID) blocks tip tip') :
    (tip'.account m.address).balance = (blocks.flatMap (·.2.stateTransferTransactions)).foldl
      (balanceAfter m.address shardID) (tip.account m.address).balance := by
  induction blocks generalizing tip with
  | nil =>
    cases h
    rfl
  | cons block blocks ih =>
    obtain ⟨tip₁, halone, hext, hrest⟩ := h
    rw [ih hrest, balance_extend halone.toConfines hext, halone.shard, flatMap_cons, foldl_append]

theorem has_of_runs {blocks : List (Chain W H × Block H)}
    (h : Runs (m.Alone shardID) blocks tip tip') :
    ∀ stx ∈ blocks.flatMap (·.2.stateTransferTransactions), stx.address = m.address → m.Has stx := by
  induction blocks generalizing tip with
  | nil => simp
  | cons block blocks ih =>
    obtain ⟨tip₁, halone, -, hrest⟩ := h
    intro stx hmem
    rw [flatMap_cons, mem_append] at hmem
    exact hmem.elim (halone.transfers stx) (ih hrest stx)

/-- **After the migration both shards hold what the source shard held.** -/
theorem balances_completed
    (h : m.Completes chain freezeBlock blocksS blocksT tipS tipF tipS' tipT tipT') :
    (tipS'.account m.address).balance = (tipS.account m.address).balance ∧
      (tipT'.account m.address).balance = (tipS.account m.address).balance := by
  have hsource : Runs (m.Alone m.source) ((chain, freezeBlock) :: blocksS) tipS tipS' :=
    ⟨tipF, h.alone, h.accepted, h.source⟩
  have hfreeze : (tipF.account m.address).balance = (tipS.account m.address).balance := by
    rw [balance_extend h.alone.toConfines h.accepted, h.alone.shard]
    exact foldl_source _ h.alone.transfers
  refine ⟨?_, ?_⟩
  · rw [balance_runs hsource]
    exact foldl_source _ (has_of_runs hsource)
  · rw [balance_runs h.target, ← hfreeze]
    refine foldl_target _ (has_of_runs h.target) ?_ (.inr ?_)
    · intro stx hmem
      obtain ⟨block, hblock, hstx⟩ := mem_flatMap.1 hmem
      exact h.carried block hblock stx hstx
    · obtain ⟨block, hblock, stx, hstx, hcommit⟩ := h.installed
      exact ⟨stx, mem_flatMap.2 ⟨block, hblock, hstx⟩, hcommit⟩

/-- What the source shard had is added to the target shard, and nothing is left. -/
structure Conserved (a : Address) (tipS tipT tipS' tipT' : Tip) : Prop where
  total : (tipS'.account a).balance + (tipT'.account a).balance =
    (tipS.account a).balance + (tipT.account a).balance
  target : (tipT'.account a).balance = (tipT.account a).balance + (tipS.account a).balance
  source : (tipS'.account a).balance = 0

/-- **A migration conserves the money only if there is none.** -/
theorem conserved_iff
    (h : m.Completes chain freezeBlock blocksS blocksT tipS tipF tipS' tipT tipT') :
    Conserved m.address tipS tipT tipS' tipT' ↔
      (tipS.account m.address).balance = 0 ∧ (tipT.account m.address).balance = 0 := by
  obtain ⟨hsource, htarget⟩ := balances_completed h
  constructor
  · rintro ⟨-, hadded, hzero⟩
    constructor <;> omega
  · rintro ⟨hS, hT⟩
    constructor <;> omega

/-! ## A migration between two quiet shards -/

/-- The migration of account `0xaa` from shard 1 to shard 2. -/
def sample : Migration := ⟨0xaa, 0, 1, 2, by decide⟩

/-- A block on a quiet shard, executed while the clients are kept from the account, and again. -/
def confined (shardID : ShardID) (tip : Tip) (block : Block Unit) : Outcome Err Tip := do
  let _ ← process1On (quietShard shardID) (locked (quietShard shardID).codec 0xaa) block
    (DB.new tip.state) (LoadMapDB.new tip.loadMap)
  extend (quietShard shardID) tip block

theorem sample_alone {number : ℕ} {toFreeze : Bool} {balance : Option ℤ}
    (h : confined shardID tip (quietBlock shardID number [migration toFreeze balance] []) =
      .ok tip') :
    sample.Alone shardID (quietShard shardID) tip
        (quietBlock shardID number [migration toFreeze balance] []) ∧
      extend (quietShard shardID) tip
        (quietBlock shardID number [migration toFreeze balance] []) = .ok tip' := by
  obtain ⟨q, hq, hext⟩ := bind_eq_ok.1 h
  refine ⟨⟨⟨ne_panic_of_ok hq, ?_⟩, rfl, ?_⟩, hext⟩
  · intro cxp hcxp c hc cx hcx
    cases mem_singleton.1 hcxp
    cases hc
    cases hcx
  · intro stx hstx _
    cases mem_singleton.1 hstx
    exact ⟨rfl, rfl, rfl, rfl⟩

/-- The tips after the blocks of the freeze and of the two commits. -/
def sampleTips (S T : ℤ) : Outcome Err (Tip × Tip × Tip) := do
  let tipF ← confined 1 (holding S) (quietBlock 1 1 [migration true none] [])
  let tipS' ← confined 1 tipF (quietBlock 1 2 [migration false (some S)] [])
  let tipT' ← confined 2 (holding T) (quietBlock 2 1 [migration false (some S)] [])
  pure (tipF, tipS', tipT')

theorem sample_completes {S T : ℤ} (h : sampleTips S T = .ok (tipF, tipS', tipT')) :
    sample.Completes (quietShard 1) (quietBlock 1 1 [migration true none] [])
      [(quietShard 1, quietBlock 1 2 [migration false (some S)] [])]
      [(quietShard 2, quietBlock 2 1 [migration false (some S)] [])]
      (holding S) tipF tipS' (holding T) tipT' := by
  obtain ⟨tip₁, h₁, h⟩ := bind_eq_ok.1 h
  obtain ⟨tip₂, h₂, h⟩ := bind_eq_ok.1 h
  obtain ⟨tip₃, h₃, h⟩ := bind_eq_ok.1 h
  obtain ⟨rfl, htips⟩ := Prod.mk.inj (ok.inj h)
  obtain ⟨rfl, rfl⟩ := Prod.mk.inj htips
  obtain ⟨ha₁, he₁⟩ := sample_alone h₁
  obtain ⟨ha₂, he₂⟩ := sample_alone h₂
  obtain ⟨ha₃, he₃⟩ := sample_alone h₃
  have hbalance : (tip₁.account sample.address).balance = S := by
    rw [balance_extend ha₁.toConfines he₁, ha₁.shard]
    exact foldl_source _ ha₁.transfers
  have hhas : ∀ toFreeze balance, sample.Has (migration toFreeze balance) := fun _ _ =>
    ⟨rfl, rfl, rfl, rfl⟩
  exact {
    frozen := ⟨_, mem_singleton_self _, hhas _ _, rfl⟩
    alone := ha₁
    accepted := he₁
    source := ⟨tip₂, ha₂, he₂, rfl⟩
    released := ⟨_, mem_cons_of_mem _ (mem_singleton_self _), _,
      mem_singleton_self _, hhas _ _, rfl⟩
    target := ⟨tip₃, ha₃, he₃, rfl⟩
    installed := ⟨_, mem_singleton_self _, _, mem_singleton_self _, hhas _ _, rfl⟩
    carried := by
      intro block hblock stx hstx _ _
      cases mem_singleton.1 hblock
      cases mem_singleton.1 hstx
      rw [hbalance]
      rfl }

/-- The migration of an account without money, between shards on which it has none. -/
theorem conserved_sample : ∃ tipF tipS' tipT',
    sampleTips 0 0 = .ok (tipF, tipS', tipT') ∧
      Conserved sample.address (holding 0) (holding 0) tipS' tipT' := by
  have hrun : (sampleTips 0 0 >>= fun _ => pure ()) = .ok () := by decide +kernel
  obtain ⟨⟨tipF, tipS', tipT'⟩, htips, -⟩ := bind_eq_ok.1 hrun
  exact ⟨tipF, tipS', tipT', htips, (conserved_iff (sample_completes htips)).2 ⟨rfl, rfl⟩⟩

/-- **The migration of five units makes ten**: both shards have five. -/
theorem money_doubled : ∃ tipF tipS' tipT',
    sample.Completes (quietShard 1) (quietBlock 1 1 [migration true none] [])
      [(quietShard 1, quietBlock 1 2 [migration false (some 5)] [])]
      [(quietShard 2, quietBlock 2 1 [migration false (some 5)] [])]
      (holding 5) tipF tipS' (holding 0) tipT' ∧
    (tipS'.account sample.address).balance = 5 ∧ (tipT'.account sample.address).balance = 5 ∧
    ¬ Conserved sample.address (holding 5) (holding 0) tipS' tipT' := by
  have hrun : (sampleTips 5 0 >>= fun t => pure ((t.2.1.account sample.address).balance,
      (t.2.2.account sample.address).balance)) = .ok (5, 5) := by decide +kernel
  obtain ⟨⟨tipF, tipS', tipT'⟩, htips, hbalances⟩ := bind_eq_ok.1 hrun
  obtain ⟨hS, hT⟩ := Prod.mk.inj (ok.inj hbalances)
  refine ⟨tipF, tipS', tipT', sample_completes htips, hS, hT, ?_⟩
  rintro ⟨-, -, hzero⟩
  rw [hS] at hzero
  cases hzero

end Migration

end DyShard.Core
