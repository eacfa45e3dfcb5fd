import DyShard.Core.StateProcessor
import DyShard.State.Holding

/-!
# What a block leaves alone

The invariant rule for the execution of a block, and its use with an account at rest: a block whose
clients stay away from the account leaves it as it is.
-/

namespace DyShard.Core

open Outcome State

open State (DB Client Account)
open State.DB (Holds Frozen Away)
open Atomic (StateTransferTransaction)
open Load (LoadMapDB)

variable {W H : Type} {chain : Chain W H} {M : StateMachine W}

/-! ## The invariant rule -/

/-- What an invariant of the state has to survive in every block of an epoch. -/
structure Keeps (chain : Chain W H) (M : StateMachine W) (epoch : ℕ) (P : DB W → Prop) : Prop where
  prepare : ∀ db thash i, P db → P (db.prepare thash i)
  run : ∀ {α : Type} (p : Client W α) db x db', P db → M.run p db = some (x, db') → P db'
  settle : ∀ db, P db → P (chain.settle epoch db).1
  root : ∀ db, P db → P (db.intermediateRoot chain.codec (chain.config.isS3 epoch))

section Rule

variable {P : DB W → Prop} {header : Preamble} {author : Address}

variable {db : DB W} {p p' : Progress W H} {block : Block H} {lm : LoadMapDB} {q : Processed W H}

theorem applyTransition_inv {β γ : Type} {transition : UInt64 → Client W (Spent β)}
    {finish : DB W → Option H → β → γ} {epoch : ℕ} {gp : UInt64} {ap : Applied W γ}
    (hk : Keeps chain M epoch P) (hdb : P db)
    (h : applyTransition chain M epoch transition finish gp db = some ap) : P ap.db := by
  unfold applyTransition at h
  obtain ⟨⟨spent, db₁⟩, hrun, h⟩ := Option.bind_eq_some_iff.1 h
  obtain ⟨gp', -, h⟩ := Option.bind_eq_some_iff.1 h
  have h₁ : P db₁ := hk.run _ db _ db₁ hdb hrun
  split at h
  · cases h
    exact h₁
  · cases h
    exact hk.settle db₁ h₁

theorem processTransaction_inv (hk : Keeps chain M header.epoch P) {tx : Transaction × ℕ}
    (hp : P p.db) (h : processTransaction chain M author header p tx = .ok p') : P p'.db := by
  obtain ⟨ap, hap, h⟩ := bind_eq_ok.1 h
  obtain ⟨r, -, h⟩ := bind_eq_ok.1 h
  cases h
  rw [ofOption_eq_ok] at hap
  unfold applyTransaction at hap
  have h₀ := hk.prepare p.db tx.1.hash tx.2 hp
  split at hap
  · cases hap
    exact h₀
  · exact applyTransition_inv hk h₀ hap

theorem processStakingTransaction_inv (hk : Keeps chain M header.epoch P)
    {tx : StakingTransaction × ℕ} (hp : P p.db)
    (h : processStakingTransaction chain M author header p tx = .ok p') : P p'.db := by
  obtain ⟨ap, hap, h⟩ := bind_eq_ok.1 h
  obtain ⟨r, -, h⟩ := bind_eq_ok.1 h
  cases h
  rw [ofOption_eq_ok] at hap
  unfold applyStakingTransaction at hap
  have h₀ := hk.prepare p.db tx.1.hash tx.2 hp
  split at hap
  · cases hap
    exact h₀
  · exact applyTransition_inv hk h₀ hap

theorem executeTransactions_inv (hk : Keeps chain M block.header.epoch P) (hdb : P db)
    (h : executeTransactions chain M block db lm = .ok p) : P p.db := by
  obtain ⟨beneficiary, -, h⟩ := bind_eq_ok.1 h
  obtain ⟨p₁, h₁, h⟩ := bind_eq_ok.1 h
  have hp₁ : P p₁.db := foldlM_ok (P := fun p => P p.db)
    (fun tx _ p p' hp hstep => processTransaction_inv hk hp hstep) hdb h₁
  exact foldlM_ok (P := fun p => P p.db)
    (fun tx _ p p' hp hstep => processStakingTransaction_inv hk hp hstep) hp₁ h

theorem transfers_inv {stxs : List (StateTransferTransaction × ℕ)}
    (hk : Keeps chain M header.epoch P)
    (hstx : ∀ stx ∈ stxs, ∀ db lm r, P db →
      applyStateTransferTransaction chain db header lm stx.1 = some r → P r.1) (hp : P p.db)
    (h : stxs.foldlM (processStateTransferTransaction chain header) p = .ok p') : P p'.db := by
  refine foldlM_ok (P := fun p => P p.db) (fun stx hmem p p' hp hstep => ?_) hp h
  obtain ⟨r, hr, hstep⟩ := bind_eq_ok.1 hstep
  cases hstep
  rw [ofOption_eq_ok] at hr
  exact hstx stx hmem _ _ r (hk.prepare _ _ _ hp) hr

theorem receipts_inv {cxs : List (Option CXReceiptsProof)}
    (hcx : ∀ cxp ∈ cxs, ∀ c ∈ cxp, ∀ cx ∈ c.receipts, ∀ db db', P db →
      applyCXReceipt chain header db cx = .ok db' → P db') (hp : P p.db)
    (h : cxs.foldlM (processIncomingReceipt chain header) p = .ok p') : P p'.db := by
  refine foldlM_ok (P := fun p => P p.db) (fun cxp hmem p p' hp hstep => ?_) hp h
  unfold processIncomingReceipt at hstep
  split at hstep
  · cases hstep
  · cases hstep
  · next db' hdb' =>
    cases hstep
    cases cxp with
    | none =>
      cases hdb'
      exact hp
    | some c =>
      exact foldlM_ok (fun cx hcxm db db' hdb hstep =>
        hcx _ hmem c rfl cx hcxm db db' hdb hstep) hp hdb'

theorem finalize1_inv {h : Header H} {txs receipts outcxs incxs stks sttxs}
    {doubleSigners : List SlashRecord} {sigsReady : Bool} {viewID : UInt64} {f : Finalized W H}
    (hk : Keeps chain M h.epoch P) (hdb : P db)
    (hf : finalize1 chain M h db lm txs receipts outcxs incxs stks sttxs doubleSigners sigsReady
      viewID = .ok f) : P f.db := by
  obtain ⟨⟨err, db₁⟩, hrun, hf⟩ := bind_eq_ok.1 hf
  rw [ofOption_eq_ok] at hrun
  have h₁ : P db₁ := hk.run _ db _ db₁ hdb hrun
  dsimp only at hf
  split at hf
  · cases hf
  · cases hf
    exact hk.root db₁ h₁

theorem finalizeBlock_inv (hk : Keeps chain M block.header.epoch P)
    (hp : P p.db) (h : finalizeBlock chain M block p = .ok q) : P q.db := by
  unfold finalizeBlock at h
  split at h
  · cases h
  · split at h
    · cases h
    · cases h
    · next f hf =>
      cases h
      exact finalize1_inv hk hp hf

/-- **The invariant rule for a block.** -/
theorem process1On_inv (hk : Keeps chain M block.header.epoch P)
    (hstx : ∀ stx ∈ block.transfers, ∀ db lm r, P db →
      applyStateTransferTransaction chain db block.header.toPreamble lm stx.1 = some r → P r.1)
    (hcx : ∀ cxp ∈ block.incomingReceipts, ∀ c ∈ cxp, ∀ cx ∈ c.receipts, ∀ db db', P db →
      applyCXReceipt chain block.header.toPreamble db cx = .ok db' → P db') (hdb : P db)
    (h : process1On chain M block db lm = .ok q) : P q.db := by
  obtain ⟨p, hp, h⟩ := bind_eq_ok.1 h
  obtain ⟨p₁, h₁, hp⟩ := bind_eq_ok.1 hp
  obtain ⟨p₂, h₂, hp⟩ := bind_eq_ok.1 hp
  have hp₁ := executeTransactions_inv hk hdb h₁
  have hp₂ : P p₂.db := transfers_inv hk hstx hp₁ h₂
  exact finalizeBlock_inv hk (receipts_inv hcx hp₂ hp) h

end Rule

/-! ## Restricted machines -/

section Restrict

variable (ok : State.Call W → Bool)

theorem applyTransition_restrict {β γ : Type} (epoch : ℕ)
    (transition : UInt64 → Client W (Spent β)) (finish : DB W → Option H → β → γ) (gp : UInt64)
    (db : DB W) : applyTransition chain (M.restrict ok) epoch transition finish gp db = none ∨
      applyTransition chain (M.restrict ok) epoch transition finish gp db =
        applyTransition chain M epoch transition finish gp db := by
  unfold applyTransition
  rcases M.run_restrict_eq ok (transition gp) db with h | h
  · exact .inl (by rw [h]; rfl)
  · exact .inr (by rw [h])

theorem executeTransactions_restrict (block : Block H) (db : DB W) (lm : LoadMapDB) :
    (executeTransactions chain (M.restrict ok) block db lm).Below
      (executeTransactions chain M block db lm) := by
  unfold executeTransactions
  refine (Below.refl _).bind fun beneficiary => ?_
  refine (Below.foldlM (fun p tx => ?_) _ _).bind fun p =>
    Below.foldlM (fun p tx => ?_) _ _
  · refine (below_ofOption ?_).bind fun ap => .refl _
    unfold applyTransaction
    split
    · exact .inr rfl
    · exact applyTransition_restrict ok _ _ _ _ _
  · refine (below_ofOption ?_).bind fun ap => .refl _
    unfold applyStakingTransaction
    split
    · exact .inr rfl
    · exact applyTransition_restrict ok _ _ _ _ _

theorem finalizeBlock_restrict (block : Block H) (p : Progress W H) :
    (finalizeBlock chain (M.restrict ok) block p).Below (finalizeBlock chain M block p) := by
  unfold finalizeBlock
  split
  · exact .refl _
  · next slashes _ =>
    have hf : (finalize1 chain (M.restrict ok) block.header p.db p.loadmapdb block.transactions
        p.receipts p.outcxs block.incomingReceipts block.stakingTransactions
        block.stateTransferTransactions slashes true block.header.viewID).Below
        (finalize1 chain M block.header p.db p.loadmapdb block.transactions p.receipts p.outcxs
          block.incomingReceipts block.stakingTransactions block.stateTransferTransactions slashes
          true block.header.viewID) := by
      unfold finalize1
      exact (below_ofOption (M.run_restrict_eq ok _ _)).bind fun _ => .refl _
    rcases hf with hf | hf
    · exact .inl (by rw [hf])
    · exact .inr (by rw [hf])

theorem process1On_restrict (block : Block H) (db : DB W) (lm : LoadMapDB) :
    (process1On chain (M.restrict ok) block db lm).Below (process1On chain M block db lm) := by
  unfold process1On executeBlock
  refine Below.bind ?_ fun p => finalizeBlock_restrict ok block p
  exact (executeTransactions_restrict ok block db lm).bind fun _ => .refl _

end Restrict

/-! ## An account that the block does not touch -/

/-- The machine on which nothing can be written to `a`. -/
def locked (codec : WrapperCodec W) (a : Address) : StateMachine W :=
  (DB.machine codec).restrict (Call.avoids a)

/-- The machine on which `a` can be neither re-created nor destroyed. -/
def sparing (codec : WrapperCodec W) (a : Address) : StateMachine W :=
  (DB.machine codec).restrict fun c => !c.replaces a

/-- A freeze writes to its account on the source shard, a commit on the target shard. -/
def writesAccount (shardID : ShardID) (stx : StateTransferTransaction) : Bool :=
  if shardID = stx.sourceShardID then stx.toFreeze
  else decide (shardID = stx.targetShardID) && !stx.toFreeze

section Rest

variable {a : Address} {x : Option Account} {header : Preamble}

variable {db : DB W} {b : Address} {r : DB W × LoadMapDB × Receipt H}
  {stx : StateTransferTransaction} {db' : DB W}

theorem holds_settle (h : Holds a x db) (epoch : ℕ) :
    Holds a x (chain.settle epoch db).1 ∧ (Frozen a db → Frozen a (chain.settle epoch db).1) := by
  unfold Chain.settle
  split
  · exact h.finalise chain.codec true
  · obtain ⟨hr, -, hf⟩ := h.intermediateRoot chain.codec false
    exact ⟨hr, hf⟩

theorem holds_prepare (h : Holds a x db) (thash : Word) (i : ℕ) :
    Holds a x (db.prepare thash i) := ⟨h.value, h.living, h.clean, h.quiet, h.cached⟩

theorem keeps_holds (epoch : ℕ) : Keeps chain (locked chain.codec a) epoch (Holds a x) where
  prepare _ thash i h := holds_prepare h thash i
  run _ _ _ _ h hrun := h.run hrun
  settle _ h := (holds_settle h epoch).1
  root _ h := (h.intermediateRoot chain.codec _).1

theorem keeps_frozen (epoch : ℕ) :
    Keeps chain (sparing chain.codec a) epoch fun db => Holds a x db ∧ Frozen a db where
  prepare _ thash i h := ⟨holds_prepare h.1 thash i, h.2⟩
  run _ _ _ _ h hrun := h.1.run_frozen h.2 hrun
  settle _ h := ⟨(holds_settle h.1 epoch).1, (holds_settle h.1 epoch).2 h.2⟩
  root _ h := by
    obtain ⟨hr, -, hf⟩ := h.1.intermediateRoot chain.codec (chain.config.isS3 epoch)
    exact ⟨hr, hf h.2⟩

/-- A direct write at another account. -/
structure Aside (a : Address) (db db' : DB W) : Prop where
  away : Away a db db'
  cached : db'.stateValidators = db.stateValidators

theorem Aside.refl (db : DB W) : Aside a db db := ⟨.refl db, rfl⟩

theorem Aside.trans {db' db'' : DB W} (h : Aside a db db') (h' : Aside a db' db'') :
    Aside a db db'' := ⟨h.away.trans h'.away, h'.cached.trans h.cached⟩

theorem Aside.holds (hs : Aside a db db') (h : Holds a x db) : Holds a x db' := by
  refine h.away hs.away ?_
  rw [hs.cached]
  exact h.cached.imp_right fun hf => hf.away hs.away

theorem aside_of_shows {eff : Effect} {k : Kept W}
    (haway : Away a db db') (hshow : DB.Shows db db' eff k)
    (hval : k.validators = db.stateValidators) : Aside a db db' :=
  ⟨haway, (congrArg Kept.validators hshow.kept).trans hval⟩

section

variable (db : DB W) (hb : b ≠ a)
include hb

theorem aside_createAccount : Aside a db (db.createAccount b) :=
  aside_of_shows (DB.away_createAccount db hb) (DB.shows_createAccount db b) rfl

theorem aside_createMissing : Aside a db (if db.exist b then db else db.createAccount b) := by
  split
  · exact .refl db
  · exact aside_createAccount db hb

theorem aside_setBalance (amount : ℤ) : Aside a db (db.setBalance b amount) :=
  aside_of_shows (DB.away_setBalance db amount hb) (DB.shows_setBalance db b amount) rfl

theorem aside_setNonce (nonce : UInt64) : Aside a db (db.setNonce b nonce) :=
  aside_of_shows (DB.away_setNonce db nonce hb) (DB.shows_setNonce db b nonce) rfl

theorem aside_setFreezeState (isFreeze : Bool) : Aside a db (db.setFreezeState b isFreeze) :=
  aside_of_shows (DB.away_setFreezeState db isFreeze hb) (DB.shows_setFreezeState db b isFreeze) rfl

theorem aside_addBalance (amount : ℤ) : Aside a db (db.addBalance b amount) := by
  refine aside_of_shows (DB.away_addBalance db amount hb) (DB.shows_addBalance db b amount) ?_
  unfold Kept.touch
  split <;> rfl

end

theorem holds_applyCXReceipt {cx : Option CXReceipt} (h : Holds a x db)
    (hcx : ∀ c ∈ cx, c.recipient ≠ some a ∨ Frozen a db)
    (hstep : applyCXReceipt chain header db cx = .ok db') :
    Holds a x db' ∧ (Frozen a db → Frozen a db') := by
  unfold Core.applyCXReceipt at hstep
  split at hstep
  · cases hstep
  · next c =>
    split at hstep
    · cases hstep
    · next b hb =>
      cases hstep
      by_cases hba : b = a
      · -- the account exists and is frozen: neither created nor credited
        subst hba
        have hf := (hcx c rfl).resolve_left (by simp [hb])
        have hexist : db.exist b = true := by
          obtain ⟨o, ho, -, hdel⟩ := hf
          simp [DB.exist, DB.getStateObject, DB.getDeletedStateObject, ho, hdel]
        have hadd : db.addBalance b c.amount = db := hf.unlessFrozen_eq _
        simp only [hexist, if_true, hadd]
        obtain ⟨hr, -, hfr⟩ := h.intermediateRoot chain.codec (chain.config.isS3 header.epoch)
        exact ⟨hr, hfr⟩
      · have haside := (aside_createMissing db hba).trans (aside_addBalance _ hba c.amount)
        obtain ⟨hr, -, hfr⟩ := (haside.holds h).intermediateRoot chain.codec
          (chain.config.isS3 header.epoch)
        exact ⟨hr, fun hf => hfr (hf.away haside.away)⟩

theorem aside_freezeAccount (db : DB W) (hb : b ≠ a) : Aside a db (freezeAccount db b) := by
  unfold freezeAccount
  split
  · exact aside_setFreezeState db hb true
  · exact ((aside_createAccount db hb).trans (aside_setBalance _ hb 0)).trans
      (aside_setFreezeState _ hb true)

theorem aside_installAccount (db : DB W) (hb : b ≠ a) (balance : ℤ) (nonce : UInt64) :
    Aside a db (installAccount db b balance nonce) :=
  (((aside_createMissing db hb).trans (aside_setFreezeState _ hb false)).trans
    (aside_setBalance _ hb balance)).trans (aside_setNonce _ hb nonce)

theorem applyStateTransferTransaction_cases {lm : LoadMapDB}
    (hstep : applyStateTransferTransaction chain db header lm stx = some r) :
    (writesAccount header.shardID stx = false ∧
      (r.1 = db ∨ r.1 = (chain.settle header.epoch db).1)) ∨
    writesAccount header.shardID stx = true ∧
      ((stx.toFreeze = true ∧ r.1 = (chain.settle header.epoch (freezeAccount db stx.address)).1) ∨
      stx.toFreeze = false ∧ r.1 = (chain.settle header.epoch
        (installAccount db stx.address (stx.balance.getD 0) stx.nonce)).1) := by
  unfold Core.applyStateTransferTransaction at hstep
  unfold writesAccount
  dsimp only at hstep
  split at hstep
  · split at hstep
    · cases hstep
      simp_all
    · split at hstep <;> cases hstep <;> simp_all
  · split at hstep
    · split at hstep
      · cases hstep
        simp_all
      · split at hstep
        · cases hstep
        · cases hstep
          simp_all
    · cases hstep
      simp_all

/-- A state transfer that does not write to the account on this shard leaves it at rest. -/
theorem holds_applyStateTransferTransaction {lm : LoadMapDB} (h : Holds a x db)
    (hne : stx.address ≠ a ∨ writesAccount header.shardID stx = false)
    (hstep : applyStateTransferTransaction chain db header lm stx = some r) :
    Holds a x r.1 ∧ (Frozen a db → Frozen a r.1) := by
  rcases applyStateTransferTransaction_cases hstep with ⟨-, hr | hr⟩ | ⟨hw, hr⟩
  · rw [hr]
    exact ⟨h, id⟩
  · rw [hr]
    exact holds_settle h _
  · have hb := hne.resolve_right (by simp [hw])
    obtain ⟨db', haside, hr⟩ : ∃ db', Aside a db db' ∧ r.1 = (chain.settle header.epoch db').1 := by
      rcases hr with ⟨-, hr⟩ | ⟨-, hr⟩
      · exact ⟨_, aside_freezeAccount db hb, hr⟩
      · exact ⟨_, aside_installAccount db hb _ stx.nonce, hr⟩
    obtain ⟨hsettled, hfrozen⟩ := holds_settle (haside.holds h) header.epoch
    rw [hr]
    exact ⟨hsettled, fun hf => hfrozen (hf.away haside.away)⟩

end Rest

end DyShard.Core
