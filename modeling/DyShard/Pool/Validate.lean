import DyShard.Pool.Structure
import DyShard.State.Accounts
import DyShard.State.Snapshot

/-!
# Validation asks for the freeze flags first

`validateTx` begins with `GetFreezeState(from) || GetFreezeState(*tx.To())`, which gives a missing
account an object and dereferences a recipient that may be nil.
-/

namespace DyShard.Pool

open Option

open State (DB WrapperCodec)

variable {P W : Type} (o : Outside)

/-- What the pool reads of the state. -/
def View.ofDB (db : DB W) : View := ⟨db.getNonce, db.getBalance, fun a => (db.getFreezeState a).2⟩

/-- The state after `validateTx`: only `GetFreezeState` writes to it. -/
def afterValidate (db : DB W) (tx : PoolTransaction) : DB W :=
  if tx.shardID ≠ o.chain.shardID then db
  else
    let (db, frozen) := db.getFreezeState tx.sender
    if frozen then db else tx.recipient.elim db fun recipient => (db.getFreezeState recipient).1

theorem exist_getFreezeState (db : DB W) (a b : Address) :
    (db.getFreezeState a).1.exist b = (db.exist b || b == a) := by
  by_cases hb : b = a
  · subst hb
    simp [DB.getFreezeState, DB.exist, (DB.face_getOrNew db b).1]
  · have haway := DB.away_getOrNew db (Ne.symm hb)
    simp [DB.getFreezeState, DB.exist, DB.getStateObject, DB.getDeletedStateObject, haway.object,
      haway.trie, hb]

theorem getFreezeState_of_exist {db : DB W} {a : Address} (h : db.exist a = true) :
    (db.getFreezeState a).1 = db := by
  obtain ⟨obj, hobj⟩ := isSome_iff_exists.1 h
  rw [DB.getFreezeState, DB.getOrNewStateObject_eq hobj]

theorem TxPool.require_ne_panic (passed : Bool) (e : TxPoolError) : require passed e ≠ .panic := by
  unfold require
  split <;> nofun

/-- The pointer to the recipient is the only one that validation follows unchecked. -/
theorem TxPool.validateTx_eq_panic_iff (s : TxPool P) (tx : PoolTransaction) (isLocal : Bool) :
    s.validateTx o tx isLocal = .panic ↔
      tx.shardID = o.chain.shardID ∧ s.currentState.getFreezeState tx.sender = false ∧
        tx.recipient = none := by
  unfold TxPool.validateTx
  by_cases hshard : tx.shardID = o.chain.shardID
  swap
  · simp [hshard, require]
  cases hfrozen : s.currentState.getFreezeState tx.sender with
  | true => simp [hshard, touchesFrozen, hfrozen, require]
  | false =>
    cases hto : tx.recipient with
    | none => simp [hshard, touchesFrozen, hfrozen, hto, require]
    | some recipient =>
      simp only [touchesFrozen, hfrozen, hto]
      refine iff_of_false ?_ (by simp)
      -- what follows is a row of checks
      repeat' first
        | exact require_ne_panic _ _
        | refine Outcome.bind_ne_panic ?_ fun _ => ?_
        | split
        | (intro h; cases h)
      all_goals cases tx.cost <;> nofun

/-- **When validation is total and reads only.** -/
theorem validateTx_readOnly_iff (codec : WrapperCodec W) (s : TxPool P) (db : DB W)
    (tx : PoolTransaction) (isLocal : Bool) :
    (TxPool.validateTx o { s with currentState := .ofDB db } tx isLocal ≠ .panic ∧
        DB.SameAs codec (afterValidate o db tx) db) ↔
      (tx.shardID = o.chain.shardID → db.exist tx.sender = true ∧
        ((db.getFreezeState tx.sender).2 = true ∨
          ∃ recipient ∈ tx.recipient, db.exist recipient = true)) := by
  have hrefl : DB.SameAs codec db db := ⟨fun _ => ⟨rfl, rfl, rfl, rfl, rfl, fun _ => rfl,
    fun _ => rfl, rfl, rfl⟩, fun _ => rfl, rfl, rfl, rfl⟩
  rw [Ne, TxPool.validateTx_eq_panic_iff]
  unfold afterValidate View.ofDB
  by_cases hshard : tx.shardID = o.chain.shardID
  swap
  · simp [hshard, hrefl]
  simp only [hshard, ne_eq, not_true, if_false, true_and, forall_const]
  constructor
  · rintro ⟨hpanic, hsame⟩
    have hexist := fun a => (hsame.account a).exist
    have hsender : db.exist tx.sender = true := by
      rw [← hexist]
      split
      · simp [exist_getFreezeState]
      · cases tx.recipient <;> simp [exist_getFreezeState]
    rw [getFreezeState_of_exist hsender] at hexist
    refine ⟨hsender, ?_⟩
    cases hfrozen : (db.getFreezeState tx.sender).2 with
    | true => exact .inl rfl
    | false =>
      obtain ⟨recipient, hto⟩ := ne_none_iff_exists'.1 fun hto => hpanic ⟨hfrozen, hto⟩
      have hrecipient := hexist recipient
      simp only [hfrozen, hto, elim_some, Bool.false_eq_true, if_false] at hrecipient
      exact .inr ⟨recipient, hto, by simpa [exist_getFreezeState] using hrecipient.symm⟩
  · rintro ⟨hsender, hto⟩
    rw [getFreezeState_of_exist hsender]
    rcases hto with hto | ⟨recipient, hto, hrecipient⟩
    · simp [hto, hrefl]
    · rw [hto]
      simp only [elim_some, getFreezeState_of_exist hrecipient, ite_self]
      exact ⟨by simp, hrefl⟩

open Reorganisation in
/-- A contract creation crashes the pool, and a payment to a new account creates it. -/
theorem validateTx_creates :
    (start 1 0).validateTx outside { transfer 0 10 with recipient := none } false = .panic ∧
      (DB.new fun _ => none : DB Unit).exist 2 = false ∧
      (afterValidate outside (.new fun _ => none : DB Unit) (transfer 0 10)).exist 2 = true := by
  decide +kernel

end DyShard.Pool
