import DyShard.Core.StateTransition
import DyShard.State.Accounts

/-!
# Plain transfers

`EVM.Call` for a recipient without code, and what `TransitionDb` then does to every account: each
effect is a write of its own, and a write to a frozen account is skipped.
-/

namespace DyShard.Core

open UInt64 (le_refl not_lt le_iff_toNat_le toNat_sub_of_le le_of_lt)

open Option Nat State Client

open State (Client DB Face Account)

variable {W : Type}

/-! ## `EVM.Call` -/

/-- `vm.ErrExecutionReverted`. -/
def executionReverted : Err := .msg "evm: execution reverted"

/-- `staking.IsValidatorKey`. -/
def isValidatorKey : Word := 0xd5da52b6c87afb4b97df8b86a6dda99ff009e4bd3ed33bddccbbf2b6f719e32c

/-- What runs under `Call`: precompiled contracts, the interpreter, and `Create`. -/
structure Interpreter (W : Type) where
  precompiled : EVMContext → Address → Bool
  runPrecompiled : EVMContext → Address → (input : List UInt8) → (gas : UInt64) → EVMResult gas
  interpret : EVMContext → (caller addr : Address) → (code input : List UInt8) →
    (gas : UInt64) → (value : ℤ) → Client W (EVMResult gas)
  create : EVMContext → (caller : Address) → (code : List UInt8) → (gas : UInt64) → (value : ℤ) →
    Client W (EVMResult gas)

/-- `CanTransfer`. -/
def canTransfer (addr : Address) (amount : ℤ) : Client W Bool := do
  let balance ← getBalance addr
  return decide (amount ≤ balance)

/-- `Transfer`. -/
def transfer (sender recipient : Address) (amount : ℤ) (txType : TransactionType) :
    Client W Unit := do
  if txType = .sameShardTx ∨ txType = .subtractionOnly then subBalance sender amount
  if txType = .sameShardTx then addBalance recipient amount

/-- `IsValidator`. -/
def isValidator (addr : Address) : Client W Bool := do
  let value ← getState addr isValidatorKey
  return decide (value ≠ 0)

namespace Interpreter

variable (vm : Interpreter W)

/-- `run`; there is nothing to run without code. -/
def run (ctx : EVMContext) (caller addr : Address) (code input : List UInt8) (gas : UInt64)
    (value : ℤ) : Client W (EVMResult gas) :=
  if vm.precompiled ctx addr then pure (vm.runPrecompiled ctx addr input gas)
  else if code = [] then pure ⟨gas, le_refl _, none⟩
  else vm.interpret ctx caller addr code input gas value

/-- The part of `Call` after its snapshot. -/
def callBody (config : ChainConfig) (ctx : EVMContext) (caller addr : Address)
    (input : List UInt8) (gas : UInt64) (value : ℤ) : Client W (EVMResult gas) := do
  let exist ← exist addr
  let missing := !exist && decide (ctx.txType ≠ .subtractionOnly)
  if missing && !vm.precompiled ctx addr && config.isS3 ctx.epochNumber && decide (value = 0) then
    pure ⟨gas, le_refl _, none⟩
  else
    if missing then createAccount addr
    transfer caller addr value ctx.txType
    let code ← getCode addr
    let validator ← isValidator addr
    vm.run ctx caller addr (if validator then [] else code) input gas value

/-- What is left of the gas: an error other than a revert takes all of it. -/
def leftOver {gas : UInt64} (r : EVMResult gas) : EVMResult gas :=
  match r.vmErr with
  | none => r
  | some e => if e = executionReverted then r else ⟨0, UInt64.zero_le, some e⟩

/-- `EVM.Call` at depth zero. -/
def call (config : ChainConfig) (ctx : EVMContext) (caller addr : Address)
    (input : List UInt8) (gas : UInt64) (value : ℤ) : Client W (EVMResult gas) := do
  if !(← canTransfer caller value) then
    return ⟨gas, le_refl _, some .insufficientBalance⟩
  .attempt (vm.callBody config ctx caller addr input gas value) (fun r => r.vmErr.isSome)
    fun r => .ret (leftOver r)

/-- The EVM. -/
def evm (config : ChainConfig) : EVM W := ⟨vm.create, vm.call config⟩

end Interpreter

/-! ## A call without code -/

/-- The account has no code that runs: none at all, or the wrapper of a validator. -/
def Codeless (db : DB W) (addr : Address) : Prop :=
  db.getCode addr = [] ∨ db.getState addr isValidatorKey ≠ 0

theorem codeless_of_face {db db' : DB W} {a : Address}
    (hcode : (db'.face a).account.code = (db.face a).account.code)
    (hstorage : (db'.face a).account.storage = (db.face a).account.storage)
    (h : Codeless db a) : Codeless db' a := by
  unfold Codeless at h ⊢
  rwa [DB.getCode_eq_face, DB.getState_eq_face, hcode, hstorage, ← DB.getCode_eq_face,
    ← DB.getState_eq_face]

/-- The state in which the value is moved. -/
def prepared (db : DB W) (addr : Address) : DB W :=
  if db.exist addr then db.snapshot.1 else db.snapshot.1.createAccount addr

/-- The call finds no account and has no value to give to a new one. -/
def Void (config : ChainConfig) (ctx : EVMContext) (db : DB W) (addr : Address) (value : ℤ) : Prop :=
  db.exist addr = false ∧ config.isS3 ctx.epochNumber = true ∧ value = 0

instance (config : ChainConfig) (ctx : EVMContext) (db : DB W) (addr : Address) (value : ℤ) :
    Decidable (Void config ctx db addr value) := by
  unfold Void
  infer_instance

/-- The state after a call without code. -/
def called (config : ChainConfig) (ctx : EVMContext) (db : DB W) (caller addr : Address)
    (value : ℤ) : DB W :=
  if Void config ctx db addr value then db.snapshot.1
  else ((prepared db addr).subBalance caller value).addBalance addr value

section Codeless

variable {db : DB W} {a : Address}

section

variable (h : Codeless db a)
include h

theorem Codeless.write {db' : DB W} {b : Address} {f : Account → Account}
    (hface : db'.face = Function.update db.face b ((db.face b).write f))
    (hcode : ∀ x, (f x).code = x.code) (hstorage : ∀ x, (f x).storage = x.storage) :
    Codeless db' a := by
  refine codeless_of_face ?_ ?_ h <;> rw [hface]
  · exact DB.account_update_write Account.code hcode _ _ _
  · exact DB.account_update_write Account.storage hstorage _ _ _

theorem Codeless.addBalance (b : Address) (amount : ℤ) : Codeless (db.addBalance b amount) a :=
  h.write (DB.face_addBalance db b amount) (fun _ => rfl) fun _ => rfl

theorem Codeless.subBalance (b : Address) (amount : ℤ) : Codeless (db.subBalance b amount) a :=
  h.write (DB.face_subBalance db b amount) (fun _ => rfl) fun _ => rfl

theorem Codeless.setNonce (b : Address) (nonce : UInt64) : Codeless (db.setNonce b nonce) a :=
  h.write (DB.face_setNonce db b nonce) (fun _ => rfl) fun _ => rfl

theorem Codeless.prepared : Codeless (prepared db a) a := by
  unfold Core.prepared
  split
  · exact h
  · refine .inl ?_
    rw [DB.getCode_eq_face, DB.face_createAccount, Function.update_self]
    rfl

end

end Codeless

variable {caller addr : Address} {input : List UInt8} {gas : UInt64} {value : ℤ}

section Run

variable {codec : WrapperCodec W} {config : ChainConfig} {vm : Interpreter W} {ctx : EVMContext}
  {db : DB W}

theorem run_codeless (hpre : vm.precompiled ctx addr = false) (hcode : Codeless db addr) :
    DB.run codec (do
      let code ← getCode addr
      let validator ← isValidator addr
      vm.run ctx caller addr (if validator then [] else code) input gas value) db =
      some (⟨gas, le_refl _, none⟩, db) := by
  have hnil : (if decide (db.getState addr isValidatorKey ≠ 0) = true then [] else db.getCode addr) =
      [] := by
    rcases hcode with h | h
    · rw [h, ite_self]
    · exact if_pos (decide_eq_true h)
  simp only [isValidator, DB.run_bind, DB.run_getCode, DB.run_getState, DB.run_pure,
    bind_some, hnil]
  simp [Interpreter.run, hpre]

/-- **A call without code** moves the value and leaves the gas. -/
theorem run_call (htype : ctx.txType = .sameShardTx) (hpre : vm.precompiled ctx addr = false) (hcode : Codeless db addr) :
    DB.run codec (vm.call config ctx caller addr input gas value) db =
      if value ≤ db.getBalance caller then
        some (⟨gas, le_refl _, none⟩, called config ctx db caller addr value)
      else some (⟨gas, le_refl _, some .insufficientBalance⟩, db) := by
  have hbody : DB.run codec (vm.callBody config ctx caller addr input gas value) db.snapshot.1 =
      some (⟨gas, le_refl _, none⟩, called config ctx db caller addr value) := by
    have hexist : db.snapshot.1.exist addr = db.exist addr := rfl
    unfold Interpreter.callBody
    simp only [DB.run_bind, DB.run_exist, bind_some, htype, hpre, hexist]
    by_cases hvoid : Void config ctx db addr value
    · obtain ⟨hmissing, hs3, rfl⟩ := id hvoid
      simp [called, hvoid, hmissing, hs3]
    · have hguard : (!db.exist addr && decide (TransactionType.sameShardTx ≠ .subtractionOnly) &&
          !false && config.isS3 ctx.epochNumber && decide (value = 0)) = false := by
        by_contra h
        simp only [ne_eq, reduceCtorEq, not_false_eq_true, decide_true, Bool.and_true,
          Bool.not_false, Bool.not_eq_false, Bool.and_eq_true, Bool.not_eq_true',
          decide_eq_true_eq] at h
        exact hvoid ⟨h.1.1, h.1.2, h.2⟩
      rw [hguard]
      simp only [Bool.false_eq_true, if_false, called, hvoid]
      -- the value is moved, and nothing runs
      have hmoved := (hcode.prepared.subBalance caller value).addBalance addr value
      unfold prepared at hmoved ⊢
      cases hmissing : db.exist addr with
      | true =>
        rw [hmissing, if_pos rfl] at hmoved
        exact run_codeless hpre hmoved
      | false =>
        rw [hmissing, if_neg Bool.false_ne_true] at hmoved
        exact run_codeless hpre hmoved
  unfold Interpreter.call canTransfer
  simp only [DB.run_bind, DB.run_getBalance, DB.run_pure, bind_some]
  by_cases hle : value ≤ db.getBalance caller
  · simp only [hle, decide_true, Bool.not_true, Bool.false_eq_true, if_false]
    change (DB.run codec _ db.snapshot.1).bind _ = _
    rw [hbody]
    rfl
  · simp [hle]

/-! ## The gas of a transfer -/

theorem le_chargeData {price count g : UInt64} (h : chargeData gas price count = some g) :
    gas ≤ g := by
  unfold chargeData at h
  split_ifs at h with hover
  cases h
  have hcount : count.toNat ≤ (maxUint64 - gas).toNat / price.toNat := by
    have := not_lt.1 hover
    rwa [le_iff_toNat_le, UInt64.toNat_div] at this
  have hgas : gas ≤ maxUint64 := by
    exact le_of_lt_succ gas.toNat_lt
  rw [toNat_sub_of_le _ _ hgas] at hcount
  have hmul : count.toNat * price.toNat ≤ maxUint64.toNat - gas.toNat :=
    (mul_le_mul_right _ hcount).trans (div_mul_le_self _ _)
  have hmax : maxUint64.toNat = 2 ^ 64 - 1 := rfl
  have hlt := gas.toNat_lt
  rw [le_iff_toNat_le, UInt64.toNat_add, UInt64.toNat_mul]
  omega

theorem txGas_le_intrinsicGas {data : List UInt8} {homestead istanbul : Bool} {g : UInt64}
    (h : intrinsicGas data false homestead istanbul false = some g) : txGas ≤ g := by
  unfold intrinsicGas at h
  simp only [Bool.false_and, Bool.false_eq_true, if_false] at h
  split at h
  · exact (some.inj h) ▸ le_refl _
  · obtain ⟨g₁, h₁, h₂⟩ := bind_eq_some_iff.1 h
    exact UInt64.le_trans (le_chargeData h₁) (le_chargeData h₂)

theorem refundable_lt {amount refund : UInt64} (hpos : 0 < amount) (hle : amount ≤ gas) :
    refundable gas (gas - amount) refund < gas := by
  have hsub : (gas - amount).toNat = gas.toNat - amount.toNat := toNat_sub_of_le _ _ hle
  have hle' := toNat_refundable_le refund (UInt64.sub_le hle)
  rw [le_iff_toNat_le] at hle
  rw [UInt64.lt_iff_toNat_lt] at hpos ⊢
  rw [hsub] at hle'
  omega

/-! ## The transition -/

theorem run_preCheck (codec : WrapperCodec W) (msg : Message) (gp : UInt64) (db : DB W) :
    ∃ r, DB.run codec (preCheck msg gp) db = some (r, if r = none
        then db.subBalance msg.sender (msg.gas.toNat * msg.gasPrice) else db) ∧
      (r = none → msg.checkNonce = true → db.getNonce msg.sender = msg.nonce) := by
  have hbuy : ∃ r, DB.run codec (buyGas msg gp) db = some (r, if r = none
      then db.subBalance msg.sender (msg.gas.toNat * msg.gasPrice) else db) := by
    unfold buyGas
    simp only [DB.run_bind, DB.run_getBalance, bind_some]
    split
    · exact ⟨_, rfl⟩
    · split
      · exact ⟨_, rfl⟩
      · exact ⟨none, rfl⟩
  obtain ⟨r, hr⟩ := hbuy
  unfold preCheck
  split
  · simp only [DB.run_bind, DB.run_getNonce, bind_some]
    split
    · exact ⟨some .nonceTooHigh, rfl, nofun⟩
    · split
      · exact ⟨some .nonceTooLow, rfl, nofun⟩
      · rename_i hlow hhigh
        exact ⟨r, hr, fun _ _ => UInt64.le_antisymm (not_lt.1 hhigh) (not_lt.1 hlow)⟩
  · rename_i hcheck
    exact ⟨r, hr, fun _ h => absurd h hcheck⟩

/-- A transfer to an account of the same shard without code, as transactions are decoded. -/
structure Plain (vm : Interpreter W) (ctx : EVMContext) (msg : Message) (addr : Address)
    (db : DB W) : Prop where
  recipient : msg.recipient = some addr
  sameShard : ctx.txType = .sameShardTx
  notPrecompiled : vm.precompiled ctx addr = false
  codeless : Codeless db addr
  value_nonneg : 0 ≤ msg.value
  gasPrice_nonneg : 0 ≤ msg.gasPrice

/-- The state in which the EVM is called. -/
def bought (msg : Message) (db : DB W) : DB W :=
  let db := db.subBalance msg.sender (msg.gas.toNat * msg.gasPrice)
  db.setNonce msg.sender (db.getNonce msg.sender + 1)

/-- The state after a transfer that leaves so much gas. -/
def transferred (config : ChainConfig) (ctx : EVMContext) (msg : Message) (addr : Address)
    (db : DB W) (left : UInt64) : DB W :=
  let db := called config ctx (bought msg db) msg.sender addr msg.value
  let db := db.addBalance msg.sender (left.toNat * msg.gasPrice)
  if config.isStaking ctx.epochNumber then db
  else db.addBalance ctx.coinbase ((msg.gas - left).toNat * msg.gasPrice)

/-- What a transition of a plain transfer can end in. -/
inductive TransferEnd (config : ChainConfig) (ctx : EVMContext) (msg : Message) (addr : Address)
    (db : DB W) : Spent ExecutionResult → DB W → Prop
  | failed {spent : Spent ExecutionResult} {db' : DB W} (e : Err) (h : spent.result = .error e) :
      TransferEnd config ctx msg addr db spent db'
  | done {spent : Spent ExecutionResult} (left : UInt64) (hleft : left < msg.gas)
      (hnonce : msg.checkNonce = true → db.getNonce msg.sender = msg.nonce)
      (h : spent.result = .ok ⟨msg.gas - left, none⟩) :
      TransferEnd config ctx msg addr db spent (transferred config ctx msg addr db left)

theorem useGas_refund {msg : Message} {homestead istanbul : Bool}
    {gas : { left : UInt64 // left ≤ msg.gas }}
    (h : useGas msg.gas (intrinsicGas msg.data false homestead istanbul false) = some gas)
    (refund : UInt64) : refundable msg.gas gas refund < msg.gas := by
  cases hgas : intrinsicGas msg.data false homestead istanbul false with
  | none => simp [hgas, useGas] at h
  | some amount =>
    simp only [hgas, useGas] at h
    split_ifs at h with hle
    cases h
    have hpos : 0 < amount := UInt64.lt_of_lt_of_le (by decide) (txGas_le_intrinsicGas hgas)
    exact refundable_lt hpos hle

/-- **A plain transfer ends with an error or is carried out.** -/
theorem run_transitionDb {msg : Message} {gp : UInt64} (hplain : Plain vm ctx msg addr db) :
    ∃ spent db', DB.run codec (transitionDb config (vm.evm config) ctx msg gp) db =
        some (spent, db') ∧ TransferEnd config ctx msg addr db spent db' := by
  obtain ⟨r, hpre, hnonce⟩ := run_preCheck codec msg gp db
  unfold transitionDb
  rw [DB.run_bind, hpre, bind_some]
  cases r with
  | some e => exact ⟨_, _, rfl, .failed e rfl⟩
  | none =>
    simp only [if_true, hplain.recipient, isNone_some]
    cases huse : useGas msg.gas (intrinsicGas msg.data false (config.isS3 ctx.epochNumber)
        (config.isIstanbul ctx.epochNumber) false) with
    | none => exact ⟨_, _, rfl, .failed .outOfGas rfl⟩
    | some gas =>
      have hcode : Codeless (bought msg db) addr :=
        (hplain.codeless.subBalance _ _).setNonce _ _
      have hexecute : DB.run codec (execute (vm.evm config) ctx msg gas)
          (db.subBalance msg.sender (msg.gas.toNat * msg.gasPrice)) =
          DB.run codec (vm.call config ctx msg.sender addr msg.data gas msg.value)
            (bought msg db) := by
        unfold execute
        simp only [hplain.recipient]
        rfl
      simp only [DB.run_bind]
      rw [hexecute, run_call hplain.sameShard hplain.notPrecompiled hcode]
      split
      · simp only [bind_some, reduceCtorEq, if_false, refundGas, DB.run_bind, DB.run_getRefund,
          DB.run_addBalance, DB.run_pure]
        have hlt := useGas_refund huse (called config ctx (bought msg db) msg.sender addr
          msg.value).refund
        refine ⟨⟨msg.gas, _, le_of_lt hlt, _⟩, _, ?_, .done _ hlt (hnonce rfl) rfl⟩
        unfold transferred
        cases config.isStaking ctx.epochNumber <;> rfl
      · exact ⟨_, _, rfl, .failed .insufficientBalance rfl⟩

/-! ## The accounts after a transfer -/

end Run

/-- The balance that a call gives to the account it creates, beside the value. -/
def gift (config : ChainConfig) (ctx : EVMContext) (db : DB W) (addr : Address) (value : ℤ) : ℤ :=
  if db.exist addr = false ∧ ¬ Void config ctx db addr value then db.carried addr else 0

section Accounts

variable {config : ChainConfig} {ctx : EVMContext} {msg : Message} {db : DB W}

theorem frozen_prepared (db : DB W) (addr b : Address) :
    ((prepared db addr).face b).frozen = (db.face b).frozen := by
  unfold prepared
  cases h : db.exist addr with
  | true => rfl
  | false => exact DB.frozen_createAccount (show db.snapshot.1.exist addr = false from h) b

theorem getBalance_prepared (db : DB W) (addr b : Address) :
    (prepared db addr).getBalance b =
      db.getBalance b + if b = addr ∧ db.exist addr = false then db.carried addr else 0 := by
  unfold prepared
  cases h : db.exist addr with
  | true => simp [DB.getBalance_eq_face, DB.face_snapshot]
  | false =>
    rw [if_neg Bool.false_ne_true, DB.getBalance_createAccount]
    by_cases hb : b = addr
    · subst hb
      have hzero : db.getBalance b = 0 := by
        rw [DB.getBalance_eq_face, DB.face_of_not_exist h]
        rfl
      simp only [if_true, hzero, true_and, zero_add]
      rfl
    · simp only [hb, if_false, false_and, add_zero]
      rfl

section

variable (caller addr b : Address) (value : ℤ)

theorem getBalance_called :
    (called config ctx db caller addr value).getBalance b = db.getBalance b -
      (if b = caller ∧ (db.face caller).frozen = false then value else 0) +
      (if b = addr ∧ (db.face addr).frozen = false then value else 0) +
      if b = addr then gift config ctx db addr value else 0 := by
  unfold called gift
  by_cases hvoid : Void config ctx db addr value
  · obtain rfl : value = 0 := hvoid.2.2
    simp only [hvoid, if_true, ite_self, sub_zero, add_zero, not_true_eq_false, and_false,
      if_false]
    rfl
  · rw [if_neg hvoid, DB.getBalance_addBalance, DB.getBalance_subBalance, getBalance_prepared,
      DB.frozen_subBalance, frozen_prepared, frozen_prepared]
    have hgift : (if b = addr ∧ db.exist addr = false then db.carried addr else 0) =
        if b = addr then
          (if db.exist addr = false ∧ ¬ Void config ctx db addr value then db.carried addr else 0)
        else 0 := by
      split_ifs <;> tauto
    rw [hgift]
    ring

theorem frozen_called :
    ((called config ctx db caller addr value).face b).frozen = (db.face b).frozen := by
  unfold called
  split
  · rfl
  · rw [DB.frozen_addBalance, DB.frozen_subBalance, frozen_prepared]

theorem getNonce_called : (called config ctx db caller addr value).getNonce b = db.getNonce b := by
  unfold called
  split
  · rfl
  · rw [DB.getNonce_addBalance, DB.getNonce_subBalance]
    unfold prepared
    cases h : db.exist addr with
    | true => rfl
    | false => exact DB.getNonce_createAccount (show db.snapshot.1.exist addr = false from h) b

end

theorem frozen_bought (b : Address) : ((bought msg db).face b).frozen = (db.face b).frozen := by
  unfold bought
  rw [DB.frozen_setNonce, DB.frozen_subBalance]

theorem getBalance_bought (b : Address) :
    (bought msg db).getBalance b = db.getBalance b -
      if b = msg.sender ∧ (db.face msg.sender).frozen = false
        then msg.gas.toNat * msg.gasPrice else 0 := by
  unfold bought
  rw [DB.getBalance_setNonce, DB.getBalance_subBalance]

theorem getNonce_bought :
    (bought msg db).getNonce msg.sender =
      if (db.face msg.sender).frozen then db.getNonce msg.sender
      else db.getNonce msg.sender + 1 := by
  unfold bought
  rw [DB.getNonce_setNonce, DB.frozen_subBalance, DB.getNonce_subBalance]

/-- What the recipient gets beside the value; a sender exists when it is called. -/
def windfall (config : ChainConfig) (ctx : EVMContext) (msg : Message) (addr : Address)
    (db : DB W) : ℤ :=
  if addr = msg.sender then 0 else gift config ctx db addr msg.value

theorem exist_setNonce (db : DB W) (a : Address) (nonce : UInt64) :
    (db.setNonce a nonce).exist a = true := by
  obtain ⟨hget, -⟩ := DB.face_getOrNew db a
  have hdel := DB.deleted_of_getStateObject hget
  unfold DB.setNonce DB.unlessFrozen DB.exist
  dsimp only
  split
  · rw [hget]
    rfl
  · rw [DB.getStateObject_update _ _ (o := Object.setNonce _ nonce) hdel]
    rfl

theorem gift_bought (addr : Address) :
    gift config ctx (bought msg db) addr msg.value = windfall config ctx msg addr db := by
  unfold windfall
  split
  · next heq =>
    subst heq
    have hexist : (bought msg db).exist msg.sender = true := exist_setNonce _ _ _
    unfold gift
    rw [hexist]
    simp
  · next hne =>
    have haway : DB.Away addr db (bought msg db) :=
      (DB.away_subBalance db _ (Ne.symm hne)).trans (DB.away_setNonce _ _ (Ne.symm hne))
    have hobject : (bought msg db).getDeletedStateObject addr = db.getDeletedStateObject addr := by
      simp only [DB.getDeletedStateObject, haway.object, haway.trie]
    have hexist : (bought msg db).exist addr = db.exist addr := by
      simp only [DB.exist, DB.getStateObject, hobject]
    have hcarried : (bought msg db).carried addr = db.carried addr := by
      simp only [DB.carried, hobject]
    have hvoid : Void config ctx (bought msg db) addr msg.value ↔
        Void config ctx db addr msg.value := by
      unfold Void
      rw [hexist]
    unfold gift
    exact if_congr (and_congr (by rw [hexist]) (not_congr hvoid)) hcarried rfl

/-- The fee. -/
def fee (msg : Message) (left : UInt64) : ℤ := (msg.gas - left).toNat * msg.gasPrice

variable {left : UInt64}

theorem fee_eq (h : left ≤ msg.gas) :
    fee msg left = msg.gas.toNat * msg.gasPrice - left.toNat * msg.gasPrice := by
  unfold fee
  rw [toNat_sub_of_le _ _ h, cast_sub (le_iff_toNat_le.1 h), sub_mul]

/-- **The balance of every account after a transfer**, whoever is frozen. -/
theorem balance_transition {addr : Address} (hleft : left ≤ msg.gas) (b : Address) :
    (transferred config ctx msg addr db left).getBalance b = db.getBalance b -
      (if b = msg.sender ∧ (db.face msg.sender).frozen = false
        then msg.value + fee msg left else 0) +
      (if b = addr ∧ (db.face addr).frozen = false then msg.value else 0) +
      (if b = addr then windfall config ctx msg addr db else 0) +
      if b = ctx.coinbase ∧ (db.face ctx.coinbase).frozen = false ∧
          config.isStaking ctx.epochNumber = false then fee msg left else 0 := by
  have hrefund : ((called config ctx (bought msg db) msg.sender addr msg.value).addBalance
      msg.sender (left.toNat * msg.gasPrice)).getBalance b = db.getBalance b -
        (if b = msg.sender ∧ (db.face msg.sender).frozen = false
          then msg.value + fee msg left else 0) +
        (if b = addr ∧ (db.face addr).frozen = false then msg.value else 0) +
        if b = addr then windfall config ctx msg addr db else 0 := by
    rw [DB.getBalance_addBalance, getBalance_called, getBalance_bought, frozen_called,
      frozen_bought, frozen_bought, gift_bought, fee_eq hleft]
    split_ifs <;> ring
  unfold transferred
  cases hstaking : config.isStaking ctx.epochNumber with
  | true => simp [hrefund]
  | false =>
    rw [if_neg Bool.false_ne_true, DB.getBalance_addBalance, hrefund, DB.frozen_addBalance,
      frozen_called, frozen_bought]
    simp [fee]

theorem nonce_transition {addr : Address} :
    (transferred config ctx msg addr db left).getNonce msg.sender =
      if (db.face msg.sender).frozen then db.getNonce msg.sender
      else db.getNonce msg.sender + 1 := by
  unfold transferred
  split <;> simp only [DB.getNonce_addBalance, getNonce_called, getNonce_bought]

end Accounts

/-! ## When a transfer is exact -/

/-- The sender pays value and fee, the recipient gets the value and, before staking, the coinbase
the fee; no other balance changes. -/
structure Exact (config : ChainConfig) (ctx : EVMContext) (msg : Message) (addr : Address)
    (db db' : DB W) (usedGas : UInt64) : Prop where
  balance : ∀ b, db'.getBalance b = db.getBalance b -
    (if b = msg.sender then msg.value + usedGas.toNat * msg.gasPrice else 0) +
    (if b = addr then msg.value else 0) +
    if b = ctx.coinbase ∧ config.isStaking ctx.epochNumber = false
      then usedGas.toNat * msg.gasPrice else 0
  nonce : db'.getNonce msg.sender = db.getNonce msg.sender + 1

/-- The message is refused in whatever block it comes again. -/
def Refused (codec : WrapperCodec W) (config : ChainConfig) (evm : EVM W) (msg : Message)
    (db : DB W) : Prop :=
  ∀ ctx gp spent db', DB.run codec (transitionDb config evm ctx msg gp) db = some (spent, db') →
    ∃ e, spent.result = .error e

/-- No account that the transfer writes is frozen, and the account it creates carries no
balance over. -/
structure Unhindered (config : ChainConfig) (ctx : EVMContext) (msg : Message) (addr : Address)
    (db : DB W) : Prop where
  sender : (db.face msg.sender).frozen = false
  recipient : msg.value = 0 ∨ (db.face addr).frozen = false
  coinbase : config.isStaking ctx.epochNumber = true ∨ msg.gasPrice = 0 ∨
    (db.face ctx.coinbase).frozen = false
  carried : addr ≠ msg.sender → db.exist addr = false → ¬ Void config ctx db addr msg.value →
    db.carried addr = 0

section Exact

variable {codec : State.WrapperCodec W} {config : ChainConfig} {ctx : EVMContext} {msg : Message}
  {addr : Address} {db : DB W}

theorem refused_of_nonce {evm : EVM W} (hcheck : msg.checkNonce = true)
    (hnonce : db.getNonce msg.sender ≠ msg.nonce) : Refused codec config evm msg db := by
  intro ctx gp spent db' hrun
  obtain ⟨r, hpre, hr⟩ := run_preCheck codec msg gp db
  unfold transitionDb at hrun
  rw [DB.run_bind, hpre, bind_some] at hrun
  cases r with
  | some e =>
    cases hrun
    exact ⟨e, rfl⟩
  | none => exact absurd (hr rfl hcheck) hnonce

theorem windfall_eq_zero (h : addr ≠ msg.sender → db.exist addr = false →
    ¬ Void config ctx db addr msg.value → db.carried addr = 0) :
    windfall config ctx msg addr db = 0 := by
  unfold windfall gift
  split_ifs with hsender hcreated
  · rfl
  · exact h hsender hcreated.1 hcreated.2
  · rfl

theorem windfall_of_frozen (config : ChainConfig) (ctx : EVMContext) (msg : Message)
    (h : (db.face addr).frozen = true) : windfall config ctx msg addr db = 0 := by
  refine windfall_eq_zero fun _ hmissing => ?_
  rw [DB.face_of_not_exist hmissing] at h
  cases h

theorem Unhindered.exact {left : UInt64} (h : Unhindered config ctx msg addr db)
    (hleft : left ≤ msg.gas) :
    Exact config ctx msg addr db (transferred config ctx msg addr db left) (msg.gas - left) where
  balance b := by
    rw [balance_transition hleft, windfall_eq_zero h.carried, h.sender]
    have hvalue : (if b = addr ∧ (db.face addr).frozen = false then msg.value else 0) =
        if b = addr then msg.value else 0 := by
      rcases h.recipient with hzero | hthawed
      · simp [hzero]
      · simp [hthawed]
    have hfee : (if b = ctx.coinbase ∧ (db.face ctx.coinbase).frozen = false ∧
          config.isStaking ctx.epochNumber = false then fee msg left else 0) =
        if b = ctx.coinbase ∧ config.isStaking ctx.epochNumber = false then fee msg left else 0 := by
      rcases h.coinbase with hstaking | hfree | hthawed
      · simp [hstaking]
      · simp [fee, hfree]
      · simp [hthawed]
    rw [hvalue, hfee]
    simp [fee]
  nonce := by
    rw [nonce_transition, h.sender]
    rfl

/-- An exact transfer was not hindered: each skipped write would show in a balance or the
nonce. -/
theorem Exact.unhindered {left : UInt64} (hleft : left < msg.gas) (hvalue : 0 ≤ msg.value)
    (hprice : 0 ≤ msg.gasPrice)
    (h : Exact config ctx msg addr db (transferred config ctx msg addr db left) (msg.gas - left)) :
    Unhindered config ctx msg addr db := by
  have hsender : (db.face msg.sender).frozen = false := by
    by_contra hfrozen
    have hnonce := h.nonce
    rw [nonce_transition, if_pos (by simpa using hfrozen)] at hnonce
    simp at hnonce
  have hle := le_of_lt hleft
  have hused : (0 : ℤ) < (msg.gas - left).toNat := by
    rw [toNat_sub_of_le _ _ hle]
    have := UInt64.lt_iff_toNat_lt.1 hleft
    omega
  have hfee : 0 ≤ fee msg left := mul_nonneg hused.le hprice
  have hbalance := fun b => (balance_transition hle b).symm.trans (h.balance b)
  simp only [hsender, and_true] at hbalance
  refine ⟨hsender, ?_, ?_, ?_⟩
  · by_contra! hhindered
    obtain ⟨hpositive, hthawed⟩ := hhindered
    have hfrozen : (db.face addr).frozen = true := by simpa using hthawed
    have hne : addr ≠ msg.sender := fun heq => hthawed (heq ▸ hsender)
    have hskipped : ¬ (addr = ctx.coinbase ∧ (db.face ctx.coinbase).frozen = false ∧
        config.isStaking ctx.epochNumber = false) := fun hboth => hthawed (hboth.1 ▸ hboth.2.1)
    have haddr := hbalance addr
    simp only [hne, hfrozen, hskipped, windfall_of_frozen config ctx msg hfrozen,
      Bool.true_eq_false, and_false, if_false, if_true] at haddr
    have hpaid : 0 ≤ if addr = ctx.coinbase ∧ config.isStaking ctx.epochNumber = false
        then (msg.gas - left).toNat * msg.gasPrice else 0 := by
      split_ifs
      · exact hfee
      · exact le_refl _
    omega
  · by_contra! hhindered
    obtain ⟨hstaking, hpositive, hthawed⟩ := hhindered
    have hfrozen : (db.face ctx.coinbase).frozen = true := by simpa using hthawed
    have hbefore : config.isStaking ctx.epochNumber = false := by simpa using hstaking
    have hne : ctx.coinbase ≠ msg.sender := fun heq => hthawed (heq ▸ hsender)
    have hskipped : ¬ (ctx.coinbase = addr ∧ (db.face addr).frozen = false) :=
      fun hboth => hthawed (hboth.1 ▸ hboth.2)
    have hnone : (if ctx.coinbase = addr then windfall config ctx msg addr db else 0) = 0 := by
      split_ifs with heq
      · exact windfall_of_frozen config ctx msg (heq ▸ hfrozen)
      · rfl
    have hcoinbase := hbalance ctx.coinbase
    simp only [hne, hfrozen, hskipped, hnone, hbefore, Bool.true_eq_false, false_and, and_false,
      and_self, if_false, if_true] at hcoinbase
    have hcharged : 0 < ((msg.gas - left).toNat : ℤ) * msg.gasPrice :=
      mul_pos hused (lt_of_le_of_ne hprice (Ne.symm hpositive))
    omega
  · intro hne hmissing hvoid
    have hthawed : (db.face addr).frozen = false := by
      rw [DB.face_of_not_exist hmissing]
      rfl
    have hwindfall : windfall config ctx msg addr db = db.carried addr := by
      unfold windfall gift
      rw [if_neg hne, if_pos ⟨hmissing, hvoid⟩]
    have hfees : (if addr = ctx.coinbase ∧ (db.face ctx.coinbase).frozen = false ∧
          config.isStaking ctx.epochNumber = false then fee msg left else 0) =
        if addr = ctx.coinbase ∧ config.isStaking ctx.epochNumber = false
          then (msg.gas - left).toNat * msg.gasPrice else 0 := by
      by_cases heq : addr = ctx.coinbase
      · rw [← heq]
        simp [hthawed, fee]
      · simp [heq]
    have haddr := hbalance addr
    simp only [hne, hthawed, hwindfall, hfees, and_self, if_false, if_true] at haddr
    omega

/-- **When a transfer neither mints nor burns**: it ends with an error, or it is not hindered. -/
theorem transfer_exact_iff {vm : Interpreter W} {gp : UInt64} (hplain : Plain vm ctx msg addr db) :
    ∃ spent db', DB.run codec (transitionDb config (vm.evm config) ctx msg gp) db =
        some (spent, db') ∧
      ((∃ e, spent.result = .error e) ∨
        ∃ usedGas, spent.result = .ok ⟨usedGas, none⟩ ∧
          (Exact config ctx msg addr db db' usedGas ∧
              (msg.checkNonce = true → Refused codec config (vm.evm config) msg db') ↔
            Unhindered config ctx msg addr db)) := by
  refine (run_transitionDb hplain).imp fun spent => Exists.imp fun db' =>
    And.imp_right fun hend => ?_
  cases hend with
  | failed e h => exact .inl ⟨e, h⟩
  | done left hleft hnonce h =>
    refine .inr ⟨_, h, fun hexact =>
      hexact.1.unhindered hleft hplain.value_nonneg hplain.gasPrice_nonneg, fun hfree => ?_⟩
    have hexact := hfree.exact (le_of_lt hleft)
    refine ⟨hexact, fun hcheck => refused_of_nonce hcheck ?_⟩
    rw [hexact.nonce, hnonce hcheck]
    simp

end Exact

/-! ## The transfer of a frozen sender -/

namespace Hindered

/-- Before staking, with the other forks. -/
def config : ChainConfig := .forked 9

/-- There are no wrappers. -/
def codec : WrapperCodec Unit := .empty

/-- There is no code. -/
def vm : Interpreter Unit where
  precompiled _ _ := false
  runPrecompiled _ _ _ gas := ⟨gas, le_refl _, none⟩
  interpret _ _ _ _ _ gas _ := .ret ⟨gas, le_refl _, none⟩
  create _ _ _ gas _ := .ret ⟨gas, le_refl _, none⟩

/-- Account `0xaa` sends five to account `0xbb`. -/
def msg : Message where
  sender := 0xaa
  recipient := some 0xbb
  nonce := 0
  value := 5
  gas := 21000
  gasPrice := 1
  data := []
  checkNonce := true
  type := none
  blockNum := 1

/-- A block of account `0xcc`. -/
def ctx : EVMContext where
  origin := 0xaa
  coinbase := 0xcc
  parentHash := 0
  blockNumber := 1
  epochNumber := 1
  vrf := []
  time := 0
  gasLimit := 100000
  gasPrice := 1
  txType := .sameShardTx

/-- The sender has 30000. -/
def db : DB Unit :=
  DB.new fun a => if a = 0xaa then some { Account.zero with balance := 30000 } else none

/-- Whether the transfer is carried out, and the state after it. -/
def send (db : DB Unit) : Option (DB Unit) :=
  match DB.run codec (transitionDb config (vm.evm config) ctx msg 100000) db with
  | some (⟨_, _, _, .ok _⟩, db') => some db'
  | _ => none

/-- The nonce of the sender, and the balances of the sender, the recipient and the coinbase. -/
def look (db : DB Unit) : UInt64 × ℤ × ℤ × ℤ :=
  (db.getNonce 0xaa, db.getBalance 0xaa, db.getBalance 0xbb, db.getBalance 0xcc)

theorem plain : Plain vm ctx msg 0xbb db where
  recipient := rfl
  sameShard := rfl
  notPrecompiled := rfl
  codeless := .inl rfl
  value_nonneg := by decide
  gasPrice_nonneg := by decide

end Hindered

open Hindered

/-- A transfer between thawed accounts is carried out, is exact and cannot be repeated. -/
theorem transfer_exact_sample : ∃ spent db' usedGas,
    DB.run codec (transitionDb config (vm.evm config) ctx msg 100000) db = some (spent, db') ∧
      spent.result = .ok ⟨usedGas, none⟩ ∧
      Exact config ctx msg 0xbb db db' usedGas ∧
      Refused codec config (vm.evm config) msg db' := by
  have hends : ∃ spent db', DB.run codec (transitionDb config
        (vm.evm config) ctx msg 100000) db =
        some (spent, db') ∧ ((∃ e, spent.result = .error e) ∨ _) :=
    transfer_exact_iff plain
  obtain ⟨spent, db', hrun, hend⟩ := hends
  rcases hend with ⟨e, herror⟩ | ⟨usedGas, hok, hiff⟩
  · have hsent : (send db).isSome = true := by decide +kernel
    obtain ⟨_, _, _, result⟩ := spent
    obtain rfl : result = .error e := herror
    simp [send, hrun] at hsent
  · obtain ⟨hexact, hrefused⟩ :=
      hiff.2 ⟨rfl, .inr rfl, .inr (.inr rfl), fun _ _ _ => rfl⟩
    exact ⟨spent, db', usedGas, hrun, hok, hexact, hrefused rfl⟩

/-- **A frozen sender pays nothing**, keeps its nonce, and the transaction is carried out again. -/
theorem transfer_replayed :
    (send (db.setFreezeState 0xaa true)).map look = some (0, 30000, 5, 21000) ∧
      ((send (db.setFreezeState 0xaa true)).bind send).map look = some (0, 30000, 10, 42000) := by
  refine ⟨?_, ?_⟩ <;> decide +kernel

end DyShard.Core
