import DyShard.Core.Types

/-!
# The state transition: `core/state_transition.go`

What one transaction does, as a client of the state.  The EVM is a parameter that returns at most
the gas it is given; what is taken from the gas pool and given back is part of the result.
-/

namespace DyShard.Core

open State (Client)

variable {W : Type}

/-! ## Gas -/

namespace GasPool

/-- `AddGas`; an overflow is a panic. -/
def addGas (gp amount : UInt64) : Option UInt64 :=
  if gp.toNat + amount.toNat < 2 ^ 64 then some (gp + amount) else none

/-- `SubGas`; `none` is `ErrGasLimitReached`. -/
def subGas (gp amount : UInt64) : Option UInt64 := if gp < amount then none else some (gp - amount)

end GasPool

/-- `params.TxGas`. -/
def txGas : UInt64 := 21000

/-- `params.TxGasContractCreation`. -/
def txGasContractCreation : UInt64 := 53000

/-- `params.TxGasValidatorCreation`. -/
def txGasValidatorCreation : UInt64 := 5300000

/-- `params.TxDataZeroGas`. -/
def txDataZeroGas : UInt64 := 4

/-- `params.TxDataNonZeroGasFrontier`. -/
def txDataNonZeroGasFrontier : UInt64 := 68

/-- `params.TxDataNonZeroGasEIP2028`. -/
def txDataNonZeroGasEIP2028 : UInt64 := 16

/-- `math.MaxUint64`. -/
def maxUint64 : UInt64 := 0xffffffffffffffff

/-- One of the two charges for data in `IntrinsicGas`, with its overflow check. -/
def chargeData (gas price count : UInt64) : Option UInt64 :=
  if (maxUint64 - gas) / price < count then none else some (gas + count * price)

/-- `IntrinsicGas`; `none` is `ErrOutOfGas`. -/
def intrinsicGas (data : List UInt8) (contractCreation homestead istanbul : Bool)
    (isValidatorCreation : Bool) : Option UInt64 :=
  let gas :=
    if contractCreation && homestead then txGasContractCreation
    else if isValidatorCreation then txGasValidatorCreation
    else txGas
  if data = [] then some gas
  else
    let nz := data.countP (· ≠ 0)
    let nonZeroGas := if istanbul then txDataNonZeroGasEIP2028 else txDataNonZeroGasFrontier
    (chargeData gas nonZeroGas (.ofNat nz)).bind fun gas =>
      chargeData gas txDataZeroGas (.ofNat (data.length - nz))

/-! ## The EVM -/

/-- `vm.Context`.  `GetHash` is a function of the parent hash and the number. -/
structure EVMContext where
  origin : Address
  coinbase : Address
  parentHash : Word
  blockNumber : ℕ
  epochNumber : ℕ
  vrf : List UInt8
  time : ℕ
  gasLimit : UInt64
  gasPrice : ℤ
  txType : TransactionType

/-- `NewEVMContext`; a VRF below 32 bytes counts as zero. -/
def newEVMContext (msg : Message) (header : Preamble) (author : Address)
    (txType : TransactionType) : EVMContext where
  origin := msg.sender
  coinbase := author
  parentHash := header.parentHash
  blockNumber := header.number
  epochNumber := header.epoch
  vrf := if 32 ≤ header.vrf.length then header.vrf.take 32 else List.replicate 32 0
  time := header.time
  gasLimit := header.gasLimit
  gasPrice := msg.gasPrice
  txType := txType

/-- What `Create` and `Call` return: the gas that is left and the error. -/
structure EVMResult (gas : UInt64) where
  left : UInt64
  left_le : left ≤ gas
  vmErr : Option Err

/-- The EVM. -/
structure EVM (W : Type) where
  create : EVMContext → (caller : Address) → (code : List UInt8) → (gas : UInt64) → (value : ℤ) →
    Client W (EVMResult gas)
  call : EVMContext → (caller addr : Address) → (input : List UInt8) → (gas : UInt64) →
    (value : ℤ) → Client W (EVMResult gas)

/-- The staking messages: the address a message has to be signed by, and `verifyAndApply`
of its kind. -/
structure Staking (W : Type) where
  decode : TransactionType → List UInt8 → Except Err Address
  verifyAndApply : EVMContext → Message → TransactionType → Client W (Option Err)

/-! ## Transitions -/

/-- The result of a transition: the gas taken from the pool, the gas given back and the
result proper. -/
structure Spent (β : Type) where
  bought : UInt64
  returned : UInt64
  returned_le : returned ≤ bought
  result : Except Err β

namespace Spent

variable {β : Type}

/-- No gas was bought. -/
def refused (e : Err) : Spent β := ⟨0, 0, Nat.le_refl _, .error e⟩

/-- The gas was bought and is lost. -/
def lost (gas : UInt64) (e : Err) : Spent β := ⟨gas, 0, Nat.zero_le _, .error e⟩

/-- The gas pool after a transition. -/
def pool (s : Spent β) (gp : UInt64) : Option UInt64 := GasPool.addGas (gp - s.bought) s.returned

end Spent

/-- `buyGas`, returning its error. -/
def buyGas (msg : Message) (gp : UInt64) : Client W (Option Err) := do
  let mgval := msg.gas.toNat * msg.gasPrice
  let balance ← Client.getBalance msg.sender
  if balance < mgval then return some .insufficientBalanceForGas
  if (GasPool.subGas gp msg.gas).isNone then return some .gasLimitReached
  Client.subBalance msg.sender mgval
  return none

/-- `preCheck`. -/
def preCheck (msg : Message) (gp : UInt64) : Client W (Option Err) := do
  if msg.checkNonce then
    let nonce ← Client.getNonce msg.sender
    if nonce < msg.nonce then return some .nonceTooHigh
    if nonce > msg.nonce then return some .nonceTooLow
  buyGas msg gp

/-- What `refundGas` gives back: the rest, and the refund counter up to half of the used gas. -/
def refundable (initialGas left refund : UInt64) : UInt64 :=
  left + if (initialGas - left) / 2 > refund then refund else (initialGas - left) / 2

theorem toNat_refundable_le {initialGas left : UInt64} (refund : UInt64) (h : left ≤ initialGas) :
    (refundable initialGas left refund).toNat ≤
      left.toNat + (initialGas.toNat - left.toNat) / 2 := by
  have hmin : (if (initialGas - left) / 2 > refund then refund else (initialGas - left) / 2) ≤
      (initialGas - left) / 2 := by
    split
    · exact UInt64.le_of_lt ‹_›
    · exact UInt64.le_refl _
  unfold refundable
  generalize (if (initialGas - left) / 2 > refund then refund else (initialGas - left) / 2) = m
    at hmin ⊢
  rw [UInt64.le_iff_toNat_le] at h hmin
  rw [UInt64.toNat_div, UInt64.toNat_sub_of_le _ _ h] at hmin
  rw [UInt64.toNat_add]
  have h2 : (2 : UInt64).toNat = 2 := rfl
  rw [h2] at hmin
  omega

theorem refundable_le {initialGas left : UInt64} (refund : UInt64) (h : left ≤ initialGas) :
    refundable initialGas left refund ≤ initialGas := by
  have hle := toNat_refundable_le refund h
  rw [UInt64.le_iff_toNat_le] at h ⊢
  omega

/-- `refundGas`, returning the gas that goes back to the pool. -/
def refundGas (msg : Message) (left : UInt64) (h : left ≤ msg.gas) :
    Client W { gas : UInt64 // gas ≤ msg.gas } := do
  let refund ← Client.getRefund
  let gas := refundable msg.gas left refund
  Client.addBalance msg.sender (gas.toNat * msg.gasPrice)
  return ⟨gas, refundable_le refund h⟩

/-- `ExecutionResult`. -/
structure ExecutionResult where
  usedGas : UInt64
  vmErr : Option Err

/-- The call or the creation a message asks for. -/
def execute (evm : EVM W) (ctx : EVMContext) (msg : Message) (gas : UInt64) :
    Client W (EVMResult gas) := do
  match msg.recipient with
  | none => evm.create ctx msg.sender msg.data gas msg.value
  | some addr =>
    let nonce ← Client.getNonce msg.sender
    Client.setNonce msg.sender (nonce + 1)
    evm.call ctx msg.sender addr msg.data gas msg.value

/-- The part of `TransitionDb` and of `StakingTransitionDb` that pays the intrinsic gas. -/
def useGas (gas : UInt64) (amount : Option UInt64) : Option { left : UInt64 // left ≤ gas } :=
  match amount with
  | none => none
  | some amount =>
    if h : amount ≤ gas then some ⟨gas - amount, UInt64.sub_le h⟩ else none

/-- `TransitionDb`. -/
def transitionDb (config : ChainConfig) (evm : EVM W) (ctx : EVMContext) (msg : Message)
    (gp : UInt64) : Client W (Spent ExecutionResult) := do
  match ← preCheck msg gp with
  | some e => return .refused e
  | none =>
    let homestead := config.isS3 ctx.epochNumber
    let istanbul := config.isIstanbul ctx.epochNumber
    match useGas msg.gas (intrinsicGas msg.data msg.recipient.isNone homestead istanbul false) with
    | none => return .lost msg.gas .outOfGas
    | some gas =>
      let r ← execute evm ctx msg gas
      -- the only error of the EVM that invalidates the transaction
      if r.vmErr = some .insufficientBalance then return .lost msg.gas .insufficientBalance
      let left ← refundGas msg r.left (UInt64.le_trans r.left_le gas.2)
      let usedGas := msg.gas - left
      if !config.isStaking ctx.epochNumber then
        Client.addBalance ctx.coinbase (usedGas.toNat * msg.gasPrice)
      return ⟨msg.gas, left, left.2, .ok ⟨usedGas, r.vmErr⟩⟩

/-- `StakingTransitionDb`.  An error of `verifyAndApply` is returned after the refund. -/
def stakingTransitionDb (config : ChainConfig) (staking : Staking W) (ctx : EVMContext)
    (msg : Message) (gp : UInt64) : Client W (Spent UInt64) := do
  match ← preCheck msg gp with
  | some e => return .refused e
  | none =>
    let homestead := config.isS3 ctx.epochNumber
    let istanbul := config.isIstanbul ctx.epochNumber
    match useGas msg.gas (intrinsicGas msg.data false homestead istanbul
      (msg.type = some .stakeCreateVal)) with
    | none => return .lost msg.gas .outOfGas
    | some gas =>
      let nonce ← Client.getNonce msg.sender
      Client.setNonce msg.sender (nonce + 1)
      match msg.type with
      | some .stakeCreateVal | some .stakeEditVal | some .delegate | some .undelegate
      | some .collectRewards =>
        match staking.decode (msg.type.getD .invalidTx) msg.data with
        | .error e => return .lost msg.gas e
        | .ok signer =>
          if msg.sender ≠ signer then return .lost msg.gas .invalidSigner
          let err ← staking.verifyAndApply ctx msg (msg.type.getD .invalidTx)
          let left ← refundGas msg gas gas.2
          return ⟨msg.gas, left, left.2, match err with
            | some e => .error e
            | none => .ok (msg.gas - left)⟩
      | _ => return .lost msg.gas .invalidStakingKind

end DyShard.Core
