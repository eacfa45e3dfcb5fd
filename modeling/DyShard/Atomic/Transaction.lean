import DyShard.Common

/-!
# State-transfer transactions: `atomic/types`

`ToFreeze` tells the freeze of the propose phase from the commit that carries the frozen state.

Left out: the cached hash and size, which the modelled functions do not read.
-/

namespace DyShard.Atomic

/-- `StateTransferTransaction`, that is its `txdata`. -/
structure StateTransferTransaction where
  sourceShardID : ShardID
  targetShardID : ShardID
  sourceHeight : UInt64
  address : Address
  balance : Option ℤ
  nonce : UInt64
  data : List UInt8
  toFreeze : Bool
  index : UInt64
  deriving DecidableEq

/-- The state of the migrated account, `StateData` without the proof that nothing
checks. -/
structure StateData where
  address : Address
  balance : Option ℤ
  nonce : UInt64
  data : List UInt8
  blockHeight : UInt64
  deriving DecidableEq

/-- The zero `StateData`, what a failed decoding leaves behind. -/
def StateData.zero : StateData where
  address := 0
  balance := none
  nonce := 0
  data := []
  blockHeight := 0

namespace StateTransferTransaction

/-- `Copy`: every field but the balance. -/
def copy (tx : StateTransferTransaction) : StateTransferTransaction := { tx with balance := none }

/-- `SetToFreeze`. -/
def setToFreeze (tx : StateTransferTransaction) (toFreeze : Bool) : StateTransferTransaction :=
  { tx with toFreeze }

end StateTransferTransaction

/-- `common.BytesToAddress`: the last twenty bytes. -/
def bytesToAddress (bytes : List UInt8) : Address :=
  bytes.foldl (fun a b => a <<< 8 ||| b.toBitVec.setWidth 160) 0

end DyShard.Atomic
