import DyShard.Lib.Rlp

/-!
# Shared vocabulary

Addresses, hashes and shard numbers as the source has them.  Where nothing depends on its bytes, an
RLP encoding is identified with the `Rlp.Item`: a struct is the list of its *exported* fields.
-/

namespace DyShard

/-- `common.Address`: twenty bytes. -/
abbrev Address := BitVec 160

/-- `common.Hash`, as it is used for storage keys, storage values and transaction hashes. -/
abbrev Word := BitVec 256

instance : LawfulBEq Address := inferInstance

instance : LawfulBEq Word := inferInstance

instance neZero_two : NeZero 2 := ⟨by decide⟩

/-- A shard number (`uint32`). -/
abbrev ShardID := UInt32

/-- `shard.IniShardID`: the target shard of an address that was never mapped. -/
def iniShardID : ShardID := 5001

/-- `shard.BeaconChainShardID`. -/
def beaconChainShardID : ShardID := 0

end DyShard
