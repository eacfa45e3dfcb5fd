import DyShard.Common
import DyShard.Lib.Codec

/-!
# Block headers and their encoding: `block`, `block/v0` to `block/v3`

A header is written as the record of its fields: bare in version 0, and in an envelope with the tag
of its version otherwise (`HeaderRegistry`).
-/

namespace DyShard.Wire

open Codec Rlp

/-! ## The fields -/

/-- The fields that all versions of `headerFields` have. -/
structure HeaderFields where
  parentHash : Word
  coinbase : Address
  root : Word
  txHash : Word
  receiptHash : Word
  bloom : BitVec 2048
  number : ℤ
  gasLimit : UInt64
  gasUsed : UInt64
  time : ℤ
  extra : List UInt8
  mixDigest : Word
  viewID : ℤ
  epoch : ℤ
  shardID : ShardID
  lastCommitSignature : BitVec 768
  lastCommitBitmap : List UInt8
  shardState : List UInt8
  loadMapRoot : Word
  stateTransferTxHash : Word
  deriving DecidableEq

/-- `v0.headerFields`. -/
structure HeaderV0 extends HeaderFields where
  shardStateHash : Word
  deriving DecidableEq

/-- `v1.headerFields`. -/
structure HeaderV1 extends HeaderFields where
  outgoingReceiptHash : Word
  incomingReceiptHash : Word
  shardStateHash : Word
  vrf : List UInt8
  vdf : List UInt8
  deriving DecidableEq

/-- `v2.headerFields`. -/
structure HeaderV2 extends HeaderV1 where
  crossLinks : List UInt8
  deriving DecidableEq

/-- `v3.headerFields`. -/
structure HeaderV3 extends HeaderFields where
  outgoingReceiptHash : Word
  incomingReceiptHash : Word
  vrf : List UInt8
  vdf : List UInt8
  crossLinks : List UInt8
  slashes : List UInt8
  deriving DecidableEq

/-- `block.Header`. -/
inductive Header where
  | v0 (h : HeaderV0)
  | v1 (h : HeaderV1)
  | v2 (h : HeaderV2)
  | v3 (h : HeaderV3)
  deriving DecidableEq

/-- The fields that all versions have. -/
def Header.fields : Header → HeaderFields
  | .v0 h => h.toHeaderFields
  | .v1 h => h.toHeaderFields
  | .v2 h => h.toHeaderFields
  | .v3 h => h.toHeaderFields

/-! ## The records -/

/-- A `common.Hash`. -/
def hash : Codec Word Item := fixed 32

/-- A `common.Address`. -/
def address : Codec Address Item := fixed 20

/-- A `types.Bloom`. -/
def bloom : Codec (BitVec 2048) Item := fixed 256

/-- A signature of 96 bytes. -/
def signature : Codec (BitVec 768) Item := fixed 96

instance : Exact hash := ⟨fun _ => rfl⟩

instance : Exact address := ⟨fun _ => rfl⟩

instance : Exact bloom := ⟨fun _ => rfl⟩

instance : Exact signature := ⟨fun _ => rfl⟩

/-- The record of `v0.headerFields`. -/
def headerV0Codec : Codec HeaderV0 Item :=
  (record (field hash <| field address <| field hash <| field hash <| field hash <| field bloom <|
    field int <| field uint64 <| field uint64 <| field int <| field bytes <| field hash <|
    field int <| field int <| field uint32 <| field signature <| field bytes <| field hash <|
    field bytes <| field hash <| field hash nil)).conv
  (fun h => (h.parentHash, h.coinbase, h.root, h.txHash, h.receiptHash, h.bloom, h.number,
    h.gasLimit, h.gasUsed, h.time, h.extra, h.mixDigest, h.viewID, h.epoch, h.shardID,
    h.lastCommitSignature, h.lastCommitBitmap, h.shardStateHash, h.shardState, h.loadMapRoot,
    h.stateTransferTxHash, ()))
  (fun (parentHash, coinbase, root, txHash, receiptHash, bloom, number, gasLimit, gasUsed, time,
    extra, mixDigest, viewID, epoch, shardID, lastCommitSignature, lastCommitBitmap,
    shardStateHash, shardState, loadMapRoot, stateTransferTxHash, ()) =>
    { parentHash, coinbase, root, txHash, receiptHash, bloom, number, gasLimit, gasUsed, time,
      extra, mixDigest, viewID, epoch, shardID, lastCommitSignature, lastCommitBitmap,
      shardStateHash, shardState, loadMapRoot, stateTransferTxHash })

/-- The record of `v1.headerFields`. -/
def headerV1Codec : Codec HeaderV1 Item :=
  (record (field hash <| field address <| field hash <| field hash <| field hash <| field hash <|
    field hash <| field bloom <| field int <| field uint64 <| field uint64 <| field int <|
    field bytes <| field hash <| field int <| field int <| field uint32 <| field signature <|
    field bytes <| field hash <| field bytes <| field bytes <| field bytes <| field hash <|
    field hash nil)).conv
  (fun h => (h.parentHash, h.coinbase, h.root, h.txHash, h.receiptHash, h.outgoingReceiptHash,
    h.incomingReceiptHash, h.bloom, h.number, h.gasLimit, h.gasUsed, h.time, h.extra,
    h.mixDigest, h.viewID, h.epoch, h.shardID, h.lastCommitSignature, h.lastCommitBitmap,
    h.shardStateHash, h.vrf, h.vdf, h.shardState, h.loadMapRoot, h.stateTransferTxHash, ()))
  (fun (parentHash, coinbase, root, txHash, receiptHash, outgoingReceiptHash,
    incomingReceiptHash, bloom, number, gasLimit, gasUsed, time, extra, mixDigest, viewID, epoch,
    shardID, lastCommitSignature, lastCommitBitmap, shardStateHash, vrf, vdf, shardState,
    loadMapRoot, stateTransferTxHash, ()) =>
    { parentHash, coinbase, root, txHash, receiptHash, outgoingReceiptHash, incomingReceiptHash,
      bloom, number, gasLimit, gasUsed, time, extra, mixDigest, viewID, epoch, shardID,
      lastCommitSignature, lastCommitBitmap, shardStateHash, vrf, vdf, shardState, loadMapRoot,
      stateTransferTxHash })

/-- The record of `v2.headerFields`. -/
def headerV2Codec : Codec HeaderV2 Item :=
  (record (field hash <| field address <| field hash <| field hash <| field hash <| field hash <|
    field hash <| field bloom <| field int <| field uint64 <| field uint64 <| field int <|
    field bytes <| field hash <| field int <| field int <| field uint32 <| field signature <|
    field bytes <| field hash <| field bytes <| field bytes <| field bytes <| field bytes <|
    field hash <| field hash nil)).conv
  (fun h => (h.parentHash, h.coinbase, h.root, h.txHash, h.receiptHash, h.outgoingReceiptHash,
    h.incomingReceiptHash, h.bloom, h.number, h.gasLimit, h.gasUsed, h.time, h.extra,
    h.mixDigest, h.viewID, h.epoch, h.shardID, h.lastCommitSignature, h.lastCommitBitmap,
    h.shardStateHash, h.vrf, h.vdf, h.shardState, h.crossLinks, h.loadMapRoot,
    h.stateTransferTxHash, ()))
  (fun (parentHash, coinbase, root, txHash, receiptHash, outgoingReceiptHash,
    incomingReceiptHash, bloom, number, gasLimit, gasUsed, time, extra, mixDigest, viewID, epoch,
    shardID, lastCommitSignature, lastCommitBitmap, shardStateHash, vrf, vdf, shardState,
    crossLinks, loadMapRoot, stateTransferTxHash, ()) =>
    { parentHash, coinbase, root, txHash, receiptHash, outgoingReceiptHash, incomingReceiptHash,
      bloom, number, gasLimit, gasUsed, time, extra, mixDigest, viewID, epoch, shardID,
      lastCommitSignature, lastCommitBitmap, shardStateHash, vrf, vdf, shardState, crossLinks,
      loadMapRoot, stateTransferTxHash })

/-- The record of `v3.headerFields`. -/
def headerV3Codec : Codec HeaderV3 Item :=
  (record (field hash <| field address <| field hash <| field hash <| field hash <| field hash <|
    field hash <| field bloom <| field int <| field uint64 <| field uint64 <| field int <|
    field bytes <| field hash <| field int <| field int <| field uint32 <| field signature <|
    field bytes <| field bytes <| field bytes <| field bytes <| field bytes <| field bytes <|
    field hash <| field hash nil)).conv
  (fun h => (h.parentHash, h.coinbase, h.root, h.txHash, h.receiptHash, h.outgoingReceiptHash,
    h.incomingReceiptHash, h.bloom, h.number, h.gasLimit, h.gasUsed, h.time, h.extra,
    h.mixDigest, h.viewID, h.epoch, h.shardID, h.lastCommitSignature, h.lastCommitBitmap,
    h.vrf, h.vdf, h.shardState, h.crossLinks, h.slashes, h.loadMapRoot, h.stateTransferTxHash,
    ()))
  (fun (parentHash, coinbase, root, txHash, receiptHash, outgoingReceiptHash,
    incomingReceiptHash, bloom, number, gasLimit, gasUsed, time, extra, mixDigest, viewID, epoch,
    shardID, lastCommitSignature, lastCommitBitmap, vrf, vdf, shardState, crossLinks, slashes,
    loadMapRoot, stateTransferTxHash, ()) =>
    { parentHash, coinbase, root, txHash, receiptHash, outgoingReceiptHash, incomingReceiptHash,
      bloom, number, gasLimit, gasUsed, time, extra, mixDigest, viewID, epoch, shardID,
      lastCommitSignature, lastCommitBitmap, vrf, vdf, shardState, crossLinks, slashes,
      loadMapRoot, stateTransferTxHash })

instance : Exact headerV0Codec := exact_conv fun _ => rfl

instance : Exact headerV1Codec := exact_conv fun _ => rfl

instance : Exact headerV2Codec := exact_conv fun _ => rfl

instance : Exact headerV3Codec := exact_conv fun _ => rfl

/-! ## The registry -/

/-- The bytes of a text. -/
def ascii (t : String) : List UInt8 := t.toList.map fun c => UInt8.ofNat c.toNat

/-- The signature of a `taggedrlp` envelope. -/
def envelopeSig : List UInt8 := ascii "HmnyTgd"

theorem open_of_encode_headerV0 (h : HeaderV0) (w : Item)
    (hw : headerV0Codec.encode h = some w) : openEnvelope envelopeSig w = none := by
  obtain ⟨xs₀, h₀, rfl⟩ := list_of_encode hw
  obtain ⟨x₁, xs₁, -, h₁, rfl⟩ := cons_of_encode h₀
  obtain ⟨x₂, xs₂, -, h₂, rfl⟩ := cons_of_encode h₁
  obtain ⟨x₃, xs₃, -, h₃, rfl⟩ := cons_of_encode h₂
  obtain ⟨x₄, xs₄, -, h₄, rfl⟩ := cons_of_encode h₃
  exact open_of_long (by simp)

/-- The types that `HeaderRegistry` registers with a tag. -/
def headerTags : Codec (HeaderV1 ⊕ HeaderV2 ⊕ HeaderV3) (List UInt8 × Item) :=
  register (ascii "v1") headerV1Codec
    (register (ascii "v2") headerV2Codec (headerV3Codec.tagged (ascii "v3"))
      fun _ _ hw => by rw [tag_of_encode hw]; decide)
    (tag_of_register (by decide) fun _ _ hw => by rw [tag_of_encode hw]; decide)

/-- `Header.EncodeRLP` and `Header.DecodeRLP`: the `HeaderRegistry`. -/
def headerCodec : Codec Header Item :=
  (registry envelopeSig headerV0Codec headerTags open_of_encode_headerV0).conv
    (fun
      | .v0 h => .inr h
      | .v1 h => .inl (.inl h)
      | .v2 h => .inl (.inr (.inl h))
      | .v3 h => .inl (.inr (.inr h)))
    (fun
      | .inr h => .v0 h
      | .inl (.inl h) => .v1 h
      | .inl (.inr (.inl h)) => .v2 h
      | .inl (.inr (.inr h)) => .v3 h)

instance : Exact headerTags := by
  unfold headerTags
  infer_instance

/-- **Headers lose nothing.** -/
instance : Exact headerCodec := exact_conv fun h => by cases h <;> rfl

theorem list_of_encode_header {h : Header} {w : Item} (hw : headerCodec.encode h = some w) :
    ∃ xs, w = .list xs := by
  cases h with
  | v0 h =>
    obtain ⟨xs, -, hxs⟩ := list_of_encode hw
    exact ⟨xs, hxs⟩
  | v1 h | v2 h | v3 h => exact (open_of_encode hw).2

end DyShard.Wire
