import DyShard.Atomic.Transaction
import DyShard.Lib.Codec

/-!
# The state on the wire

A source follower sends the state of the frozen account as the RLP encoding of a `StateData`, which
the followers of the commit phase decode.
-/

namespace DyShard.Atomic

open Codec

/-- `stateProof`: root hash and proof are never set, and written as the zero hash and nil. -/
def stateProofCodec : Codec UInt64 Rlp.Item :=
  (record (field uint64 (field
    (blank (.str (List.replicate 32 0)) fun | .str bs => bs.length == 32 | .list _ => false)
    (field (blank (.list []) fun _ => true) nil)))).conv (fun h => (h, (), (), ())) Prod.fst

/-- `StateData`: the record of the account and the record of its proof. -/
def stateDataCodec : Codec StateData Rlp.Item :=
  (record (field
      (record (field (fixed 20) (field bigInt (field uint64 (field bytes nil)))))
      (field stateProofCodec nil))).conv
    (fun d => ((d.address, d.balance, d.nonce, d.data, ()), d.blockHeight, ()))
    (fun x => ⟨x.1.1, x.1.2.1, x.1.2.2.1, x.1.2.2.2.1, x.2.1⟩)

/-- `rlpState, _ := rlp.EncodeToBytes(stateData)`: the error is dropped. -/
def encodeState (d : StateData) : List UInt8 := (stateDataCodec.serial.encode d).getD []

/-- `rlp.DecodeBytes(MsgPayload, &deState)`. -/
def decodeState (bs : List UInt8) : Option StateData := stateDataCodec.serial.decode bs

instance : Exact stateProofCodec := by
  have hroot : Exact (blank (.str (List.replicate 32 0))
      fun | .str bs => bs.length == 32 | .list _ => false) := exact_blank rfl
  have hproof : Exact (blank (.list []) fun _ => true) := exact_blank rfl
  exact exact_conv fun _ => rfl

theorem keeps_stateDataCodec {d : StateData} :
    stateDataCodec.Keeps d ↔ d.balance.isSome = true := by
  rw [stateDataCodec, keeps_conv (fun _ => rfl) (fun _ => rfl), keeps_record, keeps_field,
    keeps_record, keeps_field, keeps_field, keeps_bigInt]
  simp only [keeps_iff_true, and_true, true_and]

theorem decodeState_encodeState {d : StateData} (hbalance : d.balance.isSome = true)
    (hsent : encodeState d ≠ []) : decodeState (encodeState d) = some d := by
  cases he : stateDataCodec.serial.encode d with
  | none => simp [encodeState, he] at hsent
  | some bs =>
    have hd : encodeState d = bs := by simp [encodeState, he]
    rw [hd]
    exact (lossless_iff _ d).2 (.inr (keeps_serial.2 (keeps_stateDataCodec.2 hbalance))) bs he

end DyShard.Atomic
