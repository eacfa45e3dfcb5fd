import DyShard.Common
import Mathlib.Data.List.AList

/-!
# The FBFT log

Messages are logged under an identifier, verified or not, and queried by type, number and view.
-/

namespace DyShard.Consensus

open List

/-- `FBFTMessage`, as far as the log reads it; the type is the number of a protobuf enumeration. -/
structure LogMessage where
  messageType : UInt32
  viewID : ℕ
  blockNum : ℕ
  blockHash : Word
  senderPubkeys : List (List UInt8)
  senderPubkeyBitmap : List UInt8
  verified : Bool
  deriving DecidableEq

/-- `fbftMsgID`: type, view, hash and sender. -/
abbrev FbftMsgID := UInt32 × ℕ × Word × List UInt8

namespace LogMessage

/-- The 48 bytes of the sender that `id` copies. -/
def sender (m : LogMessage) : List UInt8 :=
  let bytes := match m.senderPubkeys with
    | [key] => key
    | _ => m.senderPubkeyBitmap
  (bytes ++ replicate 48 0).take 48

/-- The identifier a message is logged under. -/
def id (m : LogMessage) : FbftMsgID := (m.messageType, m.viewID, m.blockHash, m.sender)

end LogMessage

/-- The messages of an `FBFTLog`. -/
abbrev FBFTLog := AList fun _ : FbftMsgID => LogMessage

/-- The calls that change the messages. -/
inductive LogCall where
  | addVerifiedMessage (msg : LogMessage)
  | addNotVerifiedMessage (msg : LogMessage)
  | deleteMessagesLessThan (number : ℕ)

namespace FBFTLog

/-- One call of the log. -/
def call (log : FBFTLog) : LogCall → FBFTLog
  | .addVerifiedMessage msg => log.insert msg.id { msg with verified := true }
  | .addNotVerifiedMessage msg => log.insert msg.id { msg with verified := false }
  | .deleteMessagesLessThan number =>
    ⟨log.entries.filter fun e => number ≤ e.2.blockNum, log.nodupKeys.sublist filter_sublist⟩

/-- `GetMessagesByTypeSeqView`, for an order of the messages; `&&` binds tighter than `||`. -/
def getMessagesByTypeSeqView (messages : List LogMessage) (typ : UInt32) (blockNum viewID : ℕ) :
    List LogMessage :=
  messages.filter fun msg =>
    !(msg.messageType != typ || msg.blockNum != blockNum || msg.viewID != viewID && msg.verified)

/-- `FindMessageByMaxViewID`: the index of the last message that is not below the ones before. -/
def findMessageByMaxViewID (msgs : List LogMessage) : Option LogMessage :=
  msgs.foldl (fun best v => if (best.elim 0 (·.viewID)) ≤ v.viewID then some v else best) none

/-- The log after some calls. -/
def run (calls : List LogCall) : FBFTLog := calls.foldl call ∅

/-- The logged messages, in the order they are kept in. -/
def messages (log : FBFTLog) : List LogMessage := log.entries.map (·.2)

theorem id_of_mem_run (calls : List LogCall) : ∀ e ∈ (run calls).entries, e.2.id = e.1 := by
  refine foldlRecOn (motive := fun log : FBFTLog => ∀ e ∈ log.entries, e.2.id = e.1) calls call
    nofun fun log hlog c _ => ?_
  have hinsert : ∀ msg : LogMessage, ∀ e ∈ (log.insert msg.id msg).entries, e.2.id = e.1 := by
    intro msg e he
    rw [AList.entries_insert] at he
    rcases mem_cons.1 he with rfl | he
    · rfl
    · exact hlog e ((kerase_sublist _ _).subset he)
  cases c with
  | addVerifiedMessage msg => exact hinsert { msg with verified := true }
  | addNotVerifiedMessage msg => exact hinsert { msg with verified := false }
  | deleteMessagesLessThan number => exact fun e he => hlog e (mem_of_mem_filter he)

theorem nodup_messages (calls : List LogCall) : (run calls).messages.Nodup := by
  refine .of_map LogMessage.id ?_
  have hkeys : (run calls).messages.map LogMessage.id = (run calls).keys := by
    rw [messages, map_map]
    exact map_congr_left (id_of_mem_run calls)
  exact hkeys ▸ (run calls).nodupKeys

theorem findMessageByMaxViewID_eq {msgs : List LogMessage} (h : msgs ≠ []) :
    ∃ m ∈ msgs, findMessageByMaxViewID msgs = some m ∧ ∀ m' ∈ msgs, m'.viewID ≤ m.viewID := by
  induction msgs using reverseRecOn with
  | nil => exact absurd rfl h
  | append_singleton msgs v ih =>
    unfold findMessageByMaxViewID at ih ⊢
    rw [foldl_append]
    by_cases hnil : msgs = []
    · simp [hnil]
    · obtain ⟨m, hm, hfind, hmax⟩ := ih hnil
      rw [hfind]
      by_cases hle : m.viewID ≤ v.viewID
      · refine ⟨v, by simp, by simp [hle], forall_mem_append.2 ⟨fun m' hm' => ?_, by simp⟩⟩
        exact (hmax m' hm').trans hle
      · exact ⟨m, by simp [hm], by simp [hle],
          forall_mem_append.2 ⟨hmax, by simpa using (not_le.1 hle).le⟩⟩

/-- **The query returns exactly the verified matches** if all logged ones are verified. -/
theorem getMessagesByTypeSeqView_iff (calls : List LogCall) (typ : UInt32) (blockNum viewID : ℕ) :
    (∀ order, order.Perm (run calls).messages →
      let found := getMessagesByTypeSeqView order typ blockNum viewID
      found.Nodup ∧
      (∀ m, m ∈ found ↔ m ∈ (run calls).messages ∧ m.verified = true ∧ m.messageType = typ ∧
        m.blockNum = blockNum ∧ m.viewID = viewID) ∧
      (found ≠ [] → ∃ m ∈ found, findMessageByMaxViewID found = some m ∧
        ∀ m' ∈ found, m'.viewID ≤ m.viewID)) ↔
    ∀ m ∈ (run calls).messages, m.messageType = typ → m.blockNum = blockNum → m.verified := by
  constructor
  · intro h m hm htype hnum
    obtain ⟨-, hfound, -⟩ := h _ (.refl _)
    by_contra hno
    have hmem : m ∈ getMessagesByTypeSeqView (run calls).messages typ blockNum viewID := by
      simp [getMessagesByTypeSeqView, hm, htype, hnum, Bool.eq_false_iff.2 hno]
    exact hno ((hfound m).1 hmem).2.1
  · intro h order hperm found
    refine ⟨(hperm.nodup_iff.2 (nodup_messages calls)).filter _, fun m => ?_,
      findMessageByMaxViewID_eq⟩
    have hverified := h m
    simp only [found, getMessagesByTypeSeqView, mem_filter, hperm.mem_iff]
    grind

/-- **An unverified message of another view is found.** -/
theorem getMessagesByTypeSeqView_unverified :
    getMessagesByTypeSeqView
      (run [.addNotVerifiedMessage ⟨0, 7, 1, 0, [], [], true⟩]).messages 0 1 3 =
      [⟨0, 7, 1, 0, [], [], false⟩] := by
  decide

end FBFTLog

end DyShard.Consensus
