import DyShard.Atomic.CoordinatorInvariant
import DyShard.Atomic.FollowerReads
import DyShard.Atomic.Payload

/-!
# Migrations: coordinators and followers together

Any number of transfers run at the same time, and a follower takes part in all of them.  The
coordinator's model says in advance what each call returns (`Followers`); a call returns only when
the handler has answered just that, so letting the forecast be arbitrary covers all behaviours.
-/

namespace DyShard.Atomic.Migration

open Follower (Handler Reads Built)

open Transition Function Option List Coordinator

/-! ## The system -/

/-- The transfers, the nodes, and the followers that each transfer has selected. -/
structure Deployment (T N : Type) where
  req : T → TransferRequest
  count : T → ℕ
  follower : (i : T) → Fin (count i) → N
  shard : N → ShardID
  answers : (i : T) → Followers (count i)
  selected : ∀ i f, shard (follower i f) = (req i).source ∨ shard (follower i f) = (req i).target

/-- The nodes, the transfers, and the handlers that serve the calls in flight. -/
structure System {T N : Type} (D : Deployment T N) where
  nodes : N → Follower.Node
  transfers : (i : T) → State (D.count i)
  proposing : (i : T) → Fin (D.count i) → Option ℕ
  committing : (i : T) → Fin (D.count i) → Option ℕ

/-- What can happen. -/
inductive Move {T N : Type} (D : Deployment T N) where
  /-- A node moves on its own. -/
  | node (v : N) (a : Follower.Action)
  /-- A transfer moves on its own. -/
  | transfer (i : T) (a : Action (D.count i))
  /-- The propose call reaches the follower. -/
  | propose (i : T) (f : Fin (D.count i)) (h : ℕ)
  /-- The propose call returns. -/
  | proposed (i : T) (f : Fin (D.count i))
  /-- The commit call reaches the follower. -/
  | commit (i : T) (f : Fin (D.count i)) (h : ℕ)
  /-- The commit call returns. -/
  | committed (i : T) (f : Fin (D.count i))

/-! ## The messages -/

/-- The propose request of a transfer. -/
def proposeRequest (req : TransferRequest) : Follower.ProposeRequest where
  source := req.source
  target := req.target
  index := req.index
  msgPayload := req.msgPayload

/-- The commit request as the follower decodes it. -/
def commitRequest (r : CommitRequest) : Follower.CommitRequest where
  source := r.source
  target := r.target
  address := r.address
  index := r.index
  msgPayload := decodeState r.msgPayload

/-- The acknowledgement on the side of the coordinator. -/
def ackType : Follower.AckType → AckType
  | .ack => .ack
  | .nack => .nack

/-- The payload of a propose response. -/
def payload : Option StateData → List UInt8
  | none => []
  | some d => encodeState d

/-- The call returns what the handler has answered, or fails. -/
def returnsPropose (p : Option Handler) : ProposeReply → Bool
  | .error _ => true
  | .answer acktype msgPayload =>
    match p with
    | some (.proposed res) => acktype = ackType res.acktype && msgPayload = payload res.msgPayload
    | _ => false

/-- The call returns what the handler has answered, or fails. -/
def returnsCommit (p : Option Handler) : CommitReply → Bool
  | .error _ => true
  | .answer acktype =>
    match p with
    | some (.committed res) => acktype = ackType res.acktype
    | _ => false

/-! ## The steps -/

section Step

variable {T N : Type} [DecidableEq T] [DecidableEq N] {D : Deployment T N}

namespace System

variable (s : System D)

/-- A node moves. -/
def setNode (v : N) (n : Follower.Node) : System D := { s with nodes := update s.nodes v n }

/-- A transfer moves. -/
def setTransfer (i : T) (c : State (D.count i)) : System D :=
  { s with transfers := update s.transfers i c }

/-- A handler serves the propose call, or none any more. -/
def setProposing (i : T) (f : Fin (D.count i)) (h : Option ℕ) : System D :=
  { s with proposing := update s.proposing i (update (s.proposing i) f h) }

/-- A handler serves the commit call, or none any more. -/
def setCommitting (i : T) (f : Fin (D.count i)) (h : Option ℕ) : System D :=
  { s with committing := update s.committing i (update (s.committing i) f h) }

/-- The goroutine waits for a call to return. -/
def waits (i : T) : Action (D.count i) → Bool
  | .main => false
  | .propose f => ((s.transfers i).propose f).pc = .await
  | .commit f => ((s.transfers i).commit f).pc = .await

/-- The transfer takes a step. -/
def stepTransfer (i : T) (a : Action (D.count i)) : Option (System D) :=
  ((s.transfers i).step (D.answers i) (D.req i) a).map (s.setTransfer i)

/-- One step of the system. -/
def step : Move D → Option (System D)
  | .node v a => if a.starts then none else (Follower.step (s.nodes v) a).map (s.setNode v)
  | .transfer i a => if s.waits i a then none else s.stepTransfer i a
  | .propose i f h =>
    let v := D.follower i f
    if s.waits i (.propose f) ∧ s.proposing i f = none then
      (Follower.step (s.nodes v) (.startPropose h (proposeRequest (D.req i)))).map fun n =>
        (s.setNode v n).setProposing i f (some h)
    else none
  | .proposed i f =>
    let p := (s.proposing i f).map (s.nodes (D.follower i f)).handlers
    let reply := (D.answers i).propose f ((s.transfers i).propose f).calls
    if s.waits i (.propose f) ∧ returnsPropose p reply then
      (s.stepTransfer i (.propose f)).map fun t => t.setProposing i f none
    else none
  | .commit i f h =>
    let v := D.follower i f
    match (s.transfers i).commitRequest with
    | some r =>
      if s.waits i (.commit f) ∧ s.committing i f = none then
        (Follower.step (s.nodes v) (.startCommit h (commitRequest r))).map fun n =>
          (s.setNode v n).setCommitting i f (some h)
      else none
    | none => none
  | .committed i f =>
    let p := (s.committing i f).map (s.nodes (D.follower i f)).handlers
    let reply := (D.answers i).commit f ((s.transfers i).commit f).calls
    if s.waits i (.commit f) ∧ returnsCommit p reply then
      (s.stepTransfer i (.commit f)).map fun t => t.setCommitting i f none
    else none

end System

/-- The start: every node on the chain it has, and no transfer begun. -/
def init (D : Deployment T N) (current : N → Follower.Block) (older : N → List Follower.Block)
    (cache : T → UInt64 → Option (List UInt8)) : System D where
  nodes v := Follower.init (D.shard v) (current v) (older v)
  transfers i := State.init (D.count i) (cache i)
  proposing _ _ := none
  committing _ _ := none

end Step

/-! ## The property and the condition -/

section Property

variable {T N : Type} {D : Deployment T N}

/-- Balance and nonce are those of the account after a block of the source shard with the freeze. -/
def FrozenState (s : System D) (i : T) (balance : Option ℤ) (nonce : UInt64) : Prop :=
  ∃ v b, D.shard v = (D.req i).source ∧ (s.nodes v).Freezes (D.req i).index b ∧
    balance = some (b.balance (bytesToAddress (D.req i).msgPayload)) ∧
    nonce = b.nonce (bytesToAddress (D.req i).msgPayload)

/-- Every commit in a pool has the data of its transfer, and the frozen state. -/
def MigratesFrozen (s : System D) : Prop :=
  ∀ v index tx, (s.nodes v).committed index = some tx → ∃ i,
    tx.index = index ∧ index = (D.req i).index ∧ tx.sourceShardID = (D.req i).source ∧
      tx.targetShardID = (D.req i).target ∧
      tx.address = bytesToAddress (D.req i).msgPayload ∧ FrozenState s i tx.balance tx.nonce

/-- No `reset` disturbs a handler that reads; proposals run side by side only on a source. -/
def careful (s : System D) : Move D → Prop
  | .node v a => Follower.undisturbed (s.nodes v) a
  | .propose i f h => Follower.uniform (s.nodes (D.follower i f))
      (.startPropose h (proposeRequest (D.req i)))
  | _ => True

end Property

/-! ## The invariant -/

section Invariant

variable {T N : Type} {D : Deployment T N} {s t : System D}

/-- A payload that a source may send for the transfer. -/
def Supplies (s : System D) (i : T) (msgPayload : List UInt8) : Prop :=
  ∃ d, decodeState msgPayload = some d ∧ FrozenState s i d.balance d.nonce

/-- A commit request of a transfer with the frozen state. -/
def Honest (s : System D) (r : Follower.CommitRequest) : Prop :=
  ∃ i d, r.source = (D.req i).source ∧ r.target = (D.req i).target ∧
    r.address = (D.req i).msgPayload ∧ r.index = (D.req i).index ∧ r.msgPayload = some d ∧
    FrozenState s i d.balance d.nonce

/-- **What carries the state from the frozen account to the commit.** -/
structure Carries (cache : T → UInt64 → Option (List UInt8)) (s : System D) : Prop where
  roles : ∀ v, Follower.Roles (D.shard v) (s.nodes v)
  reads : ∀ v, Reads (s.nodes v)
  /-- The handler of a propose call serves the transfer's request. -/
  serves : ∀ i f h, s.proposing i f = some h →
    Follower.Serves (s.nodes (D.follower i f)) h (proposeRequest (D.req i))
  /-- Each transfer runs as the coordinator's model has it. -/
  runs : ∀ i, Reach (State.step (D.answers i) (D.req i)) anyStep
    (State.init (D.count i) (cache i)) (s.transfers i)
  /-- The answers that have come back with a payload carry the frozen state. -/
  answered : ∀ i f m p, m < ((s.transfers i).propose f).calls →
    (D.answers i).propose f m = .answer .ack p → p ≠ [] → Supplies s i p
  request : ∀ i r, (s.transfers i).commitRequest = some r → Honest s (commitRequest r)
  built : ∀ v, Built (Honest s) (s.nodes v)

/-- The chains of the nodes only grow. -/
def Extends (s t : System D) : Prop := ∀ v, ∀ b ∈ (s.nodes v).chain, b ∈ (t.nodes v).chain

theorem FrozenState.mono (h : Extends s t) {i : T} {balance : Option ℤ}
    {nonce : UInt64} (hf : FrozenState s i balance nonce) : FrozenState t i balance nonce := by
  obtain ⟨v, b, hv, hb, hread⟩ := hf
  exact ⟨v, b, hv, hb.mono (h v), hread⟩

theorem Supplies.mono (h : Extends s t) {i : T} {p : List UInt8}
    (hs : Supplies s i p) : Supplies t i p := by
  obtain ⟨d, hd, hf⟩ := hs
  exact ⟨d, hd, hf.mono h⟩

theorem Honest.mono (h : Extends s t) {r : Follower.CommitRequest}
    (hr : Honest s r) : Honest t r := by
  obtain ⟨i, d, hsource, htarget, haddress, hindex, hd, hf⟩ := hr
  exact ⟨i, d, hsource, htarget, haddress, hindex, hd, hf.mono h⟩

namespace Carries

variable {cache : T → UInt64 → Option (List UInt8)} {s t : System D}

/-- **The commits carry the frozen state.** -/
theorem migratesFrozen (h : Carries cache s) : MigratesFrozen s := by
  intro v index tx htx
  obtain ⟨r, ⟨i, d, hsource, htarget, haddress, hindex, hd, hf⟩, rfl, rfl⟩ :=
    (h.built v).committed index tx htx
  refine ⟨i, rfl, hindex, hsource, htarget, ?_, ?_⟩
  · show bytesToAddress r.address = _
    rw [haddress]
  · simpa [Follower.CommitRequest.transaction, hd] using hf

end Carries

end Invariant

/-! ## The coordinator's side -/

section Coordinator

open Coordinator

variable {n : ℕ} {F : Followers n} {req : TransferRequest} {s s' : State n}

theorem calls_of_step {a : Action n} (hs : State.step F req s a = some s') {f : Fin n} {m : ℕ}
    (hm : m < (s'.propose f).calls) :
    m < (s.propose f).calls ∨
      a = .propose f ∧ (s.propose f).pc = .await ∧ m = (s.propose f).calls := by
  cases a with
  | main => exact .inl (((stepMain_frame hs).1 f).2 ▸ hm)
  | commit f' =>
    left
    simp only [State.step] at hs
    split at hs
    · cases hs
    · rcases stepCommit_cases hs with rfl | ⟨g, hmove, -⟩
      · exact hm
      · rwa [hmove.propose] at hm
  | propose f' =>
    simp only [State.step] at hs
    split at hs
    · cases hs
    · obtain ⟨-, g, hg, hcalls⟩ := stepPropose_frame hs
      rw [hg] at hm
      by_cases hf : f = f'
      · subst hf
        rw [update_self] at hm
        rcases hcalls with hcalls | ⟨hpc, hcalls⟩
        · exact .inl (hcalls ▸ hm)
        · by_cases hlt : m < (s.propose f).calls
          · exact .inl hlt
          · exact .inr ⟨rfl, hpc, by omega⟩
      · rw [update_of_ne hf] at hm
        exact .inl hm

theorem request_of_step {a : Action n} (hs : State.step F req s a = some s') :
    s'.commitRequest = s.commitRequest ∨ s'.main = .spawn1 0 := by
  cases a with
  | main => exact (stepMain_frame hs).2
  | commit f' =>
    left
    simp only [State.step] at hs
    split at hs
    · cases hs
    · rcases stepCommit_cases hs with rfl | ⟨g, hmove, -⟩
      · rfl
      · exact hmove.request
  | propose f' =>
    simp only [State.step] at hs
    split at hs
    · cases hs
    · exact .inl (stepPropose_frame hs).1.request

theorem request_of_inv (h : Inv F req s) {r : CommitRequest} (hr : s.commitRequest = some r) :
    ∃ f m p, m < (s.propose f).calls ∧ F.propose f m = .answer .ack p ∧ p ≠ [] ∧
      r = { source := req.source, target := req.target, index := req.index,
            address := req.msgPayload, msgPayload := p } := by
  rw [h.commit.request] at hr
  split at hr
  case isFalse => cases hr
  case isTrue =>
    obtain ⟨res, hfind, rfl⟩ := map_eq_some_iff.1 hr
    have hlength : 0 < res.msgPayload.length := by simpa using find?_some hfind
    obtain ⟨f, m, p, hreply, hcalls, rfl⟩ := h.propose.res_ack (mem_of_find?_eq_some hfind)
    exact ⟨f, m, p, by omega, hreply, ne_nil_of_length_pos hlength, rfl⟩

end Coordinator

/-! ## Steps and runs -/

section Run

variable {T N : Type} {D : Deployment T N}
  {cache : T → UInt64 → Option (List UInt8)} {s t : System D}

theorem supplies_of_returns {i : T} {f : Fin (D.count i)} {p : List UInt8} (h : Carries cache s)
    (hreturns : returnsPropose ((s.proposing i f).map (s.nodes (D.follower i f)).handlers)
      (.answer .ack p)) (hp : p ≠ []) : Supplies s i p := by
  cases hproposing : s.proposing i f with
  | none => simp [hproposing, returnsPropose] at hreturns
  | some j =>
    rcases h.serves i f j hproposing with ⟨pc, hpc⟩ | ⟨res, hres, hfaithful⟩
    · simp [hproposing, hpc, returnsPropose] at hreturns
    · obtain ⟨-, rfl⟩ : _ ∧ p = payload res.msgPayload := by
        simpa [hproposing, hres, returnsPropose] using hreturns
      cases hd : res.msgPayload with
      | none => simp [hd, payload] at hp
      | some d =>
        obtain ⟨hrole, b, hb, hbalance, hnonce⟩ := hfaithful.msgPayload d hd
        rw [hd] at hp
        refine ⟨d, decodeState_encodeState (by rw [hbalance]; rfl) hp, D.follower i f, b, ?_, hb,
          hbalance, hnonce⟩
        refine (D.selected i f).resolve_right fun htarget => ?_
        rw [(h.roles _).shard, Follower.roleIn, if_pos] at hrole
        · cases hrole
        · exact htarget.symm

namespace Carries

section

variable (h : Carries cache s)
include h

theorem setNode [DecidableEq N] {v : N} {a : Follower.Action} {n : Follower.Node}
    (hok : Follower.undisturbed (s.nodes v) a) (hstep : Follower.step (s.nodes v) a = some n)
    (hstart : ∀ j r, a = .startCommit j r → Honest s r) : Carries cache (s.setNode v n) := by
  have hnode : ∀ P : N → Follower.Node → Prop, (∀ w, P w (s.nodes w)) → P v n →
      ∀ w, P w ((s.setNode v n).nodes w) := fun P hP hn =>
    (forall_update_iff s.nodes P).2 ⟨hn, fun w _ => hP w⟩
  have hext : Extends s (s.setNode v n) := hnode (fun w m => ∀ b ∈ (s.nodes w).chain, b ∈ m.chain)
    (fun _ _ hb => hb) fun _ => Follower.mem_chain_of_step hstep
  refine
    { roles := hnode (fun w => Follower.Roles (D.shard w)) h.roles
        ((h.roles v).step (Follower.uniform_of_undisturbed hok) hstep)
      reads := hnode (fun _ => Reads) h.reads ((h.reads v).step hok hstep)
      serves := fun i f j hj => ?_
      runs := h.runs
      answered := fun i f m p hm hreply hp => (h.answered i f m p hm hreply hp).mono hext
      request := fun i r hr => (h.request i r hr).mono hext
      built := hnode (fun _ => Built (Honest (s.setNode v n)))
        (fun w => (h.built w).mono fun _ => Honest.mono hext)
        (((h.built v).mono fun _ => Honest.mono hext).step hstep
          fun j r hr => (hstart j r hr).mono hext) }
  have hserves := h.serves i f j hj
  by_cases hw : D.follower i f = v
  · rw [← hw] at hstep ⊢
    simpa [System.setNode] using Follower.served_step (h.roles _) (h.reads _) hstep hserves
  · simpa [System.setNode, update_of_ne hw] using hserves

theorem setProposing [DecidableEq T] {i : T} {f : Fin (D.count i)} {o : Option ℕ}
    (ho : ∀ j ∈ o, Follower.Serves (s.nodes (D.follower i f)) j (proposeRequest (D.req i))) :
    Carries cache (s.setProposing i f o) where
  roles := h.roles
  reads := h.reads
  serves i' f' j hj := by
    by_cases hi : i' = i
    · subst hi
      by_cases hf : f' = f
      · subst hf
        exact ho j (by simpa [System.setProposing] using hj)
      · exact h.serves i' f' j (by simpa [System.setProposing, update_of_ne hf] using hj)
    · exact h.serves i' f' j (by simpa [System.setProposing, update_of_ne hi] using hj)
  runs := h.runs
  answered := h.answered
  request := h.request
  built := h.built

theorem setCommitting [DecidableEq T] (i : T) (f : Fin (D.count i)) (o : Option ℕ) :
    Carries cache (s.setCommitting i f o) :=
  ⟨h.roles, h.reads, h.serves, h.runs, h.answered, h.request, h.built⟩

theorem stepTransfer [DecidableEq T] {i : T} {a : Action (D.count i)}
    (hstep : s.stepTransfer i a = some t)
    (hreply : ∀ f p, a = .propose f → ((s.transfers i).propose f).pc = .await →
      (D.answers i).propose f ((s.transfers i).propose f).calls = .answer .ack p → p ≠ [] →
      Supplies s i p) : Carries cache t := by
  obtain ⟨c, hc, rfl⟩ := map_eq_some_iff.1 hstep
  have hruns : Reach (State.step (D.answers i) (D.req i)) anyStep
      (State.init (D.count i) (cache i)) c := (h.runs i).tail trivial hc
  have hanswered : ∀ f m p, m < (c.propose f).calls →
      (D.answers i).propose f m = .answer .ack p → p ≠ [] → Supplies s i p := by
    intro f m p hm hans hp
    rcases calls_of_step hc hm with hlt | ⟨ha, hpc, rfl⟩
    · exact h.answered i f m p hlt hans hp
    · exact hreply f p ha hpc hans hp
  have hrequest : ∀ r, c.commitRequest = some r → Honest s (commitRequest r) := by
    intro r hr
    rcases request_of_step hc with hsame | hmain
    · exact h.request i r (hsame ▸ hr)
    · have hinv : Inv (D.answers i) (D.req i) c :=
        (reach_inv hruns).resolve_left (by rw [hmain]; nofun)
      obtain ⟨f, m, p, hm, hans, hp, rfl⟩ := request_of_inv hinv hr
      obtain ⟨d, hd, hfrozen⟩ := hanswered f m p hm hans hp
      exact ⟨i, d, rfl, rfl, rfl, rfl, hd, hfrozen⟩
  have hcase : ∀ P : (i' : T) → State (D.count i') → Prop,
      (∀ i', P i' (s.transfers i')) → P i c → ∀ i', P i' ((s.setTransfer i c).transfers i') :=
    fun P hP hPc => (forall_update_iff s.transfers P).2 ⟨hPc, fun i' _ => hP i'⟩
  exact
    { roles := h.roles
      reads := h.reads
      serves := h.serves
      runs := hcase _ h.runs hruns
      answered := hcase (fun i' c' => ∀ f m p, m < (c'.propose f).calls →
        (D.answers i').propose f m = .answer .ack p → p ≠ [] → Supplies s i' p)
        h.answered hanswered
      request := hcase (fun _ c' => ∀ r, c'.commitRequest = some r → Honest s (commitRequest r))
        h.request hrequest
      built := h.built }

/-- **One step of the system** keeps the chain of custody. -/
theorem step [DecidableEq T] [DecidableEq N] {a : Move D} (hok : careful s a)
    (hstep : s.step a = some t) : Carries cache t := by
  cases a with
  | node v a =>
    simp only [System.step] at hstep
    split at hstep
    case isTrue => cases hstep
    case isFalse hstarts =>
      obtain ⟨n, hn, rfl⟩ := map_eq_some_iff.1 hstep
      refine h.setNode hok hn ?_
      rintro j r rfl
      exact absurd rfl hstarts
  | transfer i a =>
    simp only [System.step] at hstep
    split at hstep
    case isTrue => cases hstep
    case isFalse hwaits =>
      refine h.stepTransfer hstep ?_
      rintro f p rfl hpc
      simp [System.waits, hpc] at hwaits
  | propose i f j =>
    simp only [System.step] at hstep
    split at hstep
    case isFalse => cases hstep
    case isTrue =>
      obtain ⟨n, hn, rfl⟩ := map_eq_some_iff.1 hstep
      have hok : Follower.undisturbed (s.nodes (D.follower i f))
          (.startPropose j (proposeRequest (D.req i))) := hok
      refine (h.setNode hok hn nofun).setProposing ?_
      rintro _ ⟨⟩
      obtain ⟨-, hn⟩ := Follower.actionStep_of_step hn
      cases hn with
      | startPropose hidle =>
        exact .inl ⟨_, by simp [System.setNode, Follower.Node.handlers_setHandler]; rfl⟩
  | proposed i f =>
    simp only [System.step] at hstep
    split at hstep
    case isFalse => cases hstep
    case isTrue hreturns =>
      obtain ⟨u, hu, rfl⟩ := map_eq_some_iff.1 hstep
      refine (h.stepTransfer hu ?_).setProposing nofun
      rintro f' p ⟨⟩ - hreply hp
      exact supplies_of_returns h (hreply ▸ hreturns.2) hp
  | commit i f j =>
    simp only [System.step] at hstep
    split at hstep
    case h_2 => cases hstep
    case h_1 r hr =>
      split at hstep
      case isFalse => cases hstep
      case isTrue =>
        obtain ⟨n, hn, rfl⟩ := map_eq_some_iff.1 hstep
        refine (h.setNode (a := .startCommit j (commitRequest r)) trivial hn ?_).setCommitting i f _
        rintro _ _ ⟨⟩
        exact h.request i r hr
  | committed i f =>
    simp only [System.step] at hstep
    split at hstep
    case isFalse => cases hstep
    case isTrue =>
      obtain ⟨u, hu, rfl⟩ := map_eq_some_iff.1 hstep
      exact (h.stepTransfer hu nofun).setCommitting i f none

end

end Carries

theorem carries_init (current : N → Follower.Block) (older : N → List Follower.Block) :
    Carries cache (init D current older cache) where
  roles _ := Follower.roles_init
  reads v := Follower.reads_init (D.shard v) (current v) (older v)
  serves _ _ _ hj := by cases hj
  runs _ := .refl
  answered _ _ _ _ hm := by simp [init, State.init] at hm
  request _ _ hr := by cases hr
  built v := Follower.built_init _ (D.shard v) (current v) (older v)

/-- **The migrated state is the frozen state**, if no `reset` disturbs a reading handler. -/
theorem migratesFrozen_of_reach [DecidableEq T] [DecidableEq N] {current : N → Follower.Block} {older : N → List Follower.Block}
    (hreach : Reach System.step careful (init D current older cache) s) : MigratesFrozen s :=
  (Reach.invariant (carries_init current older)
    (fun _ _ _ h hok hstep => h.step hok hstep) hreach).migratesFrozen

end Run

/-! ## A sample deployment -/

section Sample

open Follower

/-- The block with the freeze: the account has 5. -/
def frozenBlock : Block := { sampleBlock 1 [sampleTx true] with balance := fun _ => 5 }

/-- The block after it: the account has 7. -/
def laterBlock : Block := { sampleBlock 2 [] with balance := fun _ => 7 }

/-- One transfer from shard 0 to shard 1, with one follower in each. -/
def sampleDeployment (balance : ℤ) : Deployment Unit Bool where
  req _ := ⟨0, 0, 1, []⟩
  count _ := 2
  follower _ f := f = 1
  shard v := if v then 1 else 0
  answers _ :=
    { propose f _ := .answer .ack (if f = 1 then [] else encodeState ⟨0, some balance, 0, [], 0⟩)
      commit _ _ := .answer .ack }
  selected _ f := by revert f; decide

/-- The follower of the source shard. -/
def sourceCall (balance : ℤ) : Fin ((sampleDeployment balance).count ()) := (0 : Fin 2)

/-- The follower of the target shard. -/
def targetCall (balance : ℤ) : Fin ((sampleDeployment balance).count ()) := (1 : Fin 2)

/-- The start of the sample deployment. -/
def sampleInit (balance : ℤ) : System (sampleDeployment balance) :=
  init (sampleDeployment balance) (fun _ => sampleBlock 0 []) (fun _ => []) fun _ _ => none

/-- The coordinator makes both propose calls. -/
def proposeMoves (balance : ℤ) : List (Move (sampleDeployment balance)) :=
  flatten [replicate 3 (.transfer () .main),
    [.transfer () (.propose (sourceCall balance)), .transfer () (.propose (targetCall balance))]]

/-- The handler waits, and `reset` is about to open the state of the block with the freeze. -/
def freezeMoves (balance : ℤ) (v : Bool) : List (Move (sampleDeployment balance)) :=
  flatten [replicate 7 (.node v (.handler 0)),
    [.node v (.insertBlock frozenBlock true), .node v .postChainEvents, .node v .loop,
      .node v .loop]]

/-- `reset` signals the handler and ends. -/
def signalMoves (balance : ℤ) (v : Bool) : List (Move (sampleDeployment balance)) :=
  [.node v .loop, .node v .loop, .node v (.receive 0), .node v .loop, .node v .loop]

/-- A whole `reset` of the source for the later block. -/
def laterMoves (balance : ℤ) : List (Move (sampleDeployment balance)) :=
  [.node false (.insertBlock laterBlock true), .node false .postChainEvents] ++
    replicate 5 (.node false .loop)

/-- The source reads and answers, the coordinator commits, the target builds the commit. -/
def commitMoves (balance : ℤ) : List (Move (sampleDeployment balance)) :=
  flatten [replicate 3 (.node false (.handler 0)),
    [.proposed () (sourceCall balance), .proposed () (targetCall balance)],
    replicate 5 (.transfer () (.propose (sourceCall balance))),
    replicate 5 (.transfer () (.propose (targetCall balance))),
    replicate 3 (.transfer () .main),
    replicate 2 (.transfer () (.commit (targetCall balance))),
    [.commit () (targetCall balance) 1], replicate 4 (.node true (.handler 1))]

/-- No call comes in, and no `reset` puts a state in place or reads the current block. -/
def quiet {T N : Type} {D : Deployment T N} (s : System D) : Move D → Bool
  | .propose _ _ _ | .node _ (.startPropose _ _) => false
  | .node v (.loop _) =>
    match (s.nodes v).loop with
    | .opening _ | .current _ => false
    | _ => true
  | _ => true

theorem careful_of_quiet {T N : Type} {D : Deployment T N} {s : System D} {a : Move D}
    (h : quiet s a = true) : careful s a := by
  cases a with
  | propose => cases h
  | node v a =>
    cases a with
    | loop opens =>
      cases hloop : (s.nodes v).loop with
      | opening ev | current ev => simp [quiet, hloop] at h
      | _ => simp [careful, Follower.undisturbed, hloop]
    | startPropose j req => cases h
    | _ => trivial
  | _ => trivial

/-- The sample deployment with both propose calls made. -/
def sampleProposing : System (sampleDeployment 5) :=
  replay (guarded System.step fun s a => quiet s a = true) (sampleInit 5) (proposeMoves 5)

/-- Both followers are about to open the state of the block with the freeze. -/
def sampleFrozen : System (sampleDeployment 5) :=
  replay (guarded System.step fun s a => quiet s a = true)
    (replay System.step sampleProposing
      [.propose () (sourceCall 5) 0, .propose () (targetCall 5) 0])
    (freezeMoves 5 false ++ freezeMoves 5 true)

/-- Both followers have opened the state, and read the block as the current one. -/
def sampleReset : System (sampleDeployment 5) :=
  replay System.step (replay System.step sampleFrozen [.node false .loop, .node true .loop])
    [.node false .loop, .node true .loop]

/-- The commit is in the pool of the target. -/
def sampleCommitted : System (sampleDeployment 5) :=
  replay (guarded System.step fun s a => quiet s a = true) sampleReset
    (signalMoves 5 false ++ signalMoves 5 true ++ commitMoves 5)

set_option maxRecDepth 4000 in
/-- In the sample run both conditions hold, and the commit has the balance 5. -/
theorem migratesFrozen_sample :
    Reach System.step careful (sampleInit 5) sampleCommitted ∧
      (sampleCommitted.nodes true).committed 0 = some ⟨0, 1, 0, 0, some 5, 0, [], false, 0⟩ ∧
      MigratesFrozen sampleCommitted := by
  have hquiet : ∀ (s : System (sampleDeployment 5)) as, Reach System.step careful s
      (replay (guarded System.step fun s a => quiet s a = true) s as) := fun s as =>
    (reach_replay s as).mono fun _ _ => careful_of_quiet
  have hproposing : Reach System.step careful (sampleInit 5) sampleProposing := hquiet _ _
  have hcalled : Reach System.step careful (sampleInit 5) (replay System.step sampleProposing
      [.propose () (sourceCall 5) 0, .propose () (targetCall 5) 0]) := by
    refine hproposing.replay_pair ?_ ?_
    · intro h req pc hh
      cases (rfl : (sampleProposing.nodes false).handlers h = .idle).symm.trans hh
    · intro h req pc hh
      cases (rfl : (sampleProposing.nodes true).handlers h = .idle).symm.trans hh
  have hfrozen : Reach System.step careful (sampleInit 5) sampleFrozen := hcalled.trans (hquiet _ _)
  have hload : ∀ v (s : System (sampleDeployment 5)), (s.nodes v).loop = .opening frozenBlock →
      (∀ h, ((s.nodes v).handlers h).reading = false) → careful s (.node v .loop) := by
    intro v s hloop hquiet
    simpa only [careful, Follower.undisturbed, hloop] using hquiet
  have hread : ∀ v (s : System (sampleDeployment 5)), (s.nodes v).loop = .current frozenBlock →
      (s.nodes v).chain.head? = some frozenBlock → careful s (.node v .loop) := by
    intro v s hloop hhead
    simpa only [careful, Follower.undisturbed, hloop] using hhead
  have hreset : Reach System.step careful (sampleInit 5) sampleReset := by
    refine (hfrozen.replay_pair ?_ ?_).replay_pair ?_ ?_
    · exact hload false _ rfl fun h => by cases h <;> rfl
    · exact hload true _ rfl fun h => by cases h <;> rfl
    · exact hread false _ rfl rfl
    · exact hread true _ rfl rfl
  have hreach : Reach System.step careful (sampleInit 5) sampleCommitted :=
    hreset.trans (hquiet _ _)
  exact ⟨hreach, by decide +kernel, migratesFrozen_of_reach hreach⟩

/-- **A later state is migrated**: before the handler reads, `reset` runs for `laterBlock`. -/
theorem migrated_later_state :
    ∃ s tx, Reach System.step anyStep (sampleInit 7) s ∧
      (s.nodes true).committed 0 = some tx ∧ tx.balance = some 7 ∧
      (∀ b ∈ (s.nodes false).chain,
        (∃ tx ∈ b.stateTransferTransactions, phaseOf tx = .freeze ∧ tx.index = 0) →
          b.balance tx.address = 5) ∧ ¬ MigratesFrozen s := by
  have hrun : (exec System.step (sampleInit 7) (flatten [proposeMoves 7,
      [.propose () (sourceCall 7) 0, .propose () (targetCall 7) 0],
      freezeMoves 7 false, freezeMoves 7 true,
      replicate 2 (.node false .loop), replicate 2 (.node true .loop),
      signalMoves 7 false, signalMoves 7 true,
      laterMoves 7, commitMoves 7])).map (fun s => ((s.nodes true).committed 0,
        decide (∀ b ∈ (s.nodes false).chain,
          (∃ tx ∈ b.stateTransferTransactions, phaseOf tx = .freeze ∧ tx.index = 0) →
            b.balance 0 = 5))) =
      some (some ⟨0, 1, 0, 0, some 7, 0, [], false, 0⟩, true) := by decide +kernel
  obtain ⟨s, hs, hcommitted, hfrozen⟩ := facts_of_map hrun
  have hfrozen := of_decide_eq_true hfrozen
  refine ⟨s, _, reach_of_exec hs, hcommitted, rfl, hfrozen, ?_⟩
  intro h
  obtain ⟨i, -, -, -, -, -, v, b, hv, ⟨hb, hfreeze⟩, hbalance, -⟩ := h true 0 _ hcommitted
  have hsource : v = false := by
    cases v with
    | false => rfl
    | true => cases hv
  subst hsource
  have hfive : b.balance 0 = 5 := hfrozen b hb hfreeze
  have hseven : some (7 : ℤ) = some (b.balance 0) := hbalance
  rw [hfive] at hseven
  cases hseven

end Sample

end DyShard.Atomic.Migration
