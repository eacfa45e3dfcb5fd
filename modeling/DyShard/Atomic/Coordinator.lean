import DyShard.Common
import DyShard.Lib.Transition
import Mathlib.Data.Finset.Card

/-!
# The coordinator: `ServerShard.StateTransfer`

The calling goroutine spawns a goroutine per selected follower for the propose phase, waits for
them on a `WaitGroup`, does the same for the commit phase and returns.  An `Action` names the
goroutine that moves, and `step` performs its next access to shared state: the commit goroutines
share `response` and `err`, so each of their reads and writes is a step.  A full channel blocks,
and a panic in any goroutine ends the process.

Left out: `ctx`, the commit type, the follower type and the log output.
-/

namespace DyShard.Atomic.Coordinator

open List Function

/-! ## Messages -/

/-- `c_pb.AckType`. -/
inductive AckType where
  | ack
  | nack
  deriving DecidableEq

/-- `c_pb.TransferRequest`. -/
structure TransferRequest where
  index : UInt64
  source : ShardID
  target : ShardID
  msgPayload : List UInt8

/-- `c_pb.ProposeResponse`. -/
structure ProposeResponse where
  acktype : AckType
  index : UInt64
  address : List UInt8
  msgPayload : List UInt8
  deriving DecidableEq

/-- `c_pb.CommitRequest`. -/
structure CommitRequest where
  source : ShardID
  target : ShardID
  index : UInt64
  address : List UInt8
  msgPayload : List UInt8
  deriving DecidableEq

/-- `c_pb.Response`; `StateTransfer` reads nothing but the type. -/
structure Response where
  acktype : AckType
  deriving DecidableEq

/-- A non-nil Go error. -/
abbrev Err := String

/-- How a call of `ProposeTwoPhase` ends. -/
inductive ProposeReply where
  | error (e : Err)
  | answer (acktype : AckType) (msgPayload : List UInt8)
  deriving DecidableEq

/-- The pair the call returns: an answer carries index and payload of its request. -/
def ProposeReply.results (req : TransferRequest) :
    ProposeReply → Option ProposeResponse × Option Err
  | .error e => (none, some e)
  | .answer acktype msgPayload =>
    (some { acktype, index := req.index, address := req.msgPayload, msgPayload }, none)

/-- How a call of `CommitTwoPhase` ends. -/
inductive CommitReply where
  | error (e : Err)
  | answer (acktype : AckType)
  deriving DecidableEq

/-- The pair the call returns. -/
def CommitReply.results : CommitReply → Option Response × Option Err
  | .error e => (none, some e)
  | .answer acktype => (some { acktype }, none)

/-- The behaviour of the selected followers: what the `k`-th call to each returns. -/
structure Followers (n : ℕ) where
  propose : Fin n → ℕ → ProposeReply
  commit : Fin n → ℕ → CommitReply

/-- Followers that acknowledge everything, each with a one-byte payload. -/
def willing (n : ℕ) : Followers n where
  propose _ _ := .answer .ack [1]
  commit _ _ := .answer .ack

/-- A message between the coordinator and a follower. -/
inductive Event (n : ℕ) where
  | proposeSent (f : Fin n)
  | proposeAnswered (f : Fin n) (reply : ProposeReply)
  | commitSent (f : Fin n) (request : CommitRequest)
  | commitAnswered (f : Fin n) (reply : CommitReply)
  deriving DecidableEq

/-! ## State -/

/-- Where a propose goroutine is. -/
inductive ProposePc where
  /-- Not spawned yet. -/
  | idle
  /-- At the condition of the retry loop. -/
  | loop
  /-- `ProposeTwoPhase` is in flight. -/
  | await
  | sendRes (responseP : ProposeResponse)
  | sendErr
  | setCache
  | wgDone
  | done
  /-- Returned without `wg.Done()`. -/
  | exited
  deriving DecidableEq

/-- A propose goroutine and its local variables. -/
structure ProposeGo where
  pc : ProposePc := .idle
  responseP : Option ProposeResponse := none
  err : Option Err := none
  maxAttemptNum : ℤ := 1
  /-- How many calls it has made. -/
  calls : ℕ := 0

/-- The condition of the retry loop. -/
def ProposeGo.again (g : ProposeGo) : Bool :=
  match g.responseP with
  | none => decide (0 < g.maxAttemptNum)
  | some r => decide (r.acktype = .nack)

/-- What follows the loop condition, the two checks after the loop included. -/
def ProposeGo.next (g : ProposeGo) : ProposePc :=
  if g.again then .await
  else match g.err, g.responseP with
    | none, some r => if r.acktype = .ack then .sendRes r else .exited
    | _, _ => .exited

/-- Where a commit goroutine is; the loop condition reads `response` up to three
times. -/
inductive CommitPc where
  | idle
  /-- `response == nil && maxAttemptNum > 0`. -/
  | guardNil
  /-- `response != nil`. -/
  | guardSome
  /-- `response.Acktype == NACK`. -/
  | guardNack
  | call
  /-- `CommitTwoPhase` is in flight. -/
  | await
  | assignRes (reply : CommitReply)
  | assignErr (reply : CommitReply)
  | readRes
  | sendRes (res : Option Response)
  | readErr
  | sendErr (err : Option Err)
  | checkErr
  | checkAck
  | wgDone
  | done
  /-- Returned without `wg1.Done()`. -/
  | exited
  deriving DecidableEq

/-- A commit goroutine: its calls, and the value it last wrote to the shared `response`. -/
structure CommitGo where
  pc : CommitPc := .idle
  maxAttemptNum : ℤ := 1
  calls : ℕ := 0
  wroteResponse : Option Response := none

/-- What `StateTransfer` returns. -/
structure Result where
  response : Option Response
  err : Option Err
  deriving DecidableEq

/-- Where the calling goroutine is. -/
inductive MainPc where
  /-- Spawning the propose goroutine of follower `k`. -/
  | spawn (k : ℕ)
  | wait
  /-- Spawning the commit goroutine of follower `k`. -/
  | spawn1 (k : ℕ)
  | wait1
  | returned (r : Result)
  /-- Some goroutine has panicked. -/
  | crashed
  deriving DecidableEq

/-- The propose channels are closed right after `wg.Wait()`. -/
def MainPc.proposeClosed : MainPc → Bool
  | .spawn _ | .wait => false
  | _ => true

/-- The commit channels are closed right after `wg1.Wait()`. -/
def MainPc.commitClosed : MainPc → Bool
  | .returned _ => true
  | _ => false

/-- The state shared by the goroutines of one `StateTransfer`. -/
structure State (n : ℕ) where
  main : MainPc := .spawn 0
  propose : Fin n → ProposeGo := fun _ => {}
  commit : Fin n → CommitGo := fun _ => {}
  wg : ℕ := 0
  wg1 : ℕ := 0
  proposeResChan : List ProposeResponse := []
  proposeErrChan : List (Option Err) := []
  commitResChan : List (Option Response) := []
  commitErrChan : List (Option Err) := []
  /-- `CoordinatorCache`. -/
  cache : UInt64 → Option (List UInt8)
  response : Option Response := none
  err : Option Err := none
  commitRequest : Option CommitRequest := none
  trace : List (Event n) := []

/-- The capacity of each channel. -/
def chanCap : ℕ := 1000

/-- Which goroutine moves. -/
inductive Action (n : ℕ) where
  | main
  | propose (f : Fin n)
  | commit (f : Fin n)

namespace State

variable {n : ℕ}

variable (s : State n)

/-- A goroutine panics. -/
def crash : State n := { s with main := .crashed }

/-- The propose goroutine of `f` moves. -/
def setPropose (f : Fin n) (g : ProposeGo) : State n :=
  { s with propose := update s.propose f g }

/-- The commit goroutine of `f` moves. -/
def setCommit (f : Fin n) (g : CommitGo) : State n :=
  { s with commit := update s.commit f g }

/-- Record a message. -/
def log (e : Event n) : State n := { s with trace := e :: s.trace }

/-! ## The calling goroutine -/

/-- The loop over `proposeResChan`: a rejection ends it, the first payload is committed. -/
def scanResponses (req : TransferRequest) (writeOnce : ℤ) (commitRequest : Option CommitRequest) :
    List ProposeResponse → Option (Option CommitRequest)
  | [] => some commitRequest
  | res :: rest =>
    if res.acktype ≠ .ack then none
    else if writeOnce = 1 ∧ 0 < res.msgPayload.length then
      scanResponses req (writeOnce - 1)
        (some { source := req.source, target := req.target, index := res.index,
                address := res.address, msgPayload := res.msgPayload }) rest
    else scanResponses req writeOnce commitRequest rest

/-- From `wg.Wait()` to the commit phase. -/
def afterPropose (req : TransferRequest) : State n :=
  if s.proposeErrChan.any Option.isSome then
    { s with main := .returned ⟨some ⟨.nack⟩, none⟩ }
  else match scanResponses req 1 none s.proposeResChan with
    | none => { s with main := .returned ⟨none, some "follower not acknowledged msg"⟩ }
    | some commitRequest =>
      match s.cache req.index with
      | none =>
        { s with main := .returned ⟨none, some "can't to find msg in the coordinator's cache"⟩ }
      | some _ => { s with main := .spawn1 0, commitRequest }

/-- The loop over `commitErrChan` and the final return. -/
def scanErrors (errs : List (Option Err)) : MainPc :=
  if errs.any Option.isSome then .returned ⟨some ⟨.nack⟩, none⟩
  else .returned ⟨some ⟨.ack⟩, none⟩

/-- From `wg1.Wait()` to the end. -/
def afterCommit (errs : List (Option Err)) : List (Option Response) → MainPc
  | [] => scanErrors errs
  | none :: _ => .crashed
  | some res :: rest =>
    if res.acktype ≠ .ack then .returned ⟨none, some "follower not acknowledged msg"⟩
    else afterCommit errs rest

/-- A step of the calling goroutine. -/
def stepMain (req : TransferRequest) : Option (State n) :=
  match s.main with
  | .spawn k =>
    if h : k < n then
      some { s.setPropose ⟨k, h⟩ { s.propose ⟨k, h⟩ with pc := .loop } with
        main := .spawn (k + 1), wg := s.wg + 1 }
    else some { s with main := .wait }
  | .wait => if s.wg = 0 then some (s.afterPropose req) else none
  | .spawn1 k =>
    if h : k < n then
      some { s.setCommit ⟨k, h⟩ { s.commit ⟨k, h⟩ with pc := .guardNil } with
        main := .spawn1 (k + 1), wg1 := s.wg1 + 1 }
    else some { s with main := .wait1 }
  | .wait1 =>
    if s.wg1 = 0 then some { s with main := afterCommit s.commitErrChan s.commitResChan } else none
  | .returned _ | .crashed => none

/-- A step of the propose goroutine of `f`. -/
def stepPropose (F : Followers n) (req : TransferRequest) (f : Fin n) : Option (State n) :=
  let g := s.propose f
  match g.pc with
  | .loop =>
    let s := s.setPropose f { g with pc := g.next }
    some (if g.again then s.log (.proposeSent f) else s)
  | .await =>
    let reply := F.propose f g.calls
    some ((s.setPropose f
      { pc := .loop
        responseP := (reply.results req).1
        err := (reply.results req).2
        maxAttemptNum := g.maxAttemptNum - 1
        calls := g.calls + 1 }).log (.proposeAnswered f reply))
  | .sendRes responseP =>
    if s.main.proposeClosed then some s.crash
    else if s.proposeResChan.length < chanCap then
      some { s.setPropose f { g with pc := .sendErr } with
        proposeResChan := s.proposeResChan ++ [responseP] }
    else none
  | .sendErr =>
    if s.main.proposeClosed then some s.crash
    else if s.proposeErrChan.length < chanCap then
      some { s.setPropose f { g with pc := .setCache } with
        proposeErrChan := s.proposeErrChan ++ [g.err] }
    else none
  | .setCache =>
    some { s.setPropose f { g with pc := .wgDone } with
      cache := update s.cache req.index (some req.msgPayload) }
  | .wgDone =>
    -- the counter of a `WaitGroup` must not become negative
    if s.wg = 0 then some s.crash
    else some { s.setPropose f { g with pc := .done } with wg := s.wg - 1 }
  | .idle | .done | .exited => none

/-- A step of the commit goroutine of `f`. -/
def stepCommit (F : Followers n) (f : Fin n) : Option (State n) :=
  let g := s.commit f
  match g.pc with
  | .guardNil =>
    some (s.setCommit f
      { g with pc := if s.response.isNone ∧ 0 < g.maxAttemptNum then .call else .guardSome })
  | .guardSome =>
    some (s.setCommit f { g with pc := if s.response.isSome then .guardNack else .readRes })
  | .guardNack =>
    match s.response with
    | none => some s.crash
    | some r => some (s.setCommit f { g with pc := if r.acktype = .nack then .call else .readRes })
  | .call =>
    match s.commitRequest with
    | some request => some ((s.setCommit f { g with pc := .await }).log (.commitSent f request))
    | none =>
      -- the RPC layer refuses to marshal a nil request; nothing is sent
      some (s.setCommit f { g with pc := .assignRes (.error "proto: Marshal called with nil") })
  | .await =>
    let reply := F.commit f g.calls
    some ((s.setCommit f { g with pc := .assignRes reply, calls := g.calls + 1 }).log
      (.commitAnswered f reply))
  | .assignRes reply =>
    some { s.setCommit f { g with pc := .assignErr reply, wroteResponse := reply.results.1 } with
      response := reply.results.1 }
  | .assignErr reply =>
    some { s.setCommit f { g with pc := .guardNil, maxAttemptNum := g.maxAttemptNum - 1 } with
      err := reply.results.2 }
  | .readRes => some (s.setCommit f { g with pc := .sendRes s.response })
  | .sendRes res =>
    if s.main.commitClosed then some s.crash
    else if s.commitResChan.length < chanCap then
      some { s.setCommit f { g with pc := .readErr } with
        commitResChan := s.commitResChan ++ [res] }
    else none
  | .readErr => some (s.setCommit f { g with pc := .sendErr s.err })
  | .sendErr err =>
    if s.main.commitClosed then some s.crash
    else if s.commitErrChan.length < chanCap then
      some { s.setCommit f { g with pc := .checkErr } with
        commitErrChan := s.commitErrChan ++ [err] }
    else none
  | .checkErr =>
    some (s.setCommit f { g with pc := if s.err.isSome then .exited else .checkAck })
  | .checkAck =>
    match s.response with
    | none => some s.crash
    | some r => some (s.setCommit f { g with pc := if r.acktype = .ack then .wgDone else .exited })
  | .wgDone =>
    if s.wg1 = 0 then some s.crash
    else some { s.setCommit f { g with pc := .done } with wg1 := s.wg1 - 1 }
  | .idle | .done | .exited => none

/-! ## The run -/

/-- One step of the goroutine the scheduler picks; a crashed process is dead. -/
def step (F : Followers n) (req : TransferRequest) (s : State n) : Action n → Option (State n)
  | .main => s.stepMain req
  | .propose f => if s.main = .crashed then none else s.stepPropose F req f
  | .commit f => if s.main = .crashed then none else s.stepCommit F f

/-- Where `StateTransfer` starts, with the cache left by earlier transfers. -/
def init (n : ℕ) (cache : UInt64 → Option (List UInt8)) : State n := { cache }

end State

/-! ## Which followers are asked -/

/-- `ServerShard.ShardFollowers`: one client for each entry of the configuration. -/
structure ShardFollowers (Client : Type) where
  nodes : ShardID → List Client
  nodup : ∀ shard, (nodes shard).Nodup
  disjoint : ∀ s t, s ≠ t → (nodes s).Disjoint (nodes t)

namespace ShardFollowers

variable {Client : Type} (F : ShardFollowers Client)

/-- The slice of one shard; a bound beyond the list panics. -/
def limit (shard : ShardID) : Option (List Client) :=
  let realNum := 2 * ((F.nodes shard).length / 3)
  if realNum + 1 ≤ (F.nodes shard).length then some ((F.nodes shard).take (realNum + 1)) else none

/-- `obtainFollowersLimit`: those of both shards. -/
def obtainFollowersLimit (source target : ShardID) : Option (List Client) := do
  return (← F.limit source) ++ (← F.limit target)

variable {F} {source target shard : ShardID} {clients fs ft : List Client}

theorem limit_eq_some : F.limit shard = some fs ↔ F.nodes shard ≠ [] ∧
    fs = (F.nodes shard).take (2 * ((F.nodes shard).length / 3) + 1) := by
  rw [← length_pos_iff]
  simp only [limit, Option.ite_none_right_eq_some, Option.some.injEq, eq_comm (a := fs),
    and_congr_left_iff]
  omega

theorem length_limit (h : F.limit shard = some fs) :
    fs.length = 2 * ((F.nodes shard).length / 3) + 1 ∧ 0 < (F.nodes shard).length := by
  obtain ⟨hnodes, rfl⟩ := limit_eq_some.1 h
  have hpos := length_pos_iff.2 hnodes
  rw [length_take]
  omega

theorem mem_limit (hs : F.limit source = some fs) (ht : F.limit target = some ft) {c : Client}
    (hc : c ∈ ft) (hnode : c ∈ F.nodes source) : c ∈ fs := by
  by_cases hshard : source = target
  · subst hshard
    rwa [Option.some.inj (hs.symm.trans ht)]
  · obtain ⟨-, rfl⟩ := limit_eq_some.1 ht
    exact absurd (mem_of_mem_take hc) (F.disjoint _ _ hshard hnode)

variable [DecidableEq Client]

/-- The distinct followers of a shard among the clients. -/
def chosen (F : ShardFollowers Client) (clients : List Client) (shard : ShardID) : ℕ :=
  (clients.toFinset ∩ (F.nodes shard).toFinset).card

theorem chosen_of_limit (h : F.limit shard = some fs) (hfs : fs ⊆ clients)
    (hclients : ∀ c ∈ clients, c ∈ F.nodes shard → c ∈ fs) :
    F.chosen clients shard = fs.length := by
  obtain ⟨-, rfl⟩ := limit_eq_some.1 h
  rw [chosen, ← toFinset_card_of_nodup ((F.nodup shard).sublist (take_sublist _ _))]
  congr 1
  ext c
  simp only [Finset.mem_inter, mem_toFinset]
  constructor
  · rintro ⟨hc, hnode⟩
    exact hclients c hc hnode
  · intro hc
    exact ⟨hfs hc, mem_of_mem_take hc⟩

theorem chosen_limits (hs : F.limit source = some fs) (ht : F.limit target = some ft) :
    F.chosen (fs ++ ft) source = fs.length ∧ F.chosen (fs ++ ft) target = ft.length := by
  constructor
  · refine chosen_of_limit hs (subset_append_left fs ft) fun c hc hnode => ?_
    exact (mem_append.1 hc).elim id fun hc => mem_limit hs ht hc hnode
  · refine chosen_of_limit ht (subset_append_right fs ft) fun c hc hnode => ?_
    exact (mem_append.1 hc).elim (fun hc => mem_limit ht hs hc hnode) id

/-- **When two thirds are asked**: neither shard is without followers or has two more than a
multiple of three. -/
theorem obtainFollowersLimit_iff (F : ShardFollowers Client) (source target : ShardID) :
    (∃ clients, F.obtainFollowersLimit source target = some clients ∧
        ∀ shard ∈ [source, target],
          (2 * (F.nodes shard).length + 2) / 3 ≤ F.chosen clients shard ∧
            F.chosen clients shard ≤ (F.nodes shard).length) ↔
      ∀ shard ∈ [source, target], F.nodes shard ≠ [] ∧ (F.nodes shard).length % 3 ≠ 2 := by
  simp only [obtainFollowersLimit, Option.bind_eq_bind, Option.bind_eq_some_iff,
    forall_mem_cons, not_mem_nil, IsEmpty.forall_iff, implies_true, and_true,
    ← length_pos_iff]
  constructor
  · rintro ⟨_, ⟨fs, hs, ft, ht, ⟨⟩⟩, hsource, htarget⟩
    rw [(chosen_limits hs ht).1, (length_limit hs).1] at hsource
    rw [(chosen_limits hs ht).2, (length_limit ht).1] at htarget
    omega
  · rintro ⟨hsource, htarget⟩
    have hs := limit_eq_some.2 ⟨length_pos_iff.1 hsource.1, rfl⟩
    have ht := limit_eq_some.2 ⟨length_pos_iff.1 htarget.1, rfl⟩
    refine ⟨_, ⟨_, hs, _, ht, rfl⟩, ?_⟩
    rw [(chosen_limits hs ht).1, (chosen_limits hs ht).2, (length_limit hs).1, (length_limit ht).1]
    omega

/-- **One follower too few**: of five followers three are asked; none at all make the slice panic.
-/
theorem three_of_five :
    let F : ShardFollowers ℕ :=
      { nodes := fun shard => if shard = 0 then [1, 2, 3, 4, 5] else []
        nodup := fun shard => by split <;> decide
        disjoint := fun s t h => by split_ifs <;> simp_all }
    (F.obtainFollowersLimit 0 0).map (F.chosen · 0) = some 3 ∧
      F.obtainFollowersLimit 0 1 = none := by
  decide

end ShardFollowers

end DyShard.Atomic.Coordinator
