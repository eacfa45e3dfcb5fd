import DyShard.Lib.Transition
import Mathlib.Data.List.AList
import Mathlib.Data.Finset.Basic
import Mathlib.Data.Finset.Dedup

/-!
# The request manager of a stream protocol

`loop` takes events from channels and handles each of them to its end; requests are made, answered
late and cancelled by others.  Requests and streams point to each other, so they live in a heap and
are named by references.  `Manager.trace` is a record for statements; no handler reads it.
-/

namespace DyShard.Stream

open Function

/-! ## Requests and streams -/

/-- The name of a stream. -/
abbrev StreamID := String

/-- References to the objects of the heap. -/
abbrev ReqRef := ℕ

/-- A stream in the heap. -/
abbrev StreamRef := ℕ

/-- `sttypes.ProtoSpec`. -/
structure ProtoSpec where
  service : String
  networkType : String
  shardID : ℕ
  version : String
  deriving DecidableEq, Repr

/-- `sttypes.Response`: the id it carries and the rest. -/
structure Response where
  reqID : UInt64
  body : List UInt8
  deriving DecidableEq, Repr

/-- `responseData`. -/
structure ResponseData where
  resp : Option Response
  stID : StreamID
  err : Option String
  deriving DecidableEq, Repr

/-- `reqPriority`. -/
inductive Priority where
  | low
  | high
  deriving DecidableEq, Repr

/-- `request`, with the id of the underlying request and what has been sent on `respC`. -/
structure Request where
  reqID : UInt64
  isSupportedByProto : ProtoSpec → Bool
  priority : Priority
  blacklist : Option (List StreamID)
  whitelist : Option (List StreamID)
  owner : Option StreamRef
  done : Bool
  respC : List ResponseData

/-- `stream`. -/
structure Strm where
  id : StreamID
  protoSpec : ProtoSpec
  req : Option ReqRef

namespace Request

/-- `isStreamBlacklisted`. -/
def isStreamBlacklisted (req : Request) (stid : StreamID) : Bool :=
  match req.blacklist with
  | none => false
  | some ids => ids.contains stid

/-- `isStreamWhitelisted`. -/
def isStreamWhitelisted (req : Request) (stid : StreamID) : Bool :=
  match req.whitelist with
  | none => true
  | some ids => ids.contains stid

/-- `isStreamAllowed`. -/
def isStreamAllowed (req : Request) (stid : StreamID) : Bool :=
  req.isStreamWhitelisted stid && !req.isStreamBlacklisted stid

/-- The flag is swapped once, and only then is a response sent. -/
def doneWithResponse (req : Request) (resp : ResponseData) : Request :=
  if req.done then req else { req with done := true, respC := req.respC ++ [resp] }

end Request

/-- `RequestOption`. -/
inductive RequestOption where
  | withHighPriority
  | withBlacklist (ids : List StreamID)
  | withWhitelist (ids : List StreamID)

/-- A list of streams is added to those there are; no list is made for no stream. -/
def addStreams (old : Option (List StreamID)) (ids : List StreamID) : Option (List StreamID) :=
  ids.foldl (fun old id => some (id :: old.getD [])) old

/-- What an option does. -/
def RequestOption.apply (req : Request) : RequestOption → Request
  | .withHighPriority => { req with priority := .high }
  | .withBlacklist ids => { req with blacklist := addStreams req.blacklist ids }
  | .withWhitelist ids => { req with whitelist := addStreams req.whitelist ids }

/-- `sttypes.Request`, as it is handed to `DoRequest`. -/
structure RawRequest where
  reqID : UInt64
  isSupportedByProto : ProtoSpec → Bool

/-- The request that `doRequestAsync` makes. -/
def newRequest (raw : RawRequest) (options : List RequestOption) : Request :=
  options.foldl RequestOption.apply
    { reqID := raw.reqID
      isSupportedByProto := raw.isSupportedByProto
      priority := .low
      blacklist := none
      whitelist := none
      owner := none
      done := false
      respC := [] }

/-! ## Waiting queues -/

/-- `maxWaitingSize`. -/
def maxWaitingSize : ℕ := 1024

/-- `throttleBatch`. -/
def throttleBatch : ℕ := 16

/-- The capacity of `newRequestC`. -/
def newRequestCap : ℕ := 128

/-- `ErrQueueFull`. -/
def errQueueFull : String := "waiting request queue already full"

/-- `ErrClosed`. -/
def errClosed : String := "request manager module closed"

/-- `requestQueue.push`. -/
def pushQueue (l : List ReqRef) (r : ReqRef) : Except String (List ReqRef) :=
  if maxWaitingSize ≤ l.length then .error errQueueFull else .ok (l ++ [r])

/-- `requestQueues`. -/
structure RequestQueues where
  reqsPHigh : List ReqRef
  reqsPLow : List ReqRef

namespace RequestQueues

/-- `newRequestQueues`. -/
def new : RequestQueues := ⟨[], []⟩

/-- All that wait. -/
def all (q : RequestQueues) : List ReqRef := q.reqsPHigh ++ q.reqsPLow

/-- `Push`, for a request with its own priority. -/
def push (q : RequestQueues) (r : ReqRef) (own priority : Priority) :
    Except String RequestQueues :=
  if priority = .high ∨ own = .high then
    (pushQueue q.reqsPHigh r).map fun l => { q with reqsPHigh := l }
  else
    (pushQueue q.reqsPLow r).map fun l => { q with reqsPLow := l }

/-- `Pop`. -/
def pop (q : RequestQueues) : Option (ReqRef × RequestQueues) :=
  match q.reqsPHigh, q.reqsPLow with
  | r :: high, low => some (r, ⟨high, low⟩)
  | [], r :: low => some (r, ⟨[], low⟩)
  | [], [] => none

/-- `Remove`. -/
def remove (q : RequestQueues) (r : ReqRef) : RequestQueues :=
  ⟨q.reqsPHigh.erase r, q.reqsPLow.erase r⟩

end RequestQueues

/-! ## The manager -/

/-- What happens to requests and streams. -/
inductive Event where
  | accepted (r : ReqRef)
  | assigned (r : ReqRef) (st : StreamRef) (reqID : UInt64)
  | cancelled (r : ReqRef)
  | removed (st : StreamRef)
  deriving DecidableEq, Repr

/-- `requestManager` with the heap.  A request in `newRequestC` exists before the loop has taken it.
`trace` has the latest event first. -/
structure Manager where
  request : ReqRef → Request
  nextReq : ReqRef
  strm : StreamRef → Strm
  nextStrm : StreamRef
  streams : AList fun _ : StreamID => StreamRef
  available : Finset StreamID
  pendings : AList fun _ : UInt64 => ReqRef
  waitings : RequestQueues
  newRequestC : List ReqRef
  closed : Bool
  trace : List Event

namespace Manager

/-- `newRequestManager`; the objects there will be are of no account yet. -/
def new : Manager where
  request _ := newRequest ⟨0, fun _ => false⟩ []
  nextReq := 0
  strm _ := ⟨"", ⟨"", "", 0, ""⟩, none⟩
  nextStrm := 0
  streams := ∅
  available := ∅
  pendings := ∅
  waitings := .new
  newRequestC := []
  closed := false
  trace := []

variable (rm : Manager)

/-- `doneWithResponse`, of a request in the heap. -/
def answer (r : ReqRef) (data : ResponseData) : Manager :=
  { rm with request := update rm.request r ((rm.request r).doneWithResponse data) }

/-- `clearPendingRequest`, of a stream in the heap. -/
def clear (st : StreamRef) : Manager :=
  { rm with strm := update rm.strm st { rm.strm st with req := none } }

/-- An event happens. -/
def note (e : Event) : Manager := { rm with trace := e :: rm.trace }

/-- `doRequestAsync`, up to the send on `newRequestC`. -/
def doRequestAsync (raw : RawRequest) (options : List RequestOption) : Manager :=
  { rm with
    request := update rm.request rm.nextReq (newRequest raw options)
    nextReq := rm.nextReq + 1
    newRequestC := rm.newRequestC ++ [rm.nextReq] }

/-- `addRequestToWaitings`. -/
def addRequestToWaitings (r : ReqRef) (priority : Priority) : Except String Manager :=
  (rm.waitings.push r (rm.request r).priority priority).map fun q => { rm with waitings := q }

/-- `handleNewRequest`. -/
def handleNewRequest (r : ReqRef) : Manager :=
  match rm.addRequestToWaitings r .low with
  | .error err => rm.answer r ⟨none, "", some ("failed to add new request to waitings: " ++ err)⟩
  | .ok rm' => rm'.note (.accepted r)

/-- `removePendingRequest`: what is pending under the id of the request is removed. -/
def removePendingRequest (r : ReqRef) : Manager :=
  match rm.pendings.lookup (rm.request r).reqID with
  | none => rm
  | some _ =>
    let rm := { rm with pendings := rm.pendings.erase (rm.request r).reqID }
    match (rm.request r).owner with
    | none => rm
    | some st => { rm.clear st with available := insert (rm.strm st).id rm.available }

/-- `validateDelivery`; the request that is pending under the id of the response. -/
def validateDelivery (data : ResponseData) : Except String ReqRef :=
  match data.err, data.resp with
  | some err, _ => .error err
  | none, none => .error "no response" -- `DeliverResponse` always has one
  | none, some resp =>
    match rm.streams.lookup data.stID with
    | none => .error ("data delivered from dead stream: " ++ data.stID)
    | some st =>
      match rm.pendings.lookup resp.reqID with
      | none => .error "stale p2p response delivery"
      | some r =>
        if (rm.request r).owner.map (fun st => (rm.strm st).id) ≠ some data.stID then
          .error "unexpected delivery stream"
        else if (rm.strm st).req.map (fun r => (rm.request r).reqID) ≠ some resp.reqID then
          .error "unexpected deliver request"
        else .ok r

/-- `handleDeliverData`. -/
def handleDeliverData (data : ResponseData) : Manager :=
  match rm.validateDelivery data with
  | .error _ => rm
  | .ok r => (rm.answer r data).removePendingRequest r

/-- `handleCancelRequest`. -/
def handleCancelRequest (r : ReqRef) (err : String) : Manager :=
  let rm := { rm with waitings := rm.waitings.remove r }
  let rm := rm.removePendingRequest r
  let stid := ((rm.request r).owner.map fun st => (rm.strm st).id).getD ""
  (rm.answer r ⟨none, stid, some err⟩).note (.cancelled r)

/-- `pickAvailableStream`; the range over a map takes its keys in any order. -/
def pickAvailableStream (rm : Manager) (r : ReqRef) : List StreamID → Except String StreamRef
  | [] => .error "no more available streams"
  | id :: ids =>
    if !(rm.request r).isStreamAllowed id then rm.pickAvailableStream r ids
    else
      match rm.streams.lookup id with
      | none => .error "sanity error: available stream not registered"
      | some st =>
        if (rm.strm st).req.isSome then
          .error "sanity error: available stream has pending requests"
        else if (rm.request r).isSupportedByProto (rm.strm st).protoSpec then .ok st
        else rm.pickAvailableStream r ids

/-- The loop of `getNextRequest`: requests that are done are dropped.  It ends with the queues. -/
def popUndone (done : ReqRef → Bool) : ℕ → RequestQueues → Option ReqRef × RequestQueues
  | 0, q => (none, q)
  | fuel + 1, q =>
    match q.pop with
    | none => (none, q)
    | some (r, q') => if done r then popUndone done fuel q' else (some r, q')

/-- `getNextRequest`. -/
def getNextRequest (order : List StreamID) : Manager × Option (ReqRef × StreamRef) :=
  match popUndone (fun r => (rm.request r).done) (rm.waitings.all.length + 1) rm.waitings with
  | (none, q) => ({ rm with waitings := q }, none)
  | (some r, q) =>
    let rm := { rm with waitings := q }
    match rm.pickAvailableStream r order with
    | .error _ =>
      -- the error of the push is ignored
      match rm.addRequestToWaitings r .high with
      | .error _ => (rm, none)
      | .ok rm' => (rm', none)
    | .ok st => (rm, some (r, st))

/-- `addPendingRequest`, with the id that `genReqID` has drawn. -/
def addPendingRequest (r : ReqRef) (st : StreamRef) (reqID : UInt64) : Manager :=
  { rm with
    request := update rm.request r { rm.request r with reqID := reqID, owner := some st }
    strm := update rm.strm st { rm.strm st with req := some r }
    available := rm.available.erase (rm.strm st).id
    pendings := rm.pendings.insert reqID r
    trace := .assigned r st reqID :: rm.trace }

/-- What is open in a round of the throttle: the order of the available streams, and the id. -/
structure Choice where
  order : List StreamID
  reqID : UInt64

/-- The order is one of the keys of `available`. -/
def Orders (order : List StreamID) : Prop :=
  order.Nodup ∧ order.toFinset = rm.available

instance (rm : Manager) (order : List StreamID) : Decidable (rm.Orders order) :=
  inferInstanceAs (Decidable (_ ∧ _))

/-- The rounds of the throttle; `genReqID` draws until the id is not pending. -/
def throttle (rm : Manager) : List Choice → Option Manager
  | [] => some rm
  | c :: cs =>
    if rm.Orders c.order then
      match rm.getNextRequest c.order with
      | (rm', none) => some rm'
      | (rm', some (r, st)) =>
        if (rm'.pendings.lookup c.reqID).isNone then
          (rm'.addPendingRequest r st c.reqID).throttle cs
        else none
    else none

/-- `addNewStream`. -/
def addNewStream (st : StreamID × ProtoSpec) : Manager :=
  { rm with
    strm := update rm.strm rm.nextStrm ⟨st.1, st.2, none⟩
    nextStrm := rm.nextStrm + 1
    streams := rm.streams.insert st.1 rm.nextStrm
    available := insert st.1 rm.available }

/-- `removeStream`. -/
def removeStream (st : StreamRef) : Manager :=
  let id := (rm.strm st).id
  let cleared := (rm.strm st).req
  let rm := { rm with available := rm.available.erase id, streams := rm.streams.erase id }
  let rm := (rm.clear st).note (.removed st)
  match cleared with
  | none => rm
  | some r => rm.answer r ⟨none, id, some "stream removed when doing request"⟩

/-- `checkStreamUpdates`. -/
def checkStreamUpdates (targets : List (StreamID × ProtoSpec)) :
    List (StreamID × ProtoSpec) × List StreamRef :=
  (targets.filter fun target => (rm.streams.lookup target.1).isNone,
    (rm.streams.entries.filter fun e => e.1 ∉ targets.map Prod.fst).map Sigma.snd)

/-- `refreshStreams`, with the streams of the stream manager. -/
def refreshStreams (targets : List (StreamID × ProtoSpec)) : Manager :=
  let (added, removed) := rm.checkStreamUpdates targets
  removed.foldl removeStream (added.foldl addNewStream rm)

/-- `close`. -/
def close : Manager :=
  { (rm.pendings.entries.map Sigma.snd).foldl (fun rm r => rm.answer r ⟨none, "", some errClosed⟩)
      rm with
    pendings := ∅
    available := ∅
    streams := ∅
    waitings := .new
    closed := true }

/-! ## Steps -/

/-- What can happen: the events of `loop`, a call of `DoRequest`, and the end of a write. -/
inductive Act where
  | doRequest (raw : RawRequest) (options : List RequestOption)
  | newRequest
  | throttle (choices : List Choice)
  | deliver (stID : StreamID) (resp : Response)
  | cancel (r : ReqRef) (err : String)
  | refresh (targets : List (StreamID × ProtoSpec))
  | writeError (r : ReqRef) (err : String)
  | close

/-- One step.  The loop ends with `close`; a write may fail at any time after the assignment. -/
def step : Act → Option Manager
  | .doRequest raw options =>
    if rm.newRequestC.length < newRequestCap then some (rm.doRequestAsync raw options) else none
  | .newRequest =>
    match rm.closed, rm.newRequestC with
    | false, r :: rest => some ({ rm with newRequestC := rest }.handleNewRequest r)
    | _, _ => none
  | .throttle choices =>
    if rm.closed = false ∧ choices.length = throttleBatch then rm.throttle choices else none
  | .deliver stID resp =>
    if rm.closed then none else some (rm.handleDeliverData ⟨some resp, stID, none⟩)
  | .cancel r err =>
    if rm.closed = false ∧ r < rm.nextReq then some (rm.handleCancelRequest r err) else none
  | .refresh targets => if rm.closed then none else some (rm.refreshStreams targets)
  | .writeError r err =>
    match (rm.request r).owner with
    | none => none
    | some st =>
      some (rm.answer r ⟨none, (rm.strm st).id, some ("write bytes: " ++ err)⟩)
  | .close => if rm.closed then none else some rm.close

end Manager

end DyShard.Stream
