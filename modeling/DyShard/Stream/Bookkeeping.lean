import DyShard.Stream.Handlers

/-!
# The books of the request manager

The maps agree, no accepted request is lost, and a response completes only its own request.  The
conditions for the first two are those whose absence breaks them.
-/

namespace DyShard.Stream.Manager

open Transition List Option

variable {rm rm' : Manager} {M : Mode}

/-! ## Available streams and pending requests -/

/-- The maps agree with the streams. -/
structure Tidy (rm : Manager) : Prop where
  available : ∀ id, id ∈ rm.available ↔
    ∃ st, rm.streams.lookup id = some st ∧ (rm.strm st).req = none
  pendings : ∀ id r, rm.pendings.lookup id = some r ↔ ∃ st, (rm.request r).owner = some st ∧
    rm.streams.lookup (rm.strm st).id = some st ∧ (rm.strm st).req = some r ∧
    (rm.request r).reqID = id

theorem tidy_new : Tidy new := by
  constructor <;> simp [new, newRequest]

theorem Tidy.frame (h : rm.Tidy) (havailable : rm'.available = rm.available)
    (hstreams : rm'.streams = rm.streams) (hpendings : rm'.pendings = rm.pendings)
    (hstrm : rm'.strm = rm.strm) (hrequest : ∀ r, (rm'.request r).owner = (rm.request r).owner ∧
      (rm'.request r).reqID = (rm.request r).reqID) : rm'.Tidy := by
  refine ⟨fun id => ?_, fun id r => ?_⟩
  · rw [havailable, hstreams, hstrm]
    exact h.available id
  · rw [hpendings, hstreams, hstrm, (hrequest r).1, (hrequest r).2]
    exact h.pendings id r

theorem Tidy.assign (hs : rm.Sound) (h : rm.Tidy) {r : ReqRef} {st : StreamRef} {reqID : UInt64}
    {id : StreamID} (hr : (rm.request r).owner = none)
    (registered : rm.streams.lookup id = some st) (idle : (rm.strm st).req = none)
    (unused : rm.pendings.lookup reqID = none) : (rm.addPendingRequest r st reqID).Tidy := by
  have hid : (rm.strm st).id = id := (hs.named id st registered).1
  -- only the stream `st` is registered under the name that is no longer available
  have hother : ∀ id' t, id' ≠ id → rm.streams.lookup id' = some t → t ≠ st := by
    rintro id' t hne ht rfl
    exact hne ((hs.named id' t ht).1.symm.trans hid)
  unfold addPendingRequest
  refine ⟨fun id' => ?_, fun id' x => ?_⟩
  · by_cases hname : id' = id
    · subst hname
      grind
    · rw [hid, Finset.mem_erase, h.available id']
      grind
  · by_cases hx : x = r
    · -- the request had no owner, so nothing was pending for it
      subst hx
      have hnone : rm.pendings.lookup id' ≠ some x := fun hpending => by
        obtain ⟨t, howner, -⟩ := (h.pendings id' x).1 hpending
        rw [hr] at howner
        cases howner
      grind
    · have hbefore := h.pendings id' x
      have hunused := h.pendings reqID x
      grind

theorem Tidy.release (hs : rm.Sound) (h : rm.Tidy) {r : ReqRef} {st : StreamRef}
    (pending : rm.pendings.lookup (rm.request r).reqID = some r)
    (owner : (rm.request r).owner = some st) : Tidy { rm.clear st with
      pendings := rm.pendings.erase (rm.request r).reqID
      available := insert (rm.strm st).id rm.available } := by
  -- the stream is registered, and the request is the one it works on
  obtain ⟨t, howner, hregistered, hreq, -⟩ := (h.pendings _ r).1 pending
  obtain rfl : st = t := Option.some.inj (owner.symm.trans howner)
  unfold clear
  refine ⟨fun id' => ?_, fun id' x => ?_⟩
  · have hbefore := h.available id'
    have hnamed := hs.named id'
    grind
  · have hbefore := h.pendings id' x
    have hkeyed := hs.keyed id' x
    grind

theorem Tidy.drop (hs : rm.Sound) (h : rm.Tidy) {st : StreamRef} {trace : List Event}
    (registered : rm.streams.lookup (rm.strm st).id = some st) (idle : (rm.strm st).req = none) :
    Tidy { rm.clear st with
      available := rm.available.erase (rm.strm st).id
      streams := rm.streams.erase (rm.strm st).id
      trace := trace } := by
  unfold clear
  refine ⟨fun id' => ?_, fun id' x => ?_⟩
  · have hbefore := h.available id'
    have hnamed := hs.named id'
    grind
  · -- an idle stream has no pending request
    have hbefore := h.pendings id' x
    grind

theorem Tidy.add (hs : rm.Sound) (h : rm.Tidy) {target : StreamID × ProtoSpec}
    (free : ∀ st, rm.streams.lookup target.1 = some st → (rm.strm st).req = none) :
    (rm.addNewStream target).Tidy := by
  have hself := lookup_insert_apply rm.streams target.1 target.1 rm.nextStrm
  unfold addNewStream
  refine ⟨fun id' => ?_, fun id' x => ?_⟩
  · have hbefore := h.available id'
    have hnamed := hs.named id'
    grind
  · -- the stream that was registered under the name had no request
    have hbefore := h.pendings id' x
    have howned := hs.owned x
    have hworking := hs.working rm.nextStrm x
    grind

theorem tidy_basic (hown : M.own) (hidle : M.idle) (hs : rm.Sound) (h : rm.Tidy)
    (hbasic : Basic M rm rm') : rm'.Tidy := by
  cases hbasic with
  | create raw options =>
    refine ⟨h.available, fun id r => ?_⟩
    by_cases hr : r = rm.nextReq
    · -- the new request has no owner, and nothing is pending for it yet
      subst hr
      constructor
      · exact fun hpending => absurd (hs.keyed id _ hpending).2.1 (lt_irrefl _)
      · rintro ⟨st, howner, -⟩
        simp [doRequestAsync, (newRequest_fresh raw options).1] at howner
    · have hsame : (rm.doRequestAsync raw options).request r = rm.request r :=
        Function.update_of_ne hr _ _
      rw [hsame]
      exact h.pendings id r
  | accept _ _ _ => exact ⟨h.available, h.pendings⟩
  | refuse _ _ => exact h.frame rfl rfl rfl rfl fun x => request_answer _ _ _ x
  | trim _ _ => exact ⟨h.available, h.pendings⟩
  | @assign r st reqID q id popped listed registered idle unused =>
    have hqueued := hs.queued r (mem_append_right _ (popped.symm.subset mem_cons_self))
    have h' : ({ rm with waitings := q } : Manager).Tidy := ⟨h.available, h.pendings⟩
    have hs' : ({ rm with waitings := q } : Manager).Sound := hs.queues ((subperm_append_left _).2
      ((sublist_cons_self _ _).subperm.trans popped.symm.subperm))
    exact h'.assign hs' hqueued.1 registered idle unused
  | answer r data => exact h.frame rfl rfl rfl rfl fun x => request_answer _ _ _ x
  | @release r q st pending owner _ own =>
    cases own hown
    exact h.release hs pending owner
  | @forget r q pending owner own =>
    -- a pending request has an owner
    cases own hown
    simpa [owner] using (hs.keyed _ r pending).2.2
  | cancelled _ => exact ⟨h.available, h.pendings⟩
  | add free => exact h.add hs free
  | drop registered idle => exact h.drop hs registered (idle hidle)
  | shut _ _ => constructor <;> simp

/-- **The maps agree in every reachable state**, if no busy stream is removed and nothing else is
pending under the id of a request that is cancelled. -/
theorem bookkeeping_reach (hreach : Reach step (Orderly ⟨True, True, False⟩) new rm) :
    (∀ id, id ∈ rm.available ↔ ∃ st, rm.streams.lookup id = some st ∧ (rm.strm st).req = none) ∧
    (∀ id r, rm.pendings.lookup id = some r ↔ ∃ st, (rm.request r).owner = some st ∧
      rm.streams.lookup (rm.strm st).id = some st ∧ (rm.strm st).req = some r ∧
      (rm.request r).reqID = id) ∧
    ∀ id st r, rm.streams.lookup id = some st → (rm.strm st).req = some r →
      (rm.request r).owner = some st ∧ rm.pendings.lookup (rm.request r).reqID = some r := by
  obtain ⟨hsound, htidy⟩ := invariant_of_reach tidy_new
    (fun _ _ hs h => tidy_basic trivial trivial hs h) hreach
  refine ⟨htidy.available, htidy.pendings, fun id st r hst hr => ?_⟩
  have howner := (hsound.working st r hr).1
  refine ⟨howner, (htidy.pendings _ r).2 ⟨st, howner, ?_, hr, rfl⟩⟩
  rwa [(hsound.named id st hst).1]

namespace Sample

/-- A protocol. -/
def spec : ProtoSpec := ⟨"sync", "mainnet", 0, "1.0.0"⟩

/-- A request comes in and is assigned to the stream `a`, with id 7. -/
def serve : List Act :=
  [.doRequest ⟨0, fun _ => true⟩ [], .newRequest,
    .throttle (⟨["a"], 7⟩ :: List.replicate 15 ⟨[], 8⟩)]

theorem reach_serve {rm : Manager} (M : Mode)
    (h : exec step new (.refresh [("a", spec)] :: serve) = some rm) :
    Reach step (Orderly M) new rm := by
  obtain ⟨rm₁, hrefresh, hserve⟩ := bind_eq_some_iff.1 h
  have hfirst : Reach step (Orderly M) new rm₁ := Reach.refl.tail (by simp [Orderly, new]) hrefresh
  refine hfirst.trans (reach_of_exec_forall (fun a ha s => ?_) hserve)
  simp only [serve, mem_cons, not_mem_nil, or_false] at ha
  obtain rfl | rfl | rfl := ha <;> trivial

end Sample

open Sample

/-- A stream works on a request. -/
theorem bookkeeping_sample :
    ∃ rm, exec step new (.refresh [("a", spec)] :: serve) = some rm ∧
      rm.pendings.lookup 7 = some 0 ∧
      ∃ st, (rm.request 0).owner = some st ∧ (rm.strm st).req = some 0 ∧ "a" ∉ rm.available := by
  have hrun : ((exec step new (.refresh [("a", spec)] :: serve)).map fun rm =>
      (rm.pendings.lookup 7, decide ("a" ∈ rm.available))) = some (some 0, false) := by
    decide +kernel
  obtain ⟨rm, hrm, hpending, havailable⟩ := facts_of_map hrun
  obtain ⟨st, howner, -, hreq, -⟩ :=
    ((bookkeeping_reach (reach_serve _ hrm)).2.1 7 0).1 hpending
  exact ⟨rm, hrm, hpending, st, howner, hreq, of_decide_eq_false havailable⟩

/-- The busy stream is removed, then its request cancelled: the name is available again. -/
theorem unregistered_available :
    ∃ rm, Reach step anyStep new rm ∧ "a" ∈ rm.available ∧ rm.streams.lookup "a" = none := by
  have hrun : ((exec step new (.refresh [("a", spec)] :: serve ++
      [.refresh [], .cancel 0 "context canceled"])).map fun rm =>
        (decide ("a" ∈ rm.available), rm.streams.lookup "a")) = some (true, none) := by
    decide +kernel
  obtain ⟨rm, hrm, havailable, hstreams⟩ := facts_of_map hrun
  exact ⟨rm, reach_of_exec hrm, of_decide_eq_true havailable, hstreams⟩

/-! ## Accepted requests -/

/-- Accepted requests are kept, and answered at most once. -/
structure Kept (rm : Manager) : Prop where
  answers : ∀ r, (rm.request r).respC.length = if (rm.request r).done then 1 else 0
  accepted : ∀ r, .accepted r ∈ rm.trace → r < rm.nextReq ∧ ((rm.request r).done = true ∨
    r ∈ rm.waitings.all ∨ rm.pendings.lookup (rm.request r).reqID = some r)
  closed : rm.closed = true → (∀ r, r ∉ rm.waitings.all) ∧ ∀ id, rm.pendings.lookup id = none

theorem kept_new : Kept new := by
  constructor <;> simp [new, newRequest, RequestQueues.new, RequestQueues.all]

theorem Kept.frame (h : rm.Kept) (hrequest : rm'.request = rm.request)
    (hnext : rm'.nextReq = rm.nextReq) (hwaitings : rm'.waitings = rm.waitings)
    (hpendings : rm'.pendings = rm.pendings) (hclosed : rm'.closed = rm.closed)
    (htrace : ∀ r, .accepted r ∈ rm'.trace → .accepted r ∈ rm.trace) : rm'.Kept := by
  refine ⟨fun r => ?_, fun r hr => ?_, ?_⟩
  · rw [hrequest]
    exact h.answers r
  · rw [hrequest, hnext, hwaitings, hpendings]
    exact h.accepted r (htrace r hr)
  · rw [hclosed, hwaitings, hpendings]
    exact h.closed

theorem Kept.answer (h : rm.Kept) (r : ReqRef) (data : ResponseData) : (rm.answer r data).Kept := by
  have hdone : ∀ x, (rm.request x).done = true → ((rm.answer r data).request x).done = true := by
    unfold Manager.answer Request.doneWithResponse
    grind
  refine ⟨fun x => ?_, fun x hx => ?_, h.closed⟩
  · have hanswers := h.answers x
    unfold Manager.answer Request.doneWithResponse
    grind
  · obtain ⟨hlt, hcases⟩ := h.accepted x hx
    rw [(request_answer rm r data x).2]
    exact ⟨hlt, hcases.imp_left (hdone x)⟩

theorem Kept.trim (h : rm.Kept) {q : RequestQueues}
    (sub : ∀ x ∈ q.all, x ∈ rm.waitings.all)
    (lost : ∀ r ∈ rm.waitings.all, r ∉ q.all → (rm.request r).done = true) :
    Kept { rm with waitings := q } := by
  refine ⟨h.answers, fun x hx => ⟨(h.accepted x hx).1, ?_⟩,
    fun hclosed => ⟨fun x hx => (h.closed hclosed).1 x (sub x hx), (h.closed hclosed).2⟩⟩
  rcases (h.accepted x hx).2 with hdone | hwaits | hpending
  · exact .inl hdone
  · by_cases hq : x ∈ q.all
    · exact .inr (.inl hq)
    · exact .inl (lost x hwaits hq)
  · exact .inr (.inr hpending)

theorem Kept.release (h : rm.Kept) {r : ReqRef} {strm : StreamRef → Strm}
    {available : Finset StreamID} (pending : rm.pendings.lookup (rm.request r).reqID = some r)
    (done : (rm.request r).done = true) : Kept { rm with
      strm := strm, available := available, pendings := rm.pendings.erase (rm.request r).reqID } := by
  refine ⟨h.answers, fun x hx => ⟨(h.accepted x hx).1, ?_⟩,
    fun hclosed => ⟨(h.closed hclosed).1, fun id => ?_⟩⟩
  · rcases (h.accepted x hx).2 with hdone | hwaits | hpending
    · exact .inl hdone
    · exact .inr (.inl hwaits)
    · by_cases hid : (rm.request x).reqID = (rm.request r).reqID
      · rw [hid, pending] at hpending
        cases hpending
        exact .inl done
      · exact .inr (.inr ((lookup_erase_apply _ _ _).trans (if_neg hid) |>.trans hpending))
  · rw [lookup_erase_apply, (h.closed hclosed).2, ite_self]

theorem Kept.assign (h : rm.Kept) {r : ReqRef} {st : StreamRef} {reqID : UInt64}
    {q : RequestQueues} (popped : rm.waitings.all.Perm (r :: q.all))
    (unused : rm.pendings.lookup reqID = none) :
    ({ rm with waitings := q }.addPendingRequest r st reqID).Kept := by
  have hmem : ∀ x, x ∈ rm.waitings.all ↔ x = r ∨ x ∈ q.all := fun x => by
    rw [popped.mem_iff, mem_cons]
  unfold addPendingRequest
  refine ⟨fun x => ?_, fun x hx => ?_, fun hclosed => ?_⟩
  · have hanswers := h.answers x
    grind
  · have haccepted := h.accepted x (by simpa using hx)
    have hbefore := hmem x
    grind
  · exact absurd ((hmem r).2 (.inl rfl)) ((h.closed hclosed).1 r)

theorem kept_basic (hown : M.own) (hsettled : M.settled) (hs : rm.Sound) (h : rm.Kept)
    (hbasic : Basic M rm rm') : rm'.Kept := by
  cases hbasic with
  | create raw options =>
    obtain ⟨-, hdone, hnone⟩ := newRequest_fresh raw options
    refine ⟨fun x => ?_, fun x hx => ?_, h.closed⟩
    · have hanswers := h.answers x
      unfold doRequestAsync
      grind
    · obtain ⟨hlt, hcases⟩ := h.accepted x hx
      have hsame : (rm.doRequestAsync raw options).request x = rm.request x :=
        Function.update_of_ne hlt.ne _ _
      rw [hsame]
      exact ⟨Nat.lt_succ_of_lt hlt, hcases⟩
  | @accept r rest q taken pushed running =>
    refine ⟨h.answers, fun x hx => ?_, fun hclosed => absurd hclosed (by simp [running])⟩
    rcases mem_cons.1 hx with hnew | hold
    · cases hnew
      exact ⟨(hs.queued r (by simp [taken])).2, .inr (.inl (pushed.symm.subset mem_cons_self))⟩
    · obtain ⟨hlt, hcases⟩ := h.accepted x hold
      exact ⟨hlt, hcases.imp_right (Or.imp_left fun hwaits =>
        pushed.symm.subset (mem_cons_of_mem _ hwaits))⟩
  | @refuse r rest data _ =>
    have hrest : Kept { rm with newRequestC := rest } := ⟨h.answers, h.accepted, h.closed⟩
    exact hrest.answer r data
  | trim sub lost => exact h.trim (fun x hx => sub.subset hx) lost
  | assign popped _ _ _ unused => exact h.assign popped unused
  | answer r data => exact h.answer r data
  | release pending _ done own =>
    cases own hown
    exact h.release pending done
  | @forget r q pending owner own =>
    -- a pending request has an owner
    cases own hown
    simpa [owner] using (hs.keyed _ r pending).2.2
  | cancelled _ => exact h.frame rfl rfl rfl rfl rfl fun r hr => by simpa [note] using hr
  | drop _ _ => exact h.frame rfl rfl rfl rfl rfl fun r hr => by simpa using hr
  | add _ => exact h.frame rfl rfl rfl rfl rfl fun _ => id
  | shut answered settled =>
    refine ⟨h.answers, fun r hr => ⟨(h.accepted r hr).1, .inl ?_⟩,
      fun _ => ⟨fun r => not_mem_nil, by simp⟩⟩
    obtain ⟨-, hdone | hwaits | hpending⟩ := h.accepted r hr
    · exact hdone
    · exact settled hsettled r hwaits
    · exact answered _ r hpending

/-- **No accepted request is lost**: it has an answer, waits or is pending, and after the end it has
exactly one answer. -/
theorem requests_kept_reach (hreach : Reach step (Orderly ⟨True, False, True⟩) new rm) {r : ReqRef}
    (haccepted : .accepted r ∈ rm.trace) :
    ((rm.request r).respC = [] → r ∈ rm.waitings.all ∨ ∃ id, rm.pendings.lookup id = some r) ∧
      (rm.closed = true → (rm.request r).respC.length = 1) := by
  obtain ⟨-, hkept⟩ := invariant_of_reach kept_new
    (fun _ _ hs h => kept_basic trivial trivial hs h) hreach
  have hanswers := hkept.answers r
  obtain ⟨-, hdone | hwaits | hpending⟩ := hkept.accepted r haccepted
  · rw [if_pos hdone] at hanswers
    exact ⟨fun h => by simp [h] at hanswers, fun _ => hanswers⟩
  · exact ⟨fun _ => .inl hwaits, fun h => absurd hwaits ((hkept.closed h).1 r)⟩
  · refine ⟨fun _ => .inr ⟨_, hpending⟩, fun h => ?_⟩
    rw [(hkept.closed h).2] at hpending
    cases hpending

/-- A request is accepted, and waits for nothing but its answer. -/
theorem requests_kept_sample :
    ∃ rm, exec step new (.refresh [("a", spec)] :: serve) = some rm ∧
      (rm.request 0).respC = [] ∧ (0 ∈ rm.waitings.all ∨ ∃ id, rm.pendings.lookup id = some 0) := by
  have hrun : ((exec step new (.refresh [("a", spec)] :: serve)).map fun rm =>
      (decide (.accepted 0 ∈ rm.trace), (rm.request 0).respC)) = some (true, []) := by
    decide +kernel
  obtain ⟨rm, hrm, haccepted, hnone⟩ := facts_of_map hrun
  exact ⟨rm, hrm, hnone, (requests_kept_reach (reach_serve _ hrm)
    (of_decide_eq_true haccepted)).1 hnone⟩

/-- A request that waits at the end is never answered. -/
theorem closed_unanswered :
    ∃ rm, Reach step anyStep new rm ∧ rm.closed = true ∧ .accepted 0 ∈ rm.trace ∧
      (rm.request 0).respC = [] ∧ 0 ∉ rm.waitings.all ∧ ∀ id, rm.pendings.lookup id = none := by
  have hrun : ((exec step new [.doRequest ⟨0, fun _ => true⟩ [], .newRequest, .close]).map fun rm =>
      (decide (rm.closed = true ∧ .accepted 0 ∈ rm.trace ∧ (rm.request 0).respC = [] ∧
        0 ∉ rm.waitings.all), rm.pendings.entries)) = some (true, []) := by
    decide +kernel
  obtain ⟨rm, hrm, hflags, hentries⟩ := facts_of_map hrun
  obtain ⟨hclosed, haccepted, hnone, hwaits⟩ := of_decide_eq_true hflags
  refine ⟨rm, reach_of_exec hrm, hclosed, haccepted, hnone, hwaits, fun id => ?_⟩
  rw [show rm.pendings = ∅ from AList.ext hentries, AList.lookup_empty]

/-! ## Deliveries -/

/-- The last that happened to a request is its assignment, and the stream has not been removed
since. -/
def LastAssigned (r : ReqRef) (st : StreamRef) (reqID : UInt64) : List Event → Prop
  | [] => False
  | .accepted _ :: es => LastAssigned r st reqID es
  | .assigned q t id :: es => if q = r then t = st ∧ id = reqID else LastAssigned r st reqID es
  | .cancelled q :: es => q ≠ r ∧ LastAssigned r st reqID es
  | .removed t :: es => t ≠ st ∧ LastAssigned r st reqID es

/-- A pending request of a registered stream has last been assigned to it. -/
def Assigned (rm : Manager) : Prop :=
  ∀ id r st, rm.pendings.lookup id = some r → (rm.request r).owner = some st →
    rm.streams.lookup (rm.strm st).id = some st → LastAssigned r st id rm.trace

theorem Assigned.frame (h : rm.Assigned) (hname : ∀ st, (rm'.strm st).id = (rm.strm st).id)
    (hstreams : rm'.streams = rm.streams) (hpendings : ∀ id r, rm'.pendings.lookup id = some r →
      rm.pendings.lookup id = some r ∧ (rm'.request r).owner = (rm.request r).owner)
    (htrace : rm'.trace = rm.trace) : rm'.Assigned := by
  intro id r st hpending howner hregistered
  obtain ⟨hbefore, hsame⟩ := hpendings id r hpending
  rw [hname, hstreams] at hregistered
  rw [htrace]
  exact h id r st hbefore (hsame ▸ howner) hregistered

theorem Assigned.assign (h : rm.Assigned) {r : ReqRef} {st : StreamRef} {reqID : UInt64}
    (hnone : ∀ id, rm.pendings.lookup id ≠ some r) : (rm.addPendingRequest r st reqID).Assigned := by
  intro id x t hpending howner hregistered
  have hname : ((rm.addPendingRequest r st reqID).strm t).id = (rm.strm t).id := by
    unfold addPendingRequest
    grind
  rw [hname] at hregistered
  by_cases hx : x = r
  · subst hx
    have hid : id = reqID := by
      by_contra hne
      rw [addPendingRequest, lookup_insert_apply, if_neg hne] at hpending
      exact hnone id hpending
    have ht : st = t := by simpa [addPendingRequest] using howner
    exact (if_pos rfl).mpr ⟨ht, hid.symm⟩
  · have hid : id ≠ reqID := by
      rintro rfl
      rw [addPendingRequest, lookup_insert_apply, if_pos rfl] at hpending
      exact hx (Option.some.inj hpending).symm
    rw [addPendingRequest, lookup_insert_apply, if_neg hid] at hpending
    have hsame : (rm.addPendingRequest r st reqID).request x = rm.request x :=
      Function.update_of_ne hx _ _
    rw [hsame] at howner
    exact (if_neg (Ne.symm hx)).mpr (h id x t hpending howner hregistered)

theorem Assigned.add (h : rm.Assigned) (hs : rm.Sound) (target : StreamID × ProtoSpec) :
    (rm.addNewStream target).Assigned := by
  intro id r st hpending howner hregistered
  -- the owner is older than the new stream
  have hold : st ≠ rm.nextStrm := (hs.owned r st howner).ne
  have hsame : (rm.addNewStream target).strm st = rm.strm st := Function.update_of_ne hold _ _
  rw [hsame, addNewStream, lookup_insert_apply] at hregistered
  split_ifs at hregistered
  · exact absurd (Option.some.inj hregistered).symm hold
  · exact h id r st hpending howner hregistered

theorem Assigned.drop (h : rm.Assigned) (st : StreamRef) (available : Finset StreamID) :
    Assigned { rm.clear st with
      available := available
      streams := rm.streams.erase (rm.strm st).id
      trace := .removed st :: rm.trace } := by
  intro id r t hpending howner hregistered
  have hname : ((rm.clear st).strm t).id = (rm.strm t).id := by
    unfold clear
    grind
  dsimp only at hregistered
  rw [hname, lookup_erase_apply] at hregistered
  split_ifs at hregistered with hne
  refine ⟨?_, h id r t hpending howner hregistered⟩
  rintro rfl
  exact hne rfl

theorem assigned_basic (hs : rm.Sound) (h : rm.Assigned) (hbasic : Basic M rm rm') :
    rm'.Assigned := by
  have hfewer : ∀ reqID id r, (rm.pendings.erase reqID).lookup id = some r →
      rm.pendings.lookup id = some r := by grind
  cases hbasic with
  | create raw options =>
    refine h.frame (fun _ => rfl) rfl (fun id r hpending => ⟨hpending, ?_⟩) rfl
    exact congrArg Request.owner (Function.update_of_ne (hs.keyed id r hpending).2.1.ne _ _)
  | accept _ _ _ => exact h
  | refuse _ _ => exact h.frame (fun _ => rfl) rfl (fun _ r hr => ⟨hr, (request_answer ..).1⟩) rfl
  | trim _ _ => exact h
  | @assign r st reqID q id popped _ _ _ _ =>
    -- a request that waits has no owner, and so it is not pending
    have hqueued := hs.queued r (mem_append_right _ (popped.symm.subset mem_cons_self))
    have hq : Assigned { rm with waitings := q } := h
    refine hq.assign fun id hpending => ?_
    simpa [hqueued.1] using (hs.keyed id r hpending).2.2
  | answer r data =>
    exact h.frame (fun _ => rfl) rfl (fun _ r hr => ⟨hr, (request_answer ..).1⟩) rfl
  | @release r q st _ _ _ _ =>
    refine h.frame (fun t => ?_) rfl (fun _ r hr => ⟨hfewer _ _ r hr, rfl⟩) rfl
    unfold clear
    grind
  | forget _ _ _ => exact h.frame (fun _ => rfl) rfl (fun _ r hr => ⟨hfewer _ _ r hr, rfl⟩) rfl
  | @cancelled r gone =>
    intro id x st hpending howner hregistered
    refine ⟨?_, h id x st hpending howner hregistered⟩
    rintro rfl
    exact gone id hpending
  | add _ => exact h.add hs _
  | drop _ _ => exact h.drop _ _
  | shut _ _ => simp [Assigned]

/-- A valid delivery comes from the owner of the request, which works on it. -/
theorem validateDelivery_own (hs : rm.Sound) {stID : StreamID} {resp : Response} {r : ReqRef}
    (h : rm.validateDelivery ⟨some resp, stID, none⟩ = .ok r) :
    ∃ st, rm.streams.lookup stID = some st ∧ (rm.strm st).id = stID ∧ (rm.strm st).req = some r ∧
      (rm.request r).owner = some st ∧ rm.pendings.lookup resp.reqID = some r := by
  obtain ⟨_, st, t, q, hresp, hst, hpending, ht, hid, hq, hreqID⟩ := validateDelivery_eq_ok h
  cases hresp
  have hname := (hs.named _ st hst).1
  -- streams of the same name may have come and gone, but the request is not one of theirs
  obtain rfl : r = q := by
    refine hs.own st t q r ?_ hq ?_ ht ?_
    · rwa [hname]
    · rwa [hreqID]
    · rw [hid, hname]
  exact ⟨st, hst, hname, hq, (hs.working st r hq).1, hpending⟩

/-- **A response completes only its own request**: the stream works on what is pending under the id
of the response and was last assigned to it; otherwise nothing changes. -/
theorem delivery_own_reach (hreach : Reach step anyStep new rm) {stID : StreamID} {resp : Response}
    (hstep : rm.step (.deliver stID resp) = some rm') :
    rm' = rm ∨ ∃ r st, rm.streams.lookup stID = some st ∧ (rm.strm st).req = some r ∧
      (rm.request r).owner = some st ∧ rm.pendings.lookup resp.reqID = some r ∧
      LastAssigned r st resp.reqID rm.trace ∧
      rm' = { rm with
        request := Function.update rm.request r
          ((rm.request r).doneWithResponse ⟨some resp, stID, none⟩)
        strm := Function.update rm.strm st { rm.strm st with req := none }
        pendings := rm.pendings.erase resp.reqID
        available := insert stID rm.available } := by
  have horderly : Reach step (Orderly ⟨False, False, False⟩) new rm :=
    hreach.mono fun rm a _ => by cases a <;> simp [Orderly]
  obtain ⟨hs, hassigned⟩ := invariant_of_reach (by simp [Assigned, new])
    (fun _ _ hs h => assigned_basic hs h) horderly
  simp only [step] at hstep
  split_ifs at hstep
  cases hstep
  unfold handleDeliverData
  cases hvalid : rm.validateDelivery ⟨some resp, stID, none⟩ with
  | error e => exact .inl rfl
  | ok r =>
    obtain ⟨st, hst, hname, hreq, howner, hpending⟩ := validateDelivery_own hs hvalid
    refine .inr ⟨r, st, hst, hreq, howner, hpending,
      hassigned _ r st hpending howner (by rwa [hname]), ?_⟩
    have hkeyed := (hs.keyed _ r hpending).1
    change (rm.answer r _).removePendingRequest r = _
    rw [removePendingRequest_answer, removePendingRequest_of_pending (hkeyed.symm ▸ hpending) howner,
      hkeyed, hname]
    rfl

/-- The stream answers, and the request is done. -/
theorem delivery_own_sample :
    ∃ rm rm', exec step new (.refresh [("a", spec)] :: serve) = some rm ∧
      rm.step (.deliver "a" ⟨7, []⟩) = some rm' ∧ (rm'.request 0).done = true ∧
      ∃ r st, rm.streams.lookup "a" = some st ∧ LastAssigned r st 7 rm.trace := by
  have hrun : ((exec step new (.refresh [("a", spec)] :: serve)).map fun rm =>
      ((rm.request 0).done, (rm.step (.deliver "a" ⟨7, []⟩)).map fun rm' =>
        (rm'.request 0).done)) = some (false, some true) := by
    decide +kernel
  obtain ⟨rm, hrm, hbefore, hafter⟩ := facts_of_map hrun
  obtain ⟨rm', hstep, hdone⟩ := map_eq_some_iff.1 hafter
  refine ⟨rm, rm', hrm, hstep, hdone, ?_⟩
  obtain rfl | ⟨r, st, hst, -, -, -, hlast, -⟩ := delivery_own_reach (reach_of_exec hrm) hstep
  · rw [hbefore] at hdone
    cases hdone
  · exact ⟨r, st, hst, hlast⟩

end DyShard.Stream.Manager
