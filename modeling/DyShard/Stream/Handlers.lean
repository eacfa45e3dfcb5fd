import DyShard.Stream.Effects

/-!
# The handlers of the request manager

Every step is a sequence of basic effects.  Whether releases, removals and the end are `Orderly` is
asked of the step once.
-/

namespace DyShard.Stream.Manager

open List Nat RequestQueues

open Relation (ReflTransGen)
open Transition (Reach)

variable {rm rm' : Manager} {M : Mode}

/-! ## Room -/

/-- The queue of high priority is not too long. -/
def Bounded (rm : Manager) : Prop := rm.waitings.reqsPHigh.length ≤ maxWaitingSize

/-- Basic effects, which keep the queue of high priority short. -/
def Leads (M : Mode) (rm rm' : Manager) : Prop :=
  ReflTransGen (Basic M) rm rm' ∧ (rm.Bounded → rm'.Bounded)

theorem Leads.refl (rm : Manager) : Leads M rm rm := ⟨.refl, id⟩

theorem Leads.trans {rm'' : Manager} (h : Leads M rm rm') (h' : Leads M rm' rm'') :
    Leads M rm rm'' := ⟨h.1.trans h'.1, h'.2 ∘ h.2⟩

theorem Basic.leads (h : Basic M rm rm') (hwaitings : rm'.waitings = rm.waitings) :
    Leads M rm rm' := by
  refine ⟨.single h, fun hbounded => ?_⟩
  rwa [Bounded, hwaitings]

theorem leads_foldl {α : Type} {f : Manager → α → Manager} {P : Manager → List α → Prop}
    (hround : ∀ rm x xs, P rm (x :: xs) → Leads M rm (f rm x) ∧ P (f rm x) xs) (xs : List α)
    (h : P rm xs) : Leads M rm (xs.foldl f rm) ∧ P (xs.foldl f rm) [] := by
  induction xs generalizing rm with
  | nil => exact ⟨.refl _, h⟩
  | cons x xs ih =>
    obtain ⟨hx, hxs⟩ := hround rm x xs h
    exact (ih hxs).imp_left hx.trans

variable {r : ReqRef} {st : StreamRef}

theorem bounded_push {q q' : RequestQueues} {own priority : Priority}
    (h : q.push r own priority = .ok q') (hq : q.reqsPHigh.length ≤ maxWaitingSize) :
    q'.reqsPHigh.length ≤ maxWaitingSize := by
  unfold push pushQueue at h
  split_ifs at h <;> grind [Except.map]

theorem push_high {q : RequestQueues} (r : ReqRef) (own : Priority)
    (h : q.reqsPHigh.length < maxWaitingSize) : ∃ q', q.push r own .high = .ok q' := by
  refine ⟨{ q with reqsPHigh := q.reqsPHigh ++ [r] }, ?_⟩
  unfold push pushQueue
  rw [if_pos (.inl rfl), if_neg (by omega)]
  rfl

/-! ## Rounds of the throttle -/

theorem pickAvailableStream_eq_ok {order : List StreamID}
    (h : rm.pickAvailableStream r order = .ok st) :
    ∃ id ∈ order, rm.streams.lookup id = some st ∧ (rm.strm st).req = none := by
  induction order with
  | nil => cases h
  | cons id ids ih =>
    unfold pickAvailableStream at h
    grind [Option.isSome_iff_ne_none]

/-- What a round finds: nothing, and the queues keep what is not done, or a request and a stream. -/
theorem leads_getNextRequest (hbounded : rm.Bounded) {order : List StreamID}
    (horder : rm.Orders order) {o : Option (ReqRef × StreamRef)}
    (h : rm.getNextRequest order = (rm', o)) :
    rm'.Bounded ∧
      match o with
      | none => ReflTransGen (Basic M) rm rm'
      | some (r, st) => ∀ reqID, rm'.pendings.lookup reqID = none →
          ReflTransGen (Basic M) rm (rm'.addPendingRequest r st reqID) := by
  unfold getNextRequest at h
  cases hpop : popUndone (fun r => (rm.request r).done) (rm.waitings.all.length + 1) rm.waitings with
  | mk found q =>
  rw [hpop] at h
  cases found with
  | none =>
    cases h
    obtain ⟨hnil, hdone⟩ := popUndone_none (lt_succ_self _) hpop
    refine ⟨?_, .single (.trim ?_ fun r hr _ => hdone r hr)⟩
    · have hhigh : q.reqsPHigh = [] := (append_eq_nil_iff.1 hnil).1
      simp [Bounded, hhigh]
    · rw [hnil]
      exact nil_subperm
  | some r =>
    obtain ⟨dropped, hall, hdropped, -, hhigh⟩ := popUndone_some hpop
    have hroom : q.reqsPHigh.length < maxWaitingSize := by
      obtain hhigh | hhigh := hhigh
      · exact lt_of_lt_of_le hhigh hbounded
      · rw [hhigh]
        exact succ_pos _
    -- the done requests in front are dropped
    have htrim : ∀ q' : RequestQueues, q'.all.Perm (r :: q.all) →
        Basic M rm { rm with waitings := q' } := by
      intro q' hq'
      refine .trim ?_ fun x hx hxq => ?_
      · rw [hall]
        exact hq'.subperm.trans (sublist_append_right _ _).subperm
      · rw [hall] at hx
        obtain hx | hx := mem_append.1 hx
        · exact hdropped x hx
        · exact absurd (hq'.symm.subset hx) hxq
    dsimp only at h
    cases hpick : pickAvailableStream { rm with waitings := q } r order with
    | error e =>
      rw [hpick] at h
      obtain ⟨q', hpush⟩ := push_high r (rm.request r).priority hroom
      simp only [addRequestToWaitings, hpush, Except.map] at h
      cases h
      exact ⟨bounded_push hpush hroom.le, .single (htrim q' (push_eq_ok hpush))⟩
    | ok st =>
      rw [hpick] at h
      cases h
      obtain ⟨id, hid, hregistered, hidle⟩ := pickAvailableStream_eq_ok hpick
      refine ⟨hroom.le, fun reqID hunused => ?_⟩
      let front : RequestQueues := ⟨r :: q.reqsPHigh, q.reqsPLow⟩
      have hlisted : id ∈ rm.available := by
        rw [← horder.2]
        exact mem_toFinset.2 hid
      exact .tail (.single (htrim front (List.Perm.refl _)))
        (.assign (List.Perm.refl _) hlisted hregistered hidle hunused)

theorem leads_throttle {choices : List Choice} (hbounded : rm.Bounded)
    (h : rm.throttle choices = some rm') : Leads M rm rm' := by
  induction choices generalizing rm with
  | nil =>
    obtain rfl := Option.some.inj h
    exact .refl rm
  | cons c cs ih =>
    unfold throttle at h
    split_ifs at h with horder
    cases hnext : rm.getNextRequest c.order with
    | mk rm₁ o =>
    obtain ⟨hbounded₁, hbasics⟩ := leads_getNextRequest hbounded horder hnext
    rw [hnext] at h
    cases o with
    | none =>
      cases h
      exact ⟨hbasics, fun _ => hbounded₁⟩
    | some p =>
      dsimp only at h
      split_ifs at h with hunused
      have hrest : Leads M (rm₁.addPendingRequest p.1 p.2 c.reqID) rm' := ih hbounded₁ h
      exact ⟨(hbasics c.reqID (Option.isNone_iff_eq_none.1 hunused)).trans hrest.1,
        fun _ => hrest.2 hbounded₁⟩

/-! ## The other handlers -/

/-- A step keeps to the mode. -/
def Orderly (M : Mode) (rm : Manager) : Act → Prop
  | .cancel r _ => M.own → ∀ q, rm.pendings.lookup (rm.request r).reqID = some q → q = r
  | .refresh targets => M.idle → ∀ id st, rm.streams.lookup id = some st →
      id ∉ targets.map Prod.fst → (rm.strm st).req = none
  | .close => M.settled → ∀ r ∈ rm.waitings.all, (rm.request r).done = true
  | _ => True

theorem leads_answer (r : ReqRef) (data : ResponseData) : Leads M rm (rm.answer r data) :=
  (Basic.answer r data).leads rfl

theorem answer_done (r : ReqRef) (data : ResponseData) :
    ((rm.answer r data).request r).done = true := by
  unfold answer Request.doneWithResponse
  grind

@[simp] theorem answer_reqID (r q : ReqRef) (data : ResponseData) :
    ((rm.answer r data).request q).reqID = (rm.request q).reqID := by
  unfold answer Request.doneWithResponse
  grind

@[simp] theorem answer_owner (r q : ReqRef) (data : ResponseData) :
    ((rm.answer r data).request q).owner = (rm.request q).owner := by
  unfold answer Request.doneWithResponse
  grind

theorem removePendingRequest_of_pending {q : ReqRef}
    (hpending : rm.pendings.lookup (rm.request r).reqID = some q)
    (howner : (rm.request r).owner = some st) :
    rm.removePendingRequest r = { rm.clear st with
      pendings := rm.pendings.erase (rm.request r).reqID
      available := insert (rm.strm st).id rm.available } := by
  unfold removePendingRequest
  rw [hpending]
  simp only [howner]
  rfl

theorem leads_removePendingRequest (hdone : (rm.request r).done = true)
    (hown : M.own → ∀ q, rm.pendings.lookup (rm.request r).reqID = some q → q = r) :
    Leads M rm (rm.removePendingRequest r) := by
  cases hpending : rm.pendings.lookup (rm.request r).reqID with
  | none =>
    simp only [removePendingRequest, hpending]
    exact .refl rm
  | some q =>
    cases howner : (rm.request r).owner with
    | none =>
      simp only [removePendingRequest, hpending, howner]
      exact (Basic.forget hpending howner fun h => hown h q hpending).leads rfl
    | some st =>
      rw [removePendingRequest_of_pending hpending howner]
      exact (Basic.release hpending howner hdone fun h => hown h q hpending).leads rfl

theorem validateDelivery_eq_ok {data : ResponseData} (h : rm.validateDelivery data = .ok r) :
    ∃ resp st t q, data.resp = some resp ∧ rm.streams.lookup data.stID = some st ∧
      rm.pendings.lookup resp.reqID = some r ∧ (rm.request r).owner = some t ∧
      (rm.strm t).id = data.stID ∧ (rm.strm st).req = some q ∧
      (rm.request q).reqID = resp.reqID := by
  unfold validateDelivery at h
  grind [Option.map_eq_some_iff]

theorem leads_handleDeliverData (hsound : rm.Sound) (data : ResponseData) :
    Leads M rm (rm.handleDeliverData data) := by
  unfold handleDeliverData
  cases hvalid : rm.validateDelivery data with
  | error e => exact .refl rm
  | ok r =>
    refine (leads_answer r data).trans (leads_removePendingRequest (answer_done r data) fun _ q hq => ?_)
    -- what is pending under the id of the request is the request
    obtain ⟨resp, st, t, q', -, -, hpending, -⟩ := validateDelivery_eq_ok hvalid
    have hkeyed := (hsound.keyed _ _ hpending).1
    rw [answer_reqID, hkeyed] at hq
    exact Option.some.inj (hq.symm.trans hpending)

theorem removePendingRequest_answer (r : ReqRef) (data : ResponseData) :
    (rm.answer r data).removePendingRequest r = (rm.removePendingRequest r).answer r data := by
  unfold removePendingRequest
  rw [answer_reqID, show (rm.answer r data).pendings = rm.pendings from rfl]
  cases rm.pendings.lookup (rm.request r).reqID with
  | none => rfl
  | some q =>
    simp only [answer_owner]
    cases (rm.request r).owner <;> rfl

theorem lookup_removePendingRequest {q : ReqRef} {id : UInt64}
    (h : (rm.removePendingRequest r).pendings.lookup id = some q) :
    id ≠ (rm.request r).reqID ∧ rm.pendings.lookup id = some q := by
  unfold removePendingRequest clear at h
  grind

theorem basic_remove (hdone : (rm.request r).done = true) :
    Basic M rm { rm with waitings := rm.waitings.remove r } := by
  refine .trim ((erase_sublist).append (erase_sublist)).subperm fun x hx hxq => ?_
  obtain rfl : x = r := by
    by_contra hne
    apply hxq
    simpa [RequestQueues.remove, RequestQueues.all, mem_erase_of_ne hne] using hx
  exact hdone

theorem leads_handleCancelRequest (hsound : rm.Sound)
    (hown : M.own → ∀ q, rm.pendings.lookup (rm.request r).reqID = some q → q = r) (err : String) :
    Leads M rm (rm.handleCancelRequest r err) := by
  unfold handleCancelRequest
  dsimp only
  rw [← removePendingRequest_answer]
  generalize ResponseData.mk _ _ _ = data
  have hanswered : Leads M rm ({ rm with waitings := rm.waitings.remove r }.answer r data) := by
    refine (leads_answer r data).trans ⟨.single (basic_remove (answer_done r data)), fun hb => ?_⟩
    exact (erase_sublist).length_le.trans hb
  have hreleased := hanswered.trans (leads_removePendingRequest (answer_done r data)
    fun h q hq => hown h q (by rwa [answer_reqID] at hq))
  refine hreleased.trans ((Basic.cancelled fun id hid => ?_).leads rfl)
  obtain ⟨hne, hid⟩ := lookup_removePendingRequest hid
  exact hne ((sound_basics hsound hanswered.1).keyed id r hid).1.symm

theorem leads_removeStream (hregistered : rm.streams.lookup (rm.strm st).id = some st)
    (hidle : M.idle → (rm.strm st).req = none) : Leads M rm (rm.removeStream st) := by
  have hdrop := (Basic.drop hregistered hidle).leads rfl
  unfold removeStream
  cases (rm.strm st).req with
  | none => exact hdrop
  | some r => exact hdrop.trans (leads_answer r _)

theorem removeStream_streams (st : StreamRef) :
    (rm.removeStream st).streams = rm.streams.erase (rm.strm st).id := by
  unfold removeStream
  cases (rm.strm st).req <;> rfl

theorem removeStream_of_ne {t : StreamRef} (h : t ≠ st) :
    (rm.removeStream st).strm t = rm.strm t := by
  unfold removeStream
  cases (rm.strm st).req <;> exact Function.update_of_ne h _ _

theorem leads_removeStreams {sts : List StreamRef} (hnodup : (sts.map fun st => (rm.strm st).id).Nodup)
    (hregistered : ∀ st ∈ sts, rm.streams.lookup (rm.strm st).id = some st)
    (hidle : M.idle → ∀ st ∈ sts, (rm.strm st).req = none) :
    Leads M rm (sts.foldl removeStream rm) := by
  refine (leads_foldl (P := fun rm sts => (sts.map fun st => (rm.strm st).id).Nodup ∧
    (∀ st ∈ sts, rm.streams.lookup (rm.strm st).id = some st) ∧
    (M.idle → ∀ st ∈ sts, (rm.strm st).req = none)) ?_ sts ⟨hnodup, hregistered, hidle⟩).1
  rintro rm st sts ⟨hnodup, hregistered, hidle⟩
  obtain ⟨hst, hnodup⟩ := nodup_cons.1 hnodup
  refine ⟨leads_removeStream (hregistered st mem_cons_self) fun h =>
    hidle h st mem_cons_self, ?_⟩
  -- the others have other names, so the removal does not concern them
  have hothers : ∀ t ∈ sts, (rm.strm t).id ≠ (rm.strm st).id ∧
      (rm.removeStream st).strm t = rm.strm t := by
    intro t ht
    have hname : (rm.strm t).id ≠ (rm.strm st).id := by
      intro h
      exact hst (mem_map.2 ⟨t, ht, h⟩)
    refine ⟨hname, removeStream_of_ne ?_⟩
    rintro rfl
    exact hname rfl
  refine ⟨?_, fun t ht => ?_, fun h t ht => ?_⟩
  · rwa [map_congr_left fun t ht => by rw [(hothers t ht).2]]
  · rw [removeStream_streams, (hothers t ht).2, lookup_erase_apply, if_neg (hothers t ht).1]
    exact hregistered t (mem_cons_of_mem _ ht)
  · rw [(hothers t ht).2]
    exact hidle h t (mem_cons_of_mem _ ht)

theorem leads_addNewStreams (hsound : rm.Sound) (added : List (StreamID × ProtoSpec))
    (hnew : ∀ target ∈ added, rm.streams.lookup target.1 = none) :
    Leads M rm (added.foldl addNewStream rm) ∧
      ∀ id st, id ∉ added.map Prod.fst → rm.streams.lookup id = some st →
        (added.foldl addNewStream rm).streams.lookup id = some st ∧
        (added.foldl addNewStream rm).strm st = rm.strm st := by
  have hloop := leads_foldl (M := M) (f := addNewStream) (P := fun rm' targets =>
    rm.nextStrm ≤ rm'.nextStrm ∧ (∀ target ∈ targets, target ∈ added ∧
      ∀ st, rm'.streams.lookup target.1 = some st → (rm'.strm st).req = none ∧ st < rm'.nextStrm) ∧
    ∀ id st, id ∉ added.map Prod.fst → rm.streams.lookup id = some st →
      rm'.streams.lookup id = some st ∧ rm'.strm st = rm.strm st) ?_ added
    ⟨le_rfl, fun target htarget => ⟨htarget, by simp [hnew target htarget]⟩,
      fun id st _ hst => ⟨hst, rfl⟩⟩
  · exact ⟨hloop.1, hloop.2.2.2⟩
  · rintro rm' target targets ⟨hle, htargets, hold⟩
    refine ⟨(Basic.add fun st hst => ((htargets target mem_cons_self).2 st hst).1).leads rfl, ?_⟩
    have hnamed := hsound.named
    unfold addNewStream
    refine ⟨le_succ_of_le hle, ?_, ?_⟩
    · grind
    · grind

theorem leads_refreshStreams (hsound : rm.Sound) {targets : List (StreamID × ProtoSpec)}
    (hidle : M.idle → ∀ id st, rm.streams.lookup id = some st → id ∉ targets.map Prod.fst →
      (rm.strm st).req = none) : Leads M rm (rm.refreshStreams targets) := by
  unfold refreshStreams checkStreamUpdates
  obtain ⟨hadded, hold⟩ := leads_addNewStreams hsound
    (targets.filter fun target => (rm.streams.lookup target.1).isNone) (by simp)
  -- an entry that goes is as it was before the additions
  have hentry : ∀ e ∈ rm.streams.entries.filter fun e => e.1 ∉ targets.map Prod.fst,
      e.1 ∉ targets.map Prod.fst ∧ rm.streams.lookup e.1 = some e.2 := by
    intro e he
    obtain ⟨hmem, hgone⟩ := mem_filter.1 he
    exact ⟨of_decide_eq_true hgone, AList.mem_lookup_iff.2 hmem⟩
  have hkept := fun e he => hold e.1 e.2 (fun h => (hentry e he).1
    (map_subset _ (filter_sublist.subset) h)) (hentry e he).2
  have hname := fun e he => (hsound.named e.1 e.2 (hentry e he).2).1
  refine hadded.trans (leads_removeStreams ?_ ?_ ?_)
  · rw [map_map, map_congr_left fun e he => by
      rw [Function.comp_apply, (hkept e he).2, hname e he]]
    exact (filter_sublist.map Sigma.fst).nodup rm.streams.nodupKeys
  · intro st hst
    obtain ⟨e, he, rfl⟩ := mem_map.1 hst
    rw [(hkept e he).2, hname e he]
    exact (hkept e he).1
  · intro h st hst
    obtain ⟨e, he, rfl⟩ := mem_map.1 hst
    rw [(hkept e he).2]
    exact hidle h e.1 e.2 (hentry e he).2 (hentry e he).1

theorem leads_close (hsettled : M.settled → ∀ r ∈ rm.waitings.all, (rm.request r).done = true) :
    Leads M rm rm.close := by
  unfold close
  generalize hanswer : (fun (rm : Manager) (r : ReqRef) =>
    rm.answer r ⟨none, "", some errClosed⟩) = f
  have hf : ∀ rm r, f rm r = rm.answer r ⟨none, "", some errClosed⟩ := fun _ _ => hanswer ▸ rfl
  have hloop := leads_foldl (M := M) (f := f) (P := fun rm' rs =>
    rm'.pendings = rm.pendings ∧ rm'.waitings = rm.waitings ∧
    (∀ r, (rm.request r).done = true → (rm'.request r).done = true) ∧
    ∀ id r, rm.pendings.lookup id = some r → r ∈ rs ∨ (rm'.request r).done = true) ?_
    (rm.pendings.entries.map Sigma.snd) ⟨rfl, rfl, fun _ => id, fun id r hr =>
      .inl (mem_map.2 ⟨⟨id, r⟩, AList.mem_lookup_iff.1 hr, rfl⟩)⟩
  · obtain ⟨hleads, hpendings, hwaitings, hdone, hanswered⟩ := hloop
    refine hleads.trans ⟨.single (.shut ?_ ?_), fun _ => zero_le _⟩
    · intro id r hr
      rw [hpendings] at hr
      exact (hanswered id r hr).resolve_left not_mem_nil
    · intro h r hr
      rw [hwaitings] at hr
      exact hdone r (hsettled h r hr)
  · rintro rm' r rs ⟨hpendings, hwaitings, hdone, hanswered⟩
    rw [hf]
    refine ⟨leads_answer r _, hpendings, hwaitings, ?_⟩
    unfold answer Request.doneWithResponse
    grind

theorem leads_of_step (hsound : rm.Sound) (hbounded : rm.Bounded) {a : Act}
    (hok : Orderly M rm a) (hstep : rm.step a = some rm') : Leads M rm rm' := by
  cases a with
  | doRequest raw options =>
    simp only [step] at hstep
    split_ifs at hstep
    cases hstep
    exact (Basic.create raw options).leads rfl
  | newRequest =>
    simp only [step] at hstep
    split at hstep
    · next r rest hclosed hc =>
      cases hstep
      unfold handleNewRequest addRequestToWaitings
      cases hpush : rm.waitings.push r (rm.request r).priority .low with
      | error e => exact (Basic.refuse _ hc).leads rfl
      | ok q =>
        exact ⟨.single (.accept hc (push_eq_ok hpush) hclosed), fun hb => bounded_push hpush hb⟩
    · cases hstep
  | throttle choices =>
    simp only [step] at hstep
    split_ifs at hstep
    exact leads_throttle hbounded hstep
  | deliver stID resp =>
    simp only [step] at hstep
    split_ifs at hstep
    cases hstep
    exact leads_handleDeliverData hsound _
  | cancel r err =>
    simp only [step] at hstep
    split_ifs at hstep
    cases hstep
    exact leads_handleCancelRequest hsound hok err
  | refresh targets =>
    simp only [step] at hstep
    split_ifs at hstep
    cases hstep
    exact leads_refreshStreams hsound hok
  | writeError r err =>
    simp only [step] at hstep
    split at hstep
    · cases hstep
    · cases hstep
      exact leads_answer r _
  | close =>
    simp only [step] at hstep
    split_ifs at hstep
    cases hstep
    exact leads_close hok

/-- **What every basic effect keeps holds in every reachable state.** -/
theorem invariant_of_reach {P : Manager → Prop} (hnew : P new)
    (hbasic : ∀ rm rm', rm.Sound → P rm → Basic M rm rm' → P rm')
    (hreach : Reach step (Orderly M) new rm) : rm.Sound ∧ P rm := by
  have hinv : rm.Bounded ∧ rm.Sound ∧ P rm := by
    refine hreach.invariant (P := fun rm => rm.Bounded ∧ rm.Sound ∧ P rm)
      ⟨zero_le _, sound_new, hnew⟩ ?_
    rintro rm a rm' ⟨hbounded, hsound, hP⟩ hok hstep
    obtain ⟨hbasics, hbounded'⟩ := leads_of_step hsound hbounded hok hstep
    refine ⟨hbounded' hbounded, ?_⟩
    clear hstep hbounded'
    induction hbasics with
    | refl => exact ⟨hsound, hP⟩
    | tail _ hb ih => exact ⟨sound_basic ih.1 hb, hbasic _ _ ih.1 ih.2 hb⟩
  exact hinv.2

end DyShard.Stream.Manager
