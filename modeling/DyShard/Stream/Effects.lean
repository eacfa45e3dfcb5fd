import DyShard.Stream.RequestManager
import Mathlib.Data.List.Perm.Subperm
import Mathlib.Logic.Relation

/-!
# What a step of the request manager does

Each handler is a sequence of a few basic effects, and each invariant is kept effect by effect.  A
`Mode` says which misuse is left out.
-/

namespace DyShard.Stream

open List

open Relation (ReflTransGen)

section Lookup

variable {α : Type*} {β : Type*} [DecidableEq α] (m : AList fun _ : α => β) (a b : α) (x : β)

@[grind =] theorem lookup_erase_apply :
    (m.erase a).lookup b = if b = a then none else m.lookup b := by
  split_ifs with h
  · subst h
    simp
  · exact AList.lookup_erase_ne h

@[grind =] theorem lookup_insert_apply :
    (m.insert a x).lookup b = if b = a then some x else m.lookup b := by
  split_ifs with h
  · subst h
    simp
  · exact AList.lookup_insert_ne h

end Lookup

attribute [grind =] Function.update_apply

namespace Manager

variable {rm rm' : Manager}

/-! ## Basic effects -/

/-- Misuse that is left out. -/
structure Mode where
  /-- A request releases only what is pending for itself. -/
  own : Prop
  /-- A stream that is removed is idle. -/
  idle : Prop
  /-- What waits at the end has been answered. -/
  settled : Prop

/-- The basic effects. -/
inductive Basic (M : Mode) (rm : Manager) : Manager → Prop
  | create (raw : RawRequest) (options : List RequestOption) :
      Basic M rm (rm.doRequestAsync raw options)
  | accept {r : ReqRef} {rest : List ReqRef} {q : RequestQueues} (taken : rm.newRequestC = r :: rest)
      (pushed : q.all.Perm (r :: rm.waitings.all)) (running : rm.closed = false) :
      Basic M rm { rm with newRequestC := rest, waitings := q, trace := .accepted r :: rm.trace }
  | refuse {r : ReqRef} {rest : List ReqRef} (data : ResponseData)
      (taken : rm.newRequestC = r :: rest) :
      Basic M rm ({ rm with newRequestC := rest }.answer r data)
  | trim {q : RequestQueues} (sub : q.all.Subperm rm.waitings.all)
      (lost : ∀ r ∈ rm.waitings.all, r ∉ q.all → (rm.request r).done = true) :
      Basic M rm { rm with waitings := q }
  | assign {r : ReqRef} {st : StreamRef} {reqID : UInt64} {q : RequestQueues} {id : StreamID}
      (popped : rm.waitings.all.Perm (r :: q.all)) (listed : id ∈ rm.available)
      (registered : rm.streams.lookup id = some st) (idle : (rm.strm st).req = none)
      (unused : rm.pendings.lookup reqID = none) :
      Basic M rm ({ rm with waitings := q }.addPendingRequest r st reqID)
  | answer (r : ReqRef) (data : ResponseData) : Basic M rm (rm.answer r data)
  | release {r q : ReqRef} {st : StreamRef}
      (pending : rm.pendings.lookup (rm.request r).reqID = some q)
      (owner : (rm.request r).owner = some st) (done : (rm.request r).done = true)
      (own : M.own → q = r) :
      Basic M rm { rm.clear st with
        pendings := rm.pendings.erase (rm.request r).reqID
        available := insert (rm.strm st).id rm.available }
  | forget {r q : ReqRef} (pending : rm.pendings.lookup (rm.request r).reqID = some q)
      (owner : (rm.request r).owner = none) (own : M.own → q = r) :
      Basic M rm { rm with pendings := rm.pendings.erase (rm.request r).reqID }
  | cancelled {r : ReqRef} (gone : ∀ id, rm.pendings.lookup id ≠ some r) :
      Basic M rm (rm.note (.cancelled r))
  | add {target : StreamID × ProtoSpec}
      (free : ∀ st, rm.streams.lookup target.1 = some st → (rm.strm st).req = none) :
      Basic M rm (rm.addNewStream target)
  | drop {st : StreamRef} (registered : rm.streams.lookup (rm.strm st).id = some st)
      (idle : M.idle → (rm.strm st).req = none) :
      Basic M rm { rm.clear st with
        available := rm.available.erase (rm.strm st).id
        streams := rm.streams.erase (rm.strm st).id
        trace := .removed st :: rm.trace }
  | shut (answered : ∀ id r, rm.pendings.lookup id = some r → (rm.request r).done = true)
      (settled : M.settled → ∀ r ∈ rm.waitings.all, (rm.request r).done = true) :
      Basic M rm { rm with
        pendings := ∅, available := ∅, streams := ∅, waitings := .new, closed := true }

/-! ## References -/

/-- What holds of the references at any time. -/
structure Sound (rm : Manager) : Prop where
  /-- A registered stream has the id it is registered under. -/
  named : ∀ id st, rm.streams.lookup id = some st → (rm.strm st).id = id ∧ st < rm.nextStrm
  /-- A pending request has the id it is pending under, and an owner. -/
  keyed : ∀ id r, rm.pendings.lookup id = some r →
    (rm.request r).reqID = id ∧ r < rm.nextReq ∧ (rm.request r).owner.isSome
  nodup : (rm.newRequestC ++ rm.waitings.all).Nodup
  /-- A request that waits has no owner. -/
  queued : ∀ r ∈ rm.newRequestC ++ rm.waitings.all, (rm.request r).owner = none ∧ r < rm.nextReq
  owned : ∀ r st, (rm.request r).owner = some st → st < rm.nextStrm
  /-- A stream works on requests it owns. -/
  working : ∀ st r, (rm.strm st).req = some r → (rm.request r).owner = some st ∧ r < rm.nextReq
  /-- If a stream works on a request, then what is pending under the id of the request and belongs
  to a stream of the same name is that request. -/
  own : ∀ st t q r, rm.streams.lookup (rm.strm st).id = some st → (rm.strm st).req = some q →
    rm.pendings.lookup (rm.request q).reqID = some r → (rm.request r).owner = some t →
    (rm.strm t).id = (rm.strm st).id → r = q

theorem sound_new : Sound new := by
  constructor <;> simp [new, newRequest, RequestQueues.new, RequestQueues.all]

variable {q q' : RequestQueues} {r : ReqRef}

theorem Sound.queues (h : Sound rm) {c : List ReqRef}
    (hsub : (c ++ q.all).Subperm (rm.newRequestC ++ rm.waitings.all)) :
    Sound { rm with newRequestC := c, waitings := q } := by
  obtain ⟨l, hperm, hsublist⟩ := hsub
  exact ⟨h.named, h.keyed, hperm.nodup_iff.1 (h.nodup.sublist hsublist),
    fun r hr => h.queued r (hsublist.subset (hperm.symm.subset hr)), h.owned, h.working, h.own⟩

theorem newRequest_fresh (raw : RawRequest) (options : List RequestOption) :
    (newRequest raw options).owner = none ∧ (newRequest raw options).done = false ∧
      (newRequest raw options).respC = [] := by
  unfold newRequest
  generalize hreq : Request.mk raw.reqID _ _ _ _ _ _ _ = req
  have hfresh : req.owner = none ∧ req.done = false ∧ req.respC = [] := by simp [← hreq]
  clear hreq
  induction options generalizing req with
  | nil => exact hfresh
  | cons option options ih => exact ih _ (by cases option <;> exact hfresh)

theorem request_answer (rm : Manager) (r : ReqRef) (data : ResponseData) (x : ReqRef) :
    ((rm.answer r data).request x).owner = (rm.request x).owner ∧
      ((rm.answer r data).request x).reqID = (rm.request x).reqID := by
  unfold answer Request.doneWithResponse
  grind

section

variable (h : Sound rm)
include h

theorem sound_doRequestAsync (raw : RawRequest) (options : List RequestOption) :
    Sound (rm.doRequestAsync raw options) := by
  obtain ⟨named, keyed, nodup, queued, owned, working, own⟩ := h
  have hfresh := newRequest_fresh raw options
  unfold doRequestAsync
  constructor
  case nodup =>
    have hnew : rm.nextReq ∉ rm.newRequestC ++ rm.waitings.all := fun hmem =>
      lt_irrefl _ (queued _ hmem).2
    grind
  all_goals grind

theorem sound_answer (r : ReqRef) (data : ResponseData) : Sound (rm.answer r data) := by
  obtain ⟨named, keyed, nodup, queued, owned, working, own⟩ := h
  unfold answer Request.doneWithResponse
  constructor <;> grind

theorem sound_addPendingRequest {st : StreamRef} {reqID : UInt64} {id : StreamID}
    (hr : (rm.request r).owner = none) (hlt : r < rm.nextReq)
    (hwaiting : r ∉ rm.newRequestC ++ rm.waitings.all)
    (hregistered : rm.streams.lookup id = some st) : Sound (rm.addPendingRequest r st reqID) := by
  obtain ⟨named, keyed, nodup, queued, owned, working, own⟩ := h
  unfold addPendingRequest
  constructor
  case own =>
    intro t u x y ht hx hy hu hid
    have hnames : ∀ v, (Function.update rm.strm st { rm.strm st with req := some r } v).id =
        (rm.strm v).id := by grind
    rw [hnames] at ht hid
    rw [hnames] at hid
    grind
  all_goals grind

theorem sound_clear (st : StreamRef) : Sound (rm.clear st) := by
  obtain ⟨named, keyed, nodup, queued, owned, working, own⟩ := h
  unfold clear
  constructor <;> grind

theorem sound_pendings (id : UInt64) (available : Finset StreamID) :
    Sound { rm with pendings := rm.pendings.erase id, available := available } := by
  obtain ⟨named, keyed, nodup, queued, owned, working, own⟩ := h
  constructor <;> grind

theorem sound_streams (id : StreamID) (available : Finset StreamID) (trace : List Event) :
    Sound { rm with streams := rm.streams.erase id, available := available, trace := trace } := by
  obtain ⟨named, keyed, nodup, queued, owned, working, own⟩ := h
  constructor <;> grind

theorem sound_addNewStream (target : StreamID × ProtoSpec) : Sound (rm.addNewStream target) := by
  obtain ⟨named, keyed, nodup, queued, owned, working, own⟩ := h
  unfold addNewStream
  constructor <;> grind

theorem sound_basic {M : Mode} (hbasic : Basic M rm rm') : Sound rm' := by
  cases hbasic with
  | create raw options => exact sound_doRequestAsync h raw options
  | @accept r rest q taken pushed _ =>
    have hsub : (rest ++ q.all).Subperm (rm.newRequestC ++ rm.waitings.all) := by
      rw [taken]
      exact (((List.Perm.refl rest).append pushed).trans perm_middle).subperm
    have h' := h.queues hsub
    exact ⟨h'.named, h'.keyed, h'.nodup, h'.queued, h'.owned, h'.working, h'.own⟩
  | @refuse r rest data taken =>
    refine sound_answer (h.queues ?_) r data
    rw [taken]
    exact (sublist_cons_self _ _).subperm
  | trim sub _ => exact h.queues ((subperm_append_left _).2 sub)
  | @assign r st reqID q id popped _ registered _ _ =>
    have hperm : (rm.newRequestC ++ rm.waitings.all).Perm (r :: (rm.newRequestC ++ q.all)) :=
      ((List.Perm.refl _).append popped).trans perm_middle
    have hqueued := h.queued r (hperm.symm.subset mem_cons_self)
    have htrimmed := h.queues
      (List.Subperm.trans (sublist_cons_self _ _).subperm hperm.symm.subperm)
    exact sound_addPendingRequest htrimmed hqueued.1 hqueued.2
      (nodup_cons.1 (hperm.nodup_iff.1 h.nodup)).1 registered
  | answer r data => exact sound_answer h r data
  | release _ _ _ _ => exact sound_pendings (sound_clear h _) _ _
  | forget _ _ _ => exact sound_pendings h _ _
  | cancelled _ => exact ⟨h.named, h.keyed, h.nodup, h.queued, h.owned, h.working, h.own⟩
  | add _ => exact sound_addNewStream h _
  | drop _ _ => exact sound_streams (sound_clear h _) _ _ _
  | shut _ _ =>
    have htrimmed := h.queues (q := .new) ((subperm_append_left _).2 nil_subperm)
    exact ⟨by simp, by simp, htrimmed.nodup, htrimmed.queued, h.owned, h.working, by simp⟩

theorem sound_basics {M : Mode} (hbasics : ReflTransGen (Basic M) rm rm') : Sound rm' := by
  induction hbasics with
  | refl => exact h
  | tail _ hbasic ih => exact sound_basic ih hbasic

end

/-! ## Queues -/

theorem push_eq_ok {own priority : Priority} (h : q.push r own priority = .ok q') :
    q'.all.Perm (r :: q.all) := by
  have hqueue : ∀ {l l' : List ReqRef}, pushQueue l r = .ok l' → l' = l ++ [r] := by
    intro l l' hl
    unfold pushQueue at hl
    split_ifs at hl
    exact (Except.ok.inj hl).symm
  unfold RequestQueues.push at h
  split_ifs at h
  · cases hl : pushQueue q.reqsPHigh r with
    | error e => simp [hl, Except.map] at h
    | ok l =>
      rw [hl] at h
      cases (Except.ok.inj h).symm
      simp only [RequestQueues.all, hqueue hl, append_assoc]
      exact perm_middle
  · cases hl : pushQueue q.reqsPLow r with
    | error e => simp [hl, Except.map] at h
    | ok l =>
      rw [hl] at h
      cases (Except.ok.inj h).symm
      simp only [RequestQueues.all, hqueue hl, ← append_assoc]
      exact perm_append_singleton _ _

theorem pop_eq_some (h : q.pop = some (r, q')) :
    q.all = r :: q'.all ∧ (q'.reqsPHigh.length + 1 = q.reqsPHigh.length ∨ q'.reqsPHigh = []) := by
  obtain ⟨high, low⟩ := q
  cases high with
  | cons x high =>
    cases h
    exact ⟨rfl, .inl rfl⟩
  | nil =>
    cases low with
    | nil => cases h
    | cons x low =>
      cases h
      exact ⟨rfl, .inr rfl⟩

theorem pop_eq_none (h : q.pop = none) : q.all = [] := by
  obtain ⟨_ | ⟨x, high⟩, _ | ⟨y, low⟩⟩ := q
  · rfl
  all_goals cases h

theorem popUndone_some {done : ReqRef → Bool} {fuel : ℕ} (h : popUndone done fuel q = (some r, q')) :
    ∃ dropped, q.all = dropped ++ r :: q'.all ∧ (∀ x ∈ dropped, done x = true) ∧ done r = false ∧
      (q'.reqsPHigh.length < q.reqsPHigh.length ∨ q'.reqsPHigh = []) := by
  induction fuel generalizing q with
  | zero => cases h
  | succ fuel ih =>
    unfold popUndone at h
    cases hpop : q.pop with
    | none => simp [hpop] at h
    | some p =>
      obtain ⟨x, q₁⟩ := p
      obtain ⟨hall, hhigh⟩ := pop_eq_some hpop
      simp only [hpop] at h
      split_ifs at h with hdone
      · obtain ⟨dropped, hq₁, hdropped, hr, hlen⟩ := ih h
        refine ⟨x :: dropped, by rw [hall, hq₁, cons_append], ?_, hr, ?_⟩
        · rintro y hy
          obtain rfl | hy := mem_cons.1 hy
          · exact hdone
          · exact hdropped y hy
        · obtain hlen | hlen := hlen
          · obtain hhigh | hhigh := hhigh
            · left
              omega
            · rw [hhigh] at hlen
              exact absurd hlen (Nat.not_lt_zero _)
          · exact .inr hlen
      · obtain ⟨hx, rfl⟩ := Prod.mk.inj h
        cases hx
        refine ⟨[], hall, fun _ hx => absurd hx not_mem_nil, by simpa using hdone, ?_⟩
        exact hhigh.imp (fun hhigh => by omega) id

theorem popUndone_none {done : ReqRef → Bool} {fuel : ℕ} (hfuel : q.all.length < fuel)
    (h : popUndone done fuel q = (none, q')) : q'.all = [] ∧ ∀ x ∈ q.all, done x = true := by
  induction fuel generalizing q with
  | zero => exact absurd hfuel (Nat.not_lt_zero _)
  | succ fuel ih =>
    unfold popUndone at h
    cases hpop : q.pop with
    | none =>
      simp only [hpop] at h
      cases h
      have hall := pop_eq_none hpop
      exact ⟨hall, fun x hx => absurd (hall ▸ hx) not_mem_nil⟩
    | some p =>
      obtain ⟨hall, -⟩ := pop_eq_some hpop
      simp only [hpop] at h
      split_ifs at h with hdone
      · rw [hall, length_cons] at hfuel
        obtain ⟨hq', hrest⟩ := ih (by omega) h
        refine ⟨hq', fun y hy => ?_⟩
        rw [hall] at hy
        obtain rfl | hy := mem_cons.1 hy
        · exact hdone
        · exact hrest y hy
      · cases (Prod.mk.inj h).1

end Manager
end DyShard.Stream
