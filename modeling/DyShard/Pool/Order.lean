import DyShard.Pool.Index

/-!
# The order of pending transactions

The nonces of the pending transactions of an account have to be consecutive.  The pool does not
check this: it follows from the managed nonce, which never runs ahead of the pending list.
-/

namespace DyShard.Pool.TxPool

open List Option PoolTransaction TxList AList SortedMap

open SortedMap (Split Contiguous)

variable {P : Type} {s s' s'' : TxPool P} {o : Outside} {tx : PoolTransaction} {addr : Address}

/-! ## The invariant -/

/-- The nonce of an account in the current state. -/
def base (s : TxPool P) (a : Address) : ℕ := (s.currentState.getNonce a).toNat

/-- The managed nonce of an account. -/
def high (s : TxPool P) (a : Address) : ℕ := (s.pendingState.getNonce a).toNat

/-- A nonce of an account is taken by a pending transaction. -/
def Taken (s : TxPool P) (a : Address) (k : ℕ) : Prop := ∃ u, Held s.pending u ∧ u.slot = (a, k)

/-- **The pending transactions are in order.** -/
structure Ordered (s : TxPool P) : Prop where
  first : ∀ t, Held s.pending t → s.base t.sender ≤ t.key
  below : ∀ t, Held s.pending t → ∀ k, s.base t.sender ≤ k → k ≤ t.key → s.Taken t.sender k
  managed : ∀ a k, s.base a ≤ k → k < s.high a → s.Taken a k

theorem Ordered.of_taken (h : s.Ordered) (htaken : ∀ a k, s'.Taken a k ↔ s.Taken a k)
    (hmanaged : s'.pendingState = s.pendingState) (hstate : s'.currentState = s.currentState) :
    s'.Ordered := by
  have hbase : s'.base = s.base := by
    unfold base
    rw [hstate]
  have hhigh : s'.high = s.high := by
    unfold high
    rw [hmanaged]
  have hheld : ∀ t, Held s'.pending t → ∃ u, Held s.pending u ∧ u.slot = t.slot := fun t ht =>
    (htaken t.sender t.key).1 ⟨t, ht, rfl⟩
  refine ⟨fun t ht => ?_, fun t ht k hk hkt => ?_, fun a k hk hka => ?_⟩
  · obtain ⟨u, hu, he⟩ := hheld t ht
    obtain ⟨hs, hk⟩ := Prod.mk.inj he
    rw [hbase, ← hs, ← hk]
    exact h.first u hu
  · obtain ⟨u, hu, he⟩ := hheld t ht
    obtain ⟨hs, hk'⟩ := Prod.mk.inj he
    rw [hbase, ← hs] at hk
    rw [htaken, ← hs]
    exact h.below u hu k hk (hk' ▸ hkt)
  · rw [hbase] at hk
    rw [hhigh] at hka
    exact (htaken a k).2 (h.managed a k hk hka)

theorem Ordered.congr (h : s.Ordered) (hpending : s'.pending = s.pending)
    (hmanaged : s'.pendingState = s.pendingState) (hstate : s'.currentState = s.currentState) :
    s'.Ordered :=
  h.of_taken (fun a k => by rw [Taken, Taken, hpending]) hmanaged hstate

variable {list : TxList} {isLocal : Bool} {offenders : List Address} {last : Address}
  {x x' : TxPool P × ℕ}

theorem Ordered.contiguous (h : s.Ordered) (hindex : s.Index [])
    (hl : s.pending.lookup addr = some list) : Contiguous (s.base addr) list.txs := by
  intro t ht
  have hheld := hindex.left.held hl ht
  have hsender := hindex.left.sender _ _ hl t ht
  subst hsender
  refine ⟨h.first t hheld, fun k hk hkt => ?_⟩
  obtain ⟨u, hu, hslot⟩ := h.below t hheld k hk hkt
  obtain ⟨hs, hkey⟩ := Prod.mk.inj hslot
  exact ⟨u, hu.mem (hs ▸ hl), hkey⟩

theorem toNat_getNonce_lower (m : ManagedState) (addr a : Address) (nonce : UInt64) :
    ((m.lower addr nonce).getNonce a).toNat =
      if a = addr then min (m.getNonce a).toNat nonce.toNat else (m.getNonce a).toNat := by
  have hlt : nonce < m.getNonce addr ↔ nonce.toNat < (m.getNonce addr).toNat := Iff.rfl
  unfold ManagedState.lower
  by_cases ha : a = addr
  · subst ha
    rw [if_pos rfl]
    split
    case isTrue h =>
      rw [hlt] at h
      unfold ManagedState.setNonce
      rw [ManagedState.getNonce, lookup_insert, getD_some]
      omega
    case isFalse h =>
      rw [hlt] at h
      omega
  · split
    · unfold ManagedState.setNonce
      rw [ManagedState.getNonce, lookup_insert_ne ha]
      rfl
    · rfl

theorem Ordered.cut (h : s.Ordered) (hcut : Cut s s') (hstate : s'.currentState = s.currentState) :
    s'.Ordered := by
  rcases hcut with ⟨hpending, hmanaged⟩ | ⟨tx, hpending, hmanaged⟩
  · exact h.congr hpending hmanaged hstate
  · have hbase : s'.base = s.base := by
      unfold base
      rw [hstate]
    have htaken : ∀ a k, s.Taken a k → (a = tx.sender → k < tx.key) → s'.Taken a k := by
      rintro a k ⟨u, hu, hslot⟩ hlt
      obtain ⟨rfl, rfl⟩ := Prod.mk.inj hslot
      exact ⟨u, (hpending u).2 ⟨hu, hlt⟩, hslot⟩
    refine ⟨fun t ht => ?_, fun t ht k hk hkt => ?_, fun a k hk hka => ?_⟩
    · rw [hbase]
      exact h.first t ((hpending t).1 ht).1
    · rw [hbase] at hk
      obtain ⟨ht, hlt⟩ := (hpending t).1 ht
      exact htaken _ k (h.below t ht k hk hkt) fun hs => hkt.trans_lt (hlt hs)
    · rw [hbase] at hk
      rw [high, hmanaged, toNat_getNonce_lower] at hka
      have hka' : k < s.high a ∧ (a = tx.sender → k < tx.key) := by
        unfold high
        split at hka
        case isTrue ha => exact ⟨(lt_min_iff.1 hka).1, fun _ => (lt_min_iff.1 hka).2⟩
        case isFalse ha => exact ⟨hka, fun he => absurd he ha⟩
      exact htaken a k (h.managed a k hk hka'.1) hka'.2

theorem toNat_getNonce_setNonce (m : ManagedState) (addr a : Address) (nonce : UInt64) :
    ((m.setNonce addr nonce).getNonce a).toNat =
      if a = addr then nonce.toNat else (m.getNonce a).toNat := by
  unfold ManagedState.setNonce ManagedState.getNonce
  split
  case isTrue ha => rw [ha, lookup_insert, getD_some]
  case isFalse ha => rw [lookup_insert_ne ha]

theorem Ordered.raise (h : s.Ordered) (htx : Held s.pending tx) :
    (s.setNonce tx.sender (tx.nonce + 1)).Ordered := by
  refine ⟨h.first, h.below, fun a k hk hka => ?_⟩
  have hka' : k < if a = tx.sender then (tx.nonce + 1).toNat else s.high a := by
    unfold high at hka
    exact (toNat_getNonce_setNonce s.pendingState tx.sender a (tx.nonce + 1)) ▸ hka
  split at hka'
  case isTrue ha =>
    subst ha
    have hle : (tx.nonce + 1).toNat ≤ tx.nonce.toNat + 1 := Nat.mod_le _ _
    exact h.below tx htx k hk (by unfold key; omega)
  case isFalse => exact h.managed a k hk hka'

theorem Ordered.promote (h : s.Ordered)
    (hheld : ∀ u, Held (s.pending.insert tx.sender list) u ↔ u = tx ∨ Held s.pending u)
    (hfirst : s.base tx.sender ≤ tx.key)
    (hbelow : ∀ k, s.base tx.sender ≤ k → k < tx.key → s.Taken tx.sender k) :
    (((s.setPending tx.sender list).beat o tx.sender).setNonce tx.sender (tx.nonce + 1)).Ordered := by
  have hkeep : ∀ a k, s.Taken a k → ∃ u, Held (s.pending.insert tx.sender list) u ∧
      u.slot = (a, k) := by
    rintro a k ⟨u, hu, hslot⟩
    exact ⟨u, (hheld u).2 (.inr hu), hslot⟩
  have hupto : ∀ k, s.base tx.sender ≤ k → k ≤ tx.key →
      ∃ u, Held (s.pending.insert tx.sender list) u ∧ u.slot = (tx.sender, k) := by
    intro k hk hkt
    rcases hkt.lt_or_eq with hlt | rfl
    · exact hkeep _ k (hbelow k hk hlt)
    · exact ⟨tx, (hheld tx).2 (.inl rfl), rfl⟩
  refine Ordered.raise
    ⟨fun t ht => ?_, fun t ht k hk hkt => ?_, fun a k hk hka => hkeep a k (h.managed a k hk hka)⟩
    ((hheld tx).2 (.inl rfl))
  · rcases (hheld t).1 ht with rfl | ht
    · exact hfirst
    · exact h.first t ht
  · rcases (hheld t).1 ht with rfl | ht
    · exact hupto k hk hkt
    · exact hkeep _ k (h.below t ht k hk hkt)

/-! ## Operations on one head -/

/-- An operation that keeps the indexes in agreement and the pending transactions in order. -/
structure Keeps (s s' : TxPool P) : Prop where
  index : s'.Index []
  state : s'.currentState = s.currentState
  ordered : s.Ordered → s'.Ordered

theorem Keeps.refl (h : s.Index []) : Keeps s s := ⟨h, rfl, id⟩

theorem Keeps.trans (h : Keeps s s') (h' : Keeps s' s'') : Keeps s s'' :=
  ⟨h'.index, h'.state.trans h.state, fun ho => h'.ordered (h.ordered ho)⟩

theorem Keeps.of_same (h : s'.Index []) (hpending : s'.pending = s.pending)
    (hmanaged : s'.pendingState = s.pendingState) (hstate : s'.currentState = s.currentState) :
    Keeps s s' := ⟨h, hstate, fun ho => ho.congr hpending hmanaged hstate⟩

theorem Removal.keeps (h : Removal s s') : Keeps s s' :=
  ⟨h.index, h.state, fun ho => ho.cut h.cut h.state⟩

theorem keeps_foldl {α : Type} {f : TxPool P → α → TxPool P}
    (hstep : ∀ s a, s.Index [] → Keeps s (f s a)) (as : List α) (h : s.Index []) :
    Keeps s (as.foldl f s) :=
  foldlRecOn as f (.refl h) fun t ht a _ => ht.trans (hstep t a ht.index)

theorem keeps_foldlM {α : Type} {f : TxPool P → α → Option (TxPool P)}
    (hstep : ∀ s a s', s.Index [] → f s a = some s' → Keeps s s') {as : List α} (h : s.Index [])
    (hs : as.foldlM f s = some s') : Keeps s s' :=
  Loop.foldlM_inv (fun a _ t t' ht hf => ht.trans (hstep t a t' ht.index hf)) (.refl h) hs

theorem keeps_raiseNonce (h : s.Index []) (hs : s.raiseNonce addr = some s') : Keeps s s' := by
  unfold raiseNonce at hs
  obtain ⟨list, hl, hs⟩ := bind_eq_some_iff.1 hs
  obtain ⟨tx, hlast, hs⟩ := bind_eq_some_iff.1 hs
  cases hs
  have hmem : tx ∈ list.txs.items := mem_of_getLast? hlast
  have hsender := h.left.sender _ _ hl tx hmem
  subst hsender
  exact ⟨h, rfl, fun ho => ho.raise (h.left.held hl hmem)⟩

variable [PriceIndex P]

theorem keeps_removeTxs (txs : List PoolTransaction) (outofbound : Bool) (h : s.Index []) :
    Keeps s (s.removeTxs txs outofbound) :=
  keeps_foldl (fun _ tx hs => (removal_removeTx hs tx.hash outofbound).keeps) txs h

theorem unknown_removeTxs (txs : List PoolTransaction) (outofbound : Bool) (h : s.Index [])
    {hash : Word} (hnew : s.all.lookup hash = none) :
    (s.removeTxs txs outofbound).all.lookup hash = none := by
  induction txs generalizing s with
  | nil => exact hnew
  | cons tx txs ih =>
    have hremoval := removal_removeTx h tx.hash outofbound
    exact ih hremoval.index (hremoval.unknown hash hnew)

/-! ## Adding a transaction -/

theorem dropOld_eq (s : TxPool P) (old : Option PoolTransaction) :
    ∃ priced, s.dropOld old = { s with all := Indexed.eraseOld s.all old, priced } := by
  cases old with
  | none => exact ⟨_, rfl⟩
  | some old => exact ⟨_, rfl⟩

theorem keeps_enqueueTx (h : s.Index []) (hnew : s.all.lookup tx.hash = none)
    (hfree : ¬ s.Taken tx.sender tx.key) : Keeps s (s.enqueueTx tx).1 := by
  unfold enqueueTx
  dsimp only
  split
  · exact .of_same (h.symm.touch tx.sender).symm rfl rfl rfl
  case h_2 old list hadd =>
    have hother : ∀ u, Held s.pending u → u.slot ≠ tx.slot := fun u hu he => hfree ⟨u, hu, he⟩
    have hindex := (h.symm.add_new hadd hnew hother).symm
    obtain ⟨priced, hold⟩ := dropOld_eq (s.setQueue tx.sender list) old
    have hnone : ((s.setQueue tx.sender list).dropOld old).all.lookup tx.hash = none := by
      cases old with
      | none => exact hnew
      | some old => exact Indexed.lookup_erase_eq_none hnew
    unfold reindex
    rw [hnone, isNone_none, if_pos rfl, hold]
    exact .of_same hindex rfl rfl rfl

theorem keeps_replacePending (h : s.Index []) (hnew : s.all.lookup tx.hash = none)
    (hl : s.pending.lookup tx.sender = some list) (hover : list.overlaps tx = true) :
    Keeps s (s.replacePending o tx list).1 := by
  obtain ⟨old, hget⟩ := isSome_iff_exists.1 hover
  obtain ⟨hmem, hkey⟩ := get_eq_some.1 hget
  have hsender : old.sender = tx.sender := h.left.sender _ _ hl old hmem
  have hslot : old.slot = tx.slot := Prod.ext hsender hkey
  unfold replacePending
  split
  · exact .refl h
  case h_2 old' list' hadd =>
    have hadd' : ((s.pending.lookup tx.sender).getD (newTxList true)).add tx s.config.priceBump =
        some (old', list') := by
      rw [hl]
      exact hadd
    have hother : ∀ u, Held s.queue u → u.slot ≠ tx.slot := fun u hu he =>
      h.apart old u (h.left.held hl hmem) hu (hslot.trans he.symm)
    have hindex := h.add_new hadd' hnew hother
    obtain ⟨priced, hold⟩ := dropOld_eq (s.setPending tx.sender list') old'
    rw [hold]
    refine ⟨hindex, rfl, fun ho => ?_⟩
    -- the same nonces are taken as before
    obtain ⟨-, hput⟩ := h.left.held_put hl (add_eq_some hadd).1
    refine ho.of_taken (fun a k => ⟨?_, ?_⟩) rfl rfl
    · rintro ⟨u, hu, hu'⟩
      rcases (hput u).1 hu with rfl | ⟨hu, -⟩
      · exact ⟨old, h.left.held hl hmem, hslot.trans hu'⟩
      · exact ⟨u, hu, hu'⟩
    · rintro ⟨u, hu, hu'⟩
      by_cases hs : u.slot = tx.slot
      · exact ⟨tx, (hput tx).2 (.inl rfl), hs.symm.trans hu'⟩
      · exact ⟨u, (hput u).2 (.inr ⟨hu, hs⟩), hu'⟩

theorem keeps_makeRoom (isLocal : Bool) (h : s.Index []) (hnew : s.all.lookup tx.hash = none) :
    Keeps s (s.makeRoom tx isLocal).1 ∧ (s.makeRoom tx isLocal).1.all.lookup tx.hash = none := by
  unfold makeRoom
  dsimp only
  split
  · generalize (if isLocal = true then (false, s.priced)
      else PriceIndex.underpriced s.priced s.all tx s.locals) = under
    split
    · exact ⟨.of_same h rfl rfl rfl, hnew⟩
    · generalize PriceIndex.discard under.2 s.all _ s.locals = discarded
      have hpriced : Keeps s { s with priced := discarded.2 } := .of_same h rfl rfl rfl
      exact ⟨hpriced.trans (keeps_removeTxs discarded.1 false hpriced.index),
        unknown_removeTxs discarded.1 false hpriced.index hnew⟩
  · exact ⟨.refl h, hnew⟩

theorem keeps_insertTx (isLocal : Bool) (h : s.Index []) (hnew : s.all.lookup tx.hash = none) :
    Keeps s (s.insertTx o tx isLocal).1 := by
  unfold insertTx
  split
  case h_1 list hfilter =>
    obtain ⟨hl, hover⟩ := filter_eq_some_iff.1 hfilter
    exact keeps_replacePending h hnew hl hover
  case h_2 hfilter =>
    have hfree : ¬ s.Taken tx.sender tx.key := by
      rintro ⟨u, ⟨list, hl, hu⟩, hslot⟩
      obtain ⟨hsender, hkey⟩ := Prod.mk.inj hslot
      rw [hsender] at hl
      have hover : list.overlaps tx = true :=
        isSome_iff_exists.2 ⟨u, get_eq_some.2 ⟨hu, hkey⟩⟩
      rw [hl, filter_some, if_pos hover] at hfilter
      cases hfilter
    have henqueue := keeps_enqueueTx h hnew hfree
    unfold addQueued
    split
    case h_1 hres =>
      rw [hres] at henqueue
      exact henqueue
    case h_2 hres =>
      rw [hres] at henqueue
      exact henqueue.trans (.of_same henqueue.index rfl rfl rfl)

theorem keeps_add {result : Except TxPoolError Bool} (h : s.Index [])
    (hadd : s.add o tx isLocal = some (s', result)) : Keeps s s' := by
  unfold add at hadd
  split at hadd
  · cases hadd
    exact .refl h
  case isFalse hknown =>
    have hnew : s.all.lookup tx.hash = none := by simpa using hknown
    split at hadd
    · cases hadd
    · cases hadd
      exact .refl h
    · obtain ⟨hroom, hnew'⟩ := keeps_makeRoom isLocal h hnew
      split at hadd
      case h_1 hres =>
        cases hadd
        rw [hres] at hroom
        exact hroom
      case h_2 s₁ hres =>
        rw [hres] at hroom hnew'
        have hinsert : Keeps s₁ (s₁.insertTx o tx isLocal).1 :=
          keeps_insertTx isLocal hroom.index hnew'
        rw [some.inj hadd] at hinsert
        exact hroom.trans hinsert

/-! ## Promotion -/

/-- **The promotion of a run** of consecutive nonces keeps the order if all before are taken. -/
theorem promote_run {ready : List PoolTransaction} (h : s.Index ready)
    (hsender : ∀ tx ∈ ready, tx.sender = addr) :
    (ready.foldl (fun s tx => s.promoteTx o addr tx) s).Index [] ∧
      (ready.foldl (fun s tx => s.promoteTx o addr tx) s).queue = s.queue ∧
      (ready.foldl (fun s tx => s.promoteTx o addr tx) s).currentState = s.currentState ∧
      ∀ first, s.Ordered → ready.map key = range' first ready.length →
        s.base addr ≤ first → (∀ k, s.base addr ≤ k → k < first → s.Taken addr k) →
        (ready.foldl (fun s tx => s.promoteTx o addr tx) s).Ordered := by
  induction ready generalizing s with
  | nil => exact ⟨h, rfl, rfl, fun _ ho _ _ _ => ho⟩
  | cons tx ready ih =>
    cases hsender tx mem_cons_self
    obtain ⟨list, heq, hindex⟩ := promoteTx_of_loose h
    have hheld := fun u => h.held_iff (u := u) hindex
    rw [foldl_cons, heq]
    obtain ⟨hrest, hqueue, hstate, hordered⟩ :=
      ih (s := ((s.setPending tx.sender list).beat o tx.sender).setNonce tx.sender (tx.nonce + 1))
        hindex fun t ht => hsender t (mem_cons_of_mem _ ht)
    refine ⟨hrest, hqueue, hstate, fun first ho hkeys hfirst hbelow => ?_⟩
    rw [map_cons, length_cons, range'_succ, cons.injEq] at hkeys
    obtain ⟨rfl, hkeys⟩ := hkeys
    refine hordered (tx.key + 1) (ho.promote hheld hfirst hbelow) hkeys ?_ fun k hk hlt => ?_
    · exact hfirst.trans (Nat.le_succ _)
    · rcases (Nat.lt_succ_iff.1 hlt).lt_or_eq with hlt | rfl
      · obtain ⟨u, hu, hslot⟩ := hbelow k hk hlt
        exact ⟨u, (hheld u).2 (.inr hu), hslot⟩
      · exact ⟨tx, (hheld tx).2 (.inl rfl), rfl⟩

theorem queue_cut {l l' : TxList} {out : List PoolTransaction} (h : s.Index [])
    (hl : s.queue.lookup addr = some l) (hsplit : Split l.txs out l'.txs)
    (hstrict : l'.strict = l.strict) :
    ((s.setQueue addr l').dropTxs out).Index [] ∧
      ∃ all priced, (s.setQueue addr l').dropTxs out =
        { s with queue := s.queue.insert addr l', all, priced } :=
  ⟨index_dropTxs (h.symm.take l' hl hsplit hstrict).symm, dropTxs_eq _ out⟩

section

variable (h : s.Index []) (hl : s.queue.lookup addr = some list)
include h hl

theorem pruneQueue_spec :
    Keeps s (s.pruneQueue o addr list).1 ∧
      (s.pruneQueue o addr list).1.queue.lookup addr = some (s.pruneQueue o addr list).2 ∧
      ∀ tx ∈ (s.pruneQueue o addr list).2.txs.items, s.base addr ≤ tx.key := by
  have hstrict : list.strict = false := h.right.strict _ _ hl
  unfold pruneQueue
  dsimp only
  obtain ⟨h₁, all₁, priced₁, heq₁⟩ := queue_cut h hl
    (list.split_forward (s.currentState.getNonce addr)) rfl
  generalize hlist : (list.forward (s.currentState.getNonce addr)).2 = list₁ at h₁ heq₁ ⊢
  have hstrict₁ : list₁.strict = false := by
    rw [← hlist]
    exact hstrict
  have hge : ∀ tx ∈ list₁.txs.items, s.base addr ≤ tx.key := by
    intro tx htx
    rw [← hlist] at htx
    exact (mem_forward_snd.1 htx).2
  generalize (s.setQueue addr list₁).dropTxs _ = s₁ at h₁ heq₁ ⊢
  have hl₁ : s₁.queue.lookup addr = some list₁ := by
    rw [heq₁]
    exact lookup_insert _
  have hsplit := list₁.split_filterValid (s₁.currentState.getBalance addr) s₁.currentMaxGas
    (o.chain.validateStakingTx s₁.currentState) 0
  rw [list₁.invalids_filterValid _ _ _ _ hstrict₁, append_nil] at hsplit
  obtain ⟨h₂, all₂, priced₂, heq₂⟩ := queue_cut h₁ hl₁ hsplit (by simp)
  refine ⟨.of_same h₂ ?_ ?_ ?_, ?_, fun tx htx => hge tx (hsplit.mem_iff.2 (.inr htx))⟩
  · rw [heq₂, heq₁]
  · rw [heq₂, heq₁]
  · rw [heq₂, heq₁]
  · rw [heq₂]
    exact lookup_insert _

theorem promoteReady_spec (hge : ∀ tx ∈ list.txs.items, s.base addr ≤ tx.key) :
    Keeps s (s.promoteReady o addr list).1 ∧
      (s.promoteReady o addr list).1.queue.lookup addr = some (s.promoteReady o addr list).2 := by
  have hsplit := list.split_ready (s.pendingState.getNonce addr)
  obtain ⟨first, hkeys, hle⟩ := list.txs.keys_ready (s.pendingState.getNonce addr).toNat
  unfold promoteReady
  dsimp only
  have htake := (h.symm.take (list.ready (s.pendingState.getNonce addr)).2 hl hsplit rfl).symm
  rw [append_nil] at htake
  have hsender : ∀ tx ∈ (list.ready (s.pendingState.getNonce addr)).1, tx.sender = addr :=
    fun tx htx => h.right.sender _ _ hl tx (hsplit.mem_iff.2 (.inl htx))
  obtain ⟨hindex, hqueue, hstate, hordered⟩ :=
    promote_run (s := s.setQueue addr (list.ready (s.pendingState.getNonce addr)).2) htake hsender
  refine ⟨⟨hindex, hstate, fun ho => ?_⟩, ?_⟩
  · have ho' : (s.setQueue addr (list.ready (s.pendingState.getNonce addr)).2).Ordered :=
      ho.congr rfl rfl rfl
    by_cases hempty : (list.ready (s.pendingState.getNonce addr)).1 = []
    · rw [hempty]
      exact ho'
    · -- the first nonce of the run is free, so it is not below the managed nonce
      obtain ⟨tx, rest, hcons⟩ := exists_cons_of_ne_nil hempty
      have hmem : tx ∈ (list.ready (s.pendingState.getNonce addr)).1 := by
        rw [hcons]
        exact mem_cons_self
      have hfirst : tx.key = first := by
        have hkeys' : (list.ready (s.pendingState.getNonce addr)).1.map key =
            range' first (list.ready (s.pendingState.getNonce addr)).1.length := hkeys
        rw [hcons, map_cons, length_cons, range'_succ, cons.injEq] at hkeys'
        exact hkeys'.1
      have hbase : s.base addr ≤ first := hfirst ▸ hge tx (hsplit.mem_iff.2 (.inl hmem))
      have hfirst_le : first ≤ s.high addr := hle hempty
      refine hordered first ho' hkeys hbase fun k hk hlt => ?_
      exact ho.managed addr k hk (hlt.trans_le hfirst_le)
  · rw [hqueue]
    exact lookup_insert _

theorem keeps_capAccount (hs : s.capAccount addr list = some s') : Keeps s s' := by
  unfold capAccount at hs
  obtain ⟨⟨drops, list'⟩, hcap, hs⟩ := bind_eq_some_iff.1 hs
  have hsplit : Split list.txs drops list'.txs ∧ list'.strict = list.strict := by
    unfold overLimit at hcap
    split at hcap
    · cases hcap
      exact ⟨.refl list.txs, rfl⟩
    · obtain ⟨hsplit, hstrict, -⟩ := cap_eq_some hcap
      exact ⟨hsplit, hstrict⟩
  obtain ⟨h₁, all₁, priced₁, heq₁⟩ := queue_cut h hl hsplit.1 hsplit.2
  dsimp only at hs
  rw [heq₁] at h₁ hs
  split at hs
  case isTrue he =>
    cases hs
    refine .of_same ?_ rfl rfl rfl
    exact (h₁.symm.delete_list (lookup_insert _) (isEmpty_iff.1 he)).symm
  case isFalse =>
    cases hs
    exact .of_same h₁ rfl rfl rfl

end

theorem keeps_promoteAccount (h : s.Index []) (hs : s.promoteAccount o addr = some s') :
    Keeps s s' := by
  unfold promoteAccount at hs
  split at hs
  · cases hs
    exact .refl h
  case h_2 list hl =>
    obtain ⟨hprune, hl₁, hge⟩ := pruneQueue_spec h hl
    have hge' : ∀ tx ∈ (s.pruneQueue o addr list).2.txs.items,
        (s.pruneQueue o addr list).1.base addr ≤ tx.key := by
      unfold base
      rw [hprune.state]
      exact hge
    obtain ⟨hready, hl₂⟩ := promoteReady_spec hprune.index hl₁ hge'
    exact (hprune.trans hready).trans (keeps_capAccount hready.index hl₂ hs)

/-! ## The limits on the pool -/

theorem removal_trimPending (h : s.Index []) (hs : s.trimPending addr = some s') :
    Removal s s' := by
  unfold trimPending at hs
  obtain ⟨list, hl, hs⟩ := bind_eq_some_iff.1 hs
  obtain ⟨⟨drops, list'⟩, hcap, hs⟩ := bind_eq_some_iff.1 hs
  obtain ⟨tx, rfl, hitems, hstrict⟩ := cap_pred_eq_some hcap
  cases hs
  have hsplit : Split list.txs [tx] list'.txs := by
    unfold Split
    rw [hitems]
    exact perm_append_comm
  have hsorted := list.txs.sorted
  rw [hitems] at hsorted
  have hlt : ∀ t ∈ list'.txs.items, t.key < tx.key := fun t ht =>
    (pairwise_append.1 hsorted).2.2 t ht tx mem_cons_self
  have hown : ∀ t ∈ list.txs.items, t.sender = addr := h.left.sender _ _ hl
  obtain rfl : tx.sender = addr := hown tx (hsplit.mem_iff.2 (.inl mem_cons_self))
  have hown' : ∀ t ∈ list'.txs.items, t.sender = tx.sender := fun t ht =>
    hown t (hsplit.mem_iff.2 (.inr ht))
  have htake := h.take list' hl hsplit hstrict
  refine ⟨htake.forget, .cut tx (fun t => (held_insert hown').trans ?_) rfl, rfl,
    fun _ => Indexed.lookup_erase_eq_none⟩
  exact h.left.held_cut hl hsplit hlt fun _ ht => absurd ht not_mem_nil

theorem pendingLen_trimPending (hs : s.trimPending addr = some s') :
    ∃ n, s.pendingLen addr = some (n + 1) ∧ s'.pendingLen addr = some n ∧
      ∀ a, a ≠ addr → s'.pendingLen a = s.pendingLen a := by
  unfold trimPending at hs
  obtain ⟨list, hl, hs⟩ := bind_eq_some_iff.1 hs
  obtain ⟨⟨drops, list'⟩, hcap, hs⟩ := bind_eq_some_iff.1 hs
  obtain ⟨tx, rfl, hitems, -⟩ := cap_pred_eq_some hcap
  cases hs
  have hlen : list.len = list'.len + 1 := by
    unfold len
    rw [hitems, length_append, length_singleton]
  refine ⟨list'.len, ?_, ?_, fun a ha => ?_⟩
  · rw [pendingLen, hl, map_some, hlen]
  · exact congrArg (Option.map len) (lookup_insert s.pending)
  · exact congrArg (Option.map len) (lookup_insert_ne ha)

theorem pendingLen_trimRound (hx : trimRound offenders x = some x') :
    (x'.1.pendingLen last).getD 0 ≤ (x.1.pendingLen last).getD 0 ∧
      (last ∈ offenders → (x'.1.pendingLen last).getD 0 < (x.1.pendingLen last).getD 0) := by
  unfold trimRound at hx
  induction offenders generalizing x with
  | nil =>
    cases hx
    exact ⟨le_rfl, fun hmem => absurd hmem not_mem_nil⟩
  | cons addr offenders ih =>
    obtain ⟨y, hy, hx⟩ := bind_eq_some_iff.1 hx
    obtain ⟨t, ht, rfl⟩ := map_eq_some_iff.1 hy
    obtain ⟨hle, hlt⟩ := ih hx
    obtain ⟨n, hbefore, hafter, hother⟩ := pendingLen_trimPending ht
    by_cases ha : last = addr
    · subst ha
      rw [hafter, getD_some] at hle
      rw [hbefore, getD_some]
      exact ⟨by omega, fun _ => by omega⟩
    · rw [hother last ha] at hle hlt
      refine ⟨hle, fun hmem => hlt ?_⟩
      exact (mem_cons.1 hmem).resolve_left ha

/-- The loop over the rounds ends because its condition fails, not because of its bound. -/
theorem trimLoop_exit {floor : ℕ} (hlast : last ∈ offenders)
    (hx : trimLoop offenders last floor x = some x') :
    x'.1.config.globalSlots < x'.2 → (x'.1.pendingLen last).getD 0 ≤ floor := by
  unfold trimLoop at hx
  obtain ⟨bound, hbound, hx⟩ := bind_eq_some_iff.1 hx
  have hexit := Loop.iterate_exit
    (fun y hy => ?_) (fun y y' _ hf => (pendingLen_trimRound hf).2 hlast)
    (by rw [hbound, getD_some]) hx
  · intro hslots
    simpa [hslots] using hexit
  · rw [Bool.and_eq_true, decide_eq_true_eq, decide_eq_true_eq] at hy
    exact (Nat.zero_le floor).trans_lt hy.2

theorem keeps_trimRound (h : x.1.Index []) (hx : trimRound offenders x = some x') :
    Keeps x.1 x'.1 := by
  refine Loop.foldlM_inv (P := fun y => Keeps x.1 y.1) (fun a _ y y' hy hf => ?_) (.refl h) hx
  obtain ⟨t, ht, rfl⟩ := map_eq_some_iff.1 hf
  exact hy.trans (removal_trimPending hy.index ht).keeps

theorem keeps_trimLoop {floor : ℕ} (h : x.1.Index [])
    (hx : trimLoop offenders last floor x = some x') : Keeps x.1 x'.1 := by
  unfold trimLoop at hx
  obtain ⟨bound, -, hx⟩ := bind_eq_some_iff.1 hx
  refine Loop.iterate_inv (P := fun y => Keeps x.1 y.1) (fun y y' hy hf => ?_) (.refl h) hx
  exact hy.trans (keeps_trimRound hy.index hf)

theorem keeps_equalize {spammers offenders' : List Address} (h : x.1.Index [])
    (hx : equalize spammers offenders x = some (offenders', x')) : Keeps x.1 x'.1 := by
  induction spammers generalizing offenders x with
  | nil =>
    cases hx
    exact .refl h
  | cons offender spammers ih =>
    unfold equalize at hx
    split at hx
    · obtain ⟨y, hy, hx⟩ := bind_eq_some_iff.1 hx
      have hkeeps : Keeps x.1 y.1 := by
        unfold trimTo at hy
        split at hy
        · cases hy
          exact .refl h
        · obtain ⟨threshold, -, hy⟩ := bind_eq_some_iff.1 hy
          exact keeps_trimLoop h hy
      exact hkeeps.trans (ih hkeeps.index hx)
    · cases hx
      exact .refl h

theorem keeps_capPending (h : s.Index []) (hs : s.capPending o = some s') : Keeps s s' := by
  unfold capPending at hs
  dsimp only at hs
  split at hs
  · obtain ⟨⟨offenders, s₁, pending⟩, heq, hs⟩ := bind_eq_some_iff.1 hs
    have hkeeps : Keeps s s₁ := keeps_equalize h heq
    split at hs
    · cases hs
      exact hkeeps
    · split at hs
      · obtain ⟨x, hx, rfl⟩ := map_eq_some_iff.1 hs
        exact hkeeps.trans (keeps_trimLoop hkeeps.index hx)
      · cases hs
        exact hkeeps
  · cases hs
    exact .refl h

theorem keeps_dropQueued {addresses : List Address} {drop : ℕ} (h : s.Index [])
    (hs : dropQueued addresses drop s = some s') : Keeps s s' := by
  induction addresses generalizing drop s with
  | nil =>
    cases hs
    exact .refl h
  | cons addr addresses ih =>
    unfold dropQueued at hs
    split at hs
    · cases hs
      exact .refl h
    · obtain ⟨list, -, hs⟩ := bind_eq_some_iff.1 hs
      split at hs
      · have hkeeps := keeps_removeTxs list.flatten true h
        exact hkeeps.trans (ih hkeeps.index hs)
      · cases hs
        exact keeps_removeTxs _ true h

theorem keeps_promoteExecutables {accounts : Option (List Address)} (h : s.Index [])
    (hs : s.promoteExecutables o accounts = some s') : Keeps s s' := by
  unfold promoteExecutables at hs
  obtain ⟨s₁, h₁, hs⟩ := bind_eq_some_iff.1 hs
  obtain ⟨s₂, h₂, hs⟩ := bind_eq_some_iff.1 hs
  have hkeeps₁ : Keeps s s₁ := keeps_foldlM (fun _ _ _ ht hf => keeps_promoteAccount ht hf) h h₁
  have hkeeps₂ := keeps_capPending hkeeps₁.index h₂
  refine (hkeeps₁.trans hkeeps₂).trans ?_
  unfold capQueue at hs
  dsimp only at hs
  split at hs
  · exact keeps_dropQueued hkeeps₂.index hs
  · cases hs
    exact .refl hkeeps₂.index

/-! ## Adding and removing in bulk -/

theorem keeps_addTx {result : Option TxPoolError} (h : s.Index [])
    (hs : s.addTx o tx isLocal = some (s', result)) : Keeps s s' := by
  unfold addTx at hs
  obtain ⟨⟨s₁, added⟩, hadd, hs⟩ := bind_eq_some_iff.1 hs
  have hkeeps := keeps_add h hadd
  dsimp only at hs
  split at hs
  · cases hs
    exact hkeeps
  · cases hs
    exact hkeeps
  · obtain ⟨s₂, h₂, heq⟩ := map_eq_some_iff.1 hs
    cases heq
    exact hkeeps.trans (keeps_promoteExecutables hkeeps.index h₂)

theorem keeps_addTxsLocked {txs : List PoolTransaction} (h : s.Index [])
    (hs : s.addTxsLocked o txs isLocal = some s') : Keeps s s' := by
  unfold addTxsLocked at hs
  obtain ⟨⟨s₁, dirty⟩, hadd, hs⟩ := bind_eq_some_iff.1 hs
  have hkeeps : Keeps s s₁ := by
    refine Loop.foldlM_inv (P := fun x : TxPool P × List Address => Keeps s x.1)
      (fun tx _ x x' hx hf => ?_) (.refl h) hadd
    unfold addDirty at hf
    obtain ⟨⟨t, added⟩, ht, hf⟩ := bind_eq_some_iff.1 hf
    have hstep := hx.trans (keeps_add hx.index ht)
    dsimp only at hf
    split at hf
    · cases hf
      exact hstep
    · cases hf
      exact hstep
  dsimp only at hs
  split at hs
  · cases hs
    exact hkeeps
  · exact hkeeps.trans (keeps_promoteExecutables hkeeps.index hs)

theorem keeps_setGasPrice (price : ℤ) (h : s.Index []) : Keeps s (s.setGasPrice price) := by
  unfold setGasPrice
  generalize PriceIndex.cap s.priced s.all price s.locals = capped
  have hprice : Keeps s { s with gasPrice := price, priced := capped.2 } :=
    .of_same h rfl rfl rfl
  exact hprice.trans (keeps_removeTxs capped.1 false hprice.index)

theorem keeps_evict (h : s.Index []) : Keeps s (s.evict o) := by
  refine keeps_foldl (fun s addr hs => ?_) _ h
  unfold evictAccount
  split
  · exact .refl hs
  · split
    · exact keeps_removeTxs _ true hs
    · exact .refl hs

end DyShard.Pool.TxPool
