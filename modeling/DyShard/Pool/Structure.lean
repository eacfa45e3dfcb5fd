import DyShard.Lib.Transition
import DyShard.Pool.Order
import DyShard.Pool.PricedList

/-!
# The structure of the transaction pool

Over every run the lookup holds the transactions of the lists, each once.  The order of the pending
lists is kept too, unless transactions of abandoned blocks are added again.
-/

namespace DyShard.Pool

open List Option AList TxPool
namespace TxPool

open SortedMap (Split Contiguous)

variable {P : Type} [PriceIndex P] {s s' : TxPool P} {o : Outside} {addr : Address} {bn : UInt64}
  {oldHead : Option Header} {a : Outside × PoolOp}

/-! ## Demotion -/

theorem prunePending_spec (bn : UInt64) {list : TxList} (h : s.Index [])
    (hl : s.pending.lookup addr = some list) :
    (s.prunePending o bn addr list).1.Index [] ∧
      (∃ queue all priced, (s.prunePending o bn addr list).1 =
        { s with
          pending := s.pending.insert addr (s.prunePending o bn addr list).2
          queue, all, priced }) ∧
      ∀ n, Contiguous n list.txs →
        Contiguous (max n (s.base addr)) (s.prunePending o bn addr list).2.txs := by
  have hstrict : list.strict = true := h.left.strict _ _ hl
  unfold prunePending
  dsimp only
  have hcontiguous : ∀ n, Contiguous n list.txs → Contiguous (max n (s.base addr))
      (list.forward (s.currentState.getNonce addr)).2.txs := fun n hn => hn.forward _
  have h₁ := index_dropTxs (s := s.setPending addr (list.forward (s.currentState.getNonce addr)).2)
    (h.take _ hl (list.split_forward (s.currentState.getNonce addr)) rfl)
  obtain ⟨all₁, priced₁, heq₁⟩ := dropTxs_eq
    (s.setPending addr (list.forward (s.currentState.getNonce addr)).2)
    (list.forward (s.currentState.getNonce addr)).1
  generalize hlist : (list.forward (s.currentState.getNonce addr)).2 = list₁ at h₁ heq₁ hcontiguous ⊢
  have hstrict₁ : list₁.strict = true := by
    rw [← hlist]
    exact hstrict
  generalize (s.setPending addr list₁).dropTxs _ = s₁ at h₁ heq₁ ⊢
  have hl₁ : s₁.pending.lookup addr = some list₁ := by
    rw [heq₁]
    exact lookup_insert _
  have hsplit := list₁.split_filterValid (s₁.currentState.getBalance addr) s₁.currentMaxGas
    (o.chain.validateStakingTx s₁.currentState) bn
  have hlower := fun t u => list₁.lower_filterValid (s₁.currentState.getBalance addr)
    s₁.currentMaxGas (o.chain.validateStakingTx s₁.currentState) bn hstrict₁ (t := t) (u := u)
  have hstrict₂ := list₁.strict_filterValid (s₁.currentState.getBalance addr) s₁.currentMaxGas
    (o.chain.validateStakingTx s₁.currentState) bn
  generalize list₁.filterValid _ _ _ _ = valid at hsplit hlower hstrict₂ ⊢
  have htake : (s₁.setPending addr valid.2.2).Index (valid.1 ++ (valid.2.1 ++ [])) := by
    have htake := h₁.take valid.2.2 hl₁ hsplit hstrict₂
    rwa [append_assoc] at htake
  obtain ⟨all₂, priced₂, heq₂⟩ := dropTxs_eq (s₁.setPending addr valid.2.2) valid.1
  obtain ⟨queue, heq₃, h₃⟩ := postpone_of_loose (index_dropTxs htake)
  refine ⟨h₃, ⟨queue, all₂, priced₂, ?_⟩, fun n hn => ?_⟩
  · rw [heq₃, heq₂, heq₁]
    unfold setPending
    rw [insert_insert]
  · exact (hcontiguous n hn).of_lower (fun t ht => hsplit.mem_iff.2 (.inr ht))
      fun t ht u hu hle => hlower t u ht hu hle

theorem gapped_spec {list list' : TxList} {nonce : UInt64} {out : List PoolTransaction}
    (h : gapped list nonce = some (out, list')) :
    Split list.txs out list'.txs ∧ list'.strict = list.strict ∧
      ∀ n, nonce.toNat ≤ n → Contiguous n list.txs → Contiguous nonce.toNat list'.txs := by
  unfold gapped at h
  split at h
  case isTrue =>
    obtain ⟨hsplit, hstrict, hlen⟩ := TxList.cap_eq_some h
    have hempty : list'.txs.items = [] := by
      rw [← length_eq_zero_iff]
      unfold TxList.len at hlen
      omega
    exact ⟨hsplit, hstrict, fun _ _ _ => .of_empty hempty⟩
  case isFalse hgap =>
    cases h
    refine ⟨.refl list.txs, rfl, fun n hn hcontiguous => ?_⟩
    rcases eq_nil_or_concat list.txs.items with hempty | ⟨init, tx, hitems⟩
    · exact .of_empty hempty
    · have hpos : 0 < list.len := by
        unfold TxList.len
        rw [hitems]
        simp
      cases hget : list.txs.get nonce.toNat with
      | none => exact absurd ⟨hpos, hget⟩ hgap
      | some u =>
        obtain ⟨hmem, hkey⟩ := SortedMap.get_eq_some.1 hget
        have hnu := (hcontiguous u hmem).1
        obtain rfl : n = nonce.toNat := by omega
        exact hcontiguous

/-- What the demotion of an account does. -/
structure Demoted (addr : Address) (s s' : TxPool P) : Prop where
  index : s'.Index []
  state : s'.currentState = s.currentState
  managed : s'.pendingState = s.pendingState
  other : ∀ a, a ≠ addr → s'.pending.lookup a = s.pending.lookup a
  contiguous : ∀ n list, s.pending.lookup addr = some list → Contiguous n list.txs →
    ∀ list', s'.pending.lookup addr = some list' → Contiguous (s.base addr) list'.txs

theorem demoted_demoteAccount (h : s.Index []) (hs : s.demoteAccount o bn addr = some s') :
    Demoted addr s s' := by
  unfold demoteAccount at hs
  obtain ⟨list, hl, hs⟩ := bind_eq_some_iff.1 hs
  dsimp only at hs
  obtain ⟨⟨out, list'⟩, hgap, hs⟩ := bind_eq_some_iff.1 hs
  obtain ⟨h₁, ⟨queue₁, all₁, priced₁, heq₁⟩, hcontiguous⟩ :=
    prunePending_spec bn h hl
  generalize s.prunePending o bn addr list = r at hs hgap h₁ heq₁ hcontiguous
  obtain ⟨s₁, list₁⟩ := r
  dsimp only at hs hgap h₁ heq₁ hcontiguous
  obtain ⟨hsplit, hstrict, hgapped⟩ := gapped_spec hgap
  have hl₁ : s₁.pending.lookup addr = some list₁ := by
    rw [heq₁]
    exact lookup_insert _
  obtain ⟨queue₂, heq₂, h₂⟩ := postpone_of_loose (s := s₁.setPending addr list')
    (h₁.take list' hl₁ hsplit hstrict)
  have hfinal : ∀ n list, s.pending.lookup addr = some list → Contiguous n list.txs →
      Contiguous (s.base addr) list'.txs := by
    intro n list₀ hl₀ hn
    cases hl.symm.trans hl₀
    exact hgapped _ (le_max_right _ _) (hcontiguous n hn)
  have hs₁ : s₁.currentState = s.currentState ∧ s₁.pendingState = s.pendingState ∧
      ∀ a, a ≠ addr → s₁.pending.lookup a = s.pending.lookup a := by
    rw [heq₁]
    exact ⟨rfl, rfl, fun a ha => lookup_insert_ne ha⟩
  rw [heq₂] at h₂ hs
  split at hs
  case isTrue he =>
    cases hs
    refine ⟨h₂.delete_list (lookup_insert _) (TxList.isEmpty_iff.1 he), hs₁.1, hs₁.2.1,
      fun a ha => ?_, fun _ _ _ _ list'' hl'' => ?_⟩
    · exact (lookup_erase_ne ha).trans ((lookup_insert_ne ha).trans (hs₁.2.2 a ha))
    · rw [lookup_erase] at hl''
      cases hl''
  case isFalse =>
    cases hs
    refine ⟨h₂, hs₁.1, hs₁.2.1, fun a ha => ?_, fun n list₀ hl₀ hn list'' hl'' => ?_⟩
    · exact (lookup_insert_ne ha).trans (hs₁.2.2 a ha)
    · cases (lookup_insert _).symm.trans hl''
      exact hfinal n list₀ hl₀ hn

theorem index_demoteUnexecutables (h : s.Index [])
    (hs : s.demoteUnexecutables o bn = some s') : s'.Index [] :=
  Loop.foldlM_inv (P := fun t : TxPool P => t.Index [])
    (fun _ _ _ _ ht hf => (demoted_demoteAccount ht hf).index) h hs

/-- **Demotion for a new head** brings lists that were in order for the old one in order. -/
theorem ordered_demoteUnexecutables (h : s.Index [])
    (hlists : ∀ a list, s.pending.lookup a = some list → ∃ n, Contiguous n list.txs)
    (hfresh : ∀ a, s.high a = s.base a) (hs : s.demoteUnexecutables o bn = some s') :
    s'.Ordered := by
  -- accounts already seen are in order for the new head, the others for the old one
  have hloop := Loop.foldlM_done
    (P := fun (done : List Address) (t : TxPool P) => t.Index [] ∧
      t.currentState = s.currentState ∧ t.pendingState = s.pendingState ∧
      ∀ a list, t.pending.lookup a = some list → (∃ n, Contiguous n list.txs) ∧
        (a ∈ done → Contiguous (s.base a) list.txs) ∧ a ∈ s.pending.keys)
    (fun done a t t' ht hf => ?_) []
    ⟨h, rfl, rfl, fun a list hl => ⟨hlists a list hl, nofun, ?_⟩⟩ hs
  · obtain ⟨hindex, hstate, hmanaged, hall⟩ := hloop
    have hbase : s'.base = s.base := by
      unfold base
      rw [hstate]
    have hcontiguous : ∀ a list, s'.pending.lookup a = some list →
        Contiguous (s'.base a) list.txs := by
      intro a list hl
      obtain ⟨-, hdone, hkey⟩ := hall a list hl
      rw [hbase]
      exact hdone ((o.range.perm _).mem_iff.2 hkey)
    refine ⟨fun t ⟨list, hl, ht⟩ => (hcontiguous _ list hl t ht).1,
      fun t ⟨list, hl, ht⟩ k hk hkt => ?_, fun a k hk hka => ?_⟩
    · obtain ⟨u, hu, hkey⟩ := (hcontiguous _ list hl t ht).2 k hk hkt
      have hsender := hindex.left.sender _ _ hl u hu
      exact ⟨u, hindex.left.held hl hu, Prod.ext hsender hkey⟩
    · have hhigh := hfresh a
      unfold high at hka hhigh
      rw [hmanaged] at hka
      rw [hbase] at hk
      omega
  · obtain ⟨hindex, hstate, hmanaged, hall⟩ := ht
    have hdemoted := demoted_demoteAccount hindex hf
    refine ⟨hdemoted.index, hdemoted.state.trans hstate, hdemoted.managed.trans hmanaged,
      fun b list hl => ?_⟩
    have hbase : t.base a = s.base a := by
      unfold base
      rw [hstate]
    by_cases hb : b = a
    · subst hb
      have hf' := hf
      unfold demoteAccount at hf'
      obtain ⟨list₀, hl₀, -⟩ := bind_eq_some_iff.1 hf'
      obtain ⟨⟨n, hn⟩, -, hkey⟩ := hall b list₀ hl₀
      have hcontiguous := hdemoted.contiguous n list₀ hl₀ hn list hl
      rw [hbase] at hcontiguous
      exact ⟨⟨_, hcontiguous⟩, fun _ => hcontiguous, hkey⟩
    · rw [hdemoted.other b hb] at hl
      obtain ⟨hn, hdone, hkey⟩ := hall b list hl
      refine ⟨hn, fun hmem => ?_, hkey⟩
      rcases mem_append.1 hmem with hmem | hmem
      · exact hdone hmem
      · exact absurd (mem_singleton.1 hmem) hb
  · exact mem_keys.1 (lookup_isSome.1 (by rw [hl]; rfl))

/-! ## A new head -/

theorem index_reset {newHead : Header} (h : s.Index [])
    (hs : s.reset o oldHead newHead = some s') : s'.Index [] := by
  unfold reset at hs
  split at hs
  · cases hs
  · cases hs
    exact h
  · split at hs
    · cases hs
      exact h
    · obtain ⟨s₁, h₁, hs⟩ := bind_eq_some_iff.1 hs
      obtain ⟨s₂, h₂, hs⟩ := bind_eq_some_iff.1 hs
      obtain ⟨s₃, h₃, hs⟩ := bind_eq_some_iff.1 hs
      have hadd := (keeps_addTxsLocked (s := s.setHead _ newHead) h h₁).index
      have hdemote := index_demoteUnexecutables hadd h₂
      have hraise := keeps_foldlM (fun _ _ _ ht hf => keeps_raiseNonce ht hf) hdemote h₃
      exact (keeps_promoteExecutables hraise.index hs).index

theorem ordered_reset {newHead : Header} (h : s.Index [])
    (ho : s.Ordered) (hquiet : ∀ txs, reinject o.chain oldHead newHead = .ok txs → txs = [])
    (hs : s.reset o oldHead newHead = some s') : s'.Ordered := by
  unfold reset at hs
  split at hs
  · cases hs
  · cases hs
    exact ho
  case h_3 txs hre =>
    cases hquiet txs hre
    split at hs
    · cases hs
      exact ho
    case h_2 statedb hstate =>
      obtain ⟨s₁, h₁, hs₁⟩ := bind_eq_some_iff.1 hs
      obtain rfl : s.setHead statedb newHead = s₁ := some.inj h₁
      obtain ⟨s₂, h₂, hs₂⟩ := bind_eq_some_iff.1 hs₁
      obtain ⟨s₃, h₃, hs₃⟩ := bind_eq_some_iff.1 hs₂
      have hdemote := index_demoteUnexecutables (s := s.setHead statedb newHead) h h₂
      have hordered := ordered_demoteUnexecutables (s := s.setHead statedb newHead) h
        (fun a list hl => ⟨_, ho.contiguous h hl⟩) (fun a => rfl) h₂
      have hraise := keeps_foldlM (fun _ _ _ ht hf => keeps_raiseNonce ht hf) hdemote h₃
      exact (keeps_promoteExecutables hraise.index hs₃).ordered (hraise.ordered hordered)

/-! ## Runs -/

/-- **The indexes agree after every operation.** -/
theorem index_step (h : s.Index []) (hs : s.step a = some s') :
    s'.Index [] := by
  unfold step at hs
  split at hs
  · obtain ⟨⟨t, result⟩, ht, rfl⟩ := map_eq_some_iff.1 hs
    exact (keeps_addTx h ht).index
  · exact (keeps_addTxsLocked h hs).index
  · cases hs
    exact (removal_removeTx h _ _).index
  · exact (keeps_promoteExecutables h hs).index
  · exact index_demoteUnexecutables h hs
  · refine index_reset ?_ hs
    exact h
  · cases hs
    exact (keeps_setGasPrice _ h).index
  · cases hs
    exact (keeps_evict h).index

/-- No demotion on its own, and no new head that re-injects transactions. -/
def Steady (_ : TxPool P) (a : Outside × PoolOp) : Prop :=
  match a.2 with
  | .demoteUnexecutables _ => False
  | .chainHead oldHead newHead => ∀ txs, reinject a.1.chain oldHead newHead = .ok txs → txs = []
  | _ => True

theorem ordered_step (h : s.Index []) (ho : s.Ordered)
    (hsteady : Steady s a) (hs : s.step a = some s') : s'.Ordered := by
  unfold step at hs
  split at hs
  · obtain ⟨⟨t, result⟩, ht, rfl⟩ := map_eq_some_iff.1 hs
    exact (keeps_addTx h ht).ordered ho
  · exact (keeps_addTxsLocked h hs).ordered ho
  · cases hs
    exact (removal_removeTx h _ _).keeps.ordered ho
  · exact (keeps_promoteExecutables h hs).ordered ho
  · exact hsteady.elim
  · refine ordered_reset ?_ (ho.congr ?_ ?_ ?_) hsteady hs
    · exact h
    · rfl
    · rfl
    · rfl
  · cases hs
    exact (keeps_setGasPrice _ h).ordered ho
  · cases hs
    exact (keeps_evict h).ordered ho

end TxPool

/-! ## What the structure of a pool is -/

/-- The hashes of the transactions in lists. -/
def hashes (m : Lists) : List Word := m.entries.flatMap fun e => e.2.flatten.map (·.hash)

/-- **The structure of a pool**: the lookup is the disjoint union of the lists, and the nonces of a
pending list are consecutive from the nonce of the account. -/
structure TxPool.Structured {P : Type} (s : TxPool P) : Prop where
  lookup : s.all.keys.Perm (hashes s.pending ++ hashes s.queue)
  contiguous : ∀ a list, s.pending.lookup a = some list →
    list.flatten.map (·.nonce.toNat) = range' (s.currentState.getNonce a).toNat list.flatten.length

theorem mem_hashes {b : Bool} {m : Lists} (h : Owned b m) {hash : Word} :
    hash ∈ hashes m ↔ ∃ tx, Held m tx ∧ tx.hash = hash := by
  unfold hashes
  rw [mem_flatMap]
  constructor
  · rintro ⟨⟨a, list⟩, he, hmem⟩
    obtain ⟨tx, htx, rfl⟩ := mem_map.1 hmem
    exact ⟨tx, h.held (mem_lookup_iff.2 he) htx, rfl⟩
  · rintro ⟨tx, ⟨list, hl, htx⟩, rfl⟩
    exact ⟨⟨tx.sender, list⟩, mem_lookup_iff.1 hl, mem_map_of_mem htx⟩

theorem nodup_hashes {b : Bool} {m : Lists} (h : Owned b m)
    (hinj : ∀ t u, Held m t → Held m u → t.hash = u.hash → t = u) : (hashes m).Nodup := by
  unfold hashes
  rw [nodup_flatMap]
  constructor
  · rintro ⟨a, list⟩ he
    have hl : m.lookup a = some list := mem_lookup_iff.2 he
    have hnodup : list.flatten.Nodup := Nodup.of_map _ list.txs.nodup_keys
    exact hnodup.map_on fun t ht u hu => hinj t u (h.held hl ht) (h.held hl hu)
  · have hkeys : m.entries.Pairwise fun e f => e.1 ≠ f.1 := pairwise_map.1 m.nodupKeys
    refine hkeys.imp_of_mem fun {e f} he hf hne hash hhe hhf => ?_
    obtain ⟨t, ht, rfl⟩ := mem_map.1 hhe
    obtain ⟨u, hu, hhash⟩ := mem_map.1 hhf
    have hle : m.lookup e.1 = some e.2 := mem_lookup_iff.2 he
    have hlf : m.lookup f.1 = some f.2 := mem_lookup_iff.2 hf
    obtain rfl := hinj u t (h.held hlf hu) (h.held hle ht) hhash
    exact hne ((h.sender _ _ hle u ht).symm.trans (h.sender _ _ hlf u hu))

namespace TxPool

variable {P : Type} {s : TxPool P}

theorem Index.perm_hashes (h : s.Index []) :
    s.all.keys.Perm (hashes s.pending ++ hashes s.queue) := by
  have hnodup : (hashes s.pending ++ hashes s.queue).Nodup := by
    rw [nodup_append']
    refine ⟨nodup_hashes h.left fun t u ht hu => h.eq_of_hash (.inl ht) (.inl hu),
      nodup_hashes h.right fun t u ht hu => h.eq_of_hash (.inr (.inl ht)) (.inr (.inl hu)), ?_⟩
    intro hash hp hq
    obtain ⟨t, ht, rfl⟩ := (mem_hashes h.left).1 hp
    obtain ⟨u, hu, hhash⟩ := (mem_hashes h.right).1 hq
    obtain rfl := h.eq_of_hash (.inr (.inl hu)) (.inl ht) hhash
    exact h.apart u u ht hu rfl
  rw [perm_ext_iff_of_nodup s.all.keys_nodup hnodup]
  intro hash
  rw [mem_append, mem_hashes h.left, mem_hashes h.right, ← AList.mem_keys,
    ← lookup_isSome, isSome_iff_exists]
  constructor
  · rintro ⟨tx, hlook⟩
    obtain ⟨rfl, htx | htx | htx⟩ := (h.lookup _ _).1 hlook
    · exact .inl ⟨tx, htx, rfl⟩
    · exact .inr ⟨tx, htx, rfl⟩
    · cases htx
  · rintro (⟨tx, htx, rfl⟩ | ⟨tx, htx, rfl⟩)
    · exact ⟨tx, h.lookup_hash (.inl htx)⟩
    · exact ⟨tx, h.lookup_hash (.inr (.inl htx))⟩

end TxPool

/-! ## Every run -/

section Run

open Transition

variable {P : Type} [PriceIndex P] (config : TxPoolConfig) (chainconfig : Core.ChainConfig)
  (gasPrice : ℤ) (locals : List Address) (priced : P) (statedb : View) (gasLimit : UInt64)

omit [PriceIndex P] in
theorem index_newTxPool :
    (newTxPool config chainconfig gasPrice locals priced statedb gasLimit).Index [] where
  left := ⟨nofun, nofun⟩
  right := ⟨nofun, nofun⟩
  lookup hash tx := by
    constructor
    · nofun
    · rintro ⟨-, ⟨_, h, -⟩ | ⟨_, h, -⟩ | h⟩
      · cases h
      · cases h
      · cases h
  payable tx htx := by
    obtain ⟨_, h, -⟩ | ⟨_, h, -⟩ | h := htx
    · cases h
    · cases h
    · cases h
  apart := by
    rintro t u ⟨_, h, -⟩
    cases h
  apart_left := by
    rintro t u ⟨_, h, -⟩
    cases h
  apart_right := by
    rintro t u ⟨_, h, -⟩
    cases h
  nodup := nodup_nil

omit [PriceIndex P] in
theorem ordered_newTxPool :
    (newTxPool config chainconfig gasPrice locals priced statedb gasLimit).Ordered where
  first := by
    rintro t ⟨_, h, -⟩
    cases h
  below := by
    rintro t ⟨_, h, -⟩
    cases h
  managed a k hk hka := absurd hka (not_lt.2 hk)

/-- **The lookup is the disjoint union of the lists** in every run of the pool. -/
theorem hashes_of_reach {s : TxPool P}
    (h : Reach step anyStep
      (newTxPool config chainconfig gasPrice locals priced statedb gasLimit) s) :
    s.all.keys.Perm (hashes s.pending ++ hashes s.queue) := by
  have hindex : s.Index [] := h.invariant (P := fun t => t.Index [])
    (index_newTxPool config chainconfig gasPrice locals priced statedb gasLimit)
    fun _ _ _ ht _ hs => index_step ht hs
  exact hindex.perm_hashes

/-- **The structure of the pool**, in every steady run. -/
theorem structured_of_reach {s : TxPool P}
    (h : Reach TxPool.step TxPool.Steady
      (TxPool.newTxPool config chainconfig gasPrice locals priced statedb gasLimit) s) :
    s.Structured := by
  have hinv : s.Index [] ∧ s.Ordered := h.invariant
    (P := fun t => t.Index [] ∧ t.Ordered)
    ⟨index_newTxPool config chainconfig gasPrice locals priced statedb gasLimit,
      ordered_newTxPool config chainconfig gasPrice locals priced statedb gasLimit⟩
    fun _ _ _ ht hsteady hs =>
      ⟨index_step ht.1 hs, ordered_step ht.1 ht.2 hsteady hs⟩
  exact ⟨hinv.1.perm_hashes, fun _ _ hl => (hinv.2.contiguous hinv.1 hl).keys_eq⟩

end Run

/-! ## Two runs -/

namespace Reorganisation

/-- A transfer of nothing by account 1. -/
def transfer (nonce : UInt64) (gasPrice : ℤ) : PoolTransaction where
  hash := nonce.toBitVec.setWidth 256
  nonce
  gasPrice
  gasLimit := 21000
  recipient := some 2
  value := 0
  data := []
  shardID := 0
  size := 100
  senderAddress := .ok 1
  cost := .ok (gasPrice * 21000)
  stakingType := none

/-- A state in which account 1 has sent so many transactions. -/
def after (nonce : UInt64) : View where
  getNonce a := if a = 1 then nonce else 0
  getBalance _ := 1000000000
  getFreezeState _ := false

/-- The genesis block. -/
def genesis : Block := ⟨100, 0, 0, [], []⟩

/-- A block with two transfers, the second at a price below what the pool asks for. -/
def full : Block := ⟨101, 100, 1, [transfer 0 10, transfer 1 1], []⟩

/-- Its empty sibling. -/
def bare : Block := ⟨102, 100, 1, [], []⟩

/-- The header of `genesis`. -/
def genesisHead : Header := ⟨100, 0, 0, 0, 80000000, 0⟩

/-- The header of `full`. -/
def fullHead : Header := ⟨101, 100, 1, 2, 80000000, 0⟩

/-- The header of `bare`. -/
def bareHead : Header := ⟨102, 100, 1, 0, 80000000, 0⟩

/-- The three blocks. -/
def getBlock (hash : Word) (number : UInt64) : Option Block :=
  [genesis, full, bare].find? fun b => b.hash == hash && b.number == number

/-- A chain of these blocks. -/
def chain : Chain where
  shardID := 0
  getBlock
  stateAt root := some (after (if root = 2 then 2 else 0))
  validateStakingTx _ _ := none
  number_getBlock h := by
    have hb := find?_some h
    rw [Bool.and_eq_true] at hb
    exact beq_iff_eq.1 hb.2
  getBlock_wrap hash := by
    rw [getBlock, find?_eq_none]
    intro b hb hfound
    rw [Bool.and_eq_true] at hfound
    have hnumber : ∀ b ∈ [genesis, full, bare], b.number ≠ 0 - 1 := by decide
    exact hnumber b hb (beq_iff_eq.1 hfound.2)

/-- Maps are ranged over as they are. -/
def outside : Outside := ⟨chain, 0, ⟨id, fun _ => .refl _⟩⟩

/-- The default limits. -/
def config : TxPoolConfig := ⟨true, 10, 16, 4096, 64, 1024, 10800, []⟩

/-- All forks are on. -/
def chainconfig : Core.ChainConfig := ⟨1, 1, 0, 0, 0, 0, 0, 0, 0, 0, 0, 0, 0, 0, 0⟩

/-- A pool that starts on a state. -/
def start (gasPrice : ℤ) (nonce : UInt64) : TxPool TxPricedList :=
  .newTxPool config chainconfig gasPrice [] .newTxPricedList (after nonce) 80000000

/-- The pending nonces of account 1. -/
def nonces (s : TxPool TxPricedList) : Option (List ℕ) :=
  (s.pending.lookup 1).map fun list => list.flatten.map (·.nonce.toNat)

end Reorganisation

open Transition Reorganisation in
/-- A pending transaction, and one ahead of its turn. -/
theorem hashes_queued :
    ∃ s, exec TxPool.step (start 1 0)
        [(outside, .addTx (transfer 0 10) false), (outside, .addTx (transfer 2 10) false)] = some s ∧
      hashes s.pending = [(transfer 0 10).hash] ∧ hashes s.queue = [(transfer 2 10).hash] ∧
      s.all.keys.Perm (hashes s.pending ++ hashes s.queue) := by
  have hrun : (exec step (start 1 0)
      [(outside, .addTx (transfer 0 10) false), (outside, .addTx (transfer 2 10) false)]).map
        (fun s => (hashes s.pending, hashes s.queue)) =
      some ([(transfer 0 10).hash], [(transfer 2 10).hash]) := by decide +kernel
  obtain ⟨s, hs, hpending, hqueue⟩ := facts_of_map hrun
  exact ⟨s, hs, hpending, hqueue, hashes_of_reach _ _ _ _ _ _ _ (reach_of_exec hs)⟩

open Transition Reorganisation in
/-- Two transactions that arrive in the wrong order become pending, and stay so for the next
head. -/
theorem structured_next_head :
    ∃ s, exec TxPool.step (start 1 0)
        [(outside, .addTx (transfer 1 1) false), (outside, .addTx (transfer 0 10) false),
          (outside, .chainHead (some genesisHead) bareHead)] = some s ∧
      nonces s = some [0, 1] ∧ s.Structured := by
  have hrun : (exec step (start 1 0)
      [(outside, .addTx (transfer 1 1) false), (outside, .addTx (transfer 0 10) false),
        (outside, .chainHead (some genesisHead) bareHead)]).map nonces = some (some [0, 1]) := by
    decide +kernel
  obtain ⟨s, hs, hnonces⟩ := map_eq_some_iff.1 hrun
  refine ⟨s, hs, hnonces, structured_of_reach _ _ _ _ _ _ _ (reach_of_exec_forall ?_ hs)⟩
  intro a ha t
  simp only [mem_cons, not_mem_nil, or_false] at ha
  obtain rfl | rfl | rfl := ha
  · trivial
  · trivial
  · intro txs htxs
    exact (Outcome.ok.inj htxs).symm

open Transition Reorganisation in
/-- **A reorganisation leaves a gap**: numbers 0 and 1 are added again, number 1 is too cheap, and
the pending nonces are 0 and 2. -/
theorem reorganisation_leaves_a_gap :
    ∃ s, Reach TxPool.step anyStep (start 5 2) s ∧ ¬ s.Structured := by
  have hrun : (exec step (start 5 2)
      [(outside, .addTx (transfer 2 10) false),
        (outside, .chainHead (some fullHead) bareHead)]).map
        (fun s => (nonces s, s.currentState.getNonce 1)) = some (some [0, 2], 0) := by
    decide +kernel
  obtain ⟨s, hs, hnonces, hstate⟩ := facts_of_map hrun
  refine ⟨s, reach_of_exec hs, fun hstructured => ?_⟩
  obtain ⟨list, hl, hlist⟩ := map_eq_some_iff.1 hnonces
  have hcontiguous := hstructured.contiguous 1 list hl
  have hlen : list.flatten.length = 2 := by
    have hlen := congrArg length hlist
    rwa [length_map] at hlen
  rw [hlist, hstate, hlen] at hcontiguous
  revert hcontiguous
  decide

end DyShard.Pool
