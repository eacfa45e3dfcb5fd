import DyShard.Pool.TxPool

/-!
# The indexes of the pool

Every operation takes transactions out of lists, drops some and puts others into other lists.
`Indexed` says what holds in between: the lookup has exactly the transactions of the lists and
those in flight.
-/

namespace DyShard.Pool

open List SortedMap TxList AList Prod

open SortedMap (Split)

/-! ## Transactions in lists -/

/-- What no two transactions of the pool share: the sender and the nonce. -/
def PoolTransaction.slot (tx : PoolTransaction) : Address × ℕ := (tx.sender, tx.key)

/-- A transaction is in the list of its sender. -/
def Held (m : Lists) (tx : PoolTransaction) : Prop :=
  ∃ l, m.lookup tx.sender = some l ∧ tx ∈ l.txs.items

/-- The lists hold transactions of their own account only, and are all strict or all not. -/
structure Owned (strict : Bool) (m : Lists) : Prop where
  sender : ∀ a l, m.lookup a = some l → ∀ tx ∈ l.txs.items, tx.sender = a
  strict : ∀ a l, m.lookup a = some l → l.strict = strict

section Lists

variable {b : Bool} {m : Lists} {a : Address} {l l' : TxList} {tx : PoolTransaction}

theorem Owned.held (h : Owned b m) (hl : m.lookup a = some l) (htx : tx ∈ l.txs.items) :
    Held m tx := ⟨l, by rw [h.sender a l hl tx htx, hl], htx⟩

theorem Held.mem (h : Held m tx) (hl : m.lookup tx.sender = some l) : tx ∈ l.txs.items := by
  obtain ⟨l₁, hl₁, htx⟩ := h
  cases hl₁.symm.trans hl
  exact htx

theorem Owned.insert (h : Owned b m) (hl' : ∀ tx ∈ l'.txs.items, tx.sender = a)
    (hstrict : l'.strict = b) : Owned b (m.insert a l') := by
  have hlists : ∀ c k, (m.insert a l').lookup c = some k → c = a ∧ k = l' ∨ m.lookup c = some k := by
    intro c k hk
    by_cases hc : c = a
    · subst hc
      rw [lookup_insert] at hk
      exact .inl ⟨rfl, (Option.some.inj hk).symm⟩
    · rw [lookup_insert_ne hc] at hk
      exact .inr hk
  constructor
  · intro c k hk
    rcases hlists c k hk with ⟨rfl, rfl⟩ | hk
    · exact hl'
    · exact h.sender c k hk
  · intro c k hk
    rcases hlists c k hk with ⟨rfl, rfl⟩ | hk
    · exact hstrict
    · exact h.strict c k hk

theorem held_insert (hl' : ∀ tx ∈ l'.txs.items, tx.sender = a) :
    Held (m.insert a l') tx ↔ tx ∈ l'.txs.items ∨ tx.sender ≠ a ∧ Held m tx := by
  unfold Held
  by_cases ha : tx.sender = a
  · rw [ha, lookup_insert]
    simp
  · have hnot : tx ∉ l'.txs.items := fun hmem => ha (hl' tx hmem)
    simp [ha, hnot]

theorem Owned.held_put (h : Owned b m) (hl : m.lookup tx.sender = some l)
    (hl' : l'.txs = l.txs.put tx) :
    (∀ u ∈ l'.txs.items, u.sender = tx.sender) ∧
      ∀ u, Held (m.insert tx.sender l') u ↔ u = tx ∨ Held m u ∧ u.slot ≠ tx.slot := by
  have hown : ∀ u ∈ l'.txs.items, u.sender = tx.sender := by
    intro u hu
    rw [hl'] at hu
    rcases mem_put.1 hu with rfl | ⟨hu, -⟩
    · rfl
    · exact h.sender _ l hl u hu
  refine ⟨hown, fun u => ?_⟩
  rw [held_insert hown, hl', mem_put]
  constructor
  · rintro ((rfl | ⟨hu, hk⟩) | ⟨hs, hu⟩)
    · exact .inl rfl
    · exact .inr ⟨h.held hl hu, fun he => hk (mk.inj he).2⟩
    · exact .inr ⟨hu, fun he => hs (mk.inj he).1⟩
  · rintro (rfl | ⟨hu, hne⟩)
    · exact .inl (.inl rfl)
    · by_cases hs : u.sender = tx.sender
      · exact .inl (.inr ⟨hu.mem (hs ▸ hl), fun hk => hne (Prod.ext hs hk)⟩)
      · exact .inr ⟨hs, hu⟩

theorem Owned.erase (h : Owned b m) : Owned b (m.erase a) := by
  have hlists : ∀ c k, (m.erase a).lookup c = some k → m.lookup c = some k := by
    intro c k hk
    by_cases hc : c = a
    · subst hc
      rw [lookup_erase] at hk
      cases hk
    · rwa [lookup_erase_ne hc] at hk
  exact ⟨fun c k hk => h.sender c k (hlists c k hk), fun c k hk => h.strict c k (hlists c k hk)⟩

theorem held_erase : Held (m.erase a) tx ↔ tx.sender ≠ a ∧ Held m tx := by
  unfold Held
  by_cases ha : tx.sender = a
  · rw [ha, lookup_erase]
    simp
  · simp [ha]

/-- A list is cut at a transaction: what is in the lists afterwards. -/
theorem Owned.held_cut (h : Owned b m) {out : List PoolTransaction} {t : PoolTransaction}
    (hl : m.lookup tx.sender = some l) (hsplit : Split l.txs (tx :: out) l'.txs)
    (hkept : ∀ t ∈ l'.txs.items, t.key < tx.key) (hout : ∀ t ∈ out, tx.key < t.key) :
    t ∈ l'.txs.items ∨ t.sender ≠ tx.sender ∧ Held m t ↔
      Held m t ∧ (t.sender = tx.sender → t.key < tx.key) := by
  constructor
  · rintro (ht | ⟨hs, ht⟩)
    · exact ⟨h.held hl (hsplit.mem_iff.2 (.inr ht)), fun _ => hkept t ht⟩
    · exact ⟨ht, fun hs' => absurd hs' hs⟩
  · rintro ⟨ht, hlt⟩
    by_cases hs : t.sender = tx.sender
    · have hlt := hlt hs
      rcases hsplit.mem_iff.1 (ht.mem (hs ▸ hl)) with hmem | hmem
      · rcases mem_cons.1 hmem with rfl | hmem
        · exact absurd hlt (lt_irrefl _)
        · exact absurd (hout t hmem) hlt.asymm
      · exact .inl hmem
    · exact .inr ⟨hs, ht⟩

end Lists

/-! ## The invariant -/

/-- A transaction is in one of the lists or in flight. -/
def Known (m n : Lists) (loose : List PoolTransaction) (tx : PoolTransaction) : Prop :=
  Held m tx ∨ Held n tx ∨ tx ∈ loose

theorem known_cons {m n : Lists} {loose : List PoolTransaction} {tx u : PoolTransaction} :
    Known m n (tx :: loose) u ↔ u = tx ∨ Known m n loose u := by
  unfold Known
  rw [mem_cons]
  tauto

/-- **The indexes agree**: the lookup has the transactions of the lists `m` and `n` and those in
flight, `loose`, each with a slot of its own. -/
structure Indexed (b : Bool) (m n : Lists) (all : TxLookup) (loose : List PoolTransaction) :
    Prop where
  left : Owned b m
  right : Owned (!b) n
  lookup : ∀ hash tx, all.lookup hash = some tx ↔ tx.hash = hash ∧ Known m n loose tx
  payable : ∀ tx, Known m n loose tx → ∃ cost, tx.cost = .ok cost
  apart : ∀ t u, Held m t → Held n u → t.slot ≠ u.slot
  apart_left : ∀ t u, Held m t → u ∈ loose → t.slot ≠ u.slot
  apart_right : ∀ t u, Held n t → u ∈ loose → t.slot ≠ u.slot
  nodup : (loose.map PoolTransaction.slot).Nodup

namespace Indexed

variable {b : Bool} {m m' n : Lists} {all : TxLookup} {loose out : List PoolTransaction}
  {a : Address} {l l' : TxList} {tx : PoolTransaction}

section

variable (h : Indexed b m n all loose)
include h

theorem symm : Indexed (!b) n m all loose where
  left := h.right
  right := by
    rw [Bool.not_not]
    exact h.left
  lookup hash tx := by
    rw [h.lookup, Known, Known]
    tauto
  payable tx htx := h.payable tx (by
    unfold Known at *
    tauto)
  apart t u ht hu he := h.apart u t hu ht he.symm
  apart_left := h.apart_right
  apart_right := h.apart_left
  nodup := h.nodup

theorem lookup_hash (htx : Known m n loose tx) :
    all.lookup tx.hash = some tx := (h.lookup _ _).2 ⟨rfl, htx⟩

theorem eq_of_hash {t u : PoolTransaction} (ht : Known m n loose t) (hu : Known m n loose u)
    (he : t.hash = u.hash) : t = u := by
  have hlook := h.lookup_hash ht
  rw [he, h.lookup_hash hu] at hlook
  exact (Option.some.inj hlook).symm

theorem congr_held (hown : Owned b m') (hheld : ∀ tx, Held m' tx ↔ Held m tx) :
    Indexed b m' n all loose := by
  have hknown : ∀ tx, Known m' n loose tx ↔ Known m n loose tx := fun tx => by
    rw [Known, Known, hheld]
  exact {
    left := hown
    right := h.right
    lookup := fun hash tx => by rw [hknown, h.lookup]
    payable := fun tx htx => h.payable tx ((hknown tx).1 htx)
    apart := fun t u ht => h.apart t u ((hheld t).1 ht)
    apart_left := fun t u ht => h.apart_left t u ((hheld t).1 ht)
    apart_right := h.apart_right
    nodup := h.nodup }

theorem open_list (hm : m.lookup a = none) : Indexed b (m.insert a (newTxList b)) n all loose := by
  have hown : ∀ tx ∈ (newTxList b).txs.items, tx.sender = a := fun tx htx =>
    absurd htx not_mem_nil
  refine h.congr_held (h.left.insert hown rfl) fun tx => ?_
  rw [held_insert hown]
  constructor
  · rintro (htx | ⟨-, htx⟩)
    · cases htx
    · exact htx
  · intro htx
    refine .inr ⟨?_, htx⟩
    rintro rfl
    obtain ⟨k, hk, -⟩ := htx
    rw [hm] at hk
    cases hk

theorem take (l' : TxList) (hl : m.lookup a = some l) (hsplit : Split l.txs out l'.txs)
    (hstrict : l'.strict = l.strict) : Indexed b (m.insert a l') n all (out ++ loose) := by
  have hsender : ∀ tx ∈ l.txs.items, tx.sender = a := h.left.sender a l hl
  have hown : ∀ tx ∈ l'.txs.items, tx.sender = a := fun tx htx =>
    hsender tx (hsplit.mem_iff.2 (.inr htx))
  have hout : ∀ tx ∈ out, tx.sender = a := fun tx htx => hsender tx (hsplit.mem_iff.2 (.inl htx))
  have hheldOut : ∀ tx ∈ out, Held m tx := fun tx htx =>
    h.left.held hl (hsplit.mem_iff.2 (.inl htx))
  have hheld : ∀ tx, Held (m.insert a l') tx → Held m tx := by
    intro tx htx
    rcases (held_insert hown).1 htx with htx | ⟨-, htx⟩
    · exact h.left.held hl (hsplit.mem_iff.2 (.inr htx))
    · exact htx
  have hknown : ∀ tx, Known (m.insert a l') n (out ++ loose) tx ↔ Known m n loose tx := by
    intro tx
    unfold Known
    rw [mem_append]
    constructor
    · rintro (htx | htx | htx | htx)
      · exact .inl (hheld tx htx)
      · exact .inr (.inl htx)
      · exact .inl (hheldOut tx htx)
      · exact .inr (.inr htx)
    · rintro (htx | htx | htx)
      · by_cases ha : tx.sender = a
        · subst ha
          rcases hsplit.mem_iff.1 (htx.mem hl) with hmem | hmem
          · exact .inr (.inr (.inl hmem))
          · exact .inl ((held_insert hown).2 (.inl hmem))
        · exact .inl ((held_insert hown).2 (.inr ⟨ha, htx⟩))
      · exact .inr (.inl htx)
      · exact .inr (.inr (.inr htx))
  refine {
    left := h.left.insert hown (hstrict.trans (h.left.strict a l hl))
    right := h.right
    lookup := fun hash tx => by rw [hknown, h.lookup]
    payable := fun tx htx => h.payable tx ((hknown tx).1 htx)
    apart := fun t u ht => h.apart t u (hheld t ht)
    apart_left := ?_
    apart_right := ?_
    nodup := ?_ }
  · intro t u ht hu he
    rcases mem_append.1 hu with hu | hu
    · -- both were in the list, where a nonce occurs once
      rcases (held_insert hown).1 ht with ht | ⟨ha, -⟩
      · exact hsplit.key_ne hu ht (mk.inj he).2.symm
      · exact ha ((mk.inj he).1.trans (hout u hu))
    · exact h.apart_left t u (hheld t ht) hu he
  · intro t u ht hu he
    rcases mem_append.1 hu with hu | hu
    · exact h.apart u t (hheldOut u hu) ht he.symm
    · exact h.apart_right t u ht hu he
  · rw [map_append, nodup_append']
    refine ⟨?_, h.nodup, ?_⟩
    · have hkeys := hsplit.nodup_out
      rw [List.Nodup, pairwise_map] at hkeys ⊢
      exact hkeys.imp fun hne he => hne (mk.inj he).2
    · rintro slot hslot hloose
      obtain ⟨t, ht, rfl⟩ := mem_map.1 hslot
      obtain ⟨u, hu, he⟩ := mem_map.1 hloose
      exact h.apart_left t u (hheldOut t ht) hu he.symm

theorem not_held_of_loose (htx : tx ∈ loose) : ¬ Held m tx :=
  fun hheld => h.apart_left tx tx hheld htx rfl

theorem get_eq_none_of_loose (htx : tx ∈ loose) (hl : m.lookup tx.sender = some l) :
    l.txs.get tx.key = none := by
  rw [get_eq_none]
  intro u hu hkey
  have hsender : u.sender = tx.sender := h.left.sender _ l hl u hu
  exact h.apart_left u tx (h.left.held hl hu) htx (Prod.ext hsender hkey)

end

theorem forget (h : Indexed b m n all (tx :: loose)) : Indexed b m n (all.erase tx.hash) loose := by
  have hnodup := h.nodup
  rw [map_cons, nodup_cons] at hnodup
  have hlift : ∀ t, Known m n loose t → Known m n (tx :: loose) t := fun t ht =>
    known_cons.2 (.inr ht)
  have hne : ∀ t, Known m n loose t → t.hash ≠ tx.hash := by
    intro t ht he
    cases h.eq_of_hash (hlift t ht) (known_cons.2 (.inl rfl)) he
    rcases ht with ht | ht | ht
    · exact h.not_held_of_loose mem_cons_self ht
    · exact h.symm.not_held_of_loose mem_cons_self ht
    · exact hnodup.1 (mem_map_of_mem ht)
  exact {
    left := h.left
    right := h.right
    lookup := fun hash t => by
      by_cases hh : hash = tx.hash
      · subst hh
        rw [lookup_erase]
        constructor
        · nofun
        · rintro ⟨he, ht⟩
          exact absurd he (hne t ht)
      · rw [lookup_erase_ne hh, h.lookup]
        constructor
        · rintro ⟨rfl, ht⟩
          rcases known_cons.1 ht with rfl | ht
          · exact absurd rfl hh
          · exact ⟨rfl, ht⟩
        · rintro ⟨rfl, ht⟩
          exact ⟨rfl, hlift t ht⟩
    payable := fun t ht => h.payable t (hlift t ht)
    apart := h.apart
    apart_left := fun t u ht hu => h.apart_left t u ht (mem_cons_of_mem _ hu)
    apart_right := fun t u ht hu => h.apart_right t u ht (mem_cons_of_mem _ hu)
    nodup := hnodup.2 }

theorem put (h : Indexed b m n all (tx :: loose)) (l' : TxList) (hl : m.lookup tx.sender = some l)
    (hl' : l'.txs = l.txs.put tx) (hstrict : l'.strict = l.strict) :
    Indexed b (m.insert tx.sender l') n all loose := by
  obtain ⟨hown, hput⟩ := h.left.held_put hl hl'
  have hheld : ∀ u, Held (m.insert tx.sender l') u ↔ u = tx ∨ Held m u := by
    intro u
    rw [hput]
    exact or_congr_right (and_iff_left_of_imp fun hu => h.apart_left u tx hu mem_cons_self)
  have hknown : ∀ u, Known (m.insert tx.sender l') n loose u ↔ Known m n (tx :: loose) u := by
    intro u
    rw [known_cons, Known, Known, hheld, or_assoc]
  have hnodup := h.nodup
  rw [map_cons, nodup_cons] at hnodup
  refine {
    left := h.left.insert hown (hstrict.trans (h.left.strict _ l hl))
    right := h.right
    lookup := fun hash u => by rw [hknown, h.lookup]
    payable := fun u hu => h.payable u ((hknown u).1 hu)
    apart := ?_
    apart_left := ?_
    apart_right := fun t u ht hu => h.apart_right t u ht (mem_cons_of_mem _ hu)
    nodup := hnodup.2 }
  · intro t u ht hu he
    rcases (hheld t).1 ht with rfl | ht
    · exact h.apart_right u t hu mem_cons_self he.symm
    · exact h.apart t u ht hu he
  · intro t u ht hu he
    rcases (hheld t).1 ht with rfl | ht
    · exact hnodup.1 (he ▸ mem_map_of_mem hu)
    · exact h.apart_left t u ht (mem_cons_of_mem _ hu) he

theorem learn (h : Indexed b m n all loose) (hnew : all.lookup tx.hash = none)
    {cost : ℤ} (hcost : tx.cost = .ok cost) (hfree : ∀ u, Known m n loose u → u.slot ≠ tx.slot) :
    Indexed b m n (all.insert tx.hash tx) (tx :: loose) where
  left := h.left
  right := h.right
  lookup hash u := by
    have hne : Known m n loose u → u.hash ≠ tx.hash := by
      intro hu he
      have hlook := h.lookup_hash hu
      rw [he, hnew] at hlook
      cases hlook
    rw [known_cons]
    by_cases hh : hash = tx.hash
    · subst hh
      rw [lookup_insert]
      constructor
      · rintro ⟨⟩
        exact ⟨rfl, .inl rfl⟩
      · rintro ⟨he, rfl | hu⟩
        · rfl
        · exact absurd he (hne hu)
    · rw [lookup_insert_ne hh, h.lookup]
      constructor
      · rintro ⟨he, hu⟩
        exact ⟨he, .inr hu⟩
      · rintro ⟨rfl, rfl | hu⟩
        · exact absurd rfl hh
        · exact ⟨rfl, hu⟩
  payable u hu := by
    rcases known_cons.1 hu with rfl | hu
    · exact ⟨cost, hcost⟩
    · exact h.payable u hu
  apart := h.apart
  apart_left t u ht hu := by
    rcases mem_cons.1 hu with rfl | hu
    · exact hfree t (.inl ht)
    · exact h.apart_left t u ht hu
  apart_right t u ht hu := by
    rcases mem_cons.1 hu with rfl | hu
    · exact hfree t (.inr (.inl ht))
    · exact h.apart_right t u ht hu
  nodup := by
    rw [map_cons, nodup_cons]
    refine ⟨fun hmem => ?_, h.nodup⟩
    obtain ⟨u, hu, he⟩ := mem_map.1 hmem
    exact hfree u (.inr (.inr hu)) he

theorem delete_list (h : Indexed b m n all loose) (hl : m.lookup a = some l)
    (he : l.txs.items = []) : Indexed b (m.erase a) n all loose := by
  refine h.congr_held h.left.erase fun tx => ?_
  rw [held_erase]
  constructor
  · exact And.right
  · intro htx
    refine ⟨?_, htx⟩
    rintro rfl
    have hmem := htx.mem hl
    rw [he] at hmem
    cases hmem

theorem close_list (h : Indexed b (m.insert a l) n all loose) (hm : Owned b m)
    (he : l.txs.items = []) : Indexed b (m.erase a) n all loose := by
  refine h.congr_held hm.erase fun tx => ?_
  rw [held_erase, held_insert (by rw [he]; exact fun tx htx => absurd htx not_mem_nil), he]
  constructor
  · exact .inr
  · rintro (htx | htx)
    · cases htx
    · exact htx

theorem touch (h : Indexed b m n all loose) (a : Address) :
    Indexed b (m.insert a ((m.lookup a).getD (newTxList b))) n all loose := by
  cases hm : m.lookup a with
  | none => exact h.open_list hm
  | some l => exact h.take l hm (Split.refl l.txs) rfl

theorem lookup_touch (m : Lists) (a : Address) (l : TxList) :
    (m.insert a l).lookup a = some l := lookup_insert m

theorem add_loose (h : Indexed b m n all (tx :: loose)) (bump : ℕ) :
    ∃ l', ((m.lookup tx.sender).getD (newTxList b)).add tx bump = some (none, l') ∧
      Indexed b (m.insert tx.sender l') n all loose := by
  have htouch := h.touch tx.sender
  have hl := lookup_touch m tx.sender ((m.lookup tx.sender).getD (newTxList b))
  obtain ⟨cost, hcost⟩ := h.payable tx (.inr (.inr mem_cons_self))
  have hfree := htouch.get_eq_none_of_loose mem_cons_self hl
  refine ⟨_, add_of_get_eq_none hfree hcost, ?_⟩
  have hput := htouch.put (TxList.put _ tx cost) hl rfl rfl
  rwa [insert_insert] at hput

theorem lookup_erase_eq_none {hash hash' : Word} (h : all.lookup hash = none) :
    (all.erase hash').lookup hash = none := by
  by_cases hh : hash = hash'
  · rw [hh, lookup_erase]
  · rw [lookup_erase_ne hh, h]

/-- The lookup without the transaction that was replaced. -/
def eraseOld (all : TxLookup) : Option PoolTransaction → TxLookup
  | some old => all.erase old.hash
  | none => all

theorem add_new (h : Indexed b m n all []) {bump : ℕ} {old : Option PoolTransaction}
    (hadd : ((m.lookup tx.sender).getD (newTxList b)).add tx bump = some (old, l'))
    (hnew : all.lookup tx.hash = none) (hother : ∀ u, Held n u → u.slot ≠ tx.slot) :
    Indexed b (m.insert tx.sender l') n ((eraseOld all old).insert tx.hash tx) [] := by
  obtain ⟨htxs, hstrict, rfl, cost, hcost⟩ := add_eq_some hadd
  have htouch := h.touch tx.sender
  have hl := lookup_touch m tx.sender ((m.lookup tx.sender).getD (newTxList b))
  generalize (m.lookup tx.sender).getD (newTxList b) = l at *
  have hfree : ∀ k : TxList, (∀ u ∈ k.txs.items, u.key ≠ tx.key) →
      (∀ u ∈ k.txs.items, u.sender = tx.sender) →
      ∀ u, Known (m.insert tx.sender k) n [] u → u.slot ≠ tx.slot := by
    rintro k hk hown u (hu | hu | hu) he
    · rcases (held_insert hown).1 hu with hu | ⟨hs, -⟩
      · exact hk u hu (mk.inj he).2
      · exact hs (mk.inj he).1
    · exact hother u hu he
    · cases hu
  cases hget : l.txs.get tx.key with
  | none =>
    have hlearn := htouch.learn hnew hcost (hfree l (get_eq_none.1 hget)
      (htouch.left.sender _ l hl))
    have hput := hlearn.put l' hl htxs hstrict
    rwa [insert_insert] at hput
  | some old =>
    -- the replaced transaction leaves first
    have htake := htouch.take { l with txs := l.txs.remove tx.key } hl (split_remove hget) rfl
    rw [insert_insert] at htake
    have hforget := htake.forget
    have hl₁ := lookup_touch m tx.sender { l with txs := l.txs.remove tx.key }
    have hlearn := hforget.learn (lookup_erase_eq_none hnew) hcost (hfree { l with txs := l.txs.remove tx.key }
      (fun u hu => (mem_remove.1 hu).2) (hforget.left.sender _ _ hl₁))
    have hput := hlearn.put l' hl₁ (htxs.trans (put_remove l.txs tx).symm) hstrict
    rwa [insert_insert] at hput

theorem held_iff (h : Indexed b m n all (tx :: loose)) (h' : Indexed b m' n all loose)
    {u : PoolTransaction} : Held m' u ↔ u = tx ∨ Held m u := by
  have hknown : Known m' n loose u ↔ Known m n (tx :: loose) u := by
    have hlook := h.lookup u.hash u
    rw [h'.lookup] at hlook
    simpa using hlook
  have hnodup := h.nodup
  rw [map_cons, nodup_cons] at hnodup
  constructor
  · intro hu
    rcases hknown.1 (.inl hu) with hu' | hu' | hu'
    · exact .inr hu'
    · exact absurd rfl (h'.apart u u hu hu')
    · rcases mem_cons.1 hu' with rfl | hu'
      · exact .inl rfl
      · exact absurd rfl (h'.apart_left u u hu hu')
  · intro hu
    have hu₁ : Known m n (tx :: loose) u := by
      rcases hu with rfl | hu
      · exact .inr (.inr mem_cons_self)
      · exact .inl hu
    rcases hknown.2 hu₁ with hu' | hu' | hu'
    · exact hu'
    · rcases hu with rfl | hu
      · exact absurd rfl (h.apart_right u u hu' mem_cons_self)
      · exact absurd rfl (h.apart u u hu hu')
    · rcases hu with rfl | hu
      · exact absurd (mem_map_of_mem hu') hnodup.1
      · exact absurd rfl (h.apart_left u u hu (mem_cons_of_mem _ hu'))

end Indexed

/-! ## One transaction -/

namespace TxPool

variable {P : Type} {s s' : TxPool P} {o : Outside} {tx : PoolTransaction}
  {txs loose : List PoolTransaction} {addr : Address}

/-- The indexes of a pool agree, up to transactions in flight. -/
abbrev Index (s : TxPool P) (loose : List PoolTransaction) : Prop :=
  Indexed true s.pending s.queue s.all loose

theorem held_shrinkPending {list : TxList} (hown : ∀ t ∈ list.txs.items, t.sender = addr) :
    Held (s.shrinkPending addr list).pending tx ↔
      tx ∈ list.txs.items ∨ tx.sender ≠ addr ∧ Held s.pending tx := by
  unfold shrinkPending
  split
  case isTrue he =>
    rw [isEmpty_iff.1 he, held_erase]
    simp
  case isFalse => exact held_insert hown

theorem shrinkPending_eq (s : TxPool P) (addr : Address) (list : TxList) :
    ∃ pending beats, s.shrinkPending addr list = { s with pending, beats } := by
  unfold shrinkPending
  split
  · exact ⟨_, _, rfl⟩
  · exact ⟨_, _, rfl⟩

theorem index_shrinkPending {list : TxList} (hm : Owned true s.pending)
    (h : (s.setPending addr list).Index loose) : (s.shrinkPending addr list).Index loose := by
  unfold shrinkPending
  split
  case isTrue he => exact h.close_list hm (isEmpty_iff.1 he)
  case isFalse => exact h

theorem removeQueued_of_held (h : s.Index loose) (htx : Held s.queue tx) :
    ∃ queue, Indexed true s.pending queue s.all (tx :: loose) ∧
      ∀ all priced, ({ s with all, priced } : TxPool P).removeQueued tx =
        { s with queue, all, priced } := by
  obtain ⟨list, hl, hmem⟩ := htx
  have hget : list.txs.get tx.key = some tx := get_eq_some.2 ⟨hmem, rfl⟩
  obtain ⟨out, list', hrem⟩ := remove_isSome hget
  obtain ⟨u, hu, hsplit, hstrict, hout, -, -⟩ := remove_eq_some hrem
  cases hget.symm.trans hu
  cases hout (h.right.strict _ _ hl)
  have htake := h.symm.take list' hl hsplit hstrict
  unfold removeQueued
  dsimp only
  rw [hl]
  dsimp only
  rw [hrem]
  dsimp only
  split
  case isTrue he =>
    exact ⟨_, (htake.close_list h.symm.left (isEmpty_iff.1 he)).symm, fun _ _ => rfl⟩
  case isFalse => exact ⟨_, htake.symm, fun _ _ => rfl⟩

variable [PriceIndex P]

theorem dropTxs_eq (s : TxPool P) (txs : List PoolTransaction) :
    ∃ all priced, s.dropTxs txs = { s with all, priced } := by
  induction txs generalizing s with
  | nil => exact ⟨_, _, rfl⟩
  | cons tx txs ih =>
    obtain ⟨all, priced, h⟩ := ih (s.dropTx tx)
    exact ⟨all, priced, h⟩

theorem index_dropTxs (h : s.Index (txs ++ loose)) : (s.dropTxs txs).Index loose := by
  induction txs generalizing s with
  | nil => exact h
  | cons tx txs ih => exact ih h.forget

theorem reindex_of_known (h : s.all.lookup tx.hash = some tx) : s.reindex none tx = s := by
  unfold reindex
  rw [dropOld, h]
  rfl

theorem enqueueTx_of_loose (h : s.Index (tx :: loose)) :
    ∃ list, (s.enqueueTx tx).1 = s.setQueue tx.sender list ∧
      (s.setQueue tx.sender list).Index loose := by
  obtain ⟨list, hadd, hindex⟩ := h.symm.add_loose s.config.priceBump
  refine ⟨list, ?_, hindex.symm⟩
  rw [Bool.not_true] at hadd
  unfold enqueueTx
  dsimp only
  rw [hadd]
  exact reindex_of_known (h.lookup_hash (.inr (.inr mem_cons_self)))

theorem postpone_of_loose (h : s.Index (txs ++ loose)) :
    ∃ queue, s.postpone txs = { s with queue } ∧ (s.postpone txs).Index loose := by
  induction txs generalizing s with
  | nil => exact ⟨s.queue, rfl, h⟩
  | cons tx txs ih =>
    obtain ⟨list, heq, hindex⟩ := enqueueTx_of_loose h
    obtain ⟨queue, hrest, hrest'⟩ := ih hindex
    rw [← heq] at hrest hrest'
    refine ⟨queue, ?_, hrest'⟩
    rw [postpone, foldl_cons]
    rw [postpone] at hrest
    rw [hrest, heq]
    rfl

theorem promoteTx_of_loose (h : s.Index (tx :: loose)) :
    ∃ list, s.promoteTx o tx.sender tx =
        ((s.setPending tx.sender list).beat o tx.sender).setNonce tx.sender (tx.nonce + 1) ∧
      (s.setPending tx.sender list).Index loose := by
  obtain ⟨list, hadd, hindex⟩ := h.add_loose s.config.priceBump
  refine ⟨list, ?_, hindex⟩
  have hknown : (s.setPending tx.sender list).all.lookup tx.hash = some tx :=
    h.lookup_hash (.inr (.inr mem_cons_self))
  unfold promoteTx
  dsimp only
  rw [hadd]
  dsimp only
  rw [reindex_of_known hknown]

/-! ## Removing a transaction -/

/-- A removal does nothing to the pending lists, or cuts one at a nonce and lowers the managed
nonce. -/
inductive Cut (s s' : TxPool P) : Prop
  | same (pending : s'.pending = s.pending) (managed : s'.pendingState = s.pendingState)
  | cut (tx : PoolTransaction)
      (pending : ∀ t, Held s'.pending t ↔
        Held s.pending t ∧ (t.sender = tx.sender → t.key < tx.key))
      (managed : s'.pendingState = s.pendingState.lower tx.sender tx.nonce)

/-- The effect of removing a transaction. -/
structure Removal (s s' : TxPool P) : Prop where
  index : s'.Index []
  cut : Cut s s'
  state : s'.currentState = s.currentState
  unknown : ∀ hash, s.all.lookup hash = none → s'.all.lookup hash = none

theorem unlistTx_pending (h : s.Index []) (htx : Held s.pending tx) (priced : P) :
    Removal s (({ s with all := s.all.erase tx.hash, priced } : TxPool P).unlistTx tx) := by
  obtain ⟨list, hl, hmem⟩ := htx
  have hget : list.txs.get tx.key = some tx := get_eq_some.2 ⟨hmem, rfl⟩
  obtain ⟨out, list', hrem⟩ := remove_isSome hget
  obtain ⟨u, hu, hsplit, hstrict, -, hout, hkept⟩ := remove_eq_some hrem
  cases hget.symm.trans hu
  have hkept := hkept (h.left.strict _ _ hl)
  have hown := h.left.sender _ _ hl
  have hown' : ∀ t ∈ list'.txs.items, t.sender = tx.sender := fun t ht =>
    hown t (hsplit.mem_iff.2 (.inr ht))
  have htake : Indexed true (s.pending.insert tx.sender list') s.queue s.all (tx :: (out ++ [])) :=
    h.take list' hl hsplit hstrict
  have hshrink := index_shrinkPending (s := { s with all := s.all.erase tx.hash, priced })
    h.left htake.forget
  obtain ⟨queue, heq, hindex⟩ := postpone_of_loose hshrink
  obtain ⟨pending, beats, hframe⟩ :=
    shrinkPending_eq { s with all := s.all.erase tx.hash, priced } tx.sender list'
  unfold unlistTx
  rw [hl, Option.bind_some, hrem]
  dsimp only
  refine ⟨hindex, ?_, ?_, ?_⟩
  · rw [heq]
    refine .cut tx (fun t => ?_) ?_
    · refine (held_shrinkPending hown').trans ?_
      exact h.left.held_cut hl hsplit hkept hout
    · rw [hframe]
      rfl
  · rw [heq, hframe]
    rfl
  · intro hash hnone
    rw [heq, hframe]
    exact Indexed.lookup_erase_eq_none hnone

theorem unlistTx_queue (h : s.Index []) (htx : Held s.queue tx) (priced : P) :
    Removal s (({ s with all := s.all.erase tx.hash, priced } : TxPool P).unlistTx tx) := by
  -- no pending transaction has this nonce
  have hnone : (s.pending.lookup tx.sender).bind (·.remove tx) = none := by
    rw [Option.bind_eq_none_iff]
    intro list hl
    have hfree : list.txs.get tx.key = none := by
      rw [get_eq_none]
      intro u hu hkey
      have hslot : u.slot = tx.slot := Prod.ext (h.left.sender _ _ hl u hu) hkey
      exact h.apart u tx (h.left.held hl hu) htx hslot
    unfold TxList.remove
    rw [hfree]
  obtain ⟨queue, hindex, heq⟩ := removeQueued_of_held h htx
  unfold unlistTx
  rw [hnone]
  rw [heq]
  exact ⟨hindex.forget, .same rfl rfl, rfl, fun _ => Indexed.lookup_erase_eq_none⟩

/-- **A removal** keeps the indexes in agreement and cuts at most one pending list. -/
theorem removal_removeTx (h : s.Index []) (hash : Word) (outofbound : Bool) :
    Removal s (s.removeTx hash outofbound) := by
  unfold removeTx
  split
  · exact ⟨h, .same rfl rfl, rfl, fun _ => id⟩
  case h_2 tx hlook =>
    obtain ⟨rfl, htx⟩ := (h.lookup _ _).1 hlook
    have hforget : ∃ priced, s.forgetTx tx outofbound =
        { s with all := s.all.erase tx.hash, priced } := by
      unfold forgetTx
      split
      · exact ⟨_, rfl⟩
      · exact ⟨_, rfl⟩
    obtain ⟨priced, heq⟩ := hforget
    rw [heq]
    rcases htx with htx | htx | htx
    · exact unlistTx_pending h htx priced
    · exact unlistTx_queue h htx priced
    · cases htx

end TxPool

end DyShard.Pool
