import DyShard.Common
import DyShard.Lib.SortedMap

/-!
# The transactions of one account

`core/tx_list.go`: at most one transaction for a nonce, in the order of the nonces.  Left out: the
cache of the sorted slice and the errors of removed transactions, which only the error sink shows.
-/

namespace DyShard.Pool

open List SortedMap

/-! ## Pooled transactions -/

/-- The errors of the pool, with the value that the message names, and those of other packages. -/
inductive TxPoolError where
  | knownTransaction (hash : Word)
  | invalidShard (shardID : ShardID)
  | addrHasFreezed
  | oversizedData (size : ℕ)
  | negativeValue (value : ℤ)
  | gasLimit (gas : UInt64)
  | invalidSender
  | blacklistFrom (sender : Address)
  | blacklistTo (receiver : Address)
  | underpriced (gasPrice : ℤ)
  | replaceUnderpriced
  | nonceTooLow (nonce : UInt64)
  | insufficientFunds (shardID : ShardID)
  | outOfGas
  | intrinsicGas (gas : UInt64)
  | other (text : String)
  deriving DecidableEq

/-- `staking.Directive`. -/
inductive Directive where
  | createValidator
  | editValidator
  | delegate
  | undelegate
  | collectRewards
  | unknown (code : UInt8)
  deriving DecidableEq

/-- `types.PoolTransaction`; `stakingType` is set for staking transactions only. -/
structure PoolTransaction where
  hash : Word
  nonce : UInt64
  gasPrice : ℤ
  gasLimit : UInt64
  recipient : Option Address
  value : ℤ
  data : List UInt8
  shardID : ShardID
  size : ℕ
  senderAddress : Except TxPoolError Address
  cost : Except TxPoolError ℤ
  stakingType : Option Directive

namespace PoolTransaction

/-- `from, _ := tx.SenderAddress()`: without a sender the address is zero. -/
def sender (tx : PoolTransaction) : Address :=
  match tx.senderAddress with
  | .ok a => a
  | .error _ => 0

/-- The key of a list of transactions. -/
def key (tx : PoolTransaction) : ℕ := tx.nonce.toNat

end PoolTransaction

/-- `txSortedMap`. -/
abbrev TxSortedMap := SortedMap PoolTransaction.key

/-! ## Lists -/

/-- `stakingTxCheckThreshold`. -/
def stakingTxCheckThreshold : UInt64 := 10

/-- `txList`. -/
structure TxList where
  strict : Bool
  txs : TxSortedMap := SortedMap.empty
  lastStkCheck : UInt64 := 0
  costcap : ℤ := 0
  gascap : UInt64 := 0

/-- `newTxList`. -/
def newTxList (strict : Bool) : TxList := { strict }

namespace TxList

open SortedMap (Split)

variable (l : TxList)

/-- `Len`. -/
def len : ℕ := l.txs.items.length

/-- `Empty`. -/
def isEmpty : Bool := l.len == 0

/-- `Flatten`. -/
def flatten : List PoolTransaction := l.txs.items

/-- `Overlaps`. -/
def overlaps (tx : PoolTransaction) : Bool := (l.txs.get tx.key).isSome

/-- The price of the old transaction is not exceeded by `priceBump` percent. -/
def underbids (old tx : PoolTransaction) (priceBump : ℕ) : Bool :=
  decide (tx.gasPrice ≤ old.gasPrice) || decide (tx.gasPrice < old.gasPrice * (100 + priceBump) / 100)

/-- The list with a transaction written and the caps raised to it. -/
def put (tx : PoolTransaction) (cost : ℤ) : TxList :=
  { l with
    txs := l.txs.put tx
    costcap := max l.costcap cost
    gascap := if l.gascap < tx.gasLimit then tx.gasLimit else l.gascap }

/-- `Add`: `none` if the transaction is not inserted, and otherwise what it replaced. -/
def add (tx : PoolTransaction) (priceBump : ℕ) : Option (Option PoolTransaction × TxList) :=
  match l.txs.get tx.key, tx.cost with
  | some old, .ok cost => if underbids old tx priceBump then none else some (some old, l.put tx cost)
  | none, .ok cost => some (none, l.put tx cost)
  | _, .error _ => none

/-- `Forward`. -/
def forward (threshold : UInt64) : List PoolTransaction × TxList :=
  let (removed, txs) := l.txs.forward threshold.toNat
  (removed, { l with txs })

/-- The test of `filterPrice`. -/
def unpayable (costLimit : ℤ) (gasLimit : UInt64) (tx : PoolTransaction) : Bool :=
  match tx.cost with
  | .error _ => true
  | .ok cost => decide (costLimit < cost) || decide (gasLimit < tx.gasLimit)

/-- `FilterPrice`. -/
def filterPrice (costLimit : ℤ) (gasLimit : UInt64) : List PoolTransaction × TxList :=
  if l.costcap ≤ costLimit ∧ l.gascap ≤ gasLimit then ([], l)
  else
    let (removed, txs) := l.txs.filterOut (unpayable costLimit gasLimit)
    (removed, { l with txs, costcap := costLimit, gascap := gasLimit })

/-- The staking transactions that do not validate. -/
def filterStaking (validateStakingTx : PoolTransaction → Option TxPoolError) :
    List PoolTransaction × TxList :=
  let (removed, txs) := l.txs.filterOut fun tx =>
    tx.stakingType.isSome && (validateStakingTx tx).isSome
  (removed, { l with txs })

/-- The removals of `FilterValid`.  Staking transactions are looked at every ten blocks only. -/
def filterInvalid (costLimit : ℤ) (gasLimit : UInt64)
    (validateStakingTx : PoolTransaction → Option TxPoolError) (bn : UInt64) :
    List PoolTransaction × TxList :=
  let (removed, l) := l.filterPrice costLimit gasLimit
  if l.lastStkCheck + stakingTxCheckThreshold ≤ bn then
    let (stkRemoved, l) := { l with lastStkCheck := bn }.filterStaking validateStakingTx
    (removed ++ stkRemoved, l)
  else (removed, l)

/-- The lowest nonce of removed transactions, from `math.MaxUint64` down. -/
def lowest (removed : List PoolTransaction) : ℕ :=
  removed.foldl (fun lowest tx => min lowest tx.key) (2 ^ 64 - 1)

/-- `FilterValid`: the removed transactions, and in a strict list those after the lowest of
them. -/
def filterValid (costLimit : ℤ) (gasLimit : UInt64)
    (validateStakingTx : PoolTransaction → Option TxPoolError) (bn : UInt64) :
    List PoolTransaction × List PoolTransaction × TxList :=
  let (removed, l) := l.filterInvalid costLimit gasLimit validateStakingTx bn
  if l.strict && !removed.isEmpty then
    let (invalids, txs) := l.txs.filterOut fun tx => lowest removed < tx.key
    (removed, invalids, { l with txs })
  else (removed, [], l)

/-- `Cap`: a negative threshold is out of range. -/
def cap (threshold : ℤ) : Option (List PoolTransaction × TxList) :=
  if (l.len : ℤ) ≤ threshold then some ([], l)
  else if threshold < 0 then none
  else
    let (drops, txs) := l.txs.cap threshold.toNat
    some (drops, { l with txs })

/-- `Remove`: `none` without such a nonce, otherwise what a strict list gives up with it. -/
def remove (tx : PoolTransaction) : Option (List PoolTransaction × TxList) :=
  match l.txs.get tx.key with
  | none => none
  | some _ =>
    let txs := l.txs.remove tx.key
    if l.strict then
      let (invalids, txs) := txs.filterOut fun u => tx.key < u.key
      some (invalids, { l with txs })
    else some ([], { l with txs })

/-- `Ready`. -/
def ready (start : UInt64) : List PoolTransaction × TxList :=
  let (ready, txs) := l.txs.ready start.toNat
  (ready, { l with txs })

theorem isEmpty_iff {l : TxList} : l.isEmpty = true ↔ l.txs.items = [] := by
  simp [isEmpty, len]

/-! ## Inserting -/

variable {l} {l' : TxList} {tx : PoolTransaction} {bump : ℕ} {old : Option PoolTransaction}

theorem add_eq_some (h : l.add tx bump = some (old, l')) :
    l'.txs = l.txs.put tx ∧ l'.strict = l.strict ∧ old = l.txs.get tx.key ∧
      ∃ cost, tx.cost = .ok cost := by
  unfold add at h
  split at h
  case h_1 u cost hget hcost =>
    split at h
    · cases h
    · cases h
      exact ⟨rfl, rfl, hget.symm, cost, hcost⟩
  case h_2 cost hget hcost =>
    cases h
    exact ⟨rfl, rfl, hget.symm, cost, hcost⟩
  case h_3 => cases h

theorem add_of_get_eq_none (hget : l.txs.get tx.key = none) {cost : ℤ} (hcost : tx.cost = .ok cost) :
    l.add tx bump = some (none, l.put tx cost) := by
  unfold add
  rw [hget, hcost]

/-! ## Taking out -/

variable (l)

theorem split_forward (threshold : UInt64) :
    Split l.txs (l.forward threshold).1 (l.forward threshold).2.txs := l.txs.split_forward _

variable (costLimit : ℤ) (gasLimit : UInt64)
  (validateStakingTx : PoolTransaction → Option TxPoolError) (bn : UInt64)

theorem strict_filterPrice : (l.filterPrice costLimit gasLimit).2.strict = l.strict := by
  unfold filterPrice
  split <;> rfl

theorem split_filterPrice : Split l.txs (l.filterPrice costLimit gasLimit).1
    (l.filterPrice costLimit gasLimit).2.txs := by
  unfold filterPrice
  split
  · exact .refl l.txs
  · exact l.txs.split_filterOut _

theorem strict_filterInvalid :
    (l.filterInvalid costLimit gasLimit validateStakingTx bn).2.strict = l.strict := by
  unfold filterInvalid
  dsimp only
  split
  · exact l.strict_filterPrice costLimit gasLimit
  · exact l.strict_filterPrice costLimit gasLimit

theorem split_filterInvalid :
    Split l.txs (l.filterInvalid costLimit gasLimit validateStakingTx bn).1
      (l.filterInvalid costLimit gasLimit validateStakingTx bn).2.txs := by
  have hprice := l.split_filterPrice costLimit gasLimit
  unfold filterInvalid
  dsimp only
  split
  · exact hprice.trans (split_filterOut _ _)
  · exact hprice

@[simp] theorem strict_filterValid :
    (l.filterValid costLimit gasLimit validateStakingTx bn).2.2.strict = l.strict := by
  unfold filterValid
  dsimp only
  split
  · exact l.strict_filterInvalid costLimit gasLimit validateStakingTx bn
  · exact l.strict_filterInvalid costLimit gasLimit validateStakingTx bn

theorem split_filterValid :
    Split l.txs ((l.filterValid costLimit gasLimit validateStakingTx bn).1 ++
        (l.filterValid costLimit gasLimit validateStakingTx bn).2.1)
      (l.filterValid costLimit gasLimit validateStakingTx bn).2.2.txs := by
  have hinvalid := l.split_filterInvalid costLimit gasLimit validateStakingTx bn
  unfold filterValid
  dsimp only
  split
  · exact hinvalid.trans (split_filterOut _ _)
  · rw [append_nil]
    exact hinvalid

theorem invalids_filterValid (h : l.strict = false) :
    (l.filterValid costLimit gasLimit validateStakingTx bn).2.1 = [] := by
  have hstrict := l.strict_filterInvalid costLimit gasLimit validateStakingTx bn
  unfold filterValid
  dsimp only
  rw [hstrict, h, Bool.false_and]
  rfl

theorem lowest_le {removed : List PoolTransaction} {tx : PoolTransaction} (h : tx ∈ removed) :
    lowest removed ≤ tx.key := by
  have hfold : ∀ (txs : List PoolTransaction) (n : ℕ),
      txs.foldl (fun lowest tx => min lowest tx.key) n ≤ n ∧
        ∀ t ∈ txs, txs.foldl (fun lowest tx => min lowest tx.key) n ≤ t.key := by
    intro txs
    induction txs with
    | nil => exact fun n => ⟨le_rfl, fun t ht => absurd ht not_mem_nil⟩
    | cons u txs ih =>
      intro n
      obtain ⟨hle, hall⟩ := ih (min n u.key)
      refine ⟨hle.trans (min_le_left _ _), fun t ht => ?_⟩
      rcases mem_cons.1 ht with rfl | ht
      · exact hle.trans (min_le_right _ _)
      · exact hall t ht
  exact (hfold removed _).2 tx h

/-- What a strict list keeps is what comes before the lowest removed transaction. -/
theorem lower_filterValid (hstrict : l.strict = true) {t u : PoolTransaction}
    (ht : t ∈ (l.filterValid costLimit gasLimit validateStakingTx bn).2.2.txs.items)
    (hu : u ∈ l.txs.items) (hle : u.key ≤ t.key) :
    u ∈ (l.filterValid costLimit gasLimit validateStakingTx bn).2.2.txs.items := by
  have hsplit := l.split_filterInvalid costLimit gasLimit validateStakingTx bn
  have hstrict' := (l.strict_filterInvalid costLimit gasLimit validateStakingTx bn).trans hstrict
  unfold filterValid at ht ⊢
  dsimp only at ht ⊢
  generalize l.filterInvalid costLimit gasLimit validateStakingTx bn = r at *
  rw [hstrict', Bool.true_and] at ht ⊢
  split at ht
  case isTrue hne =>
    rw [if_pos hne]
    obtain ⟨ht, hlow⟩ := mem_filterOut_snd.1 ht
    have hlow' : t.key ≤ lowest r.1 := by simpa using hlow
    have hkept : u ∈ r.2.txs.items := by
      rcases hsplit.mem_iff.1 hu with hu | hu
      · -- a removed transaction is not below one that is kept
        have hge := lowest_le hu
        exact absurd (by omega) (hsplit.key_ne hu ht)
      · exact hu
    refine mem_filterOut_snd.2 ⟨hkept, ?_⟩
    simpa using hle.trans hlow'
  case isFalse hne =>
    rw [if_neg hne]
    have hnil : r.1 = [] := by simpa using hne
    rcases hsplit.mem_iff.1 hu with hu | hu
    · rw [hnil] at hu
      cases hu
    · exact hu

theorem split_ready (start : UInt64) : Split l.txs (l.ready start).1 (l.ready start).2.txs :=
  l.txs.split_ready _

variable {l} {out : List PoolTransaction}

theorem cap_eq_some {threshold : ℤ} (h : l.cap threshold = some (out, l')) :
    Split l.txs out l'.txs ∧ l'.strict = l.strict ∧ (l'.len : ℤ) ≤ threshold := by
  unfold cap at h
  split at h
  case isTrue hle =>
    cases h
    exact ⟨.refl l.txs, rfl, hle⟩
  case isFalse =>
    split at h
    · cases h
    case isFalse hneg =>
      cases h
      refine ⟨l.txs.split_cap _, rfl, ?_⟩
      have hlen : (l.txs.items.take threshold.toNat).length ≤ threshold.toNat :=
        length_take_le _ _
      show ((l.txs.items.take threshold.toNat).length : ℤ) ≤ threshold
      omega

theorem cap_pred_eq_some (h : l.cap (l.len - 1) = some (out, l')) :
    ∃ tx, out = [tx] ∧ l.txs.items = l'.txs.items ++ [tx] ∧ l'.strict = l.strict := by
  unfold cap at h
  rw [if_neg (by omega)] at h
  split at h
  · cases h
  case isFalse hpos =>
    obtain ⟨tx, hlast⟩ : ∃ tx, l.txs.items.drop ((l.len : ℤ) - 1).toNat = [tx] := by
      rw [← length_eq_one_iff, length_drop]
      unfold len at hpos ⊢
      omega
    cases h
    refine ⟨tx, ?_, ?_, rfl⟩
    · exact congrArg List.reverse hlast
    · rw [← hlast]
      exact (take_append_drop _ _).symm

theorem remove_eq_some (h : l.remove tx = some (out, l')) :
    ∃ u, l.txs.get tx.key = some u ∧ Split l.txs (u :: out) l'.txs ∧ l'.strict = l.strict ∧
      (l.strict = false → out = []) ∧ (∀ t ∈ out, tx.key < t.key) ∧
      (l.strict = true → ∀ t ∈ l'.txs.items, t.key < tx.key) := by
  unfold remove at h
  split at h
  · cases h
  case h_2 u hget =>
    refine ⟨u, hget, ?_⟩
    have hsplit := split_remove hget
    split at h
    case isTrue hstrict =>
      cases h
      refine ⟨hsplit.trans (split_filterOut _ _), rfl, fun hs => ?_, fun t ht => ?_,
        fun _ t ht => ?_⟩
      · rw [hstrict] at hs
        cases hs
      · simpa using (mem_filterOut_fst.1 ht).2
      · obtain ⟨hmem, hle⟩ := mem_filterOut_snd.1 ht
        have hne := (mem_remove.1 hmem).2
        have hle' : t.key ≤ tx.key := by simpa using hle
        omega
    case isFalse hstrict =>
      cases h
      exact ⟨hsplit, rfl, fun _ => rfl, fun t ht => absurd ht not_mem_nil,
        fun hs => absurd hs hstrict⟩

theorem remove_isSome {u : PoolTransaction} (h : l.txs.get tx.key = some u) :
    ∃ out l', l.remove tx = some (out, l') := by
  unfold remove
  rw [h]
  dsimp only
  split
  · exact ⟨_, _, rfl⟩
  · exact ⟨_, _, rfl⟩

end TxList

end DyShard.Pool
