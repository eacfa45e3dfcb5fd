import DyShard.Pool.TxPool

/-!
# The price index

`txPricedList`: a heap of transactions in which removed ones are counted as stale until it is built
again.  The functions of `container/heap` are modelled as they are.
-/

namespace DyShard.Pool

/-! ## The heap -/

namespace PriceHeap

/-- `priceHeap.Less`: the cheaper one, and of two equally cheap ones that with the higher nonce. -/
def less (t u : PoolTransaction) : Bool :=
  decide (t.gasPrice < u.gasPrice) || (t.gasPrice == u.gasPrice && decide (u.nonce < t.nonce))

variable (h : List PoolTransaction)

/-- `Less` on positions. -/
def lessAt (i j : ℕ) : Bool :=
  match h[i]?, h[j]? with
  | some t, some u => less t u
  | _, _ => false

/-- `Swap` of the heap. -/
def swap (i j : ℕ) : List PoolTransaction :=
  match h[i]?, h[j]? with
  | some t, some u => (h.set i u).set j t
  | _, _ => h

/-- `up` of `container/heap`, for at most so many turns. -/
def up : ℕ → ℕ → List PoolTransaction → List PoolTransaction
  | 0, _, h => h
  | bound + 1, j, h =>
    let i := (j - 1) / 2
    if i = j ∨ lessAt h j i = false then h else up bound i (swap h i j)

/-- `down` of `container/heap` below position `n`, for at most so many turns. -/
def down : ℕ → ℕ → ℕ → List PoolTransaction → List PoolTransaction
  | 0, _, _, h => h
  | bound + 1, i, n, h =>
    let left := 2 * i + 1
    if n ≤ left then h
    else
      let j := if left + 1 < n ∧ lessAt h (left + 1) left = true then left + 1 else left
      if lessAt h j i then down bound j n (swap h i j) else h

/-- `heap.Push`. -/
def push (tx : PoolTransaction) : List PoolTransaction :=
  up (h.length + 1) h.length (h ++ [tx])

/-- `heap.Pop`; `none` if the heap is empty. -/
def pop : Option (PoolTransaction × List PoolTransaction) :=
  let n := h.length - 1
  let h := down h.length 0 n (swap h 0 n)
  h[n]?.map (·, h.take n)

/-- `heap.Init`. -/
def init : List PoolTransaction :=
  (List.range (h.length / 2)).reverse.foldl (fun h' i => down h.length i h.length h') h

end PriceHeap

/-! ## The list -/

/-- `txPricedList`, without the pointer to the lookup. -/
structure TxPricedList where
  items : List PoolTransaction
  stales : ℤ

namespace TxPricedList

open PriceHeap

/-- `newTxPricedList`. -/
def newTxPricedList : TxPricedList := ⟨[], 0⟩

variable (l : TxPricedList)

/-- `Put`. -/
def put (tx : PoolTransaction) : TxPricedList :=
  { l with items := push l.items tx }

/-- `Removed`. -/
def removed (all : TxLookup) : TxPricedList :=
  if l.stales + 1 ≤ (l.items.length / 4 : ℕ) then { l with stales := l.stales + 1 }
  else ⟨init (all.entries.map (·.2)), 0⟩

/-- `accountSet.containsTx`. -/
def containsTx (locals : List Address) (tx : PoolTransaction) : Bool :=
  match tx.senderAddress with
  | .ok sender => locals.contains sender
  | .error _ => false

/-- The loops of `Cap` and `Discard`: pop until `stop` or the count is used up, passing over stale
transactions and setting local ones aside. -/
def popLoop (all : TxLookup) (locals : List Address) (stop : PoolTransaction → Bool) :
    ℕ → ℤ → TxPricedList → List PoolTransaction → List PoolTransaction →
      TxPricedList × List PoolTransaction × List PoolTransaction
  | 0, _, l, drop, save => (l, drop, save)
  | bound + 1, count, l, drop, save =>
    if count ≤ 0 then (l, drop, save)
    else match pop l.items with
      | none => (l, drop, save)
      | some (tx, items) =>
        if (all.lookup tx.hash).isNone then
          popLoop all locals stop bound count ⟨items, l.stales - 1⟩ drop save
        else if stop tx then ({ l with items }, drop, save ++ [tx])
        else if containsTx locals tx then
          popLoop all locals stop bound count { l with items } drop (save ++ [tx])
        else popLoop all locals stop bound (count - 1) { l with items } (drop ++ [tx]) save

/-- The end of `Cap` and `Discard`: what was set aside is pushed back. -/
def pushBack (r : TxPricedList × List PoolTransaction × List PoolTransaction) :
    List PoolTransaction × TxPricedList :=
  (r.2.1, { r.1 with items := r.2.2.foldl push r.1.items })

/-- `Cap`, whose loop has no count. -/
def cap (all : TxLookup) (threshold : ℤ) (locals : List Address) :
    List PoolTransaction × TxPricedList :=
  pushBack (popLoop all locals (fun tx => threshold ≤ tx.gasPrice) l.items.length
    l.items.length l [] [])

/-- `Discard`. -/
def discard (all : TxLookup) (count : ℤ) (locals : List Address) :
    List PoolTransaction × TxPricedList :=
  pushBack (popLoop all locals (fun _ => false) l.items.length count l [] [])

/-- The loop of `Underpriced` over stale transactions at the front. -/
def popStale (all : TxLookup) : ℕ → TxPricedList → TxPricedList
  | 0, l => l
  | bound + 1, l =>
    match l.items.head? with
    | none => l
    | some head =>
      if (all.lookup head.hash).isNone then
        popStale all bound ⟨((pop l.items).map (·.2)).getD [], l.stales - 1⟩
      else l

/-- `Underpriced`. -/
def underpriced (all : TxLookup) (tx : PoolTransaction) (locals : List Address) :
    Bool × TxPricedList :=
  if containsTx locals tx then (false, l)
  else
    let l := popStale all l.items.length l
    match l.items.head? with
    | none => (false, l)
    | some cheapest => (decide (tx.gasPrice ≤ cheapest.gasPrice), l)

instance : PriceIndex TxPricedList where
  put := put
  removed := removed
  cap := cap
  underpriced := underpriced
  discard := discard

end TxPricedList

end DyShard.Pool
