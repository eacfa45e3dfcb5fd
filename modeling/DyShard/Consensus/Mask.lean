import DyShard.Common
import DyShard.Lib.Outcome
import Mathlib.Algebra.BigOperators.Group.Finset.Basic
import Mathlib.Data.List.AList

/-!
# Participation masks: `crypto/bls`

A bitmap over a list of public keys, with a map from each key to its index and the sum of the
enabled keys.  What the calls keep is part of the structure.  The map is ranged over in any order.
-/

namespace DyShard.Consensus

open List

/-- A `byte`. -/
abbrev Byte := BitVec 8

/-! ## Bitmaps -/

/-- `byte(1) << uint(i&7)`. -/
def bitMask (i : ℕ) : Byte := 1#8 <<< (i % 8)

/-- Is bit `i` set: `bitmap[i>>3] & msk != 0`? -/
def isSet (bitmap : List Byte) (i : ℕ) : Bool := (bitmap.getD (i / 8) 0 &&& bitMask i) != 0

/-- Flip bit `i`: `bitmap[i>>3] ^= msk`. -/
def flipBit (bitmap : List Byte) (i : ℕ) : List Byte := bitmap.modify (i / 8) (· ^^^ bitMask i)

/-- `halfByteLookup`: the number of one bits in four bits. -/
def halfByteLookup : List ℕ := [0, 1, 1, 2, 1, 2, 2, 3, 1, 2, 2, 3, 2, 3, 3, 4]

/-- The set bits of a byte, by its halves. -/
def countOneBitsInByte (by8 : Byte) : ℕ :=
  halfByteLookup.getD (by8 &&& 0x0F#8).toNat 0 + halfByteLookup.getD (by8 >>> 4).toNat 0

/-- `utils.CountOneBits`. -/
def countOneBits (arr : List Byte) : ℕ := (arr.map countOneBitsInByte).sum

private theorem and_shiftLeft (b : Byte) (i : Fin 8) :
    (b &&& 1#8 <<< i.val != 0) = b.getLsbD i := by
  revert b i
  decide +kernel

private theorem getLsbD_shiftLeft_one (i j : Fin 8) :
    (1#8 <<< i.val).getLsbD j = decide (j = i) := by
  revert i j
  decide +kernel

private theorem and_flip (b : Byte) (i j : Fin 8) :
    ((b ^^^ 1#8 <<< i.val) &&& 1#8 <<< j.val != 0) =
      if j = i then !(b &&& 1#8 <<< i.val != 0) else (b &&& 1#8 <<< j.val != 0) := by
  rw [and_shiftLeft, and_shiftLeft, and_shiftLeft, BitVec.getLsbD_xor, getLsbD_shiftLeft_one]
  by_cases h : j = i <;> simp [h]

@[simp] theorem length_flipBit (bitmap : List Byte) (i : ℕ) :
    (flipBit bitmap i).length = bitmap.length := by
  simp [flipBit]

variable {i : ℕ}

theorem isSet_flipBit {bitmap : List Byte} (hi : i / 8 < bitmap.length) (j : ℕ) :
    isSet (flipBit bitmap i) j = if j = i then !isSet bitmap i else isSet bitmap j := by
  unfold isSet flipBit
  by_cases hbyte : j / 8 = i / 8
  · -- the same byte: look at its eight bits
    have hlt : i / 8 < (bitmap.modify (i / 8) (· ^^^ bitMask i)).length := by simpa using hi
    have hbit := and_flip (bitmap.getD (i / 8) 0) ⟨i % 8, by omega⟩ ⟨j % 8, by omega⟩
    have heq : (⟨j % 8, by omega⟩ : Fin 8) = ⟨i % 8, by omega⟩ ↔ j = i := by
      rw [Fin.mk.injEq]
      omega
    rw [if_congr heq rfl rfl] at hbit
    rw [hbyte, getD_eq_getElem _ _ hlt, getElem_modify_eq, ← getD_eq_getElem _ 0 hi]
    exact hbit
  · have hne : j ≠ i := fun h => hbyte (h ▸ rfl)
    have hbyte' : i / 8 ≠ j / 8 := Ne.symm hbyte
    simp [hne, getD_eq_getElem?_getD, hbyte']

theorem isSet_replicate (n i : ℕ) : isSet (replicate n 0) i = false := by
  by_cases h : i / 8 < n <;> simp [isSet, getD_eq_getElem?_getD, h]

private theorem countOneBitsInByte_eq (b : Byte) :
    countOneBitsInByte b = (range 8).countP (fun i => b &&& 1#8 <<< i != 0) := by
  revert b
  decide +kernel

theorem countOneBits_eq (bitmap : List Byte) :
    countOneBits bitmap = (range (8 * bitmap.length)).countP (isSet bitmap) := by
  induction bitmap with
  | nil => rfl
  | cons b bitmap ih =>
    have hlow : (range 8).countP (isSet (b :: bitmap)) = countOneBitsInByte b := by
      rw [countOneBitsInByte_eq]
      apply countP_congr
      intro i hi
      have hi8 := mem_range.1 hi
      simp [isSet, bitMask, Nat.div_eq_of_lt hi8, Nat.mod_eq_of_lt hi8]
    have hhigh : ∀ i, isSet (b :: bitmap) (8 + i) = isSet bitmap i := by
      intro i
      have hdiv : (8 + i) / 8 = i / 8 + 1 := by omega
      have hmod : (8 + i) % 8 = i % 8 := by omega
      simp [isSet, bitMask, hdiv, hmod]
    have hlen : 8 * (b :: bitmap).length = 8 + 8 * bitmap.length := by
      rw [length_cons]
      ring
    rw [hlen, range_add, countP_append, hlow, countP_map,
      countP_congr (fun i _ => by rw [Function.comp_apply, hhigh]), ← ih]
    simp [countOneBits]

/-! ## Masks -/

variable {K P : Type} [DecidableEq K]

/-- `PublicKeyWrapper`: a key as its bytes and as a point. -/
structure PublicKeyWrapper (K P : Type) where
  bytes : K
  object : P

/-- The index that the loop `index[key.Bytes] = i` leaves for a key: the last one. -/
def keyIndex (publics : List (PublicKeyWrapper K P)) (k : K) : Option ℕ :=
  publics.zipIdx.foldl (fun last key => if key.1.bytes = k then some key.2 else last) none

theorem isSome_keyIndex {publics : List (PublicKeyWrapper K P)} {k : K} :
    (keyIndex publics k).isSome = true ↔ k ∈ publics.map (·.bytes) := by
  have hfold : ∀ (keys : List (PublicKeyWrapper K P)) (n : ℕ) (last : Option ℕ),
      ((keys.zipIdx n).foldl (fun last key => if key.1.bytes = k then some key.2 else last)
        last).isSome = true ↔ last.isSome = true ∨ k ∈ keys.map (·.bytes) := by
    intro keys
    induction keys with
    | nil => simp
    | cons key keys ih =>
      intro n last
      rw [zipIdx_cons, foldl_cons, ih, map_cons, mem_cons]
      by_cases hk : key.bytes = k
      · simp [hk]
      · simp [hk, Ne.symm hk]
  rw [keyIndex, hfold]
  simp

theorem keyIndex_lt {publics : List (PublicKeyWrapper K P)} {k : K}
    (h : keyIndex publics k = some i) : i < publics.length := by
  revert h
  unfold keyIndex
  refine foldlRecOn (motive := fun last => last = some i → i < publics.length) publics.zipIdx _
    nofun fun last ih key hkey hlast => ?_
  split_ifs at hlast
  · cases hlast
    simpa using (mem_zipIdx hkey).2.1
  · exact ih hlast

/-- `bls.Mask`. -/
structure Mask (K P : Type) [DecidableEq K] where
  bitmap : List Byte
  publics : List (PublicKeyWrapper K P)
  publicsIndex : AList fun _ : K => ℕ
  aggregatePublic : P
  /-- The bitmap has the length of `Len`. -/
  length_bitmap : bitmap.length = (publics.length + 7) / 8
  /-- No bit is set beyond the last key. -/
  isSet_of_le : ∀ i, publics.length ≤ i → isSet bitmap i = false
  /-- The map is the one of the keys. -/
  lookup_publicsIndex : ∀ k, publicsIndex.lookup k = keyIndex publics k

/-- The errors of the mask functions. -/
inductive MaskError where
  | keyNotFound
  | indexOutOfRange
  | mismatchingBitmapLengths (expectedBitmapLength providedBitmapLength : ℕ)
  deriving DecidableEq, Repr

namespace Mask

variable (m : Mask K P)

/-- `Len`: the bitmap length in bytes. -/
def len : ℕ := (m.publics.length + 7) / 8

/-- `IndexEnabled`. -/
def indexEnabled (i : ℕ) : Except MaskError Bool :=
  if m.publics.length ≤ i then .error .indexOutOfRange else .ok (isSet m.bitmap i)

theorem indexEnabled_eq_true {m : Mask K P} :
    m.indexEnabled i = .ok true ↔ isSet m.bitmap i = true := by
  unfold indexEnabled
  split_ifs with h
  · simp [m.isSet_of_le i h]
  · rw [Except.ok.injEq]

/-- Flip the bit of a key; the aggregate key follows. -/
def flip (i : ℕ) (hi : i < m.publics.length) (aggregatePublic : P) : Mask K P :=
  { m with
    bitmap := flipBit m.bitmap i
    aggregatePublic
    length_bitmap := by rw [length_flipBit, m.length_bitmap]
    isSet_of_le := fun j hj => by
      have hbyte : i / 8 < m.bitmap.length := by rw [m.length_bitmap]; omega
      rw [isSet_flipBit hbyte, if_neg (by omega), m.isSet_of_le j hj] }

/-- `CountEnabled`. -/
def countEnabled : ℕ := (range m.publics.length).countP (isSet m.bitmap)

/-- Is the key enabled? -/
def enabled (k : K) : Bool :=
  match m.publicsIndex.lookup k with
  | some i => isSet m.bitmap i
  | none => false

/-- The map that `NewMask` builds. -/
def indexOf (publics : List (PublicKeyWrapper K P)) : AList fun _ : K => ℕ :=
  publics.zipIdx.foldl (fun index key => index.insert key.1.bytes key.2) ∅

theorem lookup_indexOf (publics : List (PublicKeyWrapper K P)) (k : K) :
    (indexOf publics).lookup k = keyIndex publics k := by
  have hfold : ∀ (keys : List (PublicKeyWrapper K P × ℕ)) (index : AList fun _ : K => ℕ),
      (keys.foldl (fun index key => index.insert key.1.bytes key.2) index).lookup k =
        keys.foldl (fun last key => if key.1.bytes = k then some key.2 else last)
          (index.lookup k) := by
    intro keys
    induction keys with
    | nil => exact fun _ => rfl
    | cons key keys ih =>
      intro index
      rw [foldl_cons, ih, foldl_cons]
      by_cases hk : key.1.bytes = k
      · subst hk
        rw [AList.lookup_insert, if_pos rfl]
      · rw [AList.lookup_insert_ne (Ne.symm hk), if_neg hk]
  exact hfold publics.zipIdx ∅

theorem countOneBits_bitmap : countOneBits m.bitmap = m.countEnabled := by
  have hlen := m.length_bitmap
  have hsplit : 8 * m.bitmap.length =
      m.publics.length + (8 * m.bitmap.length - m.publics.length) := by omega
  rw [countOneBits_eq, countEnabled, hsplit, range_add, countP_append, countP_map]
  have hnone : (range (8 * m.bitmap.length - m.publics.length)).countP
      (isSet m.bitmap ∘ (m.publics.length + ·)) = 0 := by
    rw [countP_eq_zero]
    intro i _
    simp [m.isSet_of_le]
  omega

theorem enabled_of_mem_entries {m : Mask K P} {entry : Sigma fun _ : K => ℕ}
    (h : entry ∈ m.publicsIndex.entries) : m.enabled entry.1 = isSet m.bitmap entry.2 := by
  have hlookup : m.publicsIndex.lookup entry.1 = some entry.2 := AList.mem_lookup_iff.2 h
  simp [enabled, hlookup]

theorem mem_publicsIndex (k : K) : k ∈ m.publicsIndex.keys ↔ k ∈ m.publics.map (·.bytes) := by
  rw [← AList.mem_keys, ← AList.lookup_isSome, m.lookup_publicsIndex, isSome_keyIndex]

/-! ### Setting bits -/

section Set

variable [Add P] [Sub P]

/-- Enable or disable the bit of one key: the body of `SetBit` and of the loop of `SetMask`. -/
def put (m : Mask K P) (i : ℕ) (enable : Bool) : Mask K P :=
  if hi : i < m.publics.length then
    if !isSet m.bitmap i && enable then m.flip i hi (m.aggregatePublic + m.publics[i].object)
    else if isSet m.bitmap i && !enable then m.flip i hi (m.aggregatePublic - m.publics[i].object)
    else m
  else m

/-- `SetBit`. -/
def setBit (m : Mask K P) (i : ℕ) (enable : Bool) : Except MaskError (Mask K P) :=
  if m.publics.length ≤ i then .error .indexOutOfRange else .ok (m.put i enable)

/-- `SetMask`. -/
def setMask (m : Mask K P) (mask : List Byte) : Except MaskError (Mask K P) :=
  if m.len ≠ mask.length then .error (.mismatchingBitmapLengths m.len mask.length)
  else .ok ((range m.publics.length).foldl (fun m i => m.put i (isSet mask i)) m)

/-- `NewMask`: all keys disabled, except the given one. -/
def newMask [Zero P] (publics : List (PublicKeyWrapper K P)) (myKey : Option (PublicKeyWrapper K P)) :
    Except MaskError (Mask K P) :=
  let m : Mask K P :=
    { bitmap := replicate ((publics.length + 7) / 8) 0
      publics
      publicsIndex := indexOf publics
      aggregatePublic := 0
      length_bitmap := length_replicate
      isSet_of_le := fun i _ => isSet_replicate _ i
      lookup_publicsIndex := lookup_indexOf publics }
  match myKey with
  | none => .ok m
  | some key =>
    match m.publicsIndex.lookup key.bytes with
    | some i => .ok (m.put i true)
    | none => .error .keyNotFound

end Set

/-! ### Rows of calls -/

section Calls

variable [Add P] [Sub P] [Zero P]

/-- `Clear`. -/
def clear (m : Mask K P) : Mask K P :=
  { m with
    bitmap := replicate m.len 0
    aggregatePublic := 0
    length_bitmap := length_replicate
    isSet_of_le := fun i _ => isSet_replicate _ i }

/-- `SetKey`. -/
def setKey (m : Mask K P) (k : K) (enable : Bool) : Except MaskError (Mask K P) :=
  match m.publicsIndex.lookup k with
  | some i => m.setBit i enable
  | none => .error .keyNotFound

/-- The second loop of `SetKeysAtomic`: an error leaves the bits set that came before it. -/
def setBits (enable : Bool) : List ℕ → Mask K P → Mask K P × Option MaskError
  | [], m => (m, none)
  | index :: indexes, m =>
    match m.setBit index enable with
    | .ok m => setBits enable indexes m
    | .error e => (m, some e)

/-- `SetKeysAtomic`: a missing key is found before a bit is set. -/
def setKeysAtomic (m : Mask K P) (publics : List (PublicKeyWrapper K P)) (enable : Bool) :
    Mask K P × Option MaskError :=
  if ∀ key ∈ publics, (m.publicsIndex.lookup key.bytes).isSome then
    setBits enable (publics.filterMap (m.publicsIndex.lookup ·.bytes)) m
  else (m, some .keyNotFound)

/-- The calls that change a mask. -/
inductive Call (K P : Type) where
  | setBit (i : ℕ) (enable : Bool)
  | setKey (k : K) (enable : Bool)
  | setKeysAtomic (publics : List (PublicKeyWrapper K P)) (enable : Bool)
  | setMask (mask : List Byte)
  | clear

/-- The mask after a call that makes all its checks first, and the error. -/
def settle (m : Mask K P) : Except MaskError (Mask K P) → Mask K P × Option MaskError
  | .ok m => (m, none)
  | .error e => (m, some e)

/-- The mask after the call, and the error it returns. -/
def call (m : Mask K P) : Call K P → Mask K P × Option MaskError
  | .setBit i enable => m.settle (m.setBit i enable)
  | .setKey k enable => m.settle (m.setKey k enable)
  | .setKeysAtomic publics enable => m.setKeysAtomic publics enable
  | .setMask mask => m.settle (m.setMask mask)
  | .clear => (m.clear, none)

end Calls

section Sum

variable [AddCommGroup P] {m : Mask K P}

/-- The sum of the enabled keys. -/
def enabledSum (m : Mask K P) : P :=
  ∑ i : Fin m.publics.length, if isSet m.bitmap i then m.publics[i].object else 0

theorem enabledSum_flip (hi : i < m.publics.length) (a : P) :
    (m.flip i hi a).enabledSum = m.enabledSum +
      if isSet m.bitmap i then - m.publics[i].object else m.publics[i].object := by
  have hbyte : i / 8 < m.bitmap.length := by
    rw [m.length_bitmap]
    omega
  rw [← sub_eq_iff_eq_add', enabledSum, enabledSum]
  refine (Finset.sum_sub_distrib ..).symm.trans ?_
  rw [Finset.sum_eq_single ⟨i, hi⟩]
  · simp only [flip, isSet_flipBit hbyte, Fin.getElem_fin]
    cases isSet m.bitmap i <;> simp
  · intro j _ hj
    have hne : (j : ℕ) ≠ i := fun h => hj (Fin.ext h)
    simp [flip, isSet_flipBit hbyte, hne]
  · simp

/-- The aggregate key is the sum of the enabled keys. -/
def Summed (publics : List (PublicKeyWrapper K P)) (m : Mask K P) : Prop :=
  m.publics = publics ∧ m.aggregatePublic = m.enabledSum

/-- The sum is kept, and with an error everything is. -/
def Kept (publics : List (PublicKeyWrapper K P)) (m : Mask K P) (r : Mask K P × Option MaskError) :
    Prop := Summed publics r.1 ∧ (r.2 ≠ none → r.1 = m)

variable {publics : List (PublicKeyWrapper K P)} {myKey : Option (PublicKeyWrapper K P)}

theorem Summed.put (h : Summed publics m) (i : ℕ) (enable : Bool) :
    Summed publics (m.put i enable) := by
  unfold Mask.put
  split_ifs with hi hon hoff
  · refine ⟨h.1, ?_⟩
    rw [enabledSum_flip, if_neg (by simp_all), ← h.2]
    rfl
  · refine ⟨h.1, ?_⟩
    rw [enabledSum_flip, if_pos (by simp_all), ← h.2]
    exact sub_eq_add_neg _ _
  · exact h
  · exact h

theorem Summed.of_zero {n : ℕ} (h : m.publics = publics) (hbitmap : m.bitmap = replicate n 0)
    (hzero : m.aggregatePublic = 0) : Summed publics m := by
  refine ⟨h, ?_⟩
  rw [hzero, enabledSum, hbitmap]
  exact (Finset.sum_eq_zero fun _ _ => if_neg (ne_true_of_eq_false (isSet_replicate _ _))).symm

theorem Summed.setBits (enable : Bool) : ∀ (indexes : List ℕ) {m : Mask K P},
    Summed publics m → (∀ i ∈ indexes, i < publics.length) →
      Summed publics (setBits enable indexes m).1 ∧ (setBits enable indexes m).2 = none
  | [], _, h, _ => ⟨h, rfl⟩
  | index :: indexes, m, h, hlt => by
    obtain ⟨hindex, hlt⟩ := forall_mem_cons.1 hlt
    rw [← h.1] at hindex
    unfold Mask.setBits setBit
    rw [if_neg (not_le.2 hindex)]
    exact Summed.setBits enable indexes (h.put index enable) hlt

theorem Summed.call (h : Summed publics m) (c : Call K P) : Kept publics m (m.call c) := by
  have hfailed : ∀ e, Kept publics m (m, e) := fun _ => ⟨h, fun _ => rfl⟩
  have hdone : ∀ m', Summed publics m' → Kept publics m (m', none) :=
    fun _ h => ⟨h, fun hne => absurd rfl hne⟩
  have hbit : ∀ i enable, Kept publics m (m.settle (m.setBit i enable)) := by
    intro i enable
    unfold Mask.setBit
    split_ifs
    · exact hfailed _
    · exact hdone _ (h.put i enable)
  cases c with
  | setBit i enable => exact hbit i enable
  | setKey k enable =>
    dsimp only [Mask.call]
    unfold Mask.setKey
    split
    · exact hbit _ enable
    · exact hfailed _
  | setKeysAtomic keys enable =>
    dsimp only [Mask.call]
    unfold Mask.setKeysAtomic
    split_ifs
    · obtain ⟨hsum, hnone⟩ := h.setBits enable (keys.filterMap (m.publicsIndex.lookup ·.bytes))
        fun i hi => by
          obtain ⟨key, -, hkey⟩ := mem_filterMap.1 hi
          rw [m.lookup_publicsIndex, h.1] at hkey
          exact keyIndex_lt hkey
      exact ⟨hsum, fun hne => absurd hnone hne⟩
    · exact hfailed _
  | setMask mask =>
    dsimp only [Mask.call]
    unfold Mask.setMask
    split_ifs
    · exact hfailed _
    · exact hdone _ (foldlRecOn _ _ h fun m hm i _ => hm.put i _)
  | clear => exact hdone _ (.of_zero h.1 rfl rfl)

theorem isSet_put (hi : i < m.publics.length) (enable : Bool) (j : ℕ) :
    isSet (m.put i enable).bitmap j = if j = i then enable else isSet m.bitmap j := by
  have hbyte : i / 8 < m.bitmap.length := by
    rw [m.length_bitmap]
    omega
  unfold put
  rw [dif_pos hi]
  by_cases hj : j = i
  · subst hj
    cases enable <;> cases hset : isSet m.bitmap j <;> simp [flip, isSet_flipBit hbyte, hset]
  · split_ifs <;> simp [flip, isSet_flipBit hbyte, hj]

theorem Summed.isSet_setMask (h : Summed publics m) {mask : List Byte} (hlen : m.len = mask.length)
    (hi : i < publics.length) : isSet (m.call (.setMask mask)).1.bitmap i = isSet mask i := by
  have hinitial : ∀ n ≤ publics.length,
      Summed publics ((range n).foldl (fun m i => m.put i (isSet mask i)) m) ∧
        (i < n → isSet ((range n).foldl (fun m i => m.put i (isSet mask i)) m).bitmap i =
          isSet mask i) := by
    intro n
    induction n with
    | zero => exact fun _ => ⟨h, nofun⟩
    | succ n ih =>
      intro hn
      obtain ⟨hsum, hset⟩ := ih (by omega)
      rw [range_succ, foldl_append, foldl_cons, foldl_nil]
      refine ⟨hsum.put n _, fun hlt => ?_⟩
      rw [isSet_put (by rw [hsum.1]; omega)]
      split_ifs with heq
      · rw [heq]
      · exact hset (by omega)
  dsimp only [Mask.call]
  rw [setMask, if_neg (not_not.2 hlen), h.1]
  exact (hinitial _ le_rfl).2 hi

theorem Summed.newMask (h : newMask publics myKey = .ok m) : Summed publics m := by
  unfold Mask.newMask at h
  dsimp only at h
  split at h
  · cases h
    exact .of_zero rfl rfl rfl
  · split at h <;> cases h
    exact Summed.put (.of_zero rfl rfl rfl) _ _

/-- **The aggregate key follows the bitmap** through every row of calls on a new mask. -/
theorem call_spec (h : newMask publics myKey = .ok m) (calls : List (Call K P)) :
    let m := calls.foldl (fun m c => (m.call c).1) m
    m.publics = publics ∧ m.aggregatePublic = m.enabledSum ∧
      m.countEnabled = {i ∈ Finset.range publics.length | isSet m.bitmap i}.card ∧
      ∀ c, (m.call c).2 ≠ none → (m.call c).1 = m := by
  have hsum : Summed publics (calls.foldl (fun m c => (m.call c).1) m) :=
    foldlRecOn _ _ (.newMask h) fun m hm c _ => (hm.call c).1
  refine ⟨hsum.1, hsum.2, ?_, fun c => (hsum.call c).2⟩
  rw [countEnabled, hsum.1]
  simp [countP_eq_length_filter, Finset.card, Finset.filter, Multiset.range]

theorem call_spec_second : ∃ m : Mask ℕ ℤ, newMask [⟨0, 3⟩, ⟨1, 5⟩] none = .ok m ∧
    (m.call (.setMask [2])).1.aggregatePublic = (m.call (.setMask [2])).1.enabledSum := by
  have hnew : newMask (P := ℤ) [⟨0, 3⟩, ⟨1, 5⟩] none = .ok _ := rfl
  exact ⟨_, hnew, (call_spec hnew [.setMask [2]]).2.1⟩

end Sum

end Mask

end DyShard.Consensus
