import Mathlib

/-!
# Recursive length prefix

An item is a byte string or a list of items; its bytes start with a header that gives its kind and
its length.  A reader refuses headers that are not the shortest ones.
-/

namespace Rlp

open UInt8 (ofNat toNat)

open List Nat

/-- The value an RLP encoding stands for: a byte string or a list. -/
inductive Item where
  | str (bytes : List UInt8)
  | list (items : List Item)

/-- A struct is written as the list of its exported fields. -/
def encodeStruct (exported : List Item) : Item := .list exported

/-- A `uint32`: at most four bytes, big-endian, no leading zero. -/
def decodeUint32 : Item → Option UInt32
  | .str bytes =>
    if bytes.length ≤ 4 ∧ bytes.head? ≠ some 0 then
      some (bytes.foldl (fun n b => n * 256 + b.toUInt32) 0)
    else none
  | .list _ => none

/-! ## Numbers -/

/-- The digits of a number to the base 256, in front of `acc`. -/
def natBytesAux : ℕ → ℕ → List UInt8 → List UInt8
  | 0, _, acc => acc
  | fuel + 1, n, acc =>
    if n = 0 then acc else natBytesAux fuel (n / 256) (ofNat (n % 256) :: acc)

/-- A number, big-endian and without leading zeros; zero is the empty string. -/
def natBytes (n : ℕ) : List UInt8 := natBytesAux n n []

variable (bs : List UInt8)

/-- The number that a big-endian string stands for. -/
def bytesNat : ℕ := bs.foldl (fun n b => n * 256 + b.toNat) 0

theorem bytesNat_eq : bytesNat bs = ofDigits 256 (bs.reverse.map toNat) := by
  rw [bytesNat, foldl_eq_foldr_reverse, ofDigits_eq_foldr, foldr_map]
  congr 1
  funext b n
  simp
  ring

theorem bytesNat_append (cs : List UInt8) :
    bytesNat (bs ++ cs) = bytesNat bs * 256 ^ cs.length + bytesNat cs := by
  rw [bytesNat_eq, reverse_append, map_append, ofDigits_append, ← bytesNat_eq, ← bytesNat_eq]
  simp
  ring

theorem bytesNat_lt : bytesNat bs < 256 ^ bs.length := by
  have hdigits : ∀ d ∈ bs.reverse.map toNat, d < 256 := by
    intro d hd
    obtain ⟨b, -, rfl⟩ := mem_map.1 hd
    exact b.toNat_lt
  have hlt := ofDigits_lt_base_pow_length (by norm_num) hdigits
  simpa [bytesNat_eq] using hlt

theorem natBytesAux_eq {fuel n : ℕ} (h : n ≤ fuel) (acc : List UInt8) :
    natBytesAux fuel n acc = ((digits 256 n).map ofNat).reverse ++ acc := by
  induction fuel generalizing n acc with
  | zero =>
    obtain rfl : n = 0 := by omega
    rfl
  | succ fuel ih =>
    by_cases hn : n = 0
    · simp [natBytesAux, hn]
    · have hle : n / 256 ≤ fuel := by omega
      rw [natBytesAux, if_neg hn, ih hle, digits_def' (by norm_num) (pos_of_ne_zero hn)]
      simp

theorem natBytes_eq (n : ℕ) : natBytes n = ((digits 256 n).map ofNat).reverse := by
  rw [natBytes, natBytesAux_eq le_rfl, append_nil]

@[simp] theorem bytesNat_natBytes (n : ℕ) : bytesNat (natBytes n) = n := by
  have hdigits : (digits 256 n).map (toNat ∘ ofNat) = digits 256 n := by
    refine (map_congr_left fun d hd => ?_).trans (map_id _)
    exact UInt8.toNat_ofNat_of_lt' (digits_lt_base (by norm_num) hd)
  rw [natBytes_eq, bytesNat_eq, reverse_reverse, map_map, hdigits, ofDigits_digits]

theorem natBytes_length {n k : ℕ} (h : n < 256 ^ k) : (natBytes n).length ≤ k := by
  rw [natBytes_eq, length_reverse, length_map]
  exact (digits_length_le_iff (by norm_num) n).2 h

theorem bytesNat_replicate_zero (k : ℕ) (bs : List UInt8) :
    bytesNat (List.replicate k 0 ++ bs) = bytesNat bs := by
  rw [bytesNat_append, bytesNat_eq (List.replicate k 0)]
  simp [ofDigits_replicate_zero]

/-- The first digit is not zero: the others would be enough for the number. -/
theorem natBytes_head (n : ℕ) : (natBytes n).head? ≠ some 0 := by
  intro hzero
  obtain ⟨bs, hbs⟩ := head?_eq_some_iff.1 hzero
  have hn : bytesNat bs = n := by
    rw [← bytesNat_natBytes n, hbs]
    simp [bytesNat]
  have hlen := natBytes_length (hn ▸ bytesNat_lt bs)
  simp [hbs] at hlen

/-! ## Writing -/

/-- The header of `n` bytes; `base` is 0x80 for strings and 0xc0 for lists. -/
def header (base n : ℕ) : List UInt8 :=
  if n ≤ 55 then [ofNat (base + n)]
  else ofNat (base + 55 + (natBytes n).length) :: natBytes n

/-- A byte string.  A single byte below 0x80 is its own encoding. -/
def strBytes : List UInt8 :=
  match bs with
  | [b] => if b < 0x80 then [b] else header 0x80 1 ++ [b]
  | _ => header 0x80 bs.length ++ bs

mutual

/-- The bytes of an item. -/
def Item.bytes : Item → List UInt8
  | .str bs => strBytes bs
  | .list items => header 0xc0 (bytesAll items).length ++ bytesAll items

/-- The bytes of some items, one after the other. -/
def bytesAll : List Item → List UInt8
  | [] => []
  | x :: xs => x.bytes ++ bytesAll xs

end

/-- Lengths have at most 64 bits. -/
def maxSize : ℕ := 2 ^ 64

/-- The encoding of an item; there is none for an item that is too long. -/
def encode (x : Item) : Option (List UInt8) :=
  if x.bytes.length < maxSize then some x.bytes else none

/-! ## Reading -/

/-- The first `n` bytes and the rest. -/
def splitAt? (n : ℕ) (bs : List UInt8) : Option (List UInt8 × List UInt8) :=
  if n ≤ bs.length then some (bs.take n, bs.drop n) else none

/-- The contents that a header byte, less its base, announces.  Lengths are minimal. -/
def readContents (n : ℕ) (bs : List UInt8) : Option (List UInt8 × List UInt8) :=
  if n ≤ 55 then splitAt? n bs
  else (splitAt? (n - 55) bs).bind fun (size, rest) =>
    if size.head? = some 0 ∨ bytesNat size ≤ 55 then none else splitAt? (bytesNat size) rest

/-- A single byte below 0x80 must not have a header. -/
def canonicalStr : List UInt8 → Bool
  | [b] => 0x80 ≤ b
  | _ => true

mutual

/-- Take one item off the input. -/
def read : ℕ → List UInt8 → Option (Item × List UInt8)
  | 0, _ => none
  | _ + 1, [] => none
  | fuel + 1, b :: bs =>
    if b < 0x80 then some (.str [b], bs)
    else if b < 0xc0 then
      (readContents (b.toNat - 0x80) bs).bind fun (contents, rest) =>
        if canonicalStr contents then some (.str contents, rest) else none
    else
      (readContents (b.toNat - 0xc0) bs).bind fun (contents, rest) =>
        (readAll fuel contents).map fun items => (.list items, rest)

/-- Read items until the input is used up. -/
def readAll : ℕ → List UInt8 → Option (List Item)
  | 0, _ => none
  | _ + 1, [] => some []
  | fuel + 1, b :: bs =>
    (read fuel (b :: bs)).bind fun (x, rest) => (readAll fuel rest).map (x :: ·)

end

/-- The item that the bytes encode; nothing may follow it. -/
def decode : Option Item :=
  match read (2 * bs.length) bs with
  | some (x, []) => some x
  | _ => none

/-! ## The round trip -/

theorem splitAt?_append {bs : List UInt8} {n : ℕ} (h : bs.length = n) (rest : List UInt8) :
    splitAt? n (bs ++ rest) = some (bs, rest) := by
  subst h
  simp [splitAt?]

theorem readContents_header (base : ℕ) (hbase : base + 63 < 256) {contents : List UInt8}
    (hsize : contents.length < maxSize) (rest : List UInt8) :
    ∃ b bs, header base contents.length ++ (contents ++ rest) = b :: bs ∧
      base ≤ b.toNat ∧ b.toNat ≤ base + 63 ∧
      readContents (b.toNat - base) bs = some (contents, rest) := by
  unfold header
  split
  case isTrue hshort =>
    have hb : (ofNat (base + contents.length)).toNat = base + contents.length := by
      rw [UInt8.toNat_ofNat', mod_eq_of_lt (by omega)]
    refine ⟨_, _, rfl, ?_, ?_, ?_⟩
    · omega
    · omega
    · rw [hb, Nat.add_sub_cancel_left, readContents, if_pos hshort]
      exact splitAt?_append rfl rest
  case isFalse hlong =>
    set size := natBytes contents.length with hsz
    have hlen : size.length ≤ 8 := by
      apply natBytes_length
      simpa [maxSize] using hsize
    have hval : bytesNat size = contents.length := bytesNat_natBytes _
    have hpos : 0 < size.length := by
      rw [length_pos_iff]
      intro hnil
      rw [hnil] at hval
      simp [bytesNat] at hval
      omega
    have hb : (ofNat (base + 55 + size.length)).toNat = base + 55 + size.length := by
      rw [UInt8.toNat_ofNat', mod_eq_of_lt (by omega)]
    refine ⟨_, size ++ (contents ++ rest), rfl, ?_, ?_, ?_⟩
    · omega
    · omega
    · rw [hb, readContents, if_neg (by omega), show base + 55 + size.length - base - 55 = size.length
        by omega, splitAt?_append rfl]
      have hok : ¬ (size.head? = some 0 ∨ bytesNat size ≤ 55) := by
        rintro (hz | hle)
        · exact natBytes_head _ hz
        · omega
      show (if size.head? = some 0 ∨ bytesNat size ≤ 55 then none
        else splitAt? (bytesNat size) (contents ++ rest)) = some (contents, rest)
      rw [if_neg hok, hval]
      exact splitAt?_append rfl rest

theorem read_strBytes (hsize : bs.length < maxSize) (fuel : ℕ) (rest : List UInt8) :
    read (fuel + 1) (strBytes bs ++ rest) = some (.str bs, rest) := by
  -- everything but a small single byte has a header
  have hlong : canonicalStr bs = true →
      read (fuel + 1) (header 0x80 bs.length ++ (bs ++ rest)) = some (.str bs, rest) := by
    intro hcanonical
    obtain ⟨b, cs, heq, hlo, hhi, hread⟩ := readContents_header 0x80 (by norm_num) hsize rest
    have hnot : ¬ b < 0x80 := by
      rw [UInt8.lt_iff_toNat_lt]
      simpa using hlo
    have hstr : b < 0xc0 := by
      exact lt_succ_of_le hhi
    rw [heq, read]
    simp only [hnot, hstr, if_false, if_true, hread, Option.bind_some, hcanonical]
  unfold strBytes
  split
  case h_1 b =>
    split
    case isTrue hsmall => simp [read, hsmall]
    case isFalse hlarge =>
      apply hlong
      simpa [canonicalStr] using hlarge
  case h_2 hne =>
    rw [append_assoc]
    apply hlong
    unfold canonicalStr
    split
    · next b => exact absurd rfl (hne b)
    · rfl

mutual

/-- How deep the reader has to go. -/
def Item.depth : Item → ℕ
  | .str _ => 1
  | .list items => depthAll items + 1

/-- How deep the reader has to go for some items. -/
def depthAll : List Item → ℕ
  | [] => 1
  | x :: xs => max x.depth (depthAll xs) + 1

end

theorem header_length_pos (base n : ℕ) : 0 < (header base n).length := by
  unfold header
  split <;> simp

theorem bytes_length_pos (x : Item) : 0 < x.bytes.length := by
  cases x with
  | str bs =>
    have hh := header_length_pos 0x80
    simp only [Item.bytes, strBytes]
    split
    · split
      · simp
      · simp
    · have := hh bs.length
      simp only [length_append]
      omega
  | list items =>
    have := header_length_pos 0xc0 (bytesAll items).length
    simp only [Item.bytes, length_append]
    omega

mutual

theorem depth_le : ∀ x : Item, x.depth ≤ 2 * x.bytes.length
  | .str bs => by
    have := bytes_length_pos (.str bs)
    simp only [Item.depth]
    omega
  | .list items => by
    have := depthAll_le items
    have := header_length_pos 0xc0 (bytesAll items).length
    simp only [Item.depth, Item.bytes, length_append]
    omega

theorem depthAll_le : ∀ xs : List Item, depthAll xs ≤ 2 * (bytesAll xs).length + 1
  | [] => by simp [depthAll, bytesAll]
  | x :: xs => by
    have := depth_le x
    have := depthAll_le xs
    have := bytes_length_pos x
    simp only [depthAll, bytesAll, length_append]
    omega

end

mutual

theorem read_bytes : ∀ (x : Item) (fuel : ℕ) (rest : List UInt8), x.bytes.length < maxSize →
    x.depth ≤ fuel → read fuel (x.bytes ++ rest) = some (x, rest)
  | .str bs, fuel, rest => by
    intro hsize hfuel
    obtain ⟨fuel, rfl⟩ : ∃ m, fuel = m + 1 := exists_eq_add_one_of_ne_zero (by
      simp only [Item.depth] at hfuel
      omega)
    apply read_strBytes
    have hle : bs.length ≤ (strBytes bs).length := by
      unfold strBytes
      split
      · split <;> simp
      · simp
    simp only [Item.bytes] at hsize
    omega
  | .list items, fuel, rest => by
    intro hsize hfuel
    simp only [Item.depth] at hfuel
    simp only [Item.bytes, length_append] at hsize
    obtain ⟨fuel, rfl⟩ : ∃ m, fuel = m + 1 := exists_eq_add_one_of_ne_zero (by omega)
    have hcontents : (bytesAll items).length < maxSize := by omega
    obtain ⟨b, cs, heq, hlo, hhi, hread⟩ :=
      readContents_header 0xc0 (by norm_num) hcontents rest
    have hnot : ¬ b < 0x80 := by
      rw [UInt8.lt_iff_toNat_lt, not_lt]
      exact le_trans (by decide) hlo
    have hlist : ¬ b < 0xc0 := by
      rw [UInt8.lt_iff_toNat_lt, not_lt]
      simpa using hlo
    rw [Item.bytes, append_assoc, heq, read]
    simp only [hnot, hlist, if_false, hread, Option.bind_some]
    rw [readAll_bytes items fuel hcontents (by omega), Option.map_some]

theorem readAll_bytes : ∀ (xs : List Item) (fuel : ℕ), (bytesAll xs).length < maxSize →
    depthAll xs ≤ fuel → readAll fuel (bytesAll xs) = some xs
  | [], fuel => by
    intro _ hfuel
    simp only [depthAll] at hfuel
    obtain ⟨fuel, rfl⟩ : ∃ m, fuel = m + 1 := exists_eq_add_one_of_ne_zero (by omega)
    rfl
  | x :: xs, fuel => by
    intro hsize hfuel
    simp only [depthAll] at hfuel
    simp only [bytesAll, length_append] at hsize
    obtain ⟨fuel, rfl⟩ : ∃ m, fuel = m + 1 := exists_eq_add_one_of_ne_zero (by omega)
    have hx := read_bytes x fuel (bytesAll xs) (by omega) (by omega)
    have hxs := readAll_bytes xs fuel (by omega) (by omega)
    obtain ⟨b, bs, hbs⟩ : ∃ b bs, x.bytes ++ bytesAll xs = b :: bs := by
      apply exists_cons_of_length_pos
      have := bytes_length_pos x
      rw [length_append]
      omega
    rw [bytesAll, hbs, readAll, ← hbs, hx]
    simp [hxs]

end

/-- **What is written is read back.** -/
theorem decode_encode {x : Item} {bs : List UInt8} (h : encode x = some bs) :
    decode bs = some x := by
  unfold encode at h
  split at h
  case isTrue hsize =>
    cases h
    have hread := read_bytes x (2 * x.bytes.length) [] hsize (depth_le x)
    rw [append_nil] at hread
    rw [decode, hread]
  case isFalse => cases h

example : encode (.list [.str [1], .str [0x80], .list []]) = some [0xc4, 0x01, 0x81, 0x80, 0xc0] := by
  decide

end Rlp
