import DyShard.Lib.Rlp

/-!
# Codecs and what comes back

Writing may fail, and so may reading; what is read need not be what was written.  A `Codec` carries
the function `norm` that says what comes back of every value that can be written, so that a format
built from smaller ones is understood as soon as it is defined.
-/

/-- Writing, reading, and what comes back of a value that is written. -/
structure Codec (α ω : Type*) where
  encode : α → Option ω
  decode : ω → Option α
  norm : α → Option α
  decode_encode : ∀ a w, encode a = some w → decode w = norm a

namespace Codec

open Option List

variable {α β ω ω' : Type*}

/-! ## What survives -/

/-- The value comes back as it was. -/
def Keeps (c : Codec α ω) (a : α) : Prop := c.norm a = some a

/-- The value is read back unchanged whenever it can be written. -/
def Lossless (c : Codec α ω) (a : α) : Prop := ∀ w, c.encode a = some w → c.decode w = some a

theorem lossless_iff (c : Codec α ω) (a : α) :
    c.Lossless a ↔ c.encode a = none ∨ c.Keeps a := by
  constructor
  · intro h
    cases he : c.encode a with
    | none => exact .inl rfl
    | some w =>
      right
      rw [Keeps, ← c.decode_encode a w he]
      exact h w he
  · rintro (hnone | hnorm) w hw
    · rw [hnone] at hw
      cases hw
    · rw [c.decode_encode a w hw, hnorm]

/-- The format loses nothing. -/
class Exact (c : Codec α ω) : Prop where
  keeps : ∀ a, c.Keeps a

/-- Whatever comes back is as it was. -/
class Strict (c : Codec α ω) : Prop where
  eq_of_norm : ∀ a a', c.norm a = some a' → a' = a

theorem keeps_iff_true (c : Codec α ω) [h : Exact c] (a : α) : c.Keeps a ↔ True :=
  iff_of_true (h.keeps a) trivial

variable {a : α} {x w : Item} {c : Codec α Item} {tag sig : List UInt8}
  {d : Codec β (List UInt8 × Item)}

theorem norm_eq_of_strict {c : Codec α ω} [h : Strict c] {a' : α} :
    c.norm a = some a' ↔ a' = a ∧ c.Keeps a := by
  constructor
  · intro ha
    cases h.eq_of_norm a a' ha
    exact ⟨rfl, ha⟩
  · rintro ⟨rfl, ha⟩
    exact ha

instance {c : Codec α ω} [h : Exact c] : Strict c := by
  refine ⟨fun a a' ha => ?_⟩
  have hkeeps : c.norm a = some a := h.keeps a
  rw [hkeeps] at ha
  exact (some.inj ha).symm

/-! ## Records and lists -/

/-- The end of a record: nothing more is written, and nothing more may follow. -/
def nil : Codec Unit (List ω) where
  encode _ := some []
  decode
    | [] => some ()
    | _ :: _ => none
  norm _ := some ()
  decode_encode := by
    rintro _ w ⟨⟩
    rfl

/-- A field in front of the others. -/
def field (c : Codec α ω) (d : Codec β (List ω)) : Codec (α × β) (List ω) where
  encode a := (c.encode a.1).bind fun x => (d.encode a.2).map (x :: ·)
  decode
    | [] => none
    | x :: xs => (c.decode x).bind fun a => (d.decode xs).map (a, ·)
  norm a := (c.norm a.1).bind fun a' => (d.norm a.2).map (a', ·)
  decode_encode := by
    rintro ⟨a, b⟩ w hw
    obtain ⟨x, hx, hw⟩ := bind_eq_some_iff.1 hw
    obtain ⟨xs, hxs, rfl⟩ := map_eq_some_iff.1 hw
    simp only [c.decode_encode a x hx, d.decode_encode b xs hxs]

/-- The elements of a list, one after the other. -/
def slice (c : Codec α ω) : Codec (List α) (List ω) where
  encode := mapM c.encode
  decode := mapM c.decode
  norm := mapM c.norm
  decode_encode := by
    intro as
    induction as with
    | nil =>
      rintro w hw
      obtain rfl : [] = w := by simpa using hw
      rfl
    | cons a as ih =>
      intro w hw
      obtain ⟨x, hx, xs, hxs, rfl⟩ : ∃ x, c.encode a = some x ∧ ∃ xs,
          mapM c.encode as = some xs ∧ x :: xs = w := by
        simpa [mapM_cons, bind_eq_some_iff] using hw
      rw [mapM_cons, mapM_cons, c.decode_encode a x hx, ih xs hxs]

/-- Another representation of the values. -/
def conv (c : Codec α ω) (f : β → α) (g : α → β) : Codec β ω where
  encode b := c.encode (f b)
  decode w := (c.decode w).map g
  norm b := (c.norm (f b)).map g
  decode_encode := by
    intro b w hw
    rw [c.decode_encode (f b) w hw]

/-- Another representation, which not every value has. -/
def convOption (c : Codec α ω) (f : β → Option α) (g : α → β) : Codec β ω where
  encode b := (f b).bind c.encode
  decode w := (c.decode w).map g
  norm b := ((f b).bind c.norm).map g
  decode_encode := by
    intro b w hw
    obtain ⟨a, ha, hw⟩ := bind_eq_some_iff.1 hw
    rw [c.decode_encode a w hw, ha, bind_some]

/-- Two alternatives, told apart by what is on the wire. -/
def sum (c : Codec α ω) (d : Codec β ω) (left : ω → Bool)
    (hc : ∀ a w, c.encode a = some w → left w = true)
    (hd : ∀ b w, d.encode b = some w → left w = false) : Codec (α ⊕ β) ω where
  encode := Sum.elim c.encode d.encode
  decode w := if left w then (c.decode w).map .inl else (d.decode w).map .inr
  norm := Sum.elim (fun a => (c.norm a).map .inl) (fun b => (d.norm b).map .inr)
  decode_encode := by
    rintro (a | b) w hw
    · rw [if_pos (hc a w hw), c.decode_encode a w hw]
      rfl
    · rw [if_neg (by rw [hd b w hw]; nofun), d.decode_encode b w hw]
      rfl

/-- Another wire, which gives back what is put on it. -/
def wrap (c : Codec α ω) (put : ω → Option ω') (get : ω' → Option ω)
    (h : ∀ w w', put w = some w' → get w' = some w) : Codec α ω' where
  encode a := (c.encode a).bind put
  decode w := (get w).bind c.decode
  norm := c.norm
  decode_encode := by
    intro a w' hw'
    obtain ⟨w, hw, hput⟩ := bind_eq_some_iff.1 hw'
    rw [h w w' hput, bind_some, c.decode_encode a w hw]

section Keeps

variable {c : Codec α ω}

instance : Exact (nil : Codec Unit (List ω)) := ⟨fun _ => rfl⟩

variable {a : α} {b : β} {f : β → α} {g : α → β}

theorem keeps_field {d : Codec β (List ω)} : (c.field d).Keeps (a, b) ↔ c.Keeps a ∧ d.Keeps b := by
  simp [Keeps, field, bind_eq_some_iff]

instance {d : Codec β (List ω)} [hc : Exact c] [hd : Exact d] : Exact (c.field d) :=
  ⟨fun x => keeps_field.2 ⟨hc.keeps x.1, hd.keeps x.2⟩⟩

theorem norm_field {d : Codec β (List ω)} {a' : α} {b' : β} :
    (c.field d).norm (a, b) = some (a', b') ↔ c.norm a = some a' ∧ d.norm b = some b' := by
  simp [field, bind_eq_some_iff]

instance {d : Codec β (List ω)} [hc : Strict c] [hd : Strict d] : Strict (c.field d) := by
  refine ⟨?_⟩
  rintro ⟨a, b⟩ ⟨a', b'⟩ h
  obtain ⟨ha, hb⟩ := norm_field.1 h
  rw [hc.eq_of_norm a a' ha, hd.eq_of_norm b b' hb]

instance [hc : Strict c] : Strict c.slice := by
  refine ⟨fun as => ?_⟩
  induction as with
  | nil =>
    intro as' h
    simpa [slice, eq_comm] using h
  | cons a as ih =>
    intro as' h
    obtain ⟨b, hb, bs, hbs, rfl⟩ : ∃ b, c.norm a = some b ∧ ∃ bs,
        c.slice.norm as = some bs ∧ b :: bs = as' := by
      simpa [slice, mapM_cons, bind_eq_some_iff] using h
    rw [hc.eq_of_norm a b hb, ih bs hbs]

theorem keeps_slice {as : List α} : c.slice.Keeps as ↔ ∀ a ∈ as, c.Keeps a := by
  induction as with
  | nil => simp [Keeps, slice]
  | cons a as ih =>
    rw [forall_mem_cons, ← ih]
    simp [Keeps, slice, mapM_cons, bind_eq_some_iff]

section

variable (hgf : ∀ b, g (f b) = b)
include hgf

theorem norm_conv (hfg : ∀ a, f (g a) = a) {b' : β} :
    (c.conv f g).norm b = some b' ↔ c.norm (f b) = some (f b') := by
  simp only [conv, map_eq_some_iff]
  constructor
  · rintro ⟨a, ha, rfl⟩
    rw [ha, hfg]
  · intro h
    exact ⟨f b', h, hgf b'⟩

theorem keeps_conv (hfg : ∀ a, f (g a) = a) :
    (c.conv f g).Keeps b ↔ c.Keeps (f b) := norm_conv hgf hfg

theorem strict_conv [hc : Strict c] : Strict (c.conv f g) := by
  refine ⟨fun b b' h => ?_⟩
  obtain ⟨a, ha, rfl⟩ := map_eq_some_iff.1 h
  rw [hc.eq_of_norm _ a ha, hgf]

theorem exact_conv [hc : Exact c] : Exact (c.conv f g) := by
  refine ⟨fun b => ?_⟩
  have h : c.norm (f b) = some (f b) := hc.keeps (f b)
  simp only [Keeps, conv, h, map_some, hgf]

end

theorem keeps_convOption {f : β → Option α} (hf : f b = some a) :
    (c.convOption f g).Keeps b ↔ ∃ a', c.norm a = some a' ∧ g a' = b := by
  simp [Keeps, convOption, hf]

variable {d : Codec β ω} {left : ω → Bool} {hl : ∀ a w, c.encode a = some w → left w = true}
  {hr : ∀ b w, d.encode b = some w → left w = false}

theorem keeps_inl : (c.sum d left hl hr).Keeps (.inl a) ↔ c.Keeps a := by
  simp [Keeps, sum]

theorem keeps_inr : (c.sum d left hl hr).Keeps (.inr b) ↔ d.Keeps b := by
  simp [Keeps, sum]

instance [hc : Exact c] [hd : Exact d] : Exact (c.sum d left hl hr) := by
  refine ⟨?_⟩
  rintro (a | b)
  · exact keeps_inl.2 (hc.keeps a)
  · exact keeps_inr.2 (hd.keeps b)

end Keeps

/-! ## The types of RLP -/

open Rlp

/-- A record is a list of fields. -/
def record (c : Codec α (List Item)) : Codec α Item :=
  c.wrap (fun xs => some (.list xs)) (fun | .list xs => some xs | .str _ => none) (by
    rintro xs w ⟨⟩
    rfl)

/-- A list is written as the list of its elements. -/
def list (c : Codec α Item) : Codec (List α) Item := c.slice.record

/-- The bytes of an item. -/
def serial (c : Codec α Item) : Codec α (List UInt8) :=
  c.wrap Rlp.encode Rlp.decode fun _ _ => Rlp.decode_encode

/-- A byte string. -/
def bytes : Codec (List UInt8) Item where
  encode bs := some (.str bs)
  decode
    | .str bs => some bs
    | .list _ => none
  norm := some
  decode_encode := by
    rintro bs w ⟨⟩
    rfl

/-- A field that is always written the same, and read if it has the right form. -/
def blank (x : Item) (ok : Item → Bool) : Codec Unit Item where
  encode _ := some x
  decode y := if ok y then some () else none
  norm _ := if ok x then some () else none
  decode_encode := by
    rintro _ w ⟨⟩
    rfl

/-- A number of `k` bytes at most. -/
def uint (k : ℕ) : Codec (Fin (256 ^ k)) Item where
  encode n := some (.str (natBytes n))
  decode
    | .str bs =>
      if h : bs.length ≤ k ∧ bs.head? ≠ some 0 then
        some ⟨bytesNat bs, (bytesNat_lt bs).trans_le (Nat.pow_le_pow_right (by norm_num) h.1)⟩
      else none
    | .list _ => none
  norm := some
  decode_encode := by
    rintro n w ⟨⟩
    have h : (natBytes n).length ≤ k ∧ (natBytes n).head? ≠ some 0 :=
      ⟨natBytes_length n.2, natBytes_head n⟩
    simp [h]

/-- A `uint64`. -/
def uint64 : Codec UInt64 Item :=
  (uint 8).conv (fun n => ⟨n.toNat, n.toNat_lt⟩) (fun n => UInt64.ofNat n)

/-- A `uint8`. -/
def uint8 : Codec UInt8 Item :=
  (uint 1).conv (fun n => ⟨n.toNat, n.toNat_lt⟩) (fun n => UInt8.ofNat n)

/-- A `uint32`. -/
def uint32 : Codec UInt32 Item :=
  (uint 4).conv (fun n => ⟨n.toNat, n.toNat_lt⟩) (fun n => UInt32.ofNat n)

/-- A truth value is written as 1 or 0. -/
def bool : Codec Bool Item where
  encode b := some (.str (if b then [1] else []))
  decode
    | .str [] => some false
    | .str [1] => some true
    | _ => none
  norm := some
  decode_encode := by
    rintro b w ⟨⟩
    cases b <;> rfl

/-- An array of `n` bytes. -/
def fixed (n : ℕ) : Codec (BitVec (8 * n)) Item where
  encode x := some (.str (replicate (n - (natBytes x.toNat).length) 0 ++ natBytes x.toNat))
  decode
    | .str bs => if bs.length = n then some (BitVec.ofNat (8 * n) (bytesNat bs)) else none
    | .list _ => none
  norm := some
  decode_encode := by
    rintro x w ⟨⟩
    have hlen : (natBytes x.toNat).length ≤ n := natBytes_length (by simpa [pow_mul] using x.isLt)
    simp [bytesNat_replicate_zero, hlen]

/-- A big integer behind a pointer.  Negative ones are refused; nil is written as zero. -/
def bigInt : Codec (Option ℤ) Item where
  encode
    | none => some (.str [])
    | some n => if n < 0 then none else some (.str (natBytes n.toNat))
  decode
    | .str bs => if bs.head? = some 0 then none else some (some (bytesNat bs))
    | .list _ => none
  norm
    | none => some (some 0)
    | some n => some (some n)
  decode_encode := by
    rintro (_ | n) w hw
    · cases hw
      rfl
    · simp only at hw
      split at hw
      · cases hw
      · cases hw
        simp only [natBytes_head, if_false, bytesNat_natBytes, some.injEq]
        omega

/-- A big integer that is never nil. -/
def int : Codec ℤ Item := bigInt.conv some (fun n => n.getD 0)

/-- Any value, as an interface holds it. -/
def any : Codec Item Item where
  encode x := some x
  decode x := some x
  norm := some
  decode_encode := by
    rintro x w ⟨⟩
    rfl

/-- A pointer; nil is written as `x`. -/
def pointer (c : Codec α Item) (x : Item) : Codec (Option α) Item where
  encode
    | none => some x
    | some a => c.encode a
  decode w := (c.decode w).map some
  norm
    | none => (c.decode x).map some
    | some a => (c.norm a).map some
  decode_encode := by
    rintro (_ | a) w hw
    · cases hw
      rfl
    · simp only [c.decode_encode a w hw]

/-- An empty string or list. -/
def isEmpty : Item → Bool
  | .str bs => bs.isEmpty
  | .list xs => xs.isEmpty

/-- A pointer that is nil when it is read from an empty value. -/
def optional (c : Codec α Item) (x : Item) (hx : isEmpty x = true)
    (hc : ∀ a w, c.encode a = some w → isEmpty w = false) : Codec (Option α) Item where
  encode
    | none => some x
    | some a => c.encode a
  decode w := if isEmpty w then some none else (c.decode w).map some
  norm
    | none => some none
    | some a => (c.norm a).map some
  decode_encode := by
    rintro (_ | a) w hw
    · cases hw
      exact if_pos hx
    · rw [if_neg (by rw [hc a w hw]; nofun), c.decode_encode a w hw]

instance : Exact bytes := ⟨fun _ => rfl⟩

instance : Exact bool := ⟨fun _ => rfl⟩

instance : Exact any := ⟨fun _ => rfl⟩

instance (n : ℕ) : Exact (fixed n) := ⟨fun _ => rfl⟩

instance (k : ℕ) : Exact (uint k) := ⟨fun _ => rfl⟩

instance : Exact uint64 := exact_conv fun n => by simp

instance : Exact uint8 := exact_conv fun n => by simp

instance : Exact uint32 := exact_conv fun n => by simp

instance : Exact int := ⟨fun _ => rfl⟩

theorem exact_blank {ok : Item → Bool} (h : ok x = true) : Exact (blank x ok) :=
  ⟨fun _ => if_pos h⟩

theorem keeps_record {c : Codec α (List Item)} : c.record.Keeps a ↔ c.Keeps a := Iff.rfl

instance {c : Codec α (List Item)} [hc : Exact c] : Exact c.record := ⟨hc.keeps⟩

instance {c : Codec α (List Item)} [hc : Strict c] : Strict c.record := ⟨hc.eq_of_norm⟩

theorem keeps_list {as : List α} : c.list.Keeps as ↔ ∀ a ∈ as, c.Keeps a :=
  keeps_slice

instance {c : Codec α Item} [hc : Exact c] : Exact c.list :=
  ⟨fun _ => keeps_list.2 fun a _ => hc.keeps a⟩

instance {c : Codec α Item} [hc : Strict c] : Strict c.list :=
  inferInstanceAs (Strict c.slice.record)

theorem keeps_serial : c.serial.Keeps a ↔ c.Keeps a := Iff.rfl

theorem length_of_encode_fixed {n : ℕ} {x : BitVec (8 * n)} (h : (fixed n).encode x = some w) :
    ∃ bs, w = .str bs ∧ bs.length = n := by
  have hlen : (natBytes x.toNat).length ≤ n := natBytes_length (by simpa [pow_mul] using x.isLt)
  exact ⟨_, (some.inj h).symm, by simp [hlen]⟩

theorem norm_record {c : Codec α (List Item)} : c.record.norm = c.norm := rfl

theorem norm_bigInt {n n' : Option ℤ} : bigInt.norm n = some n' ↔ n' = some (n.getD 0) := by
  cases n <;> simp [bigInt, eq_comm]

theorem keeps_bigInt {n : Option ℤ} : bigInt.Keeps n ↔ n.isSome = true := by
  cases n <;> simp [Keeps, bigInt]

theorem keeps_pointer {o : Option α} : (c.pointer x).Keeps o ↔ ∃ a, o = some a ∧ c.Keeps a := by
  cases o <;> simp [Keeps, pointer]

theorem strict_pointer [hc : Strict c] (hx : c.decode x = none) : Strict (c.pointer x) := by
  refine ⟨?_⟩
  rintro (_ | a) o h
  · simp [pointer, hx] at h
  · obtain ⟨a', ha', rfl⟩ := map_eq_some_iff.1 h
    rw [hc.eq_of_norm a a' ha']

theorem exact_optional [hc : Exact c] {hx : isEmpty x = true}
    {h : ∀ a w, c.encode a = some w → isEmpty w = false} : Exact (c.optional x hx h) := by
  refine ⟨?_⟩
  rintro (_ | a)
  · rfl
  · have ha : c.norm a = some a := hc.keeps a
    simp [Keeps, optional, ha]

/-! ## Envelopes -/

/-- A value with the tag of its type. -/
def tagged (tag : List UInt8) (c : Codec α Item) : Codec α (List UInt8 × Item) :=
  c.wrap (fun x => some (tag, x)) (fun x => if x.1 = tag then some x.2 else none) (by
    rintro x w ⟨⟩
    simp)

/-- The tag and the value in an envelope with the signature. -/
def openEnvelope (sig : List UInt8) : Item → Option (List UInt8 × Item)
  | .list [.str s, .str tag, x] => if s = sig then some (tag, x) else none
  | _ => none

/-- An envelope: the signature, the tag and the value. -/
def envelope (sig : List UInt8) (c : Codec α (List UInt8 × Item)) : Codec α Item :=
  c.wrap (fun x => some (.list [.str sig, .str x.1, x.2])) (openEnvelope sig) (by
    rintro x w ⟨⟩
    simp [openEnvelope])

instance {tag : List UInt8} {c : Codec α Item} [hc : Exact c] : Exact (c.tagged tag) := ⟨hc.keeps⟩

theorem keeps_tagged :
    (c.tagged tag).Keeps a ↔ c.Keeps a := Iff.rfl

instance {sig : List UInt8} {c : Codec α (List UInt8 × Item)} [hc : Exact c] :
    Exact (c.envelope sig) := ⟨hc.keeps⟩

theorem tag_of_encode {w : List UInt8 × Item} (h : (c.tagged tag).encode a = some w) :
    w.1 = tag := by
  obtain ⟨x, -, ⟨⟩⟩ := bind_eq_some_iff.1 h
  rfl

theorem open_of_encode {c : Codec α (List UInt8 × Item)} (h : (c.envelope sig).encode a = some w) :
    (openEnvelope sig w).isSome = true ∧ ∃ xs, w = .list xs := by
  obtain ⟨x, -, ⟨⟩⟩ := bind_eq_some_iff.1 h
  exact ⟨by simp [openEnvelope], _, rfl⟩

theorem list_of_encode {c : Codec α (List Item)} (h : c.record.encode a = some w) :
    ∃ xs, c.encode a = some xs ∧ w = .list xs := by
  obtain ⟨xs, hxs, ⟨⟩⟩ := bind_eq_some_iff.1 h
  exact ⟨xs, hxs, rfl⟩

theorem cons_of_encode {c : Codec α ω} {d : Codec β (List ω)} {a : α × β} {w : List ω}
    (h : (c.field d).encode a = some w) :
    ∃ x xs, c.encode a.1 = some x ∧ d.encode a.2 = some xs ∧ w = x :: xs := by
  obtain ⟨x, hx, h⟩ := bind_eq_some_iff.1 h
  obtain ⟨xs, hxs, rfl⟩ := map_eq_some_iff.1 h
  exact ⟨x, xs, hx, hxs, rfl⟩

theorem open_of_long {xs : List Item} (h : 3 < xs.length) : openEnvelope sig (.list xs) = none := by
  unfold openEnvelope
  split
  case h_1 heq =>
    cases heq
    simp at h
  case h_2 => rfl

/-- A registry of types: the values of one type are written bare, the others in an envelope. -/
def registry (sig : List UInt8) (legacy : Codec α Item) (c : Codec β (List UInt8 × Item))
    (h : ∀ a w, legacy.encode a = some w → openEnvelope sig w = none) :
    Codec (β ⊕ α) Item :=
  (c.envelope sig).sum legacy (fun w => (openEnvelope sig w).isSome)
    (fun _ _ hw => (open_of_encode hw).1) (fun a w hw => by rw [h a w hw]; rfl)

section Registry

variable {legacy : Codec α Item} {h : ∀ a w, legacy.encode a = some w → openEnvelope sig w = none}

theorem keeps_registry_inl {b : β} : (registry sig legacy d h).Keeps (.inl b) ↔ d.Keeps b :=
  keeps_inl

theorem keeps_registry_inr : (registry sig legacy d h).Keeps (.inr a) ↔ legacy.Keeps a := keeps_inr

instance [Exact legacy] [Exact d] : Exact (registry sig legacy d h) := by
  unfold registry
  infer_instance

end Registry

/-- A registered type with its tag, in front of the others. -/
def register (tag : List UInt8) (c : Codec α Item) (d : Codec β (List UInt8 × Item))
    (h : ∀ b w, d.encode b = some w → w.1 ≠ tag) : Codec (α ⊕ β) (List UInt8 × Item) :=
  (c.tagged tag).sum d (fun w => w.1 = tag) (fun _ _ hw => by simpa using tag_of_encode hw)
    (fun b w hw => by simpa using h b w hw)

variable {h : ∀ b w, d.encode b = some w → w.1 ≠ tag}

theorem keeps_register_inl : (register tag c d h).Keeps (.inl a) ↔ c.Keeps a := keeps_inl

theorem keeps_register_inr {b : β} : (register tag c d h).Keeps (.inr b) ↔ d.Keeps b := keeps_inr

instance [Exact c] [Exact d] : Exact (register tag c d h) := by
  unfold register
  infer_instance

theorem tag_of_register {tag' : List UInt8} (htag : tag ≠ tag') (hd : ∀ b w, d.encode b = some w → w.1 ≠ tag') (x : α ⊕ β)
    (w : List UInt8 × Item) (hw : (register tag c d h).encode x = some w) : w.1 ≠ tag' := by
  cases x with
  | inl a =>
    rw [tag_of_encode hw]
    exact htag
  | inr b => exact hd b w hw

end Codec
