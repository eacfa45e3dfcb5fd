import Mathlib.Data.List.Induction
import Mathlib.Tactic.Common
import Mathlib.Tactic.Linarith
import Mathlib.Algebra.Order.Ring.Int
import Mathlib.Algebra.Order.BigOperators.Group.List

/-!
# Decimals: `numeric`

`Dec` is an integer number of units of `10⁻¹⁸`.  A result of more than 315 bits and a division by
zero are panics (`none`); products and quotients are rounded to the nearest unit, ties to even.

Left out: parsing, printing, the JSON form and the rounding variants that nothing here calls.
-/

namespace DyShard.Numeric

open List Option

/-- `Dec`: the number of units of `10⁻¹⁸`. -/
structure Dec where
  int : ℤ
  deriving DecidableEq, Repr

/-- The unit: eighteen decimals. -/
def precisionReuse : ℤ := 10 ^ 18

/-- Half a unit. -/
def fivePrecision : ℤ := precisionReuse / 2

/-- `chopPrecisionAndRound` of a number that is not negative. -/
def chopNonneg (d : ℤ) : ℤ :=
  let quo := d / precisionReuse
  let rem := d % precisionReuse
  if rem = 0 then quo
  else if rem < fivePrecision then quo
  else if fivePrecision < rem then quo + 1
  else if quo % 2 = 0 then quo
  else quo + 1

/-- `chopPrecisionAndRound`: drop 18 digits, rounding half to even. -/
def chopPrecisionAndRound (d : ℤ) : ℤ := if d < 0 then -chopNonneg (-d) else chopNonneg d

namespace Dec

/-- `ZeroDec`. -/
def zeroDec : Dec := ⟨0⟩

/-- `OneDec`. -/
def oneDec : Dec := ⟨precisionReuse⟩

/-- `NewDec` and `NewDecFromBigInt`: a whole number. -/
def newDec (i : ℤ) : Dec := ⟨i * precisionReuse⟩

/-- What a decimal has to stay below: it may have `255 + DecimalPrecisionBits` bits. -/
def limit : ℕ := 2 ^ 315

theorem limit_pos : 0 < limit := pow_pos two_pos 315

/-- The overflow check. -/
def checked (i : ℤ) : Option Dec := if i.natAbs < limit then some ⟨i⟩ else none

/-- `Add`. -/
def add (d d2 : Dec) : Option Dec := checked (d.int + d2.int)

/-- `Sub`. -/
def sub (d d2 : Dec) : Option Dec := checked (d.int - d2.int)

/-- `Mul`. -/
def mul (d d2 : Dec) : Option Dec := checked (chopPrecisionAndRound (d.int * d2.int))

/-- `MulInt`. -/
def mulInt (d : Dec) (i : ℤ) : Option Dec := checked (d.int * i)

/-- `Quo`; the division of the integers truncates towards zero. -/
def quo (d d2 : Dec) : Option Dec :=
  if d2.int = 0 then none
  else checked (chopPrecisionAndRound ((d.int * precisionReuse * precisionReuse).tdiv d2.int))

/-- `RoundInt`. -/
def roundInt (d : Dec) : ℤ := chopPrecisionAndRound d.int

/-- `GT`. -/
def gt (d d2 : Dec) : Bool := decide (d2.int < d.int)

/-- `Equal`. -/
def equal (d d2 : Dec) : Bool := decide (d.int = d2.int)

/-- `IsZero`. -/
def isZero (d : Dec) : Bool := decide (d.int = 0)

end Dec

/-! ## Rounding -/

theorem precisionReuse_pos : 0 < precisionReuse := by decide

private theorem chopNonneg_eq (d : ℤ) :
    (chopNonneg d = d / precisionReuse ∧ d % precisionReuse ≤ fivePrecision) ∨
      (chopNonneg d = d / precisionReuse + 1 ∧ fivePrecision ≤ d % precisionReuse) := by
  unfold chopNonneg
  dsimp only
  split_ifs with h0 h1 h2 h3
  · exact .inl ⟨rfl, h0.trans_le (by decide)⟩
  · exact .inl ⟨rfl, h1.le⟩
  · exact .inr ⟨rfl, h2.le⟩
  · exact .inl ⟨rfl, not_lt.1 h2⟩
  · exact .inr ⟨rfl, not_lt.1 h1⟩

theorem chopPrecisionAndRound_nonneg {d : ℤ} (h : 0 ≤ d) : 0 ≤ chopPrecisionAndRound d := by
  have hq : 0 ≤ d / precisionReuse := Int.ediv_nonneg h precisionReuse_pos.le
  rw [chopPrecisionAndRound, if_neg (not_lt.2 h)]
  rcases chopNonneg_eq d with ⟨hd, -⟩ | ⟨hd, -⟩ <;> omega

theorem chopPrecisionAndRound_bounds {d : ℤ} (h : 0 ≤ d) :
    2 * (chopPrecisionAndRound d * precisionReuse) ≤ 2 * d + precisionReuse ∧
      2 * d ≤ 2 * (chopPrecisionAndRound d * precisionReuse) + precisionReuse := by
  have hdiv : precisionReuse * (d / precisionReuse) + d % precisionReuse = d :=
    Int.mul_ediv_add_emod d precisionReuse
  have hrem : 0 ≤ d % precisionReuse := Int.emod_nonneg d precisionReuse_pos.ne'
  have hfive : 2 * fivePrecision = precisionReuse := by decide
  have hpos := precisionReuse_pos
  rw [chopPrecisionAndRound, if_neg (not_lt.2 h)]
  rcases chopNonneg_eq d with ⟨hd, hr⟩ | ⟨hd, hr⟩
  · rw [hd]
    constructor <;> linarith
  · rw [hd]
    have hlt : d % precisionReuse < precisionReuse := Int.emod_lt_of_pos d hpos
    constructor <;> linarith

namespace Dec

variable {d d2 e : Dec}

theorem checked_eq_some {i : ℤ} : checked i = some d ↔ i.natAbs < limit ∧ d.int = i := by
  unfold checked
  split_ifs with h
  · rw [some.injEq, and_iff_right h]
    exact ⟨fun hd => hd ▸ rfl, fun hd => by cases d; cases hd; rfl⟩
  · exact ⟨nofun, fun hd => absurd hd.1 h⟩

theorem int_add (h : add d d2 = some e) : e.int = d.int + d2.int := (checked_eq_some.1 h).2

theorem int_sub (h : sub d d2 = some e) : e.int = d.int - d2.int := (checked_eq_some.1 h).2

theorem int_mul (h : mul d d2 = some e) : e.int = chopPrecisionAndRound (d.int * d2.int) :=
  (checked_eq_some.1 h).2

theorem int_quo (h : quo d d2 = some e) : d2.int ≠ 0 ∧ e.int =
    chopPrecisionAndRound ((d.int * precisionReuse * precisionReuse).tdiv d2.int) := by
  unfold quo at h
  split_ifs at h with h0
  exact ⟨h0, (checked_eq_some.1 h).2⟩

theorem mul_nonneg (hd : 0 ≤ d.int) (hd2 : 0 ≤ d2.int) (h : mul d d2 = some e) : 0 ≤ e.int := by
  rw [int_mul h]
  exact chopPrecisionAndRound_nonneg (Int.mul_nonneg hd hd2)

theorem quo_nonneg (hd : 0 ≤ d.int) (hd2 : 0 ≤ d2.int) (h : quo d d2 = some e) : 0 ≤ e.int := by
  have hP := precisionReuse_pos.le
  rw [(int_quo h).2]
  exact chopPrecisionAndRound_nonneg
    (Int.tdiv_nonneg (Int.mul_nonneg (Int.mul_nonneg hd hP) hP) hd2)

theorem quo_le (hd : 0 ≤ d.int) (hd2 : 0 < d2.int) (h : quo d d2 = some e) :
    2 * (e.int * d2.int) ≤ 2 * (d.int * precisionReuse) + d2.int := by
  have hP := precisionReuse_pos
  have hn : 0 ≤ d.int * precisionReuse * precisionReuse :=
    Int.mul_nonneg (Int.mul_nonneg hd hP.le) hP.le
  have hround := (chopPrecisionAndRound_bounds (Int.tdiv_nonneg hn hd2.le)).1
  rw [← (int_quo h).2] at hround
  -- cancel the factor that the rounding is expressed in
  have htrunc : (d.int * precisionReuse * precisionReuse).tdiv d2.int * d2.int ≤
      d.int * precisionReuse * precisionReuse := by
    rw [Int.tdiv_eq_ediv_of_nonneg hn]
    exact Int.ediv_mul_le _ hd2.ne'
  have hscaled : precisionReuse * (2 * (e.int * d2.int)) ≤
      precisionReuse * (2 * (d.int * precisionReuse) + d2.int) := by
    nlinarith [Int.mul_le_mul_of_nonneg_right hround hd2.le]
  exact le_of_mul_le_mul_left hscaled hP

/-- A share of a total, scaled by a percentage, is at most one unit above the exact value. -/
theorem mul_quo_le {share x o : Dec} (hd : 0 ≤ d.int) (hd2 : 0 < d2.int) (hx : 0 ≤ x.int)
    (hx1 : x.int ≤ precisionReuse) (hq : quo d d2 = some share) (hm : mul share x = some o) :
    o.int * d2.int ≤ d.int * x.int + d2.int := by
  have hP := precisionReuse_pos
  have hshare := quo_nonneg hd hd2.le hq
  have hquo := quo_le hd hd2 hq
  have hround := (chopPrecisionAndRound_bounds (Int.mul_nonneg hshare hx)).1
  rw [← int_mul hm] at hround
  have hscaled : 2 * precisionReuse * (o.int * d2.int) ≤
      2 * precisionReuse * (d.int * x.int + d2.int) := by
    nlinarith [Int.mul_le_mul_of_nonneg_right hround hd2.le,
      Int.mul_le_mul_of_nonneg_right hquo hx, Int.mul_le_mul_of_nonneg_left hx1 hd2.le]
  exact le_of_mul_le_mul_left hscaled (by omega)

/-! ## Sums -/

theorem foldlM_add {ds : List Dec} (h : ds.foldlM add d = some e) :
    e.int = d.int + (ds.map Dec.int).sum := by
  induction ds generalizing d with
  | nil =>
    cases h
    simp
  | cons a ds ih =>
    rw [foldlM_cons, bind_eq_bind, bind_eq_some_iff] at h
    obtain ⟨d₁, h₁, h₂⟩ := h
    rw [ih h₂, int_add h₁, map_cons, sum_cons, add_assoc]

/-- A loop of sums does not panic exactly if no sum on the way overflows. -/
theorem exists_foldlM_add_iff {ds : List Dec} (hd : d.int.natAbs < limit) :
    (∃ e, ds.foldlM add d = some e) ↔
      ∀ l, l <+: ds → (d.int + (l.map Dec.int).sum).natAbs < limit := by
  induction ds using reverseRecOn with
  | nil => simp [hd]
  | append_singleton ds a ih =>
    simp only [prefix_concat_iff, forall_eq_or_imp, ← ih]
    rw [foldlM_append]
    cases he : ds.foldlM add d with
    | none => simp
    | some e => simp [add, checked, foldlM_add he, add_assoc]

theorem exists_foldlM_add {ds : List Dec} (hd : 0 ≤ d.int) (hnn : ∀ a ∈ ds, 0 ≤ a.int)
    (hfit : (d.int + (ds.map Dec.int).sum).natAbs < limit) : ∃ e, ds.foldlM add d = some e := by
  induction ds generalizing d with
  | nil => exact ⟨d, rfl⟩
  | cons a ds ih =>
    have ha : 0 ≤ a.int := hnn a mem_cons_self
    have hrest : 0 ≤ (ds.map Dec.int).sum := by
      apply sum_nonneg
      intro i hi
      obtain ⟨b, hb, rfl⟩ := mem_map.1 hi
      exact hnn b (mem_cons_of_mem _ hb)
    rw [map_cons, sum_cons] at hfit
    have hadd : add d a = some ⟨d.int + a.int⟩ := checked_eq_some.2 ⟨by omega, rfl⟩
    obtain ⟨e, he⟩ := ih (d := ⟨d.int + a.int⟩) (by simp only; omega)
      (fun b hb => hnn b (mem_cons_of_mem _ hb)) (by simpa only [add_assoc] using hfit)
    exact ⟨e, by rw [foldlM_cons, hadd]; exact he⟩

end Dec

end DyShard.Numeric
