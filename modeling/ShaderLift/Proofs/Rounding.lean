/-
Which decimals are read as which number.  A decimal is read as the nearest single-precision number, and
where two are equally near as the one whose last bit is zero (`IsNearest`).  Infinity takes part as the
number that would come after the largest one.

Numbers of one sign are counted by their bits, and the distance from one to the next doubles from binade
to binade (`unitsAt_succ`).  So the decimals that are read as a number make up an interval that ends
half-way to its two neighbours, which is the interval that literals are chosen from
(`isNearest_iff_contains`).
-/
import Mathlib.Algebra.Order.Ring.Abs
import Mathlib.Data.Rat.Cast.Order
import Mathlib.Tactic.Linarith
import Mathlib.Tactic.Positivity
import Mathlib.Tactic.Ring
import ShaderLift.Decimal.Single

namespace ShaderLift

/-! ### Intervals -/

namespace Decimal.Rounding

variable {r : Rounding} {x y z x' y' : ℚ} {n places : Nat}

/-- `x` comes before `y`, or they are equal and the ends count. -/
def Upto (r : Rounding) (x y : ℚ) : Prop := x < y ∨ r.closed = true ∧ x = y

def Contains (r : Rounding) (x : ℚ) : Prop := r.Upto r.low (x * r.den) ∧ r.Upto (x * r.den) r.high

/-- The interval reaches to both sides of the number. -/
structure Proper (r : Rounding) : Prop where
  den : 0 < r.den
  low : r.low < r.value
  high : r.value < r.high

theorem below_iff {a b : Nat} : r.below a b = true ↔ r.Upto a b := by
  unfold below Upto
  cases r.closed <;> simp [Nat.le_iff_lt_or_eq]

theorem Upto.le (h : r.Upto x y) : x ≤ y := h.elim le_of_lt fun h => h.2.le

theorem Upto.mono (h : r.Upto x y) (hx : x' ≤ x) (hy : y ≤ y') : r.Upto x' y' := by
  rcases h with hlt | ⟨hclosed, rfl⟩
  · exact .inl (hx.trans_lt (hlt.trans_le hy))
  · exact (hx.trans hy).lt_or_eq.imp_right fun heq => ⟨hclosed, heq⟩

theorem upto_mul_iff (hz : 0 < z) : r.Upto (x * z) (y * z) ↔ r.Upto x y := by
  simp only [Upto, mul_lt_mul_iff_left₀ hz, mul_left_inj' hz.ne']

theorem Contains.between (hx : r.Contains x) (hz : r.Contains z) (hxy : x ≤ y) (hyz : y ≤ z) :
    r.Contains y :=
  ⟨hx.1.mono le_rfl (by gcongr), hz.2.mono (by gcongr) le_rfl⟩

theorem contains_iff : r.Contains (n / 10 ^ places) ↔
    r.below (r.low * 10 ^ places) (n * r.den) = true ∧
      r.below (n * r.den) (r.high * 10 ^ places) = true := by
  have hgrid : (0 : ℚ) < 10 ^ places := by positivity
  have hpoint : (n / 10 ^ places * r.den : ℚ) * 10 ^ places = n * r.den := by
    rw [mul_right_comm, div_mul_cancel₀ _ hgrid.ne']
  rw [Contains, below_iff, below_iff]
  push_cast
  rw [← hpoint, upto_mul_iff hgrid, upto_mul_iff hgrid]

theorem contains_of_onGrid (h : r.Proper) (hn : r.onGrid places = some n) :
    r.Contains (n / 10 ^ places) := by
  have hgrid : 0 < 10 ^ places := by positivity
  have hlow : r.low * 10 ^ places < r.value * 10 ^ places := Nat.mul_lt_mul_of_pos_right h.low hgrid
  have hhigh : r.value * 10 ^ places < r.high * 10 ^ places := Nat.mul_lt_mul_of_pos_right h.high hgrid
  have hfloor : r.value * 10 ^ places / r.den * r.den ≤ r.value * 10 ^ places := Nat.div_mul_le_self _ _
  have hceil : r.value * 10 ^ places < (r.value * 10 ^ places / r.den + 1) * r.den := by
    rw [Nat.add_mul, Nat.one_mul]
    exact Nat.lt_div_mul_add h.den
  have below_of_lt : ∀ {a b : Nat}, a < b → r.below a b = true :=
    fun hlt => below_iff.mpr (.inl (Nat.cast_lt.mpr hlt))
  rw [contains_iff]
  simp only [onGrid, Nat.pow_eq] at hn
  split at hn
  next hup =>
    obtain rfl := Option.some.inj hn
    exact ⟨below_of_lt (hlow.trans hceil), (Bool.and_eq_true_iff.mp hup).1⟩
  next =>
    split at hn
    next hdown =>
      obtain rfl := Option.some.inj hn
      exact ⟨hdown, below_of_lt (hfloor.trans_lt hhigh)⟩
    next => cases hn

theorem not_contains_of_onGrid (hnone : r.onGrid places = none) (n : Nat) :
    ¬ r.Contains (n / 10 ^ places) := by
  rw [contains_iff]
  rintro ⟨hlow, hhigh⟩
  -- one of the two neighbours of the number would be in the interval, too
  have hneighbour : r.below (r.low * 10 ^ places) (r.value * 10 ^ places / r.den * r.den) = true ∨
      r.below ((r.value * 10 ^ places / r.den + 1) * r.den) (r.high * 10 ^ places) = true := by
    rw [below_iff] at *
    rcases Nat.lt_or_ge (r.value * 10 ^ places / r.den) n with hn | hn
    · exact .inr (below_iff.mpr (hhigh.mono (Nat.cast_le.mpr (Nat.mul_le_mul_right _ hn)) le_rfl))
    · exact .inl (hlow.mono le_rfl (Nat.cast_le.mpr (Nat.mul_le_mul_right _ hn)))
  simp only [onGrid, Nat.pow_eq] at hnone
  split at hnone
  next => cases hnone
  next hup =>
    split at hnone
    next => cases hnone
    next hdown => simp [hneighbour.resolve_left hdown, Bool.eq_false_iff.mpr hdown] at hup

theorem shortestFrom_first (fuel places : Nat)
    (h : ∃ q, places ≤ q ∧ q < places + fuel ∧ r.onGrid q ≠ none) :
    places ≤ (r.shortestFrom fuel places).2 ∧
      r.onGrid (r.shortestFrom fuel places).2 = some (r.shortestFrom fuel places).1 ∧
      ∀ q, places ≤ q → q < (r.shortestFrom fuel places).2 → r.onGrid q = none := by
  induction fuel generalizing places with
  | zero =>
    obtain ⟨q, hle, hlt, -⟩ := h
    omega
  | succ fuel ih =>
    rw [shortestFrom]
    cases hgrid : r.onGrid places with
    | some n => exact ⟨le_rfl, hgrid, fun q hle hlt => absurd hle hlt.not_ge⟩
    | none =>
      have later : ∀ {q}, places ≤ q → r.onGrid q ≠ none → places + 1 ≤ q := fun hle hq =>
        Nat.lt_of_le_of_ne hle (by rintro rfl; exact hq hgrid)
      obtain ⟨q, hle, hlt, hq⟩ := h
      obtain ⟨hplaces, hfound, hfirst⟩ := ih _ ⟨q, later hle hq, by omega, hq⟩
      refine ⟨Nat.le_of_succ_le hplaces, hfound, fun q hle hlt => ?_⟩
      by_contra hq
      exact hq (hfirst q (later hle hq) hlt)

end Decimal.Rounding

/-! ### Numbers by their bits -/

namespace Single

variable {s t : Single} {x : ℚ} {n : Nat}

def value (s : Single) : ℚ := s.units / 2 ^ 149

def isNaN (s : Single) : Bool := !s.isFinite && s.fractionField != 0

/-- The bits below the sign, which count the numbers of a sign from zero on. -/
def index (s : Single) : Nat := s.bits.toNat % 2 ^ 31

theorem index_lt (s : Single) : s.index < 2 ^ 31 := Nat.mod_lt _ (by decide)

theorem exponentField_eq (s : Single) : s.exponentField = s.index / 2 ^ 23 := by
  simp only [exponentField, index, Word.field, Nat.pow_eq]
  omega

theorem fractionField_eq (s : Single) : s.fractionField = s.index % 2 ^ 23 := by
  simp only [fractionField, index, Word.field, Nat.pow_eq]
  omega

theorem eq_of_index (hsign : s.negative = t.negative) (h : s.index = t.index) : s = t := by
  obtain ⟨a⟩ := s
  obtain ⟨b⟩ := t
  have hbits : a.toNat = b.toNat := by
    have ha := a.toNat_lt
    have hb := b.toNat_lt
    rw [Bool.eq_iff_iff] at hsign
    simp only [negative, index, Word.flag, Word.field, Nat.pow_eq, beq_iff_eq] at hsign h
    omega
  rw [UInt32.toNat_inj.mp hbits]

theorem exists_index (negative : Bool) (h : n < 2 ^ 31) :
    ∃ s : Single, s.negative = negative ∧ s.index = n := by
  refine ⟨⟨UInt32.ofNat ((if negative then 2 ^ 31 else 0) + n)⟩, ?_⟩
  have hbits : (UInt32.ofNat ((if negative then 2 ^ 31 else 0) + n)).toNat =
      (if negative then 2 ^ 31 else 0) + n := by
    rw [UInt32.toNat_ofNat', Nat.mod_eq_of_lt]
    split <;> omega
  simp only [Single.negative, index, Word.flag, Word.field, Nat.pow_eq, hbits]
  cases negative with
  | false => exact ⟨by simp; omega, by simp; omega⟩
  | true => exact ⟨by simp; omega, by simp; omega⟩

theorem isNaN_eq_false_iff : s.isNaN = false ↔ s.index ≤ 255 * 2 ^ 23 := by
  have hindex := s.index_lt
  simp only [isNaN, isFinite, exponentField_eq, fractionField_eq, Bool.and_eq_false_iff,
    Bool.not_eq_false', bne_iff_ne, bne_eq_false_iff_eq]
  omega

theorem isFinite_iff : s.isFinite = true ↔ s.index < 255 * 2 ^ 23 := by
  have hindex := s.index_lt
  simp only [isFinite, exponentField_eq, bne_iff_ne]
  omega

def scaleAt (n : Nat) : Nat := n / 2 ^ 23 - 1

/-- The magnitude of the `n`-th number in units. -/
def unitsAt (n : Nat) : Nat := (n - scaleAt n * 2 ^ 23) * 2 ^ scaleAt n

def valueAt (n : Nat) : ℚ := unitsAt n / 2 ^ 149

theorem scale_eq (s : Single) : s.scale = scaleAt s.index := by
  rw [scale, exponentField_eq, scaleAt]

theorem significand_eq (s : Single) : s.significand = s.index - s.scale * 2 ^ 23 := by
  simp only [significand, scale, exponentField_eq, fractionField_eq, Nat.pow_eq]
  split <;> omega

theorem units_eq (s : Single) : s.units = unitsAt s.index := by
  rw [units, significand_eq, scale_eq, unitsAt, Nat.pow_eq]

theorem value_eq (s : Single) : s.value = valueAt s.index := by
  rw [value, units_eq, valueAt]

theorem unitsAt_succ (n : Nat) : unitsAt (n + 1) = unitsAt n + 2 ^ scaleAt n := by
  unfold unitsAt
  rcases Nat.eq_or_lt_of_le (show scaleAt n ≤ scaleAt (n + 1) by unfold scaleAt; omega) with hsame | hnext
  · rw [← hsame, ← Nat.succ_mul]
    congr 1
    unfold scaleAt
    omega
  · -- the first number of a binade
    have hscale : scaleAt (n + 1) = scaleAt n + 1 := by
      unfold scaleAt at *
      omega
    have hlast : n - scaleAt n * 2 ^ 23 + 1 = 2 ^ 24 ∧ n + 1 - (scaleAt n + 1) * 2 ^ 23 = 2 ^ 23 := by
      unfold scaleAt at *
      omega
    rw [hscale, hlast.2, ← Nat.succ_mul, Nat.succ_eq_add_one, hlast.1, Nat.pow_succ]
    ring

theorem unitsAt_strictMono : StrictMono unitsAt :=
  strictMono_nat_of_lt_succ fun n => unitsAt_succ n ▸ Nat.lt_add_of_pos_right (by positivity)

theorem valueAt_strictMono : StrictMono valueAt := fun n m h => by
  have hunits : (unitsAt n : ℚ) < unitsAt m := Nat.cast_lt.mpr (unitsAt_strictMono h)
  unfold valueAt
  gcongr

/-- The interval of a number in units of a quarter: it ends half-way to the neighbours. -/
theorem rounding_eq (hpos : 0 < s.index) : s.rounding =
    { low := 2 * (unitsAt (s.index - 1) + unitsAt s.index)
      value := 4 * unitsAt s.index
      high := 2 * (unitsAt s.index + unitsAt (s.index + 1))
      den := 4 * 2 ^ 149
      closed := s.index % 2 == 0 } := by
  have hunits : s.significand * 2 ^ s.scale = unitsAt s.index := units_eq s
  have hscale := s.scale_eq
  have habove := unitsAt_succ s.index
  have hbelow := unitsAt_succ (s.index - 1)
  rw [Nat.sub_add_cancel hpos] at hbelow
  rw [← hscale] at habove
  simp only [rounding, Decimal.Rounding.mk.injEq, Nat.pow_eq, Nat.sub_mul, Nat.add_mul, Nat.mul_assoc, hunits]
  refine ⟨?_, trivial, by omega, rfl, ?_⟩
  · rw [exponentField_eq, fractionField_eq]
    split
    next hfirst =>
      -- below the first number of a binade the distance is half of that above it
      have hhalf : s.scale = scaleAt (s.index - 1) + 1 := by
        unfold scaleAt at *
        omega
      rw [hhalf, Nat.pow_succ]
      omega
    next hother =>
      have hsame : s.scale = scaleAt (s.index - 1) := by
        unfold scaleAt at *
        omega
      rw [hsame]
      omega
  · rw [significand_eq, Bool.eq_iff_iff, beq_iff_eq, beq_iff_eq]
    unfold scaleAt at hscale
    omega

theorem proper_rounding (hpos : 0 < s.index) : s.rounding.Proper := by
  have hbelow := unitsAt_strictMono (Nat.sub_lt hpos Nat.one_pos)
  have habove := unitsAt_strictMono (Nat.lt_add_one s.index)
  rw [rounding_eq hpos]
  exact ⟨by positivity, by dsimp only; omega, by dsimp only; omega⟩

theorem contains_rounding_iff (hpos : 0 < s.index) : s.rounding.Contains x ↔
    s.rounding.Upto (valueAt (s.index - 1) + valueAt s.index) (2 * x) ∧
      s.rounding.Upto (2 * x) (valueAt s.index + valueAt (s.index + 1)) := by
  have hunit : (0 : ℚ) < 2 * 2 ^ 149 := by positivity
  have hmiddle : ∀ n m, ((2 * (unitsAt n + unitsAt m) : Nat) : ℚ) =
      (valueAt n + valueAt m) * (2 * 2 ^ 149) := by
    intro n m
    unfold valueAt
    push_cast
    ring
  have hpoint : x * (4 * 2 ^ 149 : Nat) = 2 * x * (2 * 2 ^ 149) := by
    push_cast
    ring
  rw [Decimal.Rounding.Contains, rounding_eq hpos, hmiddle, hmiddle, hpoint,
    Decimal.Rounding.upto_mul_iff hunit, Decimal.Rounding.upto_mul_iff hunit]

/-! ### The nearest number -/

/-- `s` is nearer to `x` than `t`, or as near and it is the even one of them. -/
def Preferred (x : ℚ) (s t : Single) : Prop :=
  |x - s.value| < |x - t.value| ∨
    |x - s.value| = |x - t.value| ∧ s.fractionField % 2 = 0 ∧ t.fractionField % 2 = 1

/-- `s` is what a decimal with the magnitude `x` is read as, with or without a minus sign. -/
structure IsNearest (negative : Bool) (x : ℚ) (s : Single) : Prop where
  sign : s.negative = negative
  number : s.isNaN = false
  preferred : ∀ t : Single, t.negative = negative → t.isNaN = false → t ≠ s → Preferred x s t

theorem IsNearest.unique {negative : Bool} (hs : IsNearest negative x s) (ht : IsNearest negative x t) :
    s = t := by
  by_contra hne
  have hst := hs.preferred t ht.sign ht.number (Ne.symm hne)
  have hts := ht.preferred s hs.sign hs.number hne
  rcases hst with hlt | ⟨heq, -, hodd⟩ <;> rcases hts with hgt | ⟨heq', heven, -⟩
  · exact lt_asymm hlt hgt
  · exact hlt.ne' heq'
  · exact hgt.ne' heq
  · omega

theorem isNearest_value (h : s.isNaN = false) : IsNearest s.negative s.value s where
  sign := rfl
  number := h
  preferred t hsign _ hne := by
    have hvalue : s.value ≠ t.value := by
      rw [value_eq, value_eq]
      exact fun heq => hne (eq_of_index hsign (valueAt_strictMono.injective heq.symm))
    left
    rw [sub_self, abs_zero]
    exact abs_pos.mpr (sub_ne_zero.mpr hvalue)

theorem abs_sub_lt_iff_of_lt {v w : ℚ} (h : v < w) :
    (|x - v| < |x - w| ↔ 2 * x < v + w) ∧ (|x - w| < |x - v| ↔ v + w < 2 * x) ∧
      (|x - v| = |x - w| ↔ 2 * x = v + w) := by
  rw [← sq_lt_sq, ← sq_lt_sq, ← sq_eq_sq_iff_abs_eq_abs]
  refine ⟨?_, ?_, ?_⟩ <;> constructor <;> intro <;> nlinarith

theorem preferred_iff_of_lt (h : s.index < t.index) :
    (Preferred x s t ↔ 2 * x < valueAt s.index + valueAt t.index ∨
      2 * x = valueAt s.index + valueAt t.index ∧ s.index % 2 = 0 ∧ t.index % 2 = 1) ∧
    (Preferred x t s ↔ valueAt s.index + valueAt t.index < 2 * x ∨
      valueAt s.index + valueAt t.index = 2 * x ∧ t.index % 2 = 0 ∧ s.index % 2 = 1) := by
  obtain ⟨hlower, hupper, hsame⟩ := abs_sub_lt_iff_of_lt (x := x) (valueAt_strictMono h)
  have heven : ∀ n, n % 2 ^ 23 % 2 = n % 2 := fun n => Nat.mod_mod_of_dvd n (by decide)
  simp only [Preferred, value_eq, fractionField_eq, heven]
  rw [hlower, hupper, eq_comm (a := |x - valueAt t.index|), hsame, eq_comm (b := 2 * x)]
  exact ⟨Iff.rfl, Iff.rfl⟩

theorem isNearest_iff_contains (hfinite : s.isFinite = true) (hpos : 0 < s.index) :
    IsNearest s.negative x s ↔ s.rounding.Contains x := by
  have hindex := isFinite_iff.mp hfinite
  have hclosed : s.rounding.closed = true ↔ s.index % 2 = 0 := by
    rw [rounding_eq hpos, beq_iff_eq]
  rw [contains_rounding_iff hpos]
  constructor
  · -- the neighbours are less near
    intro h
    obtain ⟨above, habove, hnext⟩ := exists_index s.negative (n := s.index + 1) (by omega)
    obtain ⟨under, hunder, hlast⟩ := exists_index s.negative (n := s.index - 1) (by omega)
    have hup := h.preferred above habove (isNaN_eq_false_iff.mpr (by omega)) (by rintro rfl; omega)
    have hdown := h.preferred under hunder (isNaN_eq_false_iff.mpr (by omega)) (by rintro rfl; omega)
    rw [(preferred_iff_of_lt (by omega)).1, hnext] at hup
    rw [(preferred_iff_of_lt (by omega)).2, hlast] at hdown
    exact ⟨hdown.imp_right fun h => ⟨hclosed.mpr h.2.1, h.1⟩,
      hup.imp_right fun h => ⟨hclosed.mpr h.2.1, h.1⟩⟩
  · -- what lies no further than the middle to a neighbour is nearer than the middle to all others
    rintro ⟨hlow, hhigh⟩
    refine ⟨rfl, isNaN_eq_false_iff.mpr hindex.le, fun t hsign _ hne => ?_⟩
    rcases Nat.lt_or_gt_of_ne fun heq => hne (eq_of_index hsign heq.symm) with hlt | hgt
    · rw [(preferred_iff_of_lt hlt).1]
      rcases Nat.eq_or_lt_of_le hlt with hnext | hfar
      · rw [← hnext]
        exact hhigh.imp_right fun h => ⟨h.2, hclosed.mp h.1, by have := hclosed.mp h.1; omega⟩
      · left
        linarith [hhigh.le, valueAt_strictMono hfar]
    · rw [(preferred_iff_of_lt hgt).2]
      rcases Nat.eq_or_lt_of_le (Nat.le_sub_one_of_lt hgt) with hlast | hfar
      · rw [hlast]
        exact hlow.imp_right fun h => ⟨h.2, hclosed.mp h.1, by have := hclosed.mp h.1; omega⟩
      · left
        linarith [hlow.le, valueAt_strictMono hfar]

end Single

end ShaderLift
