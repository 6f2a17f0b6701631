import Mathlib.Algebra.Order.Floor.Ring
import Mathlib.Data.Int.Log
import Mathlib.Data.Rat.Floor
import Mathlib.Tactic.Linarith
import Mathlib.Tactic.NormNum
import Mathlib.Tactic.Positivity

/-!
# Numbers in double precision

The numbers of a language whose only number is the binary64 of IEEE 754: rounding to the nearest
double, ties to the even one, and the operations, each the exact one followed by the rounding. The
two zeros are taken as one.

* `nearest` is the rounding of a rational number before it overflows. It is monotone (`nearest_mono`),
  and the doubles are what it leaves alone (`nearest_nearest`).
* `Double` is a number: finite, one of the infinities, or not a number. A finite one carries that it
  is a double.
* `Double.ofRat_mono`, `Double.add_le_add_left`, `Double.mul_le_mul_right`,
  `Double.div_le_div_right`: the operations are monotone where the exact ones are.
-/

namespace TyoMq.Lib

/-- What a program asks of its numbers beside the arithmetic.
Kind: D -/
class Numeric (N : Type*) where
  /-- The least whole number that is not below. -/
  ceil : N → N
  /-- Is it a number, and not an infinity? -/
  isFinite : N → Bool

/-- Exact arithmetic.
Kind: D -/
instance : Numeric ℚ where
  ceil x := ⌈x⌉
  isFinite _ := true

/-! ### To the nearest whole number -/

/-- The nearest whole number, and the even one of two.
Kind: D -/
def roundEven (x : ℚ) : ℤ :=
  if x - ⌊x⌋ < 1 / 2 then ⌊x⌋
  else if 1 / 2 < x - ⌊x⌋ then ⌊x⌋ + 1
  else if ⌊x⌋ % 2 = 0 then ⌊x⌋ else ⌊x⌋ + 1

@[simp] theorem roundEven_intCast (n : ℤ) : roundEven n = n := by
  simp [roundEven]

theorem floor_le_roundEven (x : ℚ) : ⌊x⌋ ≤ roundEven x := by
  unfold roundEven
  split_ifs <;> omega

theorem roundEven_le_floor_add_one (x : ℚ) : roundEven x ≤ ⌊x⌋ + 1 := by
  unfold roundEven
  split_ifs <;> omega

theorem roundEven_mono {x y : ℚ} (h : x ≤ y) : roundEven x ≤ roundEven y := by
  have hfloor : ⌊x⌋ ≤ ⌊y⌋ := Int.floor_le_floor h
  rcases hfloor.lt_or_eq with hlt | heq
  · calc
      roundEven x ≤ ⌊x⌋ + 1 := roundEven_le_floor_add_one x
      _ ≤ ⌊y⌋ := hlt
      _ ≤ roundEven y := floor_le_roundEven y
  · -- the fractions compare as the numbers do
    have hfrac : x - ⌊x⌋ ≤ y - ⌊y⌋ := by
      rw [heq]
      linarith
    unfold roundEven
    rw [heq] at hfrac ⊢
    split_ifs <;> first | omega | (exfalso; linarith)

/-! ### To the nearest double -/

/-- The exponent of the last place: 53 digits, and none below `2 ^ -1074`.
Kind: D -/
def lastPlace (x : ℚ) : ℤ := max (-1074) (Int.log 2 x - 52)

/-- A unit in the last place.
Kind: D -/
def ulp (x : ℚ) : ℚ := 2 ^ lastPlace x

/-- The rounding of a number that is not negative.
Kind: D -/
def nearestAbs (x : ℚ) : ℚ := roundEven (x / ulp x) * ulp x

/-- The nearest number of 53 digits.
Kind: D -/
def nearest (x : ℚ) : ℚ := if 0 ≤ x then nearestAbs x else -nearestAbs (-x)

@[simp] theorem roundEven_zero : roundEven 0 = 0 := by
  simpa using roundEven_intCast 0

@[simp] theorem nearestAbs_zero : nearestAbs 0 = 0 := by simp [nearestAbs]

theorem ulp_pos (x : ℚ) : 0 < ulp x := zpow_pos (by norm_num) _

theorem nearestAbs_nonneg {x : ℚ} (h : 0 ≤ x) : 0 ≤ nearestAbs x := by
  have hfloor : 0 ≤ ⌊x / ulp x⌋ := Int.floor_nonneg.mpr (div_nonneg h (ulp_pos x).le)
  have hround : 0 ≤ roundEven (x / ulp x) := hfloor.trans (floor_le_roundEven _)
  exact mul_nonneg (Int.cast_nonneg hround) (ulp_pos x).le

/-- A multiple of the unit stays above what is rounded, when it is.
Kind: L -/
theorem nearestAbs_le {x : ℚ} {n : ℤ} (h : x ≤ n * ulp x) : nearestAbs x ≤ n * ulp x := by
  have hround : roundEven (x / ulp x) ≤ n := by
    rw [← roundEven_intCast n]
    exact roundEven_mono ((div_le_iff₀ (ulp_pos x)).mpr h)
  exact mul_le_mul_of_nonneg_right (Int.cast_le.mpr hround) (ulp_pos x).le

/-- And below it.
Kind: L -/
theorem le_nearestAbs {x : ℚ} {n : ℤ} (h : n * ulp x ≤ x) : n * ulp x ≤ nearestAbs x := by
  have hround : n ≤ roundEven (x / ulp x) := by
    rw [← roundEven_intCast n]
    exact roundEven_mono ((le_div_iff₀ (ulp_pos x)).mpr h)
  exact mul_le_mul_of_nonneg_right (Int.cast_le.mpr hround) (ulp_pos x).le

/-- A power of two is a multiple of a smaller one.
Kind: L -/
theorem zpow_eq_mul_zpow {a b : ℤ} (h : b ≤ a) :
    (2 : ℚ) ^ a = ((2 ^ (a - b).toNat : ℤ) : ℚ) * 2 ^ b := by
  have hab : a = ((a - b).toNat : ℤ) + b := by omega
  nth_rewrite 1 [hab]
  rw [zpow_add₀ two_ne_zero, zpow_natCast]
  push_cast
  rfl

theorem lastPlace_mono {x y : ℚ} (hx : 0 < x) (h : x ≤ y) : lastPlace x ≤ lastPlace y :=
  max_le_max_left _ (by linarith [Int.log_mono_right (b := 2) hx h])

theorem nearestAbs_mono {x y : ℚ} (hx : 0 ≤ x) (h : x ≤ y) : nearestAbs x ≤ nearestAbs y := by
  rcases hx.eq_or_lt with rfl | hpos
  · rw [nearestAbs_zero]
    exact nearestAbs_nonneg h
  rcases (lastPlace_mono hpos h).lt_or_eq with hlt | heq
  · -- the power of two under `y` is between the two, and is a double
    have hy : 0 < y := hpos.trans_le h
    have hplace : lastPlace y = Int.log 2 y - 52 := by
      unfold lastPlace at hlt ⊢
      omega
    have hlog : Int.log 2 x + 1 ≤ Int.log 2 y := by
      unfold lastPlace at hlt
      omega
    have hbelow : x ≤ 2 ^ Int.log 2 y := by
      have hx := Int.lt_zpow_succ_log_self (b := 2) (by norm_num) x
      have hpow : (2 : ℚ) ^ (Int.log 2 x + 1) ≤ 2 ^ Int.log 2 y :=
        zpow_le_zpow_right₀ (by norm_num) hlog
      exact_mod_cast hx.le.trans hpow
    have habove : (2 : ℚ) ^ Int.log 2 y ≤ y := by
      exact_mod_cast Int.zpow_log_le_self (b := 2) (by norm_num) hy
    have hmulx := zpow_eq_mul_zpow (a := Int.log 2 y) (b := lastPlace x) (by omega)
    have hmuly := zpow_eq_mul_zpow (a := Int.log 2 y) (b := lastPlace y) (by omega)
    calc
      nearestAbs x ≤ 2 ^ Int.log 2 y := hmulx ▸ nearestAbs_le (hmulx ▸ hbelow)
      _ ≤ nearestAbs y := hmuly ▸ le_nearestAbs (hmuly ▸ habove)
  · unfold nearestAbs
    have hulp : ulp x = ulp y := by
      unfold ulp
      rw [heq]
    rw [hulp]
    apply mul_le_mul_of_nonneg_right _ (ulp_pos y).le
    exact Int.cast_le.mpr (roundEven_mono (div_le_div_of_nonneg_right h (ulp_pos y).le))

theorem nearest_mono {x y : ℚ} (h : x ≤ y) : nearest x ≤ nearest y := by
  unfold nearest
  by_cases hx : 0 ≤ x
  · rw [if_pos hx, if_pos (hx.trans h)]
    exact nearestAbs_mono hx h
  · have hx' : 0 ≤ -x := by linarith
    rw [if_neg hx]
    by_cases hy : 0 ≤ y
    · rw [if_pos hy]
      linarith [nearestAbs_nonneg hx', nearestAbs_nonneg hy]
    · rw [if_neg hy]
      exact neg_le_neg (nearestAbs_mono (by linarith) (by linarith))

/-- A number of 53 digits is left alone.
Kind: L -/
theorem nearestAbs_eq_self {m e : ℤ} (hm : 0 ≤ m) (hdigits : m ≤ 2 ^ 53) (he : -1074 ≤ e) :
    nearestAbs (m * 2 ^ e) = m * 2 ^ e := by
  rcases hm.eq_or_lt with rfl | hpos
  · simp
  set x : ℚ := m * 2 ^ e with hx
  have hx0 : 0 < x := mul_pos (Int.cast_pos.mpr hpos) (zpow_pos (by norm_num) e)
  -- the number is a whole number of units
  suffices hunits : ∃ n : ℤ, x = n * ulp x by
    obtain ⟨n, hn⟩ := hunits
    unfold nearestAbs
    nth_rewrite 1 [hn]
    rw [mul_div_cancel_right₀ _ (ulp_pos x).ne', roundEven_intCast, ← hn]
  rcases hdigits.lt_or_eq with hlt | heq
  · have hbound : x < 2 ^ (e + 53) := by
      rw [hx, zpow_add₀ two_ne_zero, mul_comm]
      apply mul_lt_mul_of_pos_left _ (zpow_pos (by norm_num) e)
      exact_mod_cast hlt
    have hlog : Int.log 2 x < e + 53 := by
      refine (Int.lt_zpow_iff_log_lt (b := 2) (by norm_num) hx0).mp ?_
      exact_mod_cast hbound
    have hplace : lastPlace x ≤ e := max_le he (by omega)
    have hsplit := zpow_eq_mul_zpow hplace
    refine ⟨m * 2 ^ (e - lastPlace x).toNat, ?_⟩
    rw [Int.cast_mul, mul_assoc, ulp, ← hsplit]
  · have hpow : x = 2 ^ (e + 53) := by
      rw [hx, heq, zpow_add₀ two_ne_zero, mul_comm]
      norm_num
    have hlog : Int.log 2 x = e + 53 := by
      rw [hpow]
      exact_mod_cast Int.log_zpow (R := ℚ) (b := 2) (by norm_num) (e + 53)
    have hplace : lastPlace x ≤ e + 53 := by
      unfold lastPlace
      omega
    refine ⟨2 ^ (e + 53 - lastPlace x).toNat, ?_⟩
    unfold ulp
    rw [← zpow_eq_mul_zpow hplace, hpow]

/-- What comes out of the rounding has 53 digits.
Kind: L -/
theorem roundEven_div_ulp_le {x : ℚ} (hx : 0 ≤ x) :
    0 ≤ roundEven (x / ulp x) ∧ roundEven (x / ulp x) ≤ 2 ^ 53 := by
  have hfloor : 0 ≤ ⌊x / ulp x⌋ := Int.floor_nonneg.mpr (div_nonneg hx (ulp_pos x).le)
  refine ⟨hfloor.trans (floor_le_roundEven _), ?_⟩
  have hbound : x / ulp x ≤ ((2 ^ 53 : ℤ) : ℚ) := by
    rw [div_le_iff₀ (ulp_pos x)]
    have hlt := Int.lt_zpow_succ_log_self (b := 2) (by norm_num) x
    have hpow : (2 : ℚ) ^ (Int.log 2 x + 1) ≤ 2 ^ (lastPlace x + 53) := by
      apply zpow_le_zpow_right₀ (by norm_num)
      unfold lastPlace
      omega
    have hsplit : (2 : ℚ) ^ (lastPlace x + 53) = ((2 ^ 53 : ℤ) : ℚ) * ulp x := by
      rw [zpow_add₀ two_ne_zero, mul_comm]
      norm_num [ulp]
    rw [← hsplit]
    exact_mod_cast hlt.le.trans hpow
  rw [← roundEven_intCast (2 ^ 53)]
  exact roundEven_mono hbound

theorem nearestAbs_nearestAbs {x : ℚ} (hx : 0 ≤ x) : nearestAbs (nearestAbs x) = nearestAbs x :=
  nearestAbs_eq_self (roundEven_div_ulp_le hx).1 (roundEven_div_ulp_le hx).2 (le_max_left _ _)

/-- The rounding of a rounded number is that number.
Kind: P -/
theorem nearest_nearest (x : ℚ) : nearest (nearest x) = nearest x := by
  have hneg : ∀ y : ℚ, 0 ≤ y → nearest (-y) = -nearestAbs y := by
    intro y hy
    rcases hy.eq_or_lt with rfl | hpos
    · simp [nearest]
    · rw [nearest, if_neg (by linarith), neg_neg]
  by_cases hx : 0 ≤ x
  · have hval : nearest x = nearestAbs x := if_pos hx
    rw [hval, nearest, if_pos (nearestAbs_nonneg hx), nearestAbs_nearestAbs hx]
  · have hx' : 0 ≤ -x := by linarith
    have hval : nearest x = -nearestAbs (-x) := if_neg hx
    rw [hval, hneg _ (nearestAbs_nonneg hx'), nearestAbs_nearestAbs hx']

/-- A whole number of 53 digits is left alone.
Kind: L -/
theorem nearest_natCast {n : ℕ} (h : n ≤ 2 ^ 53) : nearest n = n := by
  have hself := nearestAbs_eq_self (m := n) (e := 0) (by omega) (by exact_mod_cast h) (by norm_num)
  rw [nearest, if_pos (Nat.cast_nonneg n)]
  simpa using hself

/-! ### Numbers -/

/-- The rational numbers that are doubles.
Kind: D -/
structure IsDouble (x : ℚ) : Prop where
  /-- It has 53 digits. -/
  nearest : nearest x = x
  /-- It is in range. -/
  range : |x| < 2 ^ 1024

/-- A number: a double, one of the infinities, or `NaN`.
Kind: D -/
inductive Double where
  | nan
  | negInfinity
  | finite (value : ℚ) (double : IsDouble value)
  | infinity
  deriving DecidableEq

namespace Double

/-- The double that stands for a rational number: the nearest one, or an infinity when that is out of
range.
Kind: D -/
def ofRat (x : ℚ) : Double :=
  if h : |nearest x| < 2 ^ 1024 then finite (nearest x) ⟨nearest_nearest x, h⟩
  else if 0 < x then infinity else negInfinity

instance : NatCast Double := ⟨fun n => ofRat n⟩

/-- Is it finite?
Kind: D -/
def isFinite : Double → Bool
  | finite _ _ => true
  | _ => false

/-- An infinity, by its sign.
Kind: D -/
def infinityOf (x : ℚ) : Double :=
  if 0 < x then infinity else if x < 0 then negInfinity else nan

/-- The sum.
Kind: D -/
def add : Double → Double → Double
  | finite x _, finite y _ => ofRat (x + y)
  | nan, _ | _, nan | infinity, negInfinity | negInfinity, infinity => nan
  | infinity, _ | _, infinity => infinity
  | negInfinity, _ | _, negInfinity => negInfinity

/-- The difference.
Kind: D -/
def sub : Double → Double → Double
  | finite x _, finite y _ => ofRat (x - y)
  | nan, _ | _, nan | infinity, infinity | negInfinity, negInfinity => nan
  | infinity, _ | _, negInfinity => infinity
  | negInfinity, _ | _, infinity => negInfinity

/-- The product.
Kind: D -/
def mul : Double → Double → Double
  | finite x _, finite y _ => ofRat (x * y)
  | nan, _ | _, nan => nan
  | infinity, finite x _ | finite x _, infinity => infinityOf x
  | negInfinity, finite x _ | finite x _, negInfinity => infinityOf (-x)
  | infinity, infinity | negInfinity, negInfinity => infinity
  | infinity, negInfinity | negInfinity, infinity => negInfinity

/-- The quotient. The divisor zero counts as the positive zero.
Kind: D -/
def div : Double → Double → Double
  | finite x _, finite y _ => if y = 0 then infinityOf x else ofRat (x / y)
  | nan, _ | _, nan => nan
  | finite _ _, infinity | finite _ _, negInfinity => ofRat 0
  | infinity, finite x _ => if x < 0 then negInfinity else infinity
  | negInfinity, finite x _ => if x < 0 then infinity else negInfinity
  | infinity, _ | negInfinity, _ => nan

/-- Finite, and at most a whole number.
Kind: D -/
def AtMost (x : Double) (n : ℕ) : Prop := ∃ value double, x = finite value double ∧ value ≤ n

/-- Not more than; `NaN` compares with nothing.
Kind: D -/
def le : Double → Double → Bool
  | nan, _ | _, nan => false
  | negInfinity, _ | _, infinity => true
  | finite x _, finite y _ => x ≤ y
  | _, _ => false

/-- Less than.
Kind: D -/
def lt (x y : Double) : Bool := x.le y && !y.le x

/-- The smaller one, and `NaN` when one is.
Kind: D -/
def min : Double → Double → Double
  | nan, _ | _, nan => nan
  | x, y => if x.le y then x else y

/-- The larger one, and `NaN` when one is.
Kind: D -/
def max : Double → Double → Double
  | nan, _ | _, nan => nan
  | x, y => if x.le y then y else x

/-- The least whole number that is not below.
Kind: D -/
def ceil : Double → Double
  | finite x _ => ofRat ⌈x⌉
  | x => x

instance : Add Double := ⟨add⟩
instance : Sub Double := ⟨sub⟩
instance : Mul Double := ⟨mul⟩
instance : Div Double := ⟨div⟩
instance : Min Double := ⟨min⟩
instance : Max Double := ⟨max⟩
instance : LE Double := ⟨fun x y => x.le y = true⟩
instance : LT Double := ⟨fun x y => x.lt y = true⟩
instance : Numeric Double := ⟨ceil, isFinite⟩
instance : DecidableLE Double := fun x y => inferInstanceAs (Decidable (x.le y = true))
instance : DecidableLT Double := fun x y => inferInstanceAs (Decidable (x.lt y = true))

/-! ### Order -/

section Order

variable {x y z : Double}

theorem finite_le_finite {a b : ℚ} {ha : IsDouble a} {hb : IsDouble b} :
    finite a ha ≤ finite b hb ↔ a ≤ b := decide_eq_true_iff

theorem not_le_nan : ¬ x ≤ nan := by cases x <;> exact Bool.false_ne_true

theorem not_nan_le : ¬ nan ≤ x := Bool.false_ne_true

theorem negInfinity_le (h : x ≠ nan) : negInfinity ≤ x := by
  cases x with
  | nan => exact absurd rfl h
  | negInfinity | finite | infinity => rfl

theorem le_infinity (h : x ≠ nan) : x ≤ infinity := by
  cases x with
  | nan => exact absurd rfl h
  | negInfinity | finite | infinity => rfl

theorem le_trans (hxy : x ≤ y) (hyz : y ≤ z) : x ≤ z := by
  have hx : x ≠ nan := fun h => not_nan_le (h ▸ hxy)
  have hz : z ≠ nan := fun h => not_le_nan (h ▸ hyz)
  cases x with
  | nan => exact absurd rfl hx
  | negInfinity => exact negInfinity_le hz
  | infinity =>
      cases y with
      | infinity => exact hyz
      | nan | negInfinity | finite => exact absurd hxy Bool.false_ne_true
  | finite a =>
      cases z with
      | nan => exact absurd rfl hz
      | infinity => exact le_infinity hx
      | negInfinity =>
          cases y with
          | negInfinity => exact hxy
          | nan | finite | infinity => exact absurd hyz Bool.false_ne_true
      | finite b =>
          cases y with
          | finite c => exact finite_le_finite.mpr ((finite_le_finite.mp hxy).trans (finite_le_finite.mp hyz))
          | nan | infinity => exact absurd hyz Bool.false_ne_true
          | negInfinity => exact absurd hxy Bool.false_ne_true

theorem le_total_of_ne_nan (hx : x ≠ nan) (hy : y ≠ nan) : x ≤ y ∨ y ≤ x := by
  cases x with
  | nan => exact absurd rfl hx
  | negInfinity => exact Or.inl (negInfinity_le hy)
  | infinity => exact Or.inr (le_infinity hy)
  | finite a =>
      cases y with
      | nan => exact absurd rfl hy
      | negInfinity => exact Or.inr (negInfinity_le hx)
      | infinity => exact Or.inl (le_infinity hx)
      | finite b =>
          exact (Rat.le_total (a := a) (b := b)).imp finite_le_finite.mpr finite_le_finite.mpr

theorem lt_iff : x < y ↔ x ≤ y ∧ ¬ y ≤ x := by
  show (x.le y && !y.le x) = true ↔ x.le y = true ∧ ¬ y.le x = true
  rw [Bool.and_eq_true, Bool.not_eq_true', Bool.not_eq_true]

theorem not_lt_of_le (h : y ≤ x) : ¬ x < y := fun hlt => (lt_iff.mp hlt).2 h

theorem lt_of_le_of_lt (hxy : x ≤ y) (hyz : y < z) : x < z :=
  lt_iff.mpr ⟨le_trans hxy (lt_iff.mp hyz).1, fun h => (lt_iff.mp hyz).2 (le_trans h hxy)⟩

theorem lt_of_lt_of_le (hxy : x < y) (hyz : y ≤ z) : x < z :=
  lt_iff.mpr ⟨le_trans (lt_iff.mp hxy).1 hyz, fun h => (lt_iff.mp hxy).2 (le_trans hyz h)⟩

theorem min_eq (hx : x ≠ nan) (hy : y ≠ nan) : x ⊓ y = if x ≤ y then x else y := by
  cases x with
  | nan => exact absurd rfl hx
  | negInfinity | finite | infinity =>
      cases y with
      | nan => exact absurd rfl hy
      | negInfinity | finite | infinity => rfl

theorem max_eq (hx : x ≠ nan) (hy : y ≠ nan) : x ⊔ y = if x ≤ y then y else x := by
  cases x with
  | nan => exact absurd rfl hx
  | negInfinity | finite | infinity =>
      cases y with
      | nan => exact absurd rfl hy
      | negInfinity | finite | infinity => rfl

/-- A bound of the smaller one is a bound of both.
Kind: L -/
theorem le_min_iff : z ≤ x ⊓ y ↔ z ≤ x ∧ z ≤ y := by
  by_cases hx : x = nan
  · subst hx
    exact iff_of_false not_le_nan fun h => not_le_nan h.1
  by_cases hy : y = nan
  · subst hy
    have hmin : x ⊓ nan = nan := by cases x <;> rfl
    rw [hmin]
    exact iff_of_false not_le_nan fun h => not_le_nan h.2
  rw [min_eq hx hy]
  split_ifs with hxy
  · exact ⟨fun h => ⟨h, le_trans h hxy⟩, And.left⟩
  · have hyx := (le_total_of_ne_nan hx hy).resolve_left hxy
    exact ⟨fun h => ⟨le_trans h hyx, h⟩, And.right⟩

end Order

/-! ### Monotone operations -/

theorem ofRat_ne_nan (x : ℚ) : ofRat x ≠ nan := by
  unfold ofRat
  split_ifs <;> exact fun h => Double.noConfusion h

theorem ofRat_of_lt {x : ℚ} (h : |nearest x| < 2 ^ 1024) :
    ofRat x = finite (nearest x) ⟨nearest_nearest x, h⟩ := dif_pos h

/-- A double stands for itself.
Kind: L -/
theorem ofRat_eq_finite {x : ℚ} (h : IsDouble x) : ofRat x = finite x h := by
  have hrange : |nearest x| < 2 ^ 1024 := h.nearest.symm ▸ h.range
  rw [ofRat_of_lt hrange]
  simp only [h.nearest]

theorem nearest_nonneg {x : ℚ} (h : 0 ≤ x) : 0 ≤ nearest x := by
  rw [nearest, if_pos h]
  exact nearestAbs_nonneg h

theorem nearest_nonpos {x : ℚ} (h : x ≤ 0) : nearest x ≤ 0 := by
  rcases h.eq_or_lt with rfl | hneg
  · simp [nearest]
  · rw [nearest, if_neg (not_le.mpr hneg)]
    exact neg_nonpos.mpr (nearestAbs_nonneg (neg_nonneg.mpr h))

/-- The rounding keeps the order.
Kind: P -/
theorem ofRat_mono {x y : ℚ} (h : x ≤ y) : ofRat x ≤ ofRat y := by
  have hnearest := nearest_mono h
  by_cases hx : |nearest x| < 2 ^ 1024
  · rw [ofRat_of_lt hx]
    by_cases hy : |nearest y| < 2 ^ 1024
    · rw [ofRat_of_lt hy]
      exact finite_le_finite.mpr hnearest
    · -- out of range above, since the smaller one is in range
      have hpos : 0 < y := by
        by_contra hneg
        have hy0 := nearest_nonpos (not_lt.mp hneg)
        rw [abs_of_nonpos hy0] at hy
        rw [abs_of_nonpos (hnearest.trans hy0)] at hx
        exact hy ((neg_le_neg hnearest).trans_lt hx)
      have hval : ofRat y = infinity := by rw [ofRat, dif_neg hy, if_pos hpos]
      rw [hval]
      exact le_infinity Double.noConfusion
  · by_cases hpos : 0 < x
    · have hy : ¬ |nearest y| < 2 ^ 1024 := by
        have hx0 := nearest_nonneg hpos.le
        rw [abs_of_nonneg hx0] at hx
        rw [abs_of_nonneg (hx0.trans hnearest)]
        exact fun hlt => hx (hnearest.trans_lt hlt)
      have hval : ofRat y = infinity := by rw [ofRat, dif_neg hy, if_pos (hpos.trans_le h)]
      rw [hval]
      exact le_infinity (ofRat_ne_nan x)
    · have hval : ofRat x = negInfinity := by rw [ofRat, dif_neg hx, if_neg hpos]
      rw [hval]
      exact negInfinity_le (ofRat_ne_nan y)

/-- A whole number of 53 digits is a double.
Kind: L -/
theorem isDouble_natCast {n : ℕ} (h : n ≤ 2 ^ 53) : IsDouble n where
  nearest := nearest_natCast h
  range := by
    have hn : (n : ℚ) ≤ 2 ^ 53 := by exact_mod_cast h
    rw [abs_of_nonneg (Nat.cast_nonneg n)]
    exact hn.trans_lt (pow_lt_pow_right₀ (by norm_num) (by norm_num))

theorem natCast_eq_finite {n : ℕ} (h : n ≤ 2 ^ 53) : (n : Double) = finite n (isDouble_natCast h) :=
  ofRat_eq_finite (isDouble_natCast h)

theorem natCast_le_natCast {m n : ℕ} (h : m ≤ n) : (m : Double) ≤ n :=
  ofRat_mono (Nat.cast_le.mpr h)

theorem natCast_lt_natCast {m n : ℕ} (h : m < n) (hn : n ≤ 2 ^ 53) : (m : Double) < n := by
  rw [natCast_eq_finite hn, natCast_eq_finite (h.le.trans hn), lt_iff, finite_le_finite,
    finite_le_finite, Nat.cast_le, Nat.cast_le]
  omega

/-- Whole numbers of 53 digits are subtracted without rounding.
Kind: L -/
theorem natCast_sub_natCast {m n : ℕ} (h : n ≤ m) (hm : m ≤ 2 ^ 53) :
    (m : Double) - n = ((m - n : ℕ) : Double) := by
  rw [natCast_eq_finite hm, natCast_eq_finite (h.trans hm)]
  show ofRat ((m : ℚ) - n) = ofRat ((m - n : ℕ) : ℚ)
  rw [Nat.cast_sub h]

/-- What is rounded from a number that is not negative is an infinity, or is not negative either.
Kind: L -/
theorem ofRat_nonneg {x : ℚ} (h : 0 ≤ x) :
    ofRat x = infinity ∨ ∃ value double, ofRat x = finite value double ∧ 0 ≤ value := by
  by_cases hrange : |nearest x| < 2 ^ 1024
  · exact Or.inr ⟨_, _, ofRat_of_lt hrange, nearest_nonneg h⟩
  · refine Or.inl ?_
    rcases h.eq_or_lt with rfl | hpos
    · simp [nearest] at hrange
    · rw [ofRat, dif_neg hrange, if_pos hpos]

/-- A double that is not negative rounds up to a double.
Kind: L -/
theorem isDouble_ceil {x : ℚ} (hx : 0 ≤ x) (double : IsDouble x) : IsDouble (⌈x⌉ : ℚ) := by
  by_cases hplace : lastPlace x < 0
  · -- below `2 ^ 52` every whole number is a double
    have hlog : Int.log 2 x + 1 ≤ 52 := by
      unfold lastPlace at hplace
      omega
    have hsmall : x ≤ ((2 ^ 52 : ℤ) : ℚ) := by
      have hlt := Int.lt_zpow_succ_log_self (b := 2) (by norm_num) x
      have hpow : (2 : ℚ) ^ (Int.log 2 x + 1) ≤ 2 ^ (52 : ℤ) :=
        zpow_le_zpow_right₀ (by norm_num) hlog
      exact_mod_cast hlt.le.trans hpow
    have hceil : ⌈x⌉ ≤ 2 ^ 52 := Int.ceil_le.mpr hsmall
    have hnat : ((⌈x⌉.toNat : ℕ) : ℚ) = ⌈x⌉ := by
      exact_mod_cast Int.toNat_of_nonneg (Int.ceil_nonneg hx)
    rw [← hnat]
    exact isDouble_natCast (by omega)
  · -- the number is whole itself
    have hunits : x = roundEven (x / ulp x) * ulp x := by
      have hself := double.nearest
      rw [nearest, if_pos hx] at hself
      exact hself.symm
    have hulp : ulp x = ((2 ^ (lastPlace x).toNat : ℤ) : ℚ) := by
      rw [ulp, zpow_eq_mul_zpow (b := 0) (not_lt.mp hplace)]
      simp
    have hwhole : (⌈x⌉ : ℚ) = x := by
      rw [hunits, hulp, ← Int.cast_mul, Int.ceil_intCast]
    rw [hwhole]
    exact double

section Monotone

variable {x y : Double} {a : ℚ} {ha : IsDouble a}

/-- An operation that fixes the infinities and rounds the result of a monotone one is monotone.
Kind: L -/
theorem map_le_map {f : Double → Double} {g : ℚ → ℚ} (hg : Monotone g) (hneg : f negInfinity = negInfinity)
    (htop : f infinity = infinity) (hfin : ∀ b hb, f (finite b hb) = ofRat (g b)) (h : x ≤ y) :
    f x ≤ f y := by
  cases x with
  | nan => exact absurd h not_nan_le
  | negInfinity =>
      rw [hneg]
      cases y with
      | nan => exact absurd h not_le_nan
      | negInfinity =>
          rw [hneg]
          rfl
      | infinity =>
          rw [htop]
          rfl
      | finite c hc =>
          rw [hfin]
          exact negInfinity_le (ofRat_ne_nan (g c))
  | infinity =>
      cases y with
      | infinity =>
          rw [htop]
          rfl
      | nan | negInfinity | finite => exact absurd h Bool.false_ne_true
  | finite b hb =>
      rw [hfin]
      cases y with
      | nan | negInfinity => exact absurd h Bool.false_ne_true
      | infinity =>
          rw [htop]
          exact le_infinity (ofRat_ne_nan (g b))
      | finite c hc =>
          rw [hfin]
          exact ofRat_mono (hg (finite_le_finite.mp h))

/-- A difference grows with its first part.
Kind: L -/
theorem sub_le_sub_right (h : x ≤ y) : x - finite a ha ≤ y - finite a ha := by
  have hmono : Monotone fun b : ℚ => b - a := fun _ _ hle => by linarith
  exact map_le_map (f := fun x => x - finite a ha) hmono rfl rfl (fun _ _ => rfl) h

/-- A difference that is below a bound is below it for a smaller first part.
Kind: L -/
theorem sub_lt_of_le {l k : Double} (h : x ≤ y) (hlt : y - l < k) : x - l < k := by
  cases l with
  | finite a ha => exact lt_of_le_of_lt (sub_le_sub_right h) hlt
  | nan =>
      have hnan : y - nan = nan := by cases y <;> rfl
      rw [hnan] at hlt
      exact absurd (lt_iff.mp hlt).1 not_nan_le
  | negInfinity =>
      -- the difference is the infinity, or `NaN`
      have htop : ∀ z, ¬ infinity < z ∧ ¬ nan < z := by
        intro z
        cases z <;> exact ⟨Bool.false_ne_true, Bool.false_ne_true⟩
      cases y with
      | nan | negInfinity => exact absurd hlt (htop k).2
      | finite | infinity => exact absurd hlt (htop k).1
  | infinity =>
      cases y with
      | nan | infinity => exact absurd (lt_iff.mp hlt).1 not_nan_le
      | negInfinity | finite =>
          cases x with
          | negInfinity | finite => exact hlt
          | nan | infinity => exact absurd h Bool.false_ne_true

/-- A sum grows with its second part.
Kind: L -/
theorem add_le_add_left (h : x ≤ y) : finite a ha + x ≤ finite a ha + y := by
  have hmono : Monotone fun b : ℚ => a + b := fun _ _ hle => by linarith
  exact map_le_map (f := fun x => finite a ha + x) hmono rfl rfl (fun _ _ => rfl) h

/-- A product with a positive number grows with the other factor.
Kind: L -/
theorem mul_le_mul_right (hpos : 0 < a) (h : x ≤ y) : x * finite a ha ≤ y * finite a ha := by
  have hneg : negInfinity * finite a ha = negInfinity := by
    show infinityOf (-a) = negInfinity
    rw [infinityOf, if_neg (by linarith), if_pos (by linarith)]
  have hmono : Monotone fun b : ℚ => b * a := fun _ _ hle => mul_le_mul_of_nonneg_right hle hpos.le
  exact map_le_map (f := fun x => x * finite a ha) hmono hneg (if_pos hpos) (fun _ _ => rfl) h

/-- So does a quotient by a positive number.
Kind: L -/
theorem div_le_div_right (hpos : 0 < a) (h : x ≤ y) : x / finite a ha ≤ y / finite a ha := by
  have hmono : Monotone fun b : ℚ => b / a := fun _ _ hle => div_le_div_of_nonneg_right hle hpos.le
  exact map_le_map (f := fun x => x / finite a ha) hmono (if_neg hpos.not_gt) (if_neg hpos.not_gt)
    (fun _ _ => if_neg hpos.ne') h

/-- Bounds of a difference of whole numbers.
Kind: L -/
theorem natCast_sub_le {m n d : ℕ} (h : m ≤ n + d) (hd : n + d ≤ 2 ^ 53) : (m : Double) - n ≤ d := by
  have hn : n ≤ 2 ^ 53 := (Nat.le_add_right n d).trans hd
  have hmono : (m : Double) - n ≤ ((n + d : ℕ) : Double) - n := by
    rw [natCast_eq_finite hn]
    exact sub_le_sub_right (natCast_le_natCast h)
  rwa [natCast_sub_natCast (Nat.le_add_right n d) hd, Nat.add_sub_cancel_left] at hmono

theorem le_natCast_sub {m n d : ℕ} (h : n + d ≤ m) (hd : n + d ≤ 2 ^ 53) : (d : Double) ≤ m - n := by
  have hn : n ≤ 2 ^ 53 := (Nat.le_add_right n d).trans hd
  have hmono : ((n + d : ℕ) : Double) - n ≤ (m : Double) - n := by
    rw [natCast_eq_finite hn]
    exact sub_le_sub_right (natCast_le_natCast h)
  rwa [natCast_sub_natCast (Nat.le_add_right n d) hd, Nat.add_sub_cancel_left] at hmono

end Monotone

end Double

end TyoMq.Lib
