import ScriptLexer.Decimal
import ScriptLexer.Proofs.Binary64.Grid
import ScriptLexer.Proofs.Shortest
import Mathlib.Algebra.Group.Even
import Mathlib.Order.WithBot

/-! Correct rounding. A number that a rational rounds to is described by its distance alone,
without an algorithm; there is exactly one, rounding finds it, and it grows with the rational. -/
namespace ScriptLexer
namespace Binary64

/-- How many units make one, kept folded since it is a number of three hundred digits. -/
@[irreducible] def unitsInOne : ℚ := 2 ^ 1074

theorem unitsInOne_pos : 0 < unitsInOne := by
  rw [unitsInOne]
  exact pow_pos two_pos _

theorem unitsInOne_eq : ∃ units : ℕ, Nat.pow 2 1074 = units ∧ unitsInOne = units := by
  rw [unitsInOne]
  generalize 1074 = place
  refine ⟨2 ^ place, rfl, ?_⟩
  rw [Nat.cast_pow, Nat.cast_ofNat]

/-- The number that a finite value is, the same for both zeros. -/
def toRat (x : Binary64) : ℚ := (if x.negative then -1 else 1) * (x.units / unitsInOne)

/-- The integer that the exponent moves to its place: the fraction, and a leading bit where the
number is not subnormal. -/
def significand (x : Binary64) : ℕ :=
  if x.magnitude < 2 ^ 52 then x.magnitude else 2 ^ 52 + x.magnitude % 2 ^ 52

/-- The middle between the largest finite number and the one that would follow it. -/
def overflow : ℚ := 2 ^ 1024 - 2 ^ 970

/-- The number with infinity above all others. -/
def value (x : Binary64) : WithTop ℚ := if x.isFinite then x.toRat else ⊤

def abs (x : Binary64) : Binary64 := { x with negative := false }

@[simp] theorem magnitude_abs (x : Binary64) : x.abs.magnitude = x.magnitude := rfl

/-- What makes a number the correctly rounded one for a nonnegative rational. It is infinity from
the middle above the largest number on, and else a finite number that no other is nearer than. Of
two that are as near, it is the one with the even significand. -/
structure Rounds (q : ℚ) (x : Binary64) : Prop where
  nonnegative : x.negative = false
  infinite_iff : x.isInfinite = true ↔ overflow ≤ q
  finite_iff : x.isFinite = true ↔ q < overflow
  nearest : x.isFinite = true → ∀ y : Binary64, y.isFinite = true → |q - x.toRat| ≤ |q - y.toRat|
  even : x.isFinite = true → ∀ y : Binary64, y.isFinite = true → y.toRat ≠ x.toRat →
    |q - y.toRat| = |q - x.toRat| → Even x.significand

/-! ### Values and magnitudes -/

theorem even_significand (x : Binary64) : Even x.significand ↔ x.magnitude % 2 = 0 := by
  rw [Nat.even_iff, significand]
  split <;> omega

theorem abs_toRat (x : Binary64) : |x.toRat| = unitsAt x.magnitude / unitsInOne := by
  have unsigned : 0 ≤ unitsAt x.magnitude / unitsInOne :=
    div_nonneg (Nat.cast_nonneg _) unitsInOne_pos.le
  rw [toRat, units_eq_unitsAt, abs_mul, abs_of_nonneg unsigned]
  split <;> simp

theorem toRat_of_nonnegative {x : Binary64} (nonnegative : x.negative = false) :
    x.toRat = unitsAt x.magnitude / unitsInOne := by
  rw [toRat, nonnegative, if_neg Bool.false_ne_true, one_mul, units_eq_unitsAt]

theorem toRat_nonneg {x : Binary64} (nonnegative : x.negative = false) : 0 ≤ x.toRat := by
  rw [toRat_of_nonnegative nonnegative]
  exact div_nonneg (Nat.cast_nonneg _) unitsInOne_pos.le

theorem eq_of_magnitude_eq {x y : Binary64} (first : x.negative = false)
    (second : y.negative = false) (same : x.magnitude = y.magnitude) : x = y := by
  obtain ⟨_, _, _⟩ := x
  obtain ⟨_, _, _⟩ := y
  simp_all

/-- What is not negative is as near to an absolute value as to the number itself. -/
theorem abs_sub_abs_le {q : ℚ} (unsigned : 0 ≤ q) (s : ℚ) : |q - (|s|)| ≤ |q - s| := by
  have reverse := abs_abs_sub_abs_le q s
  rwa [abs_of_nonneg unsigned] at reverse

/-- Where zero is no nearer than a number, the opposite of that is as near only if both are zero. -/
theorem eq_zero_of_opposite {q s : ℚ} (unsigned : 0 ≤ q) (sign : 0 ≤ s)
    (nearer : |q - s| ≤ |q - 0|) (same : |q - -s| = |q - s|) : s = 0 := by
  rw [← same, sub_neg_eq_add, sub_zero, abs_of_nonneg unsigned,
    abs_of_nonneg (add_nonneg unsigned sign)] at nearer
  linarith

/-- Distances count in units as they do in numbers. -/
theorem abs_sub_units (q : ℚ) (magnitude : ℕ) :
    |q * unitsInOne - unitsAt magnitude| = |q - unitsAt magnitude / unitsInOne| * unitsInOne := by
  have positive := unitsInOne_pos
  rw [← abs_of_pos positive, ← abs_mul, abs_of_pos positive, sub_mul, div_mul_cancel₀ _ positive.ne']

/-! ### Overflow -/

/-- Midway to infinity, in units. -/
theorem unitsAt_infinite :
    (unitsAt (infinite - 1) + unitsAt infinite : ℚ) = 2 * (overflow * unitsInOne) := by
  have last : infinite - 1 = 2045 * 2 ^ 52 + (2 ^ 53 - 1) := rfl
  have next : infinite = 2046 * 2 ^ 52 + 2 ^ 52 := rfl
  have lower : unitsAt (2045 * 2 ^ 52 + (2 ^ 53 - 1)) = (2 ^ 53 - 1) * 2 ^ 2045 :=
    unitsAt_add (by omega) (.inr (by omega))
  have upper : unitsAt (2046 * 2 ^ 52 + 2 ^ 52) = 2 ^ 52 * 2 ^ 2046 :=
    unitsAt_add (by omega) (.inr le_rfl)
  rw [last, next, lower, upper, overflow, unitsInOne]
  have places : 2045 = 970 + 1074 + 1 ∧ 2046 = 970 + 1074 + 2 ∧ 1024 = 970 + 54 := by decide
  rw [places.1, places.2.1, places.2.2]
  simp only [pow_add, Nat.cast_mul, Nat.cast_pow, Nat.cast_ofNat]
  generalize (2 : ℚ) ^ 970 = a
  generalize (2 : ℚ) ^ 1074 = b
  norm_num
  ring

/-- From the middle on, a quotient of units is rounded to infinity or beyond. -/
theorem infinite_le_roundedMagnitude_iff (numerator : ℕ) {denominator : ℕ} (positive : 0 < denominator) :
    infinite ≤ roundedMagnitude numerator denominator ↔
      overflow * unitsInOne ≤ numerator / denominator := by
  have middle := unitsAt_infinite
  have last : infinite - 1 < infinite := by decide
  have odd : (infinite - 1) % 2 = 1 := by decide
  have near := nearest_roundedMagnitude numerator positive
    (Nat.lt_succ_of_le (Nat.le_max_left _ infinite))
  generalize roundedMagnitude numerator denominator = m at near ⊢
  constructor
  · intro large
    have lower := near.le (infinite - 1) (by omega)
    rw [abs_sub_le_abs_sub_iff (cast_unitsAt_lt (last.trans_le large))] at lower
    have least := cast_unitsAt_le large
    linarith
  · intro large
    by_contra! small
    have upper := near.le infinite (by omega)
    have nearer := (abs_sub_le_abs_sub_iff' (cast_unitsAt_lt small)).1 upper
    have most := cast_unitsAt_le (Nat.le_sub_one_of_lt small)
    -- Only the odd magnitude of the largest number is left, at the very middle.
    have point : (unitsAt m : ℚ) = unitsAt (infinite - 1) := by linarith
    obtain rfl : m = infinite - 1 := unitsAt_strictMono.injective (by exact_mod_cast point)
    have farther :=
      (abs_sub_le_abs_sub_iff (t := numerator / denominator) (cast_unitsAt_lt last)).2 (by linarith)
    have even := near.even infinite (by omega) last.ne' (le_antisymm farther upper)
    omega

/-! ### Correctly rounded numbers -/

section Rounds

variable {q r : ℚ} {x y : Binary64}

theorem Rounds.isFinite_or_isInfinite (rounds : Rounds q x) :
    x.isFinite = true ∨ x.isInfinite = true := by
  rw [rounds.finite_iff, rounds.infinite_iff]
  exact lt_or_ge q overflow

theorem Rounds.magnitude_le_infinite (rounds : Rounds q x) : x.magnitude ≤ infinite := by
  rcases rounds.isFinite_or_isInfinite with finite | infinite
  · exact (of_decide_eq_true finite).le
  · exact (eq_of_beq infinite).le

theorem Rounds.isNaN_eq_false (rounds : Rounds q x) : x.isNaN = false :=
  decide_eq_false rounds.magnitude_le_infinite.not_gt

/-- Among the numbers without a sign, the correctly rounded one has the nearest magnitude. -/
theorem Rounds.nearest_magnitude (rounds : Rounds q x) (below : q < overflow) :
    Nearest infinite (q * unitsInOne) x.magnitude := by
  have positive := unitsInOne_pos
  have finite := rounds.finite_iff.2 below
  have point (k : ℕ) (small : k < infinite) : ∃ y : Binary64, y.isFinite = true ∧
      y.magnitude = k ∧ y.toRat = unitsAt k / unitsInOne :=
    ⟨⟨false, k, small.trans (by decide)⟩, decide_eq_true small, rfl, toRat_of_nonnegative rfl⟩
  refine ⟨of_decide_eq_true finite, ?_, ?_⟩
  · intro k small
    obtain ⟨y, inside, -, value⟩ := point k small
    have nearer := rounds.nearest finite y inside
    rw [abs_sub_units, abs_sub_units, ← value, ← toRat_of_nonnegative rounds.nonnegative]
    exact mul_le_mul_of_nonneg_right nearer positive.le
  · intro k small different same
    obtain ⟨y, inside, -, value⟩ := point k small
    rw [abs_sub_units, abs_sub_units, ← value, ← toRat_of_nonnegative rounds.nonnegative,
      mul_left_inj' positive.ne'] at same
    refine (even_significand x).1 (rounds.even finite y inside ?_ same)
    rw [value, toRat_of_nonnegative rounds.nonnegative]
    intro equal
    rw [div_left_inj' positive.ne', Nat.cast_inj] at equal
    exact different (unitsAt_strictMono.injective equal)

/-- Numbers below zero are no nearer than their absolute values. -/
theorem rounds_of_nearest (unsigned : 0 ≤ q) (nonnegative : x.negative = false)
    (below : q < overflow) (near : Nearest infinite (q * unitsInOne) x.magnitude) : Rounds q x := by
  have positive := unitsInOne_pos
  have point := toRat_of_nonnegative nonnegative
  have nearest (k : ℕ) (small : k < infinite) :
      |q - x.toRat| ≤ |q - unitsAt k / unitsInOne| := by
    have nearer := near.le k small
    rw [abs_sub_units, abs_sub_units, ← point] at nearer
    exact le_of_mul_le_mul_right nearer positive
  have nearer {y : Binary64} (finite : y.isFinite = true) :
      |q - x.toRat| ≤ |q - (|y.toRat|)| := by
    rw [abs_toRat]
    exact nearest y.magnitude (of_decide_eq_true finite)
  refine ⟨nonnegative, ?_, ?_, ?_, ?_⟩
  · rw [isInfinite, beq_iff_eq]
    exact ⟨fun same => absurd same near.lt.ne, fun above => absurd above below.not_ge⟩
  · exact ⟨fun _ => below, fun _ => decide_eq_true near.lt⟩
  · exact fun _ y finite => (nearer finite).trans (abs_sub_abs_le unsigned y.toRat)
  · intro _ y finite different same
    rw [even_significand]
    by_cases opposite : y.magnitude = x.magnitude
    · have flipped : y.toRat = -x.toRat := by
        have sizes : |y.toRat| = |x.toRat| := by rw [abs_toRat, abs_toRat, opposite]
        exact (abs_eq_abs.1 sizes).resolve_left different
      have zero : |q - x.toRat| ≤ |q - 0| := by
        simpa [unitsAt] using nearest 0 (by decide)
      rw [flipped] at same
      have none := eq_zero_of_opposite unsigned (toRat_nonneg nonnegative) zero same
      rw [flipped, none, neg_zero] at different
      exact absurd rfl different
    · have tie : |q - (|y.toRat|)| = |q - x.toRat| :=
        le_antisymm ((abs_sub_abs_le unsigned y.toRat).trans same.le) (nearer finite)
      apply near.even y.magnitude (of_decide_eq_true finite) opposite
      rw [abs_sub_units, abs_sub_units, ← point, ← abs_toRat, tie]

theorem Rounds.magnitude_le (first : Rounds q x) (second : Rounds r y) (order : q ≤ r) :
    x.magnitude ≤ y.magnitude := by
  rcases lt_or_ge r overflow with below | above
  · have scaled := mul_le_mul_of_nonneg_right order unitsInOne_pos.le
    exact (first.nearest_magnitude (order.trans_lt below)).mono (second.nearest_magnitude below) scaled
  · rw [eq_of_beq (second.infinite_iff.2 above)]
    exact first.magnitude_le_infinite

theorem Rounds.unique (first : Rounds q x) (second : Rounds q y) : x = y :=
  eq_of_magnitude_eq first.nonnegative second.nonnegative
    (le_antisymm (first.magnitude_le second le_rfl) (second.magnitude_le first le_rfl))

theorem Rounds.value_le (first : Rounds q x) (second : Rounds r y) (order : q ≤ r) :
    x.value ≤ y.value := by
  have magnitudes := first.magnitude_le second order
  by_cases finite : y.isFinite = true
  · have finite' : x.isFinite = true :=
      decide_eq_true (magnitudes.trans_lt (of_decide_eq_true finite))
    rw [value, value, if_pos finite, if_pos finite', WithTop.coe_le_coe,
      toRat_of_nonnegative first.nonnegative, toRat_of_nonnegative second.nonnegative,
      div_le_div_iff_of_pos_right unitsInOne_pos, Nat.cast_le]
    exact unitsAt_strictMono.monotone magnitudes
  · rw [value, value, if_neg finite]
    exact le_top

theorem rounds_infinite (nonnegative : x.negative = false) (above : overflow ≤ q)
    (infinity : x.magnitude = infinite) : Rounds q x := by
  have unbounded : ¬x.isFinite = true := by
    rw [isFinite, infinity, decide_eq_true_iff]
    exact lt_irrefl infinite
  refine ⟨nonnegative, ⟨fun _ => above, fun _ => beq_iff_eq.2 infinity⟩,
    ⟨fun finite => absurd finite unbounded, fun below => absurd above below.not_ge⟩, ?_, ?_⟩
  · exact fun finite => absurd finite unbounded
  · exact fun finite => absurd finite unbounded

/-- A finite number is the correctly rounded one for itself. -/
theorem rounds_toRat (nonnegative : x.negative = false) (finite : x.isFinite = true) :
    Rounds x.toRat x := by
  have positive := unitsInOne_pos
  have small : x.magnitude < infinite := of_decide_eq_true finite
  have point : x.toRat * unitsInOne = unitsAt x.magnitude := by
    rw [toRat_of_nonnegative nonnegative, div_mul_cancel₀ _ positive.ne']
  have below : x.toRat < overflow := by
    have middle := unitsAt_infinite
    have most := cast_unitsAt_le (Nat.le_sub_one_of_lt small)
    have less : (unitsAt (infinite - 1) : ℚ) < unitsAt infinite := cast_unitsAt_lt (by decide)
    refine lt_of_mul_lt_mul_right ?_ positive.le
    linarith
  refine rounds_of_nearest (toRat_nonneg nonnegative) nonnegative below ⟨small, ?_, ?_⟩
  · intro k _
    rw [point, sub_self, abs_zero]
    exact abs_nonneg _
  · intro k _ different same
    rw [point, sub_self, abs_zero, abs_eq_zero, sub_eq_zero, Nat.cast_inj] at same
    exact absurd (unitsAt_strictMono.injective same).symm different

/-- Without its sign, a finite number is the correctly rounded one for its units. -/
theorem rounds_units (finite : x.isFinite = true) : Rounds (x.units / unitsInOne) x.abs := by
  have rounds : Rounds x.abs.toRat x.abs := rounds_toRat rfl finite
  rwa [toRat_of_nonnegative rfl] at rounds

end Rounds

/-- A quotient is rounded correctly. -/
theorem rounds_nearest (numerator : ℕ) {denominator : ℕ} (positive : 0 < denominator) :
    Rounds (numerator / denominator) (nearest numerator denominator) := by
  obtain ⟨units, power, one⟩ := unitsInOne_eq
  have magnitude : (nearest numerator denominator).magnitude =
      min (roundedMagnitude (numerator * units) denominator) infinite := by
    rw [← power]
    rfl
  have scaled : ((numerator * units : ℕ) / denominator : ℚ) =
      numerator / denominator * unitsInOne := by
    rw [Nat.cast_mul, one, mul_div_right_comm]
  have large := infinite_le_roundedMagnitude_iff (numerator * units) positive
  rw [scaled, mul_le_mul_iff_left₀ unitsInOne_pos] at large
  rcases lt_or_ge (numerator / denominator : ℚ) overflow with below | above
  · have inside := not_le.1 (mt large.1 below.not_ge)
    have near := nearest_roundedMagnitude _ positive inside
    rw [min_eq_left inside.le] at magnitude
    rw [scaled, ← magnitude] at near
    exact rounds_of_nearest (div_nonneg (Nat.cast_nonneg _) (Nat.cast_nonneg _)) rfl below near
  · rw [min_eq_right (large.2 above)] at magnitude
    exact rounds_infinite rfl above magnitude

end Binary64

/-- A decimal is rounded correctly. -/
theorem Decimal.rounds (d : Decimal) : d.toBinary64.Rounds d.toRat := by
  rw [toBinary64, toRat]
  split
  · rename_i whole
    have rounded := Binary64.rounds_nearest (d.digits * Nat.pow 10 d.exponent.toNat) one_pos
    have power : (10 : ℚ) ^ d.exponent = 10 ^ d.exponent.toNat := by
      rw [← zpow_natCast, Int.toNat_of_nonneg whole]
    rw [power]
    simpa using rounded
  · rename_i fractional
    have rounded := Binary64.rounds_nearest d.digits
      (Nat.pow_pos (by decide) : 0 < Nat.pow 10 (-d.exponent).toNat)
    have power : (10 : ℚ) ^ d.exponent = (10 ^ (-d.exponent).toNat)⁻¹ := by
      rw [← zpow_natCast, Int.toNat_of_nonneg (by omega), zpow_neg, inv_inv]
    rw [power, ← div_eq_mul_inv]
    simpa using rounded

/-- The middle of two numbers goes to the even one, here to the lower. -/
example : (Decimal.mk 9007199254740993 0).toBinary64 = (Decimal.mk 9007199254740992 0).toBinary64 :=
  by decide +kernel

end ScriptLexer
