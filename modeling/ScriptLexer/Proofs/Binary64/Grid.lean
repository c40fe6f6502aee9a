import ScriptLexer.Binary64
import Mathlib.Algebra.Order.Field.Rat
import Mathlib.Order.Monotone.Basic
import Mathlib.Tactic.FieldSimp
import Mathlib.Tactic.Linarith
import Mathlib.Tactic.NormNum
import Mathlib.Tactic.Positivity
import Mathlib.Tactic.Ring

/-! The grid of magnitudes. Each magnitude stands for a number of units, magnitudes
order these numbers, and the main statement is that a quotient is rounded to the grid
point nearest to it, an even magnitude being taken of two at equal distance. -/
namespace ScriptLexer

/-! ### Rounding to an integer -/

/-- A quotient is its floor and a fraction, and the remainder tells on which side of a half the
fraction is. -/
theorem exists_fraction (numerator : ℕ) {denominator : ℕ} (positive : 0 < denominator) :
    ∃ f : ℚ, (numerator / denominator : ℚ) = (numerator / denominator : ℕ) + f ∧ 0 ≤ f ∧ f < 1 ∧
      compare (2 * (numerator % denominator)) denominator = compare f (1 / 2) := by
  have size : (0 : ℚ) < denominator := by exact_mod_cast positive
  refine ⟨(numerator % denominator : ℕ) / denominator, ?_, by positivity, ?_, ?_⟩
  · have parts := Nat.div_add_mod numerator denominator
    field_simp
    exact_mod_cast parts.symm
  · rw [div_lt_one size]
    exact_mod_cast Nat.mod_lt numerator positive
  · rcases lt_trichotomy (2 * (numerator % denominator)) denominator with less | same | more
    · rw [Nat.compare_eq_lt.2 less, eq_comm, compare_lt_iff_lt, div_lt_div_iff₀ size two_pos]
      rw [mul_comm, one_mul]
      exact_mod_cast less
    · rw [Nat.compare_eq_eq.2 same, eq_comm, compare_eq_iff_eq, div_eq_div_iff size.ne' two_ne_zero]
      rw [mul_comm, one_mul]
      exact_mod_cast same
    · rw [Nat.compare_eq_gt.2 more, eq_comm, compare_gt_iff_gt, div_lt_div_iff₀ two_pos size]
      rw [one_mul, mul_comm]
      exact_mod_cast more

/-- Rounding goes no further than a half, and as far as that to an even integer only. -/
theorem roundQuotient_close (numerator : ℕ) {denominator : ℕ} (positive : 0 < denominator) :
    |(numerator / denominator : ℚ) - roundQuotient numerator denominator| ≤ 1 / 2 ∧
      (|(numerator / denominator : ℚ) - roundQuotient numerator denominator| = 1 / 2 →
        roundQuotient numerator denominator % 2 = 0) := by
  obtain ⟨f, split, nonneg, below, side⟩ := exists_fraction numerator positive
  rw [split]
  unfold roundQuotient
  dsimp only
  rw [side]
  rcases lt_trichotomy f (1 / 2) with less | rfl | more
  · rw [compare_lt_iff_lt.2 less, add_sub_cancel_left, abs_of_nonneg nonneg]
    exact ⟨less.le, fun same => absurd same less.ne⟩
  · rw [compare_eq_iff_eq.2 rfl]
    refine ⟨?_, fun _ => by dsimp only; omega⟩
    rcases Nat.mod_two_eq_zero_or_one (numerator / denominator) with even | odd
    · norm_num [even]
    · norm_num [odd]
  · rw [compare_gt_iff_gt.2 more, Nat.cast_add_one, add_sub_add_left_eq_sub, abs_sub_comm,
      abs_of_pos (sub_pos.2 below)]
    exact ⟨by linarith, fun same => by linarith⟩

/-- A number that is a half away from an integer at most is nearer to it than to others. -/
theorem half_le_abs_sub {s : ℚ} {r k : ℕ} (close : |s - r| ≤ 1 / 2) (different : k ≠ r) :
    1 / 2 ≤ |s - k| := by
  have apart : (1 : ℚ) ≤ |(r : ℚ) - k| := by
    have integers : (1 : ℤ) ≤ |(r : ℤ) - k| := Int.one_le_abs (by omega)
    exact_mod_cast integers
  have triangle := abs_sub_le (r : ℚ) s k
  rw [abs_sub_comm (r : ℚ) s] at triangle
  linarith

namespace Binary64

/-- The number of units that a magnitude stands for. -/
def unitsAt (magnitude : ℕ) : ℕ :=
  if magnitude < Nat.pow 2 52 then magnitude
  else (Nat.pow 2 52 + magnitude % Nat.pow 2 52) * Nat.pow 2 (magnitude / Nat.pow 2 52 - 1)

theorem units_eq_unitsAt (x : Binary64) : x.units = unitsAt x.magnitude := rfl

/-- A magnitude adds a significand to a place, and stands for that significand at that place.
The significand may be as large as that of the next place at half the step. -/
theorem unitsAt_add {place r : ℕ} (small : r ≤ 2 ^ 53) (normal : place = 0 ∨ 2 ^ 52 ≤ r) :
    unitsAt (place * 2 ^ 52 + r) = r * 2 ^ place := by
  rw [unitsAt, Nat.pow_eq, Nat.pow_eq]
  split
  · rename_i subnormal
    obtain rfl : place = 0 := by omega
    omega
  · rename_i least
    have normal : 2 ^ 52 ≤ r := by omega
    by_cases last : r = 2 ^ 53
    · have up : (place * 2 ^ 52 + r) / 2 ^ 52 - 1 = place + 1 := by omega
      have none : (place * 2 ^ 52 + r) % 2 ^ 52 = 0 := by omega
      rw [up, none, last, pow_succ' 2 place]
      ring
    · have up : (place * 2 ^ 52 + r) / 2 ^ 52 - 1 = place := by omega
      have rest : 2 ^ 52 + (place * 2 ^ 52 + r) % 2 ^ 52 = r := by omega
      rw [up, rest]

/-- Every magnitude is such a sum. -/
theorem exists_place (magnitude : ℕ) :
    ∃ place r, magnitude = place * 2 ^ 52 + r ∧ r < 2 ^ 53 ∧ (place = 0 ∨ 2 ^ 52 ≤ r) := by
  refine ⟨magnitude / 2 ^ 52 - 1, magnitude - (magnitude / 2 ^ 52 - 1) * 2 ^ 52, ?_⟩
  omega

theorem unitsAt_strictMono : StrictMono unitsAt := by
  apply strictMono_nat_of_lt_succ
  intro magnitude
  obtain ⟨place, r, rfl, small, normal⟩ := exists_place magnitude
  rw [add_assoc, unitsAt_add (by omega) normal, unitsAt_add (by omega) (by omega)]
  exact Nat.mul_lt_mul_of_pos_right (Nat.lt_succ_self r) (by positivity)

theorem cast_unitsAt_lt {a b : ℕ} (less : a < b) : (unitsAt a : ℚ) < unitsAt b := by
  exact_mod_cast unitsAt_strictMono less

theorem cast_unitsAt_le {a b : ℕ} (most : a ≤ b) : (unitsAt a : ℚ) ≤ unitsAt b := by
  exact_mod_cast unitsAt_strictMono.monotone most

/-- The first magnitudes hold one that is nearest to a number of units, and that is even if
another is as near. -/
structure Nearest (top : ℕ) (t : ℚ) (magnitude : ℕ) : Prop where
  lt : magnitude < top
  le : ∀ k < top, |t - unitsAt magnitude| ≤ |t - unitsAt k|
  even : ∀ k < top, k ≠ magnitude → |t - unitsAt k| = |t - unitsAt magnitude| → magnitude % 2 = 0

/-- From the middle of two numbers on, the larger is the nearer. -/
theorem abs_sub_le_abs_sub_iff {a b t : ℚ} (less : a < b) : |t - b| ≤ |t - a| ↔ a + b ≤ 2 * t := by
  rw [← sq_le_sq]
  constructor <;> intro <;> nlinarith

/-- Up to their middle, the smaller is. -/
theorem abs_sub_le_abs_sub_iff' {a b t : ℚ} (less : a < b) : |t - a| ≤ |t - b| ↔ 2 * t ≤ a + b := by
  rw [← sq_le_sq]
  constructor <;> intro <;> nlinarith

/-- The nearest magnitude grows with the number. If it fell, then both numbers would be the
middle of two even magnitudes, where one between the two is nearer. -/
theorem Nearest.mono {top m n : ℕ} {s t : ℚ} (first : Nearest top s m) (second : Nearest top t n)
    (order : s ≤ t) : m ≤ n := by
  by_contra! fall
  have lower := first.le n second.lt
  have upper := second.le m first.lt
  have middle := (abs_sub_le_abs_sub_iff (cast_unitsAt_lt fall)).1 lower
  have middle' := (abs_sub_le_abs_sub_iff' (cast_unitsAt_lt fall)).1 upper
  obtain rfl : s = t := by linarith
  have same := le_antisymm lower upper
  have larger := first.even n second.lt fall.ne same.symm
  have smaller := second.even m first.lt fall.ne' same
  have between : n + 1 < m := by omega
  have inside := first.le (n + 1) (between.trans first.lt)
  have farther := (abs_sub_le_abs_sub_iff (cast_unitsAt_lt between)).1 inside
  have step := cast_unitsAt_lt (Nat.lt_succ_self n)
  linarith

/-- The magnitude that a quotient of units is rounded to, however large. -/
def roundedMagnitude (numerator denominator : ℕ) : ℕ :=
  lastPlace (numerator / denominator) * Nat.pow 2 52 +
    roundQuotient numerator (denominator * Nat.pow 2 (lastPlace (numerator / denominator)))

/-- The place that is kept of a number leaves a significand of 53 bits. -/
theorem lastPlace_bounds (numerator : ℕ) {denominator : ℕ} (positive : 0 < denominator) :
    (numerator / denominator : ℚ) < 2 ^ 53 * 2 ^ lastPlace (numerator / denominator) ∧
      (lastPlace (numerator / denominator) = 0 ∨
        2 ^ 52 * 2 ^ lastPlace (numerator / denominator) ≤ (numerator / denominator : ℚ)) := by
  have size : (0 : ℚ) < denominator := by exact_mod_cast positive
  rw [div_lt_iff₀ size, le_div_iff₀ size, ← pow_add, ← pow_add]
  constructor
  · have bits : numerator / denominator < 2 ^ (53 + lastPlace (numerator / denominator)) := by
      apply Nat.lt_log2_self.trans_le
      apply Nat.pow_le_pow_right (by decide)
      rw [lastPlace]
      omega
    rw [Nat.div_lt_iff_lt_mul positive] at bits
    exact_mod_cast bits
  · by_cases zero : lastPlace (numerator / denominator) = 0
    · exact .inl zero
    · right
      have log : 52 + lastPlace (numerator / denominator) = (numerator / denominator).log2 := by
        rw [lastPlace] at zero ⊢
        omega
      have nonzero : numerator / denominator ≠ 0 := by
        intro none
        rw [none] at zero
        exact zero rfl
      have bits := Nat.log2_self_le nonzero
      rw [← log, Nat.le_div_iff_mul_le positive] at bits
      exact_mod_cast bits

/-- At any place, a magnitude stands for an integer or for less than a normal significand. -/
theorem unitsAt_at_place (place k : ℕ) :
    (∃ n, unitsAt k = n * 2 ^ place) ∨ (0 < place ∧ unitsAt k < 2 ^ 52 * 2 ^ place) := by
  obtain ⟨other, r, rfl, small, normal⟩ := exists_place k
  rw [unitsAt_add small.le normal]
  by_cases fine : other < place
  · right
    obtain ⟨more, rfl⟩ := Nat.exists_eq_add_of_lt fine
    refine ⟨by omega, ?_⟩
    calc r * 2 ^ other < 2 ^ 53 * 2 ^ other := Nat.mul_lt_mul_of_pos_right small (by positivity)
      _ ≤ 2 ^ 53 * 2 ^ (other + more) :=
        Nat.mul_le_mul_left _ (Nat.pow_le_pow_right (by decide) (Nat.le_add_right other more))
      _ = 2 ^ 52 * 2 ^ (other + more + 1) := by ring
  · left
    obtain ⟨more, rfl⟩ := Nat.exists_eq_add_of_le (Nat.not_lt.1 fine)
    exact ⟨r * 2 ^ more, by ring⟩

section Close

variable {s : ℚ} {r place : ℕ}

theorem abs_sub_place (s n : ℚ) (place : ℕ) :
    |s * 2 ^ place - n * 2 ^ place| = |s - n| * 2 ^ place := by
  have step : (0 : ℚ) < 2 ^ place := by positivity
  rw [← sub_mul, abs_mul, abs_of_pos step]

/-- Rounded to an integer at its place, a number is nearer to no magnitude, and as near only if
that stands for another integer there. -/
theorem le_abs_sub_unitsAt (close : |s - r| ≤ 1 / 2) (normal : place = 0 ∨ 2 ^ 52 ≤ s) (k : ℕ) :
    (∃ n, unitsAt k = n * 2 ^ place ∧ |s - r| ≤ |s - n|) ∨
      |s * 2 ^ place - r * 2 ^ place| < |s * 2 ^ place - unitsAt k| := by
  have step : (0 : ℚ) < 2 ^ place := by positivity
  have integer (n : ℕ) : |s - r| ≤ |s - n| := by
    by_cases same : n = r
    · rw [same]
    · exact close.trans (half_le_abs_sub close same)
  rcases unitsAt_at_place place k with ⟨n, units⟩ | ⟨fine, small⟩
  · exact .inl ⟨n, units, integer n⟩
  · right
    have large : 2 ^ 52 ≤ s := normal.resolve_left (by omega)
    have small : (unitsAt k : ℚ) < 2 ^ 52 * 2 ^ place := by exact_mod_cast small
    have least : (2 ^ 52 : ℚ) * 2 ^ place ≤ s * 2 ^ place := by gcongr
    have normal : |s - r| ≤ |s - 2 ^ 52| := by exact_mod_cast integer (2 ^ 52)
    rw [abs_sub_place, abs_of_pos (by linarith : 0 < s * 2 ^ place - unitsAt k)]
    calc |s - r| * 2 ^ place ≤ |s - 2 ^ 52| * 2 ^ place :=
        mul_le_mul_of_nonneg_right normal step.le
      _ = s * 2 ^ place - 2 ^ 52 * 2 ^ place := by
        rw [abs_of_nonneg (sub_nonneg.2 large), sub_mul]
      _ < s * 2 ^ place - unitsAt k := by linarith

theorem nearest_of_close (close : |s - r| ≤ 1 / 2) (tie : |s - r| = 1 / 2 → r % 2 = 0)
    (above : s < 2 ^ 53) (normal : place = 0 ∨ 2 ^ 52 ≤ s) {top : ℕ}
    (inside : place * 2 ^ 52 + r < top) : Nearest top (s * 2 ^ place) (place * 2 ^ 52 + r) := by
  have step : (0 : ℚ) < 2 ^ place := by positivity
  obtain ⟨lower, upper⟩ := abs_le.1 close
  have small : r ≤ 2 ^ 53 := by
    have less : (r : ℚ) < (2 ^ 53 + 1 : ℕ) := by
      push_cast
      linarith
    exact Nat.lt_succ_iff.1 (by exact_mod_cast less)
  have large : place = 0 ∨ 2 ^ 52 ≤ r := by
    refine normal.imp_right fun least => ?_
    have less : ((2 ^ 52 : ℕ) : ℚ) < (r + 1 : ℕ) := by
      push_cast
      linarith
    exact Nat.lt_succ_iff.1 (by exact_mod_cast less)
  have units := unitsAt_add small large
  have point : (unitsAt (place * 2 ^ 52 + r) : ℚ) = r * 2 ^ place := by exact_mod_cast units
  refine ⟨inside, ?_, ?_⟩
  · intro k _
    rw [point]
    rcases le_abs_sub_unitsAt close normal k with ⟨n, other, nearer⟩ | farther
    · have other : (unitsAt k : ℚ) = n * 2 ^ place := by exact_mod_cast other
      rw [other, abs_sub_place, abs_sub_place]
      gcongr
    · exact farther.le
  · intro k _ different same
    rw [point] at same
    rcases le_abs_sub_unitsAt close normal k with ⟨n, other, -⟩ | farther
    · have unequal : n ≠ r := by
        rintro rfl
        exact different (unitsAt_strictMono.injective (other.trans units.symm))
      have other : (unitsAt k : ℚ) = n * 2 ^ place := by exact_mod_cast other
      rw [other, abs_sub_place, abs_sub_place, mul_left_inj' step.ne'] at same
      have even := tie (le_antisymm close (same ▸ half_le_abs_sub close unequal))
      omega
    · exact absurd same farther.ne'

end Close

/-- Rounding a quotient takes the nearest of all magnitudes. -/
theorem nearest_roundedMagnitude (numerator : ℕ) {denominator top : ℕ} (positive : 0 < denominator)
    (inside : roundedMagnitude numerator denominator < top) :
    Nearest top (numerator / denominator) (roundedMagnitude numerator denominator) := by
  obtain ⟨above, normal⟩ := lastPlace_bounds numerator positive
  rw [roundedMagnitude, Nat.pow_eq, Nat.pow_eq] at inside ⊢
  generalize lastPlace (numerator / denominator) = place at *
  have step : (0 : ℚ) < 2 ^ place := by positivity
  obtain ⟨close, tie⟩ :=
    roundQuotient_close numerator (Nat.mul_pos positive (by positivity : 0 < 2 ^ place))
  generalize roundQuotient numerator (denominator * 2 ^ place) = r at *
  push_cast at close tie
  rw [← div_div] at close tie
  -- Counted in steps of the place, the quotient is rounded to an integer.
  have scaled : (numerator / denominator : ℚ) = numerator / denominator / 2 ^ place * 2 ^ place :=
    (div_mul_cancel₀ _ step.ne').symm
  rw [scaled]
  apply nearest_of_close close tie _ _ inside
  · rwa [div_lt_iff₀ step]
  · rwa [le_div_iff₀ step]

end Binary64
end ScriptLexer
