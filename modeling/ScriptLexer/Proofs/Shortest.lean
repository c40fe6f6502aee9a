import ScriptLexer.Decimal
import Mathlib.Algebra.Field.Rat

/-! The shortest decimals, and what they are as numbers. -/
namespace ScriptLexer

/-- The number that a decimal is. -/
def Decimal.toRat (d : Decimal) : ℚ := d.digits * 10 ^ d.exponent

namespace Decimal

theorem toBinary64_of_digits_zero {d : Decimal} (zero : d.digits = 0) :
    d.toBinary64.magnitude = 0 := by
  have round (denominator : Nat) : roundQuotient 0 denominator = 0 := by
    rw [roundQuotient, Nat.zero_mod, Nat.zero_div]
    rcases Nat.eq_zero_or_pos denominator with rfl | positive
    · rfl
    · rw [Nat.mul_zero, Nat.compare_eq_lt.2 positive]
  have nearest (denominator : Nat) : (Binary64.nearest 0 denominator).magnitude = 0 := by
    rw [Binary64.nearest]
    simp only [Nat.zero_mul, Nat.zero_div]
    rw [round]
    rfl
  rw [toBinary64, zero]
  split
  · rw [Nat.zero_mul]
    exact nearest _
  · exact nearest _

/-- What is found on a grid rounds to the number that it was looked for. -/
theorem onGrid?_reads {tie : Tie} {x : Binary64} {exponent : ℤ} {d : Decimal}
    (found : onGrid? tie x exponent = some d) : d.toBinary64.magnitude = x.magnitude := by
  have lower_or_upper (numerator denominator floor : Nat) :
      nearer tie numerator denominator floor = floor ∨
        nearer tie numerator denominator floor = floor + 1 := by
    unfold nearer
    split
    · exact .inl rfl
    · exact .inr rfl
    · cases tie
      · exact .inr rfl
      · dsimp only
        omega
  rw [onGrid?] at found
  dsimp only at found
  split at found
  · rename_i lower upper
    obtain rfl := Option.some.inj found
    rcases lower_or_upper _ _ _ with same | same
    · rw [same]
      exact eq_of_beq lower
    · rw [same]
      exact eq_of_beq upper
  · rename_i lower upper
    obtain rfl := Option.some.inj found
    exact eq_of_beq lower
  · rename_i lower upper
    obtain rfl := Option.some.inj found
    exact eq_of_beq upper
  · contradiction

theorem trim_digits_eq_zero {d : Decimal} (zero : d.trim.digits = 0) : d.digits = 0 := by
  fun_induction trim d with
  | case1 d trailing ih =>
    have tenth : d.digits / 10 = 0 := ih zero
    omega
  | case2 => exact zero

theorem trim_mul_digits {a b : Nat} {exponent : ℤ} (first : 0 < a) (second : 0 < b) :
    (trim ⟨a * b, exponent⟩).digits ≠ 0 := by
  intro zero
  have product : a * b = 0 := trim_digits_eq_zero zero
  exact absurd product (Nat.ne_of_gt (Nat.mul_pos first second))

theorem units_pos {x : Binary64} (nonzero : x.magnitude ≠ 0) : 0 < x.units := by
  have power (n : Nat) : 0 < Nat.pow 2 n := Nat.pow_pos (by decide)
  rw [Binary64.units]
  split
  · exact Nat.pos_of_ne_zero nonzero
  · exact Nat.mul_pos (Nat.add_pos_left (power 52) _) (power _)

theorem exact_digits {x : Binary64} (nonzero : x.magnitude ≠ 0) : (exact x).digits ≠ 0 := by
  have power (n : Nat) : 0 < Nat.pow 5 n := Nat.pow_pos (by decide)
  unfold exact
  generalize (1074 : Nat) = place
  exact trim_mul_digits (units_pos nonzero) (power place)

/-- The shortest digits are a point of a grid that rounds to the value, or all its digits. -/
theorem shortest_cases (tie : Tie) {x : Binary64} (nonzero : x.magnitude ≠ 0) :
    (∃ exponent d, onGrid? tie x exponent = some d ∧ shortest tie x = d.trim) ∨
      shortest tie x = exact x := by
  simp only [shortest, if_neg nonzero]
  cases grids : (List.range 17).findSome? fun n => onGrid? tie x (scale x - (n + 1 : Nat)) with
  | none => simp
  | some d =>
    obtain ⟨n, -, found⟩ := List.exists_of_findSome?_eq_some grids
    exact .inl ⟨_, d, found, rfl⟩

/-- Only zero is written with the digit zero, and it is written without an exponent. -/
theorem shortest_exponent {tie : Tie} {x : Binary64} (zero : (shortest tie x).digits = 0) :
    (shortest tie x).exponent = 0 := by
  by_cases nonzero : x.magnitude = 0
  · simp [shortest, nonzero]
  · rcases shortest_cases tie nonzero with ⟨exponent, d, found, trimmed⟩ | all
    · rw [trimmed] at zero
      have reads := onGrid?_reads found
      rw [toBinary64_of_digits_zero (trim_digits_eq_zero zero)] at reads
      exact absurd reads.symm nonzero
    · rw [all] at zero
      exact absurd zero (exact_digits nonzero)

end Decimal

end ScriptLexer
