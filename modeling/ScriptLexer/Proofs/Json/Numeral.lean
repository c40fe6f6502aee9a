import ScriptLexer.Json
import ScriptLexer.Proofs.Json.Number
import ScriptLexer.Proofs.Shortest
import Mathlib.Tactic.FieldSimp
import Mathlib.Tactic.Ring

/-! Written numbers. Both layouts of a decimal are numbers of JSON texts, and what
they say is the decimal, exactly. -/
namespace ScriptLexer
namespace Json

theorem digits_toDigits (n : Nat) : Digits (Nat.toDigits 10 n) where
  ne_nil := Nat.toDigits_ne_nil
  digit _ member := Nat.isDigit_of_mem_toDigits (by decide) (by decide) member

theorem Digits.append {run : List Char} (digits : Digits run) {more : List Char}
    (digit : ∀ c ∈ more, c.isDigit = true) : Digits (run ++ more) where
  ne_nil := by simp [digits.ne_nil]
  digit c member := (List.mem_append.1 member).elim (digits.digit c) (digit c)

theorem Digits.part {run : List Char} (digits : Digits run) {part : List Char} (nonempty : part ≠ [])
    (inside : part ⊆ run) : Digits part where
  ne_nil := nonempty
  digit c member := digits.digit c (inside member)

theorem isDigit_of_mem_zeros {count : Nat} {c : Char} (member : c ∈ List.replicate count '0') :
    c.isDigit = true := by
  rw [List.eq_of_mem_replicate member]
  rfl

/-- The written digits of a positive number start with no zero. -/
theorem head?_toDigits {n : Nat} (positive : 0 < n) : (Nat.toDigits 10 n).head? ≠ some '0' := by
  induction n using Nat.base_induction 10 (by decide) with
  | single m small =>
    rw [Nat.toDigits_of_lt_base small]
    simp
    omega
  | digit m k small nonzero ih =>
    rw [← Nat.toDigits_append_toDigits (by decide) nonzero small, List.head?_append_of_ne_nil]
    · exact ih nonzero
    · exact Nat.toDigits_ne_nil

theorem ofDigitChars_append_zero (a b : List Char) :
    Nat.ofDigitChars 10 (a ++ b) 0 =
      Nat.ofDigitChars 10 a 0 * 10 ^ b.length + Nat.ofDigitChars 10 b 0 := by
  rw [Nat.ofDigitChars_append, Nat.ofDigitChars_eq_ofDigitChars_zero, Nat.mul_comm]

/-- Digits before and behind a point are all digits in turn, moved to their place. -/
theorem ofDigitChars_point (whole run : List Char) (p : ℤ) :
    (Nat.ofDigitChars 10 whole 0 + Nat.ofDigitChars 10 run 0 / 10 ^ run.length : ℚ) * 10 ^ p =
      Nat.ofDigitChars 10 (whole ++ run) 0 * 10 ^ (p - run.length) := by
  rw [ofDigitChars_append_zero, zpow_sub₀ (by norm_num), zpow_natCast]
  push_cast
  field_simp

theorem unsigned_of_point {whole run power : List Char} {p : ℤ} (digits : Digits whole)
    (unpadded : whole = ['0'] ∨ whole.head? ≠ some '0') (others : Digits run)
    (powered : Power power p) :
    Unsigned (whole ++ '.' :: (run ++ power))
      (Nat.ofDigitChars 10 (whole ++ run) 0 * 10 ^ (p - run.length)) :=
  ofDigitChars_point whole run p ▸ .mk digits unpadded (.present others) powered

theorem unpadded_toDigits (n : Nat) :
    Nat.toDigits 10 n = ['0'] ∨ (Nat.toDigits 10 n).head? ≠ some '0' := by
  rcases Nat.eq_zero_or_pos n with rfl | positive
  · exact .inl (Nat.toDigits_zero 10)
  · exact .inr (head?_toDigits positive)

theorem unsigned_toDigits (n : Nat) : Unsigned (Nat.toDigits 10 n) n := by
  have number := Unsigned.mk (digits_toDigits n) (unpadded_toDigits n) .absent .absent
  simpa using number

section Positional

variable {figures : List Char} (digits : Digits figures)

include digits

/-- Zeros behind the digits multiply the number. -/
theorem unsigned_zeros (count : Nat)
    (unpadded : figures ++ List.replicate count '0' = ['0'] ∨ figures.head? ≠ some '0') :
    Unsigned (figures ++ List.replicate count '0' ++ ['.', '0'])
      (Nat.ofDigitChars 10 figures 0 * 10 ^ (count : ℤ)) := by
  have whole : Digits (figures ++ List.replicate count '0') :=
    digits.append fun _ => isDigit_of_mem_zeros
  have fraction : Digits ['0'] := ⟨by simp, by simp⟩
  have start : (figures ++ List.replicate count '0').head? = figures.head? :=
    List.head?_append_of_ne_nil _ digits.ne_nil
  rw [← start] at unpadded
  have number := unsigned_of_point whole unpadded fraction .absent
  have zero : Nat.ofDigitChars 10 ['0'] 0 = 0 := rfl
  have value : (Nat.ofDigitChars 10 (figures ++ List.replicate count '0' ++ ['0']) 0 : ℚ) *
      10 ^ ((0 : ℤ) - 1) = Nat.ofDigitChars 10 figures 0 * 10 ^ (count : ℤ) := by
    rw [ofDigitChars_append_zero, Nat.ofDigitChars_append, Nat.ofDigitChars_replicate_zero,
      zero]
    simp
    ring
  exact value ▸ number

/-- A point between two of the digits. -/
theorem unsigned_split {place : Nat} (positive : 0 < place) (inner : place < figures.length)
    (unpadded : figures.take place = ['0'] ∨ figures.head? ≠ some '0') :
    Unsigned (figures.take place ++ '.' :: figures.drop place)
      (Nat.ofDigitChars 10 figures 0 * 10 ^ (place - figures.length : ℤ)) := by
  have whole : Digits (figures.take place) := by
    apply digits.part
    · simp [digits.ne_nil, Nat.ne_of_gt positive]
    · exact List.take_subset place figures
  have run : Digits (figures.drop place) := by
    apply digits.part
    · simp [inner]
    · exact List.drop_subset place figures
  have start : (figures.take place).head? = figures.head? := by
    rw [List.head?_take, if_neg (Nat.ne_of_gt positive)]
  have number := unsigned_of_point whole (start ▸ unpadded) run .absent
  have moved : (0 : ℤ) - (figures.drop place).length = place - figures.length := by
    rw [List.length_drop]
    omega
  rwa [List.append_nil, List.take_append_drop, moved] at number

end Positional

/-- Digits behind enough zeros for a whole part and some places. -/
theorem unsigned_padded {figures : List Char} (digits : Digits figures)
    (start : figures.head? ≠ some '0') {places : Nat} (fractional : 0 < places) {padded : List Char}
    (same : padded = List.replicate (places + 1 - figures.length) '0' ++ figures) :
    Unsigned
      (padded.take (padded.length - places) ++ '.' :: padded.drop (padded.length - places))
      (Nat.ofDigitChars 10 figures 0 * 10 ^ (-places : ℤ)) := by
  have length : padded.length = places + 1 - figures.length + figures.length := by simp [same]
  have value : Nat.ofDigitChars 10 padded 0 = Nat.ofDigitChars 10 figures 0 := by
    simp [same, Nat.ofDigitChars_append]
  have inside : Digits padded := by
    constructor
    · simp [same, digits.ne_nil]
    · intro c member
      rw [same] at member
      exact (List.mem_append.1 member).elim isDigit_of_mem_zeros (digits.digit c)
  have unpadded : padded.take (padded.length - places) = ['0'] ∨ padded.head? ≠ some '0' := by
    by_cases short : figures.length ≤ places
    · left
      obtain ⟨zeros, count⟩ : ∃ zeros, places + 1 - figures.length = zeros + 1 :=
        ⟨places - figures.length, by omega⟩
      have one : padded.length - places = 1 := by omega
      rw [one, same, count, List.replicate_succ]
      rfl
    · right
      have none : places + 1 - figures.length = 0 := by omega
      rwa [same, none, List.replicate_zero, List.nil_append]
  have number := unsigned_split inside (by omega) (by omega) unpadded
  have moved : ((padded.length - places : ℕ) : ℤ) - padded.length = -places := by omega
  rwa [value, moved] at number

theorem digits_figures (d : Decimal) : Digits d.figures := digits_toDigits d.digits

theorem ofDigitChars_figures (d : Decimal) : Nat.ofDigitChars 10 d.figures 0 = d.digits :=
  Nat.ofDigitChars_ten_toDigits

/-- The positional layout of a decimal is that decimal, a zero having no places to skip. -/
theorem unsigned_positional {d : Decimal} (proper : d.digits = 0 → d.exponent = 0) :
    Unsigned d.positional d.toRat := by
  have figures := digits_figures d
  unfold Decimal.positional
  split
  · rename_i whole
    have unpadded : d.figures ++ List.replicate d.exponent.toNat '0' = ['0'] ∨
        d.figures.head? ≠ some '0' := by
      rcases Nat.eq_zero_or_pos d.digits with none | positive
      · left
        simp [proper none, Decimal.figures, none]
      · exact .inr (head?_toDigits positive)
    have number := unsigned_zeros figures d.exponent.toNat unpadded
    rwa [ofDigitChars_figures, Int.toNat_of_nonneg whole] at number
  · rename_i fractional
    have positive : 0 < d.digits := by
      rcases Nat.eq_zero_or_pos d.digits with none | positive
      · exact absurd (Int.le_of_eq (proper none).symm) fractional
      · exact positive
    have places : 0 < (-d.exponent).toNat := by omega
    have number := unsigned_padded figures (head?_toDigits positive) places rfl
    have moved : -((-d.exponent).toNat : ℤ) = d.exponent := by omega
    rwa [ofDigitChars_figures, moved] at number

/-- A power of ten as it is written behind a number, its sign always shown. -/
theorem power_toDigits (p : ℤ) :
    Power ('e' :: (if p < 0 then '-' else '+') :: Nat.toDigits 10 p.natAbs) p := by
  have known : 'e' ∈ ['e', 'E'] := List.mem_cons_self
  obtain ⟨s, signed, value⟩ : ∃ s, Sign [if p < 0 then '-' else '+'] s ∧ s * p.natAbs = p := by
    split
    · exact ⟨-1, .minus, by omega⟩
    · exact ⟨1, .plus, by omega⟩
  have power := Power.present known signed (digits_toDigits p.natAbs)
  rwa [Nat.ofDigitChars_ten_toDigits, value] at power

/-- The layout with a power of ten is that decimal too. -/
theorem unsigned_scientific (d : Decimal) : Unsigned d.scientific d.toRat := by
  have figures := digits_figures d
  have value := ofDigitChars_figures d
  have powered := power_toDigits d.leading
  obtain ⟨c, fraction, split⟩ := List.exists_cons_of_ne_nil figures.ne_nil
  have leading : d.leading = d.exponent + fraction.length := by
    simp [Decimal.leading, split]
  rw [split] at figures value
  have whole : Digits [c] := by
    apply figures.part
    · simp
    · simp
  have unpadded : [c] = ['0'] ∨ [c].head? ≠ some '0' := by
    by_cases zero : c = '0'
    · exact .inl (by rw [zero])
    · exact .inr (by simpa using zero)
  by_cases one : fraction = []
  · have number := Unsigned.mk whole unpadded .absent powered
    subst one
    rw [value, leading] at number
    simpa [Decimal.scientific, split, leading, Decimal.toRat] using number
  · have others : Digits fraction := figures.part one (List.subset_cons_self c fraction)
    have number := unsigned_of_point whole unpadded others powered
    rw [List.singleton_append, List.singleton_append, value, leading, Int.add_sub_cancel] at number
    simpa [Decimal.scientific, split, one, leading, Decimal.toRat] using number

end Json

/-- The number that a written magnitude is, behind the sign of the value. -/
def Binary64.printed (x : Binary64) : ℚ :=
  (if x.negative then -1 else 1) * (Decimal.shortest .even x).toRat

theorem Json.number_numeral (x : Binary64) : Number (numeral x) x.printed := by
  have proper : (Decimal.shortest .even x).digits = 0 → (Decimal.shortest .even x).exponent = 0 :=
    Decimal.shortest_exponent
  rw [numeral, Binary64.printed]
  generalize Decimal.shortest .even x = d at proper ⊢
  have unsigned : Unsigned (if -5 ≤ d.leading ∧ d.leading ≤ 15 then d.positional else d.scientific)
      d.toRat := by
    split
    · exact unsigned_positional proper
    · exact unsigned_scientific d
  generalize (if -5 ≤ d.leading ∧ d.leading ≤ 15 then d.positional else d.scientific) = text
    at unsigned ⊢
  cases x.negative with
  | false => simpa using Number.positive unsigned
  | true => simpa using Number.negative unsigned

end ScriptLexer
