import ScriptLexer.Proofs.Binary64.Rounds
import ScriptLexer.Proofs.Listings

/-! What number tokens are worth. A lexeme denotes a rational, and the literal of its token is
that rational correctly rounded. -/
namespace ScriptLexer
namespace Numeral

/-- A number lexeme with what it denotes: digits, and possibly a point and more digits. -/
inductive Denotes : List Char → ℚ → Prop
  | mk {whole fraction : List Char} {f : ℚ} (digits : Json.Digits whole)
      (fractional : Json.Fraction fraction f) :
      Denotes (whole ++ fraction) (Nat.ofDigitChars 10 whole 0 + f)

theorem Denotes.nonneg {text : List Char} {q : ℚ} (denotes : Denotes text q) : 0 ≤ q := by
  cases denotes with
  | mk digits fractional =>
    cases fractional with
    | absent => positivity
    | present => positivity

theorem Denotes.unique {text : List Char} {q r : ℚ} (first : Denotes text q)
    (second : Denotes text r) : q = r := by
  have ended : ∀ c ∈ ([] : List Char).head?, c.isDigit = false ∧ c ≠ '.' := by simp
  have noDigit {fraction : List Char} {f : ℚ} (fractional : Json.Fraction fraction f) :
      ∀ c ∈ fraction.head?, c.isDigit = false := by
    simpa using fractional.head_append fun c found => (ended c found).1
  generalize written : text = other at second
  cases first with
  | mk digits fractional =>
    cases second with
    | mk digits' fractional' =>
      obtain ⟨rfl, rfl⟩ := runs_unique digits.digit digits'.digit written (noDigit fractional)
        (noDigit fractional')
      obtain ⟨rfl, -⟩ := fractional.unique fractional' rfl ended ended
      rfl

/-- Number lexemes are the texts of numerals, and these have the denoted values. -/
theorem denotes_iff {text : List Char} {q : ℚ} :
    Denotes text q ↔ ∃ n : Numeral, n.WellFormed ∧ n.text = text ∧ n.value.toRat = q := by
  have present (whole run : List Char) :
      (Nat.ofDigitChars 10 whole 0 + Nat.ofDigitChars 10 run 0 / 10 ^ run.length : ℚ) =
        (value ⟨whole, run⟩).toRat := by
    have moved := Json.ofDigitChars_point whole run 0
    rwa [zpow_zero, mul_one, zero_sub] at moved
  have absent (whole : List Char) :
      (Nat.ofDigitChars 10 whole 0 + 0 : ℚ) = (value ⟨whole, []⟩).toRat := by
    simp [value, Decimal.toRat]
  constructor
  · intro denotes
    cases denotes with
    | @mk whole fraction f digits fractional =>
      cases fractional with
      | absent =>
        refine ⟨⟨whole, []⟩, ⟨digits.ne_nil, digits.digit, by simp⟩, ?_, (absent whole).symm⟩
        simp [text]
      | @present run others =>
        refine ⟨⟨whole, run⟩, ⟨digits.ne_nil, digits.digit, others.digit⟩, ?_,
          (present whole run).symm⟩
        simp [Numeral.text, others.ne_nil]
  · rintro ⟨⟨whole, run⟩, wellFormed, rfl, rfl⟩
    have digits : Json.Digits whole := ⟨wellFormed.whole_ne_nil, wellFormed.whole_digits⟩
    by_cases none : run = []
    · subst none
      have denotes := Denotes.mk digits .absent
      rwa [List.append_nil, absent whole] at denotes
    · have others : Json.Digits run := ⟨none, wellFormed.fraction_digits⟩
      have denotes := Denotes.mk digits (.present others)
      rw [present whole run] at denotes
      simpa [Numeral.text, none] using denotes

end Numeral

namespace Token

/-- A number token with what its lexeme denotes and the value of its literal. -/
structure Numeric (t : Token) (q : ℚ) (x : Binary64) : Prop where
  kind : t.kind = .number
  denotes : Numeral.Denotes t.lexeme.toList q
  literal : t.literal? = some (.number x)

/-- The literal of a found number token is its lexeme, correctly rounded. -/
theorem Found.numeric {t : Token} (found : t.Found) (number : t.kind = .number) :
    ∃ q x, t.Numeric q x ∧ Binary64.Rounds q x := by
  cases found with
  | lexeme lexeme =>
    cases lexeme with
    | number wellFormed =>
      have denotes := Numeral.denotes_iff.2 ⟨_, wellFormed, rfl, rfl⟩
      exact ⟨_, _, ⟨rfl, by rwa [String.toList_ofList], rfl⟩, Decimal.rounds _⟩
    | symbol | keyword | identifier | string => contradiction
  | endOfInput => contradiction

theorem Found.rounds {t : Token} {q : ℚ} {x : Binary64} (found : t.Found) (numeric : t.Numeric q x) :
    Binary64.Rounds q x := by
  obtain ⟨r, y, again, rounds⟩ := found.numeric numeric.kind
  obtain rfl := again.denotes.unique numeric.denotes
  have same := again.literal.symm.trans numeric.literal
  simp only [Option.some.injEq, Literal.number.injEq] at same
  exact same ▸ rounds

theorem kind_of_literal?_number {t : Token} {x : Binary64} (value : t.literal? = some (.number x)) :
    t.kind = .number := by
  obtain ⟨meaning, lexeme, line⟩ := t
  cases meaning with
  | literal literal =>
    obtain rfl : literal = .number x := Option.some.inj value
    rfl
  | symbol | identifier | keyword | endOfInput => contradiction

/-- A found token equals itself, since its literal is no NaN. -/
theorem Found.beq_self {t : Token} (found : t.Found) : (t == t) = true := by
  have literal : (t.literal? == t.literal?) = true := by
    cases value : t.literal? with
    | none => rfl
    | some literal =>
      cases literal with
      | string text => exact beq_self_eq_true text
      | number x =>
        obtain ⟨q, y, numeric, rounds⟩ := found.numeric (kind_of_literal?_number value)
        obtain rfl : y = x := by simpa [value] using numeric.literal.symm
        exact y.beq_self_iff.2 rounds.isNaN_eq_false
  have meaning : (t.meaning == t.meaning) = true := by
    change (t.kind == t.kind && t.literal? == t.literal?) = true
    rw [literal, beq_self_eq_true, Bool.true_and]
  change (t.meaning == t.meaning && t.lexeme == t.lexeme && t.line == t.line) = true
  rw [meaning, beq_self_eq_true, beq_self_eq_true, Bool.true_and, Bool.true_and]

end Token

theorem list_beq_self {α : Type*} [BEq α] {l : List α} (each : ∀ a ∈ l, (a == a) = true) :
    (l == l) = true := by
  induction l with
  | nil => rfl
  | cons a l ih => simp_all

/-- The literal of a number token is its lexeme, correctly rounded. So lexemes that denote one
number have one literal, literals keep the order of what is denoted, and none is a NaN, which
would make a scan differ from itself. -/
theorem scan_numbers_rounded :
    (∀ source, ∀ t ∈ (scan source).tokens, t.kind = .number →
      ∃ q x, t.Numeric q x ∧ 0 ≤ q ∧ Binary64.Rounds q x ∧ ∀ y, Binary64.Rounds q y → y = x) ∧
    (∀ source other, ∀ t ∈ (scan source).tokens, ∀ u ∈ (scan other).tokens, ∀ q r x y,
      t.Numeric q x → u.Numeric r y → (q = r → x = y) ∧ (q ≤ r → x.value ≤ y.value)) ∧
    ∀ source, (scan source == scan source) = true := by
  refine ⟨?_, ?_, ?_⟩
  · intro source t member number
    obtain ⟨q, x, numeric, rounds⟩ := (found_of_mem_scan member).numeric number
    exact ⟨q, x, numeric, numeric.denotes.nonneg, rounds, fun y other => other.unique rounds⟩
  · intro source other t member u member' q r x y first second
    have rounds := (found_of_mem_scan member).rounds first
    have rounds' := (found_of_mem_scan member').rounds second
    constructor
    · rintro rfl
      exact rounds.unique rounds'
    · exact rounds.value_le rounds'
  · intro source
    have tokens : ((scan source).tokens == (scan source).tokens) = true :=
      list_beq_self fun t member => (found_of_mem_scan member).beq_self
    change ((scan source).tokens == (scan source).tokens &&
      (scan source).faults == (scan source).faults) = true
    rw [tokens, beq_self_eq_true, Bool.true_and]

end ScriptLexer
