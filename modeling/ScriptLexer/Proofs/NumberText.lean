import ScriptLexer.Proofs.Findings
import ScriptLexer.Proofs.NumberTokens
import Mathlib.Data.Nat.Cast.Field

/-! Numbers read back. Every layout of a finite number is a decimal that rounds to it. So its
text is scanned as the number again, and its numeral in a document, read exactly and rounded, is
the number too. -/
namespace ScriptLexer

/-! ### Decimals that stand for a number -/

namespace Decimal

theorem trim_toRat (d : Decimal) : d.trim.toRat = d.toRat := by
  fun_induction trim d with
  | case1 d trailing ih =>
    have tenth : (d.digits : ℚ) = (d.digits / 10 : ℕ) * 10 := by
      exact_mod_cast (Nat.div_mul_cancel (Nat.dvd_of_mod_eq_zero trailing.2)).symm
    rw [ih, toRat, toRat, tenth, zpow_add_one₀ (by norm_num)]
    ring
  | case2 => rfl

/-- All digits of a count of units, from its last binary place on. -/
theorem toRat_fives (count place : ℕ) :
    (Decimal.mk (count * Nat.pow 5 place) (-place)).toRat = count / 2 ^ place := by
  have ten : (10 : ℚ) ^ place = 5 ^ place * 2 ^ place := by
    rw [← mul_pow]
    norm_num
  rw [toRat, Nat.pow_eq, Nat.cast_mul, Nat.cast_pow, Nat.cast_ofNat, zpow_neg, zpow_natCast, ten]
  field_simp

theorem exact_toRat (x : Binary64) : (exact x).toRat = x.units / Binary64.unitsInOne := by
  have last : (-1074 : ℤ) = -(1074 : ℕ) := rfl
  rw [exact, trim_toRat, Binary64.unitsInOne, last]
  generalize 1074 = place
  exact toRat_fives x.units place

/-- The digits of a whole number stop at the point. -/
theorem whole_toRat {x : Binary64} (whole : x.isIntegral = true) :
    (Decimal.mk (x.units / Nat.pow 2 1074) 0).toRat = x.units / Binary64.unitsInOne := by
  obtain ⟨units, power, one⟩ := Binary64.unitsInOne_eq
  have nonzero : (units : ℚ) ≠ 0 := one ▸ Binary64.unitsInOne_pos.ne'
  rw [Binary64.isIntegral, power, beq_iff_eq] at whole
  rw [power, one, toRat, zpow_zero, mul_one, Nat.cast_div (Nat.dvd_of_mod_eq_zero whole) nonzero]

/-- The shortest digits are rounded to the number without its sign. -/
theorem rounds_shortest (tie : Tie) {x : Binary64} (finite : x.isFinite = true) :
    Binary64.Rounds (shortest tie x).toRat x.abs := by
  have itself := Binary64.rounds_units finite
  by_cases zero : x.magnitude = 0
  · have none : x.units / Binary64.unitsInOne = (shortest tie x).toRat := by
      rw [Binary64.units_eq_unitsAt, zero, shortest, if_pos zero]
      simp [Binary64.unitsAt, toRat]
    rwa [none] at itself
  · rcases shortest_cases tie zero with ⟨exponent, d, found, trimmed⟩ | all
    · have magnitude := (onGrid?_reads found).trans x.magnitude_abs.symm
      have same := Binary64.eq_of_magnitude_eq d.rounds.nonnegative rfl magnitude
      rw [trimmed, trim_toRat, ← same]
      exact d.rounds
    · rwa [all, exact_toRat]

theorem mem_positional {d : Decimal} {c : Char} (member : c ∈ d.positional) :
    c.isDigit = true ∨ c = '.' := by
  have figure : c ∈ d.figures → c.isDigit = true := (Json.digits_figures d).digit c
  have zero {count : ℕ} : c ∈ List.replicate count '0' → c.isDigit = true :=
    Json.isDigit_of_mem_zeros
  unfold positional at member
  split at member
  · rcases List.mem_append.1 member with whole | point
    · exact .inl ((List.mem_append.1 whole).elim figure zero)
    · rcases List.mem_cons.1 point with rfl | last
      · exact .inr rfl
      · rw [List.mem_singleton.1 last]
        exact .inl rfl
  · have padded {places : ℕ} (inside : c ∈ List.replicate places '0' ++ d.figures) :
        c.isDigit = true := (List.mem_append.1 inside).elim zero figure
    rcases List.mem_append.1 member with whole | point
    · exact .inl (padded (List.mem_of_mem_take whole))
    · rcases List.mem_cons.1 point with rfl | fraction
      · exact .inr rfl
      · exact .inl (padded (List.mem_of_mem_drop fraction))

/-- The positional layout has no exponent, so it is a number lexeme too. -/
theorem denotes_positional {d : Decimal} (proper : d.digits = 0 → d.exponent = 0) :
    Numeral.Denotes d.positional d.toRat := by
  have unsigned := Json.unsigned_positional proper
  have marks (c : Char) (member : c ∈ d.positional) : c.isDigit = true ∨ c = '.' :=
    mem_positional member
  generalize d.positional = text at unsigned marks ⊢
  generalize d.toRat = q at unsigned ⊢
  cases unsigned with
  | mk digits unpadded fractional powered =>
    cases powered with
    | absent => simpa using Numeral.Denotes.mk digits fractional
    | @present mark sign run s known =>
      have written := marks mark (by simp)
      simp only [List.mem_cons, List.not_mem_nil, or_false] at known
      rcases known with rfl | rfl <;> contradiction

end Decimal

/-- The text of a finite number is its sign and a lexeme that rounds to what is left of it. -/
theorem exists_lexeme_text {x : Binary64} (finite : x.isFinite = true) :
    ∃ lexeme q, x.text = (if x.negative then "-" else "") ++ String.ofList lexeme ∧
      Numeral.Denotes lexeme q ∧ Binary64.Rounds q x.abs := by
  have sign (unsigned : String) : (if x.negative then "-" ++ unsigned else unsigned) =
      (if x.negative then "-" else "") ++ unsigned := by
    split
    · rfl
    · rw [String.empty_append]
  have small : x.magnitude < Binary64.infinite := of_decide_eq_true finite
  have number : ¬x.isNaN = true := by
    rw [Binary64.isNaN, decide_eq_true_iff]
    exact small.not_gt
  have bounded : ¬x.isInfinite = true := by
    rw [Binary64.isInfinite, beq_iff_eq]
    exact small.ne
  rw [Binary64.text, if_neg number, if_neg bounded]
  by_cases whole : x.isIntegral = true
  · rw [if_pos whole]
    refine ⟨_, _, sign _, Decimal.denotes_positional fun _ => rfl, ?_⟩
    rw [Decimal.whole_toRat whole]
    exact Binary64.rounds_units finite
  · rw [if_neg whole]
    exact ⟨_, _, sign _, Decimal.denotes_positional Decimal.shortest_exponent,
      Decimal.rounds_shortest .upper finite⟩

/-- A numeral is scanned as one token, and so is a minus sign in front of it. -/
theorem scan_signed_numeral {n : Numeral} (wellFormed : n.WellFormed) (negative : Bool) :
    scan ((if negative then "-" else "") ++ String.ofList n.text) =
      ⟨(if negative then [⟨.symbol .minus, "-", 1⟩] else []) ++
        [.number (String.ofList n.text) n.value.toBinary64 1, .endOfInput 1], []⟩ := by
  have shape : (Segment.number n).WellFormed := wellFormed
  have minus : (Segment.symbol .minus).WellFormed := trivial
  have alone : Segmentation (n.text ++ []) [.number n] := .cons shape (Segment.ends_nil _) .nil
  rw [List.append_nil] at alone
  have line : n.text.count '\n' = 0 := by
    rw [List.count_eq_zero]
    intro member
    rcases Numeral.mem_text wellFormed member with digit | point <;> contradiction
  cases negative with
  | false =>
    have cut : Segmentation (("" : String) ++ String.ofList n.text).toList [.number n] := by
      rwa [String.empty_append, String.toList_ofList]
    rw [if_neg Bool.false_ne_true, cut.scan_eq, String.empty_append, String.toList_ofList, line]
    rfl
  | true =>
    have ends : (Segment.symbol .minus).Ends n.text := ⟨by simp [Symbol.withEqual?], by simp⟩
    have spelled : ("-" ++ String.ofList n.text).toList =
        (Segment.symbol .minus).text ++ n.text := by
      simp [Segment.text, Symbol.spelling]
    have cut := spelled ▸ Segmentation.cons minus ends alone
    rw [if_pos rfl, cut.scan_eq, spelled, List.count_append, line]
    rfl

/-- The numeral in a document says the shortest digits and nothing else. -/
theorem number_toJson_iff {x : Binary64} (finite : x.isFinite = true)
    (nonnegative : x.negative = false) {level : ℕ} {r : ℚ} :
    Json.Number ((Literal.number x).toJson.print level) r ↔
      r = (Decimal.shortest .even x).toRat := by
  have numeral : (Literal.number x).toJson.print level = Json.numeral x := by
    rw [Literal.toJson, Json.ofNumber, if_pos finite, Json.print]
  have written := Json.number_numeral x
  rw [Binary64.printed, nonnegative, if_neg Bool.false_ne_true, one_mul] at written
  have ended : Json.Stops [] := by simp [Json.Stops]
  rw [numeral]
  constructor
  · intro other
    exact (other.unique written rfl ended ended).1
  · rintro rfl
    exact written

/-- The text of a finite number is scanned as that number, behind a minus token if its sign is
set, and its numeral in a document is that number too, read exactly and rounded. -/
theorem scan_number_text {x : Binary64} (finite : x.isFinite = true) :
    (∃ lexeme, (Literal.number x).text = (if x.negative then "-" else "") ++ lexeme ∧
      scan (Literal.number x).text =
        ⟨(if x.negative then [⟨.symbol .minus, "-", 1⟩] else []) ++
          [.number lexeme x.abs 1, .endOfInput 1], []⟩) ∧
    (x.negative = false → ∀ level, ∃ q,
      (∀ r, Json.Number ((Literal.number x).toJson.print level) r ↔ r = q) ∧
        Binary64.Rounds q x ∧ ∀ y, Binary64.Rounds q y → y = x) := by
  constructor
  · obtain ⟨lexeme, q, written, denotes, rounds⟩ := exists_lexeme_text finite
    obtain ⟨n, wellFormed, rfl, rfl⟩ := Numeral.denotes_iff.1 denotes
    have same : n.value.toBinary64 = x.abs := n.value.rounds.unique rounds
    have scanned := scan_signed_numeral wellFormed x.negative
    rw [← written, same] at scanned
    exact ⟨_, written, scanned⟩
  · intro nonnegative level
    have unsigned : x.abs = x := Binary64.eq_of_magnitude_eq rfl nonnegative rfl
    have rounds := Decimal.rounds_shortest .even finite
    rw [unsigned] at rounds
    exact ⟨_, fun r => number_toJson_iff finite nonnegative, rounds, fun y other =>
      other.unique rounds⟩

/-- The number nearest to zero of either sign, with more than three hundred places. -/
def Binary64.least (negative : Bool) : Binary64 := ⟨negative, 1, by decide⟩

theorem scan_number_text_least :
    (Binary64.least true).isFinite = true ∧ (Binary64.least false).isFinite = true ∧
      (∃ lexeme, (Literal.number (.least true)).text = "-" ++ lexeme ∧
        scan (Literal.number (.least true)).text =
          ⟨[⟨.symbol .minus, "-", 1⟩, .number lexeme (.least false) 1, .endOfInput 1], []⟩) ∧
      ∃ q, (∀ r, Json.Number ((Literal.number (.least false)).toJson.print 0) r ↔ r = q) ∧
        Binary64.Rounds q (.least false) ∧ ∀ y, Binary64.Rounds q y → y = .least false := by
  have below : (Binary64.least true).isFinite = true := by decide
  have above : (Binary64.least false).isFinite = true := by decide
  exact ⟨below, above, (scan_number_text below).1, (scan_number_text above).2 rfl 0⟩

end ScriptLexer
