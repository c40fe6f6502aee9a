import ScriptLexer.Proofs.Cursor.Bounds
import ScriptLexer.Proofs.Segmentation

/-! What a cursor takes. The text behind the start of a segment tells where the cursor is
and what it sees, so each action is said by that text and the one that is left. -/
namespace ScriptLexer
namespace Cursor

/-- The point behind a text with which a segment starts. -/
def taken (p : Cursor) (phase : Phase) (text : List Char) : Cursor :=
  { p with
    phase := phase
    start := p.current
    current := p.current + text.length
    startLine := p.line
    line := p.line + text.count '\n' }

@[simp] theorem taken_phase (p : Cursor) (phase : Phase) (text : List Char) :
    (p.taken phase text).phase = phase := rfl

/-! ### First characters -/

section Choice

variable {source : List Char} {p : Cursor} {c : Char}

theorem choose_blank (blank : c.isWhitespace = true) (fits : p.line + 1 < UInt64.size) :
    p.choose source c = .ok { p with phase := .head, line := p.line + [c].count '\n' } := by
  by_cases same : c = '\n'
  · rw [choose, if_pos same, newLine_eq fits, same]
    rfl
  · rw [choose, if_neg same, if_pos blank, List.count_singleton, if_neg (by simpa using same)]
    rfl

theorem ne_line_feed {c : Char} (notBlank : c.isWhitespace = false) : c ≠ '\n' := by
  rintro rfl
  contradiction

theorem class_of_isWordPart {c : Char} (part : isWordPart c = true) :
    c.isWhitespace = false ∧ c ≠ '"' := by
  constructor
  · by_contra blank
    simp [isWordPart_of_isWhitespace (Bool.of_not_eq_false blank)] at part
  · rintro rfl
    contradiction

theorem choose_digit (digit : c.isDigit = true) : p.choose source c = .ok (p.goto .whole) := by
  obtain ⟨notBlank, notQuote⟩ := class_of_isWordPart (isWordPart_of_isDigit digit)
  simp [choose, ne_line_feed notBlank, notBlank, notQuote, digit]

theorem choose_word (start : isWordStart c = true) : p.choose source c = .ok (p.goto .word) := by
  obtain ⟨notBlank, notQuote⟩ := class_of_isWordPart (isWordPart_of_isWordStart start)
  have notDigit : c.isDigit = false := by
    by_contra digit
    simp [isWordStart_of_isDigit (Bool.of_not_eq_false digit)] at start
  simp [choose, ne_line_feed notBlank, notBlank, notQuote, notDigit, start]

theorem choose_symbol {s : Symbol} (found : Symbol.ofChar? c = some s) :
    p.choose source c = p.extend source s := by
  obtain ⟨notBlank, notQuote, notPart⟩ := Symbol.ofChar?_class found
  rw [isWordPart, Bool.or_eq_false_iff] at notPart
  simp [choose, ne_line_feed notBlank, notBlank, notQuote, notPart, found]

theorem choose_stray (stray : isStray c = true) :
    p.choose source c = .ok (p.blame (.unexpectedCharacter c)) := by
  simp only [isStray, isWordPart, Bool.and_eq_true, Bool.not_eq_true', Bool.or_eq_false_iff,
    bne_iff_ne, Option.isNone_iff_eq_none] at stray
  obtain ⟨⟨⟨notBlank, notQuote⟩, notStart, notDigit⟩, notSymbol⟩ := stray
  simp [choose, ne_line_feed notBlank, notBlank, notQuote, notStart, notDigit, notSymbol]

end Choice

section Taken

variable {source text rest : List Char} {p q : Cursor} {phase : Phase}

theorem peek_taken (left : source.drop p.current = text ++ rest) :
    source[(p.taken phase text).current]? = rest.head? := by
  rw [← List.head?_drop, taken, ← List.drop_drop, left, List.drop_left]

theorem peek_next_taken {c : Char} (left : source.drop p.current = text ++ c :: rest) :
    source[(p.taken phase text).current + 1]? = rest.head? := by
  rw [← List.head?_drop, ← List.tail_drop, taken, ← List.drop_drop, left, List.drop_left,
    List.tail_cons]

theorem le_length_of_drop (nonempty : text ≠ []) (left : source.drop p.current = text ++ rest) :
    p.current + text.length ≤ source.length := by
  have lengths := congrArg List.length left
  have positive := List.length_pos_iff.2 nonempty
  rw [List.length_drop, List.length_append] at lengths
  omega

theorem lt_length_of_drop {c : Char} (left : source.drop p.current = text ++ c :: rest) :
    p.current + text.length < source.length := by
  have lengths := congrArg List.length left
  rw [List.length_drop, List.length_append, List.length_cons] at lengths
  omega

theorem lexeme_taken (nonempty : text ≠ []) (left : source.drop p.current = text ++ rest) :
    (p.taken phase text).lexeme source = .ok (String.ofList text) := by
  have positive := List.length_pos_iff.2 nonempty
  rw [lexeme_eq (Nat.lt_add_of_pos_right positive) (le_length_of_drop nonempty left),
    List.extract_eq_take_drop]
  simp only [taken, left, Nat.add_sub_cancel_left, List.take_left]

variable (short : source.length + 1 < UInt64.size)

include short

theorem fits_taken {c : Char} (left : source.drop p.current = text ++ c :: rest) :
    (p.taken phase text).current + 1 < UInt64.size := by
  have bound := lt_length_of_drop left
  simp only [taken]
  omega

theorem body_taken {c d : Char} {inner : List Char}
    (left : source.drop p.current = c :: (inner ++ [d]) ++ rest) :
    (p.taken phase (c :: (inner ++ [d]))).body source = .ok (String.ofList inner) := by
  have bound := le_length_of_drop (List.cons_ne_nil _ _) left
  have tail : source.drop (p.current + 1) = inner ++ ([d] ++ rest) := by
    rw [← List.tail_drop, left, List.cons_append, List.tail_cons, List.append_assoc]
  have lengths : (c :: (inner ++ [d])).length = inner.length + 2 := by simp
  have between : p.current + (inner.length + 2) - 1 - (p.current + 1) = inner.length := by omega
  rw [lengths] at bound
  rw [body_eq, List.extract_eq_take_drop]
  all_goals simp only [taken, lengths]
  · rw [between, tail, List.take_left]
  all_goals omega

theorem advance_taken {c : Char} (other : c ≠ '\n')
    (left : source.drop p.current = text ++ c :: rest) (next : Char → Phase) :
    (p.taken phase text).advance source next = .ok (p.taken (next c) (text ++ [c])) := by
  rw [advance_eq (fits_taken short left) (peek_taken left)]
  simp [taken, other, Nat.add_assoc]

theorem accept_expected {expected : Char} (other : expected ≠ '\n')
    (left : source.drop p.current = text ++ expected :: rest) (yes no : Phase) :
    (p.taken phase text).accept source expected yes no =
      .ok (p.taken yes (text ++ [expected])) := by
  rw [accept, peek_taken left, List.head?_cons, if_pos rfl]
  exact advance_taken short other left fun _ => yes

omit short in
theorem accept_other {expected : Char} (left : source.drop p.current = text ++ rest)
    (different : rest.head? ≠ some expected) (yes no : Phase) :
    (p.taken phase text).accept source expected yes no = .ok (p.taken no text) := by
  rw [accept, peek_taken left, if_neg different]
  rfl

theorem point_fraction {d : Char} (digit : d.isDigit = true)
    (left : source.drop p.current = text ++ '.' :: d :: rest) :
    (p.taken phase text).point source = .ok (p.taken .fraction (text ++ ['.'])) := by
  rw [point, peek_taken left, List.head?_cons, if_pos rfl, increment_eq (fits_taken short left)]
  change ite _ _ _ = _
  rw [peek_next_taken left, List.head?_cons, Option.any_some, if_pos digit]
  exact advance_taken short (by decide) left fun _ => .fraction

theorem point_other (left : source.drop p.current = text ++ rest)
    (noFraction : ∀ c tail, rest = '.' :: c :: tail → c.isDigit = false) :
    (p.taken phase text).point source = .ok (p.taken .numberToken text) := by
  rw [point, peek_taken left]
  split
  · rename_i found
    obtain ⟨tail, rfl⟩ := List.head?_eq_some_iff.1 found
    rw [increment_eq (fits_taken short left)]
    change ite _ _ _ = _
    rw [peek_next_taken left]
    cases tail with
    | nil => rfl
    | cons c tail =>
      rw [List.head?_cons, Option.any_some, noFraction c tail rfl]
      rfl
  · rfl

/-! ### Tokens -/

omit short in
theorem token_taken {kind : Kind} {meaning : Meaning} (nonempty : text ≠ [])
    (left : source.drop p.current = text ++ rest) (means : Meaning.ofKind? kind = some meaning) :
    (p.taken (.token kind) text).step source =
      .ok ((p.taken .head text).keep ⟨meaning, String.ofList text, p.line⟩) := by
  simp only [step, taken_phase, lexeme_taken nonempty left, Token.plain, means]
  rfl

omit short in
theorem word_token_taken (nonempty : text ≠ []) (left : source.drop p.current = text ++ rest) :
    (p.taken .wordToken text).step source =
      .ok (p.taken (.token ((Keyword.ofSpelling? (String.ofList text)).elim .identifier .keyword))
        text) := by
  simp only [step, taken_phase, lexeme_taken nonempty left]
  rfl

omit short in
theorem number_token_taken {n : Numeral} (wellFormed : n.WellFormed) (nonempty : n.text ≠ [])
    (left : source.drop p.current = n.text ++ rest) :
    (p.taken .numberToken n.text).step source =
      .ok ((p.taken .head n.text).keep
        (.number (String.ofList n.text) n.value.toBinary64 p.line)) := by
  have read : Numeral.next n.text = (n, []) := by
    have cut := Numeral.next_append wellFormed (Segment.ends_nil (.number n))
    rwa [List.append_nil] at cut
  simp only [step, taken_phase, lexeme_taken nonempty left]
  change Except.ok (keep _ _) = _
  rw [String.toList_ofList, read]
  rfl

theorem string_token_taken {body : List Char}
    (left : source.drop p.current = '"' :: (body ++ ['"']) ++ rest) :
    (p.taken .stringToken ('"' :: (body ++ ['"']))).step source =
      .ok ((p.taken .head ('"' :: (body ++ ['"']))).keep
        (.string (String.ofList ('"' :: (body ++ ['"']))) (String.ofList body) p.line)) := by
  simp only [step, taken_phase, body_taken short left, lexeme_taken (List.cons_ne_nil _ _) left]
  rfl

theorem string_end_taken (left : source.drop p.current = text ++ '"' :: rest) :
    (p.taken .stringEnd text).step source = .ok (p.taken .stringToken (text ++ ['"'])) := by
  simp only [step, taken_phase]
  refine (if_pos (lt_length_of_drop left)).trans ?_
  exact advance_taken short (by decide) left fun _ => .stringToken

omit short in
theorem string_open_taken (left : source.drop p.current = text) (nonempty : text ≠ []) :
    (p.taken .stringEnd text).step source =
      .ok ((p.taken .stringEnd text).blame .unterminatedString) := by
  have lengths := congrArg List.length left
  have positive := List.length_pos_iff.2 nonempty
  rw [List.length_drop] at lengths
  simp only [step, taken_phase]
  refine if_neg ?_
  simp only [taken]
  omega

end Taken
end Cursor
end ScriptLexer
