import ScriptLexer.Proofs.Cursor.Literals
import ScriptLexer.Proofs.Listings

/-! Shapes of tokens. Kind, lexeme and literal of a token belong together: each of them
follows from the lexeme, and the kind tells what the others look like. -/
namespace ScriptLexer

/-- Digits, and possibly a point and more digits. -/
inductive IsNumber : List Char → Prop
  | whole {digits : List Char} (whole : Json.Digits digits) : IsNumber digits
  | fraction {digits others : List Char} (whole : Json.Digits digits)
      (fraction : Json.Digits others) : IsNumber (digits ++ '.' :: others)

theorem isNumber_text {n : Numeral} (wellFormed : n.WellFormed) : IsNumber n.text := by
  obtain ⟨whole, fraction⟩ := n
  obtain ⟨nonempty, wholeDigits, fractionDigits⟩ := wellFormed
  cases fraction with
  | nil => exact .whole ⟨nonempty, wholeDigits⟩
  | cons c fraction =>
    exact .fraction ⟨nonempty, wholeDigits⟩ ⟨List.cons_ne_nil _ _, fractionDigits⟩

namespace Token

/-- What kind, lexeme and literal of a token say of each other. -/
structure WellFormed (t : Token) : Prop where
  string_iff : t.kind = .string ↔ ∃ v, t.literal? = some (.string v)
  string_lexeme : ∀ v, t.literal? = some (.string v) →
    t.lexeme = "\"" ++ v ++ "\"" ∧ '"' ∉ v.toList
  number_iff : t.kind = .number ↔ ∃ x, t.literal? = some (.number x)
  number_lexeme : t.kind = .number → IsNumber t.lexeme.toList
  keyword_iff : ∀ k, t.kind = .keyword k ↔ (t.lexeme, k) ∈ Keyword.table
  identifier_iff : t.kind = .identifier ↔
    IsWord t.lexeme.toList ∧ ∀ k, (t.lexeme, k) ∉ Keyword.table
  symbol_lexeme : ∀ s, t.kind = .symbol s → t.lexeme = String.ofList s.spelling
  endOfInput_lexeme : t.kind = .endOfInput → t.lexeme = ""
  plain : t.kind ≠ .string → t.kind ≠ .number →
    t.literal? = none ∧ Token.plain t.kind t.lexeme t.line = .ok t

theorem kind_string_iff (t : Token) : t.kind = .string ↔ ∃ v, t.literal? = some (.string v) := by
  obtain ⟨meaning, lexeme, line⟩ := t
  rcases meaning with s | - | (v | x) | k | - <;> simp [kind, literal?, Meaning.kind, Meaning.literal?]

theorem kind_number_iff (t : Token) : t.kind = .number ↔ ∃ x, t.literal? = some (.number x) := by
  obtain ⟨meaning, lexeme, line⟩ := t
  rcases meaning with s | - | (v | x) | k | - <;> simp [kind, literal?, Meaning.kind, Meaning.literal?]

/-- A token that is no string and no number is one that its kind makes. -/
theorem plain_eq {t : Token} (notString : t.kind ≠ .string) (notNumber : t.kind ≠ .number) :
    t.literal? = none ∧ Token.plain t.kind t.lexeme t.line = .ok t := by
  obtain ⟨meaning, lexeme, line⟩ := t
  rcases meaning with s | - | (v | x) | k | -
  case literal.string => exact absurd rfl notString
  case literal.number => exact absurd rfl notNumber
  all_goals exact ⟨rfl, rfl⟩

namespace Found

variable {t : Token} (found : t.Found)

include found

/-- Any lexeme that a found token has tells what it means. -/
theorem meaning_of_lexeme {meaning : Meaning} (lexeme : Lexeme meaning t.lexeme.toList) :
    t.meaning = meaning := by
  have other : Found ⟨meaning, String.ofList t.lexeme.toList, t.line⟩ := .lexeme lexeme
  exact found.meaning_eq other String.ofList_toList.symm

theorem kind_keyword_iff (k : Keyword) : t.kind = .keyword k ↔ (t.lexeme, k) ∈ Keyword.table := by
  rw [Keyword.mem_table_iff, Keyword.ofSpelling?_eq_some_iff]
  constructor
  · intro kind
    cases found with
    | endOfInput => contradiction
    | lexeme lexeme =>
      cases lexeme with
      | keyword other =>
        obtain rfl : other = k := Kind.keyword.inj kind
        exact String.ofList_toList.symm
      | symbol | identifier | number | string => contradiction
  · intro spelled
    have lexeme : Lexeme (.keyword k) t.lexeme.toList := spelled ▸ Lexeme.keyword k
    rw [Token.kind, found.meaning_of_lexeme lexeme]
    rfl

theorem kind_identifier_iff :
    t.kind = .identifier ↔ IsWord t.lexeme.toList ∧ ∀ k, (t.lexeme, k) ∉ Keyword.table := by
  have free : (∀ k : Keyword, k.spelling.toList ≠ t.lexeme.toList) ↔
      ∀ k, (t.lexeme, k) ∉ Keyword.table := by
    simp only [Keyword.mem_table_iff, Keyword.ofSpelling?_eq_some_iff, ne_eq, String.toList_inj]
  rw [← free]
  constructor
  · intro kind
    cases found with
    | endOfInput => contradiction
    | lexeme lexeme =>
      cases lexeme with
      | identifier word unreserved =>
        rw [String.toList_ofList]
        exact ⟨word, unreserved⟩
      | symbol | keyword | number | string => contradiction
  · rintro ⟨word, unreserved⟩
    rw [Token.kind, found.meaning_of_lexeme (.identifier word unreserved)]
    rfl

theorem string_lexeme (v : String) (value : t.literal? = some (.string v)) :
    t.lexeme = "\"" ++ v ++ "\"" ∧ '"' ∉ v.toList := by
  cases found with
  | endOfInput => contradiction
  | lexeme lexeme =>
    cases lexeme with
    | @string body unquoted =>
      obtain rfl : String.ofList body = v := Literal.string.inj (Option.some.inj value)
      rw [String.toList_ofList]
      refine ⟨String.toList_injective ?_, unquoted⟩
      simp
    | number => exact nomatch Option.some.inj value
    | symbol | keyword | identifier => contradiction

theorem number_lexeme (kind : t.kind = .number) : IsNumber t.lexeme.toList := by
  cases found with
  | endOfInput => contradiction
  | lexeme lexeme =>
    cases lexeme with
    | number wellFormed =>
      rw [String.toList_ofList]
      exact isNumber_text wellFormed
    | symbol | keyword | identifier | string => contradiction

theorem symbol_lexeme (s : Symbol) (kind : t.kind = .symbol s) :
    t.lexeme = String.ofList s.spelling := by
  cases found with
  | endOfInput => contradiction
  | lexeme lexeme =>
    cases lexeme with
    | symbol other =>
      obtain rfl : other = s := Kind.symbol.inj kind
      rfl
    | keyword | identifier | number | string => contradiction

theorem endOfInput_lexeme (kind : t.kind = .endOfInput) : t.lexeme = "" := by
  cases found with
  | endOfInput => rfl
  | lexeme lexeme => cases lexeme <;> contradiction

theorem wellFormed : t.WellFormed where
  string_iff := t.kind_string_iff
  string_lexeme := found.string_lexeme
  number_iff := t.kind_number_iff
  number_lexeme := found.number_lexeme
  keyword_iff := found.kind_keyword_iff
  identifier_iff := found.kind_identifier_iff
  symbol_lexeme := found.symbol_lexeme
  endOfInput_lexeme := found.endOfInput_lexeme
  plain := plain_eq

end Found
end Token

/-- What is found before the end is a lexeme, and so no end of input. -/
theorem kind_ne_endOfInput {source : String} {t : Token}
    (member : t ∈ tokensFrom .start source.toList) : t.kind ≠ .endOfInput := by
  intro kind
  have found : t.Found := found_of_mem_scan (List.mem_append_left _ member)
  obtain ⟨p, placed, token⟩ := List.mem_filterMap.1 member
  obtain ⟨before, after, split⟩ := List.mem_iff_append.1 placed
  obtain ⟨meaning, means, rfl⟩ := Option.map_eq_some_iff.1 (p.token?_eq.symm.trans token)
  have nonempty := (segmentsFrom_split split).1.text_ne_nil
  exact nonempty (String.ofList_injective (found.endOfInput_lexeme kind))

/-- The tokens of a scan are well formed and end with the only end of input. No cursor that
scans a source, however long, asks for a string or a number without its value. -/
theorem scan_tokens_wellFormed (source : String) :
    (∃ tokens line, (scan source).tokens = tokens ++ [.endOfInput line] ∧
      ∀ t ∈ tokens, t.kind ≠ .endOfInput) ∧
    (∀ t ∈ (scan source).tokens, t.WellFormed) ∧
    ∀ p, Cursor.Reaches source.toList {} p →
      ∀ missing, p.step source.toList ≠ .error (.missingLiteral missing) := by
  refine ⟨⟨_, _, congrArg Scanned.tokens (scan_eq source), fun _ => kind_ne_endOfInput⟩, ?_, ?_⟩
  · intro t member
    exact (found_of_mem_scan member).wellFormed
  · intro p reaches
    exact Cursor.ne_missingLiteral_of_reaches source.toList reaches

/-- Two quotes are a string without characters. -/
example : (scan "\"\"").tokens = [.string "\"\"" "" 1, .endOfInput 1] := by
  decide +kernel

end ScriptLexer
