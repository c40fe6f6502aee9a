import ScriptLexer.Proofs.Segmentation

/-! The texts that make a token, each with what it means. This is the lexical
grammar of the language; how a source is cut plays no part in it. -/
namespace ScriptLexer

inductive Lexeme : Meaning → List Char → Prop
  | symbol (s : Symbol) : Lexeme (.symbol s) s.spelling
  | keyword (k : Keyword) : Lexeme (.keyword k) k.spelling.toList
  | identifier {letters : List Char} (word : IsWord letters)
      (free : ∀ k : Keyword, k.spelling.toList ≠ letters) : Lexeme .identifier letters
  | number {n : Numeral} (wellFormed : n.WellFormed) :
      Lexeme (.literal (.number n.value.toBinary64)) n.text
  | string {body : List Char} (unquoted : '"' ∉ body) :
      Lexeme (.literal (.string (String.ofList body))) ('"' :: (body ++ ['"']))

theorem Keyword.isWord (k : Keyword) : IsWord k.spelling.toList := by
  cases k <;> exact isWord_of_all rfl rfl

namespace Segment

theorem meaning?_keyword (k : Keyword) :
    (word k.spelling.toList).meaning? = some (.keyword k) := by
  simp [meaning?, Keyword.ofSpelling?_spelling]

theorem meaning?_identifier {letters : List Char} (free : ∀ k : Keyword, k.spelling.toList ≠ letters) :
    (word letters).meaning? = some .identifier := by
  cases found : Keyword.ofSpelling? (String.ofList letters) with
  | none => simp [meaning?, found]
  | some k =>
    have spelled := Keyword.ofSpelling?_eq_some_iff.1 found
    exact absurd (by simp [spelled]) (free k)

theorem lexeme_word {letters : List Char} {meaning : Meaning} (shape : IsWord letters)
    (means : (word letters).meaning? = some meaning) : Lexeme meaning letters := by
  by_cases reserved : ∃ k : Keyword, k.spelling.toList = letters
  · obtain ⟨k, rfl⟩ := reserved
    rw [meaning?_keyword, Option.some.injEq] at means
    exact means ▸ .keyword k
  · have free : ∀ k : Keyword, k.spelling.toList ≠ letters := by
      intro k same
      exact reserved ⟨k, same⟩
    rw [meaning?_identifier free, Option.some.injEq] at means
    exact means ▸ .identifier shape free

end Segment

/-- Lexemes are the texts of the segments that mean something. -/
theorem lexeme_iff {meaning : Meaning} {text : List Char} :
    Lexeme meaning text ↔
      ∃ segment : Segment, segment.WellFormed ∧ segment.meaning? = some meaning ∧
        segment.text = text := by
  constructor
  · intro lexeme
    cases lexeme with
    | symbol s => exact ⟨.symbol s, trivial, rfl, rfl⟩
    | keyword k => exact ⟨.word k.spelling.toList, k.isWord, Segment.meaning?_keyword k, rfl⟩
    | identifier shape free => exact ⟨.word text, shape, Segment.meaning?_identifier free, rfl⟩
    | number wellFormed => exact ⟨.number _, wellFormed, rfl, rfl⟩
    | string unquoted => exact ⟨.string _, unquoted, rfl, rfl⟩
  · rintro ⟨segment, wellFormed, means, rfl⟩
    cases segment with
    | word letters => exact Segment.lexeme_word wellFormed means
    | symbol s =>
      cases means
      exact .symbol s
    | number numeral =>
      cases means
      exact .number wellFormed
    | string body =>
      cases means
      exact .string wellFormed
    | blank | comment | unexpected | unterminated => contradiction

namespace Kind

def isWord : Kind → Bool
  | identifier | keyword _ => true
  | _ => false

end Kind

namespace Symbol

theorem isWordPart_spelling {s : Symbol} {c : Char} {tail : List Char}
    (spelled : s.spelling = c :: tail) : isWordPart c = false := by
  rcases s.spelling_cases with ⟨d, same, found⟩ | ⟨d, base, same, found, -⟩
  all_goals
    rw [spelled] at same
    obtain rfl : c = d := (List.cons.inj same).1
    exact (ofChar?_class found).2.2

theorem equal_spelling {s : Symbol} {c : Char} {tail : List Char}
    (spelled : s.spelling = c :: tail) : c = '=' ↔ s ∈ [equal, equalEqual] := by
  cases s <;> obtain ⟨rfl, -⟩ := List.cons.inj spelled <;> decide

theorem slash_spelling {s : Symbol} {c : Char} {tail : List Char}
    (spelled : s.spelling = c :: tail) : c = '/' ↔ s ∈ [slash] := by
  cases s <;> obtain ⟨rfl, -⟩ := List.cons.inj spelled <;> decide

theorem dot_spelling {s : Symbol} {c : Char} {tail : List Char}
    (spelled : s.spelling = c :: tail) : c = '.' ↔ s ∈ [dot] := by
  cases s <;> obtain ⟨rfl, -⟩ := List.cons.inj spelled <;> decide

theorem withEqual?_isSome_iff {s : Symbol} :
    s.withEqual?.isSome ↔ s ∈ [bang, equal, less, greater] := by
  cases s <;> decide

end Symbol

namespace Lexeme

variable {meaning : Meaning} {c : Char} {tail : List Char}

/-- What the kind of a lexeme says of its first character. -/
theorem first (lexeme : Lexeme meaning (c :: tail)) :
    match meaning.kind with
    | .symbol s => s.spelling = c :: tail
    | .identifier | .keyword _ => isWordStart c = true
    | .number => c.isDigit = true
    | .string => c = '"'
    | .endOfInput => False := by
  generalize written : c :: tail = text at lexeme
  cases lexeme with
  | symbol s => rfl
  | keyword k => exact k.isWord.start c (by simp [← written])
  | identifier word free => exact word.start c (by simp [← written])
  | @number n wellFormed =>
    apply wellFormed.whole_digits
    have starts := congrArg List.head? written
    obtain ⟨d, whole, shape⟩ := List.exists_cons_of_ne_nil wellFormed.whole_ne_nil
    rw [Numeral.text, shape] at starts
    have same : c = d := by
      split at starts <;> exact Option.some.inj starts
    simp [shape, same]
  | string unquoted => exact (List.cons.inj written).1

theorem isWordPart_first (lexeme : Lexeme meaning (c :: tail)) :
    isWordPart c = true ↔ meaning.kind.isWord = true ∨ meaning.kind = .number := by
  have starts := lexeme.first
  cases kind : meaning.kind <;> rw [kind] at starts
  case symbol s => simp [Symbol.isWordPart_spelling starts, Kind.isWord]
  case identifier => simp [isWordPart_of_isWordStart starts, Kind.isWord]
  case keyword k => simp [isWordPart_of_isWordStart starts, Kind.isWord]
  case number => simp [isWordPart_of_isDigit starts]
  case string =>
    subst starts
    decide
  case endOfInput => contradiction

theorem isDigit_first (lexeme : Lexeme meaning (c :: tail)) :
    c.isDigit = true ↔ meaning.kind = .number := by
  constructor
  · intro digit
    rcases lexeme.isWordPart_first.1 (isWordPart_of_isDigit digit) with word | number
    · have starts := lexeme.first
      cases kind : meaning.kind <;> rw [kind] at starts word <;> try contradiction
      all_goals simp [isWordStart_of_isDigit digit] at starts
    · exact number
  · intro number
    have starts := lexeme.first
    rwa [number] at starts

/-- A character that no word, number or string starts with is one of some symbols. -/
theorem eq_first_iff {d : Char} {symbols : List Symbol} (lexeme : Lexeme meaning (c :: tail))
    (notPart : isWordPart d = false) (notQuote : d ≠ '"')
    (spells : ∀ s : Symbol, s.spelling = c :: tail → (c = d ↔ s ∈ symbols)) :
    c = d ↔ ∃ s ∈ symbols, meaning.kind = .symbol s := by
  have starts := lexeme.first
  constructor
  · rintro rfl
    cases kind : meaning.kind <;> rw [kind] at starts
    case symbol s => exact ⟨s, (spells s starts).1 rfl, rfl⟩
    case string => exact absurd starts notQuote
    case endOfInput => contradiction
    case number => simp [isWordPart_of_isDigit starts] at notPart
    all_goals simp [isWordPart_of_isWordStart starts] at notPart
  · rintro ⟨s, member, kind⟩
    rw [kind] at starts
    exact (spells s starts).2 member

end Lexeme

end ScriptLexer
