import ScriptLexer.Proofs.Boundary

/-! Which segment comes first, said without reading the source. A segment has a
shape, and the text behind it either lets it end or continues it. The first
segment of a source is the one that has its shape and can end where it does. -/
namespace ScriptLexer

/-- What the characters of a word are. -/
structure IsWord (letters : List Char) : Prop where
  ne_nil : letters ≠ []
  start : ∀ c ∈ letters.head?, isWordStart c = true
  part : ∀ c ∈ letters, isWordPart c = true

theorem isWord_of_all {c : Char} {letters : List Char} (start : isWordStart c = true)
    (part : letters.all isWordPart = true) : IsWord (c :: letters) := by
  refine ⟨by simp, by simpa using start, ?_⟩
  intro d member
  rcases List.mem_cons.1 member with rfl | member
  · exact isWordPart_of_isWordStart start
  · exact List.all_eq_true.1 part d member

namespace Segment

/-- The shape that the name of a segment promises. -/
def WellFormed : Segment → Prop
  | blank c => c.isWhitespace = true
  | comment body => '\n' ∉ body
  | symbol _ => True
  | word letters => IsWord letters
  | number numeral => numeral.WellFormed
  | string body => '"' ∉ body
  | unexpected c => isStray c = true
  | unterminated body => '"' ∉ body

/-- A segment can end in front of a text that does not continue it. -/
def Ends : Segment → List Char → Prop
  | blank _, _ | string _, _ | unexpected _, _ => True
  | comment _, rest => ∀ c ∈ rest.head?, c = '\n'
  | symbol s, rest => s.Ends rest
  | word _, rest => ∀ c ∈ rest.head?, isWordPart c = false
  | number numeral, rest => numeral.Ends rest
  | unterminated _, rest => rest = []

section First

variable {first : Char} {rest : List Char}

theorem next_blank (blank : first.isWhitespace = true) : next first rest = (.blank first, rest) := by
  simp [next, blank]

theorem next_quote : next '"' rest = quoted rest := by
  simp [next, Char.isWhitespace]

theorem next_digit (digit : first.isDigit = true) :
    next first rest =
      (.number (Numeral.next (first :: rest)).1, (Numeral.next (first :: rest)).2) := by
  have part := isWordPart_of_isDigit digit
  have notBlank : first.isWhitespace = false := by
    by_contra blank
    simp [isWordPart_of_isWhitespace (Bool.of_not_eq_false blank)] at part
  have notQuote : first ≠ '"' := by
    rintro rfl
    contradiction
  simp [next, notBlank, notQuote, digit]

theorem next_word (start : isWordStart first = true) :
    next first rest = (.word (first :: rest.takeWhile isWordPart), rest.dropWhile isWordPart) := by
  have part := isWordPart_of_isWordStart start
  have notBlank : first.isWhitespace = false := by
    by_contra blank
    simp [isWordPart_of_isWhitespace (Bool.of_not_eq_false blank)] at part
  have notQuote : first ≠ '"' := by
    rintro rfl
    contradiction
  have notDigit : first.isDigit = false := by
    by_contra digit
    simp [isWordStart_of_isDigit (Bool.of_not_eq_false digit)] at start
  simp [next, notBlank, notQuote, notDigit, start]

theorem next_slashes : next '/' ('/' :: rest) = commented rest := rfl

theorem next_symbol {s : Symbol} (found : Symbol.ofChar? first = some s)
    (notComment : ¬(first = '/' ∧ rest.head? = some '/')) :
    next first rest = (.symbol (s.extend rest).1, (s.extend rest).2) := by
  obtain ⟨notBlank, notQuote, notPart⟩ := Symbol.ofChar?_class found
  simp only [isWordPart, Bool.or_eq_false_iff] at notPart
  simp [next, notBlank, notQuote, notPart, notComment, found]

theorem next_stray (stray : isStray first = true) : next first rest = (.unexpected first, rest) := by
  simp only [isStray, isWordPart, Bool.and_eq_true, Bool.not_eq_true', Bool.or_eq_false_iff,
    bne_iff_ne, Option.isNone_iff_eq_none] at stray
  obtain ⟨⟨⟨notBlank, notQuote⟩, notStart, notDigit⟩, notSymbol⟩ := stray
  have notSlash : first ≠ '/' := by
    rintro rfl
    contradiction
  simp [next, notBlank, notQuote, notStart, notDigit, notSlash, notSymbol]

end First

theorem quoted_string {body rest : List Char} (closed : '"' ∉ body) :
    quoted (body ++ '"' :: rest) = (string body, rest) := by
  have inside := forall_ne_of_not_mem closed
  have stop : ∀ c ∈ ('"' :: rest).head?, (c != '"') = false := by simp
  simp [quoted, takeWhile_run inside stop, dropWhile_run inside stop]

theorem quoted_unterminated {body : List Char} (opened : '"' ∉ body) :
    quoted body = (unterminated body, []) := by
  have inside := forall_ne_of_not_mem opened
  have stop : ∀ c ∈ ([] : List Char).head?, (c != '"') = false := by simp
  have taken := takeWhile_run inside stop
  have dropped := dropWhile_run inside stop
  rw [List.append_nil] at taken dropped
  simp [quoted, taken, dropped]

theorem commented_body {body rest : List Char} (inside : '\n' ∉ body)
    (stop : ∀ c ∈ rest.head?, c = '\n') : commented (body ++ rest) = (comment body, rest) := by
  have inside := forall_ne_of_not_mem inside
  have stop : ∀ c ∈ rest.head?, (c != '\n') = false := by simpa using stop
  simp [commented, takeWhile_run inside stop, dropWhile_run inside stop]

/-- Nothing but the shape and the end of a segment decides that it comes first. -/
theorem next_append {segment : Segment} {first : Char} {tail rest : List Char}
    (wellFormed : segment.WellFormed) (ends : segment.Ends rest)
    (starts : segment.text ++ rest = first :: tail) : next first tail = (segment, rest) := by
  cases segment with
  | blank c =>
    obtain ⟨rfl, rfl⟩ := List.cons.inj starts
    exact next_blank wellFormed
  | comment body =>
    obtain ⟨rfl, rfl⟩ := List.cons.inj starts
    exact next_slashes.trans (commented_body wellFormed ends)
  | symbol s =>
    rcases s.spelling_cases with ⟨c, spelled, found⟩ | ⟨c, base, spelled, found, joined⟩
    · rw [text, spelled, List.singleton_append] at starts
      obtain ⟨rfl, rfl⟩ := List.cons.inj starts
      have notComment : ¬(c = '/' ∧ rest.head? = some '/') := by
        rintro ⟨rfl, second⟩
        exact ends.2 (Option.some.inj found).symm second
      rw [next_symbol found notComment, Symbol.extend_of_ends ends]
    · -- The equals sign is part of the symbol, so nothing behind it matters.
      rw [text, spelled, List.cons_append, List.singleton_append] at starts
      obtain ⟨rfl, rfl⟩ := List.cons.inj starts
      rw [next_symbol found (by simp)]
      simp [Symbol.extend, joined]
  | word letters =>
    obtain ⟨nonempty, start, part⟩ := wellFormed
    cases letters with
    | nil => contradiction
    | cons c letters =>
      rw [text, List.cons_append] at starts
      obtain ⟨rfl, rfl⟩ := List.cons.inj starts
      have inside : ∀ d ∈ letters, isWordPart d = true := by
        intro d member
        exact part d (List.mem_cons_of_mem _ member)
      rw [next_word (start _ rfl), takeWhile_run inside ends, dropWhile_run inside ends]
  | number numeral =>
    have cut := Numeral.next_append wellFormed ends
    simp only [text] at starts
    rw [starts] at cut
    have digit : first.isDigit = true := by
      have whole := Numeral.next_whole (first :: tail)
      rw [cut] at whole
      by_contra other
      rw [List.takeWhile_cons_of_neg other] at whole
      exact wellFormed.whole_ne_nil whole
    rw [next_digit digit, cut]
  | string body =>
    rw [text, List.cons_append, List.append_assoc] at starts
    obtain ⟨rfl, rfl⟩ := List.cons.inj starts
    exact next_quote.trans (quoted_string wellFormed)
  | unexpected c =>
    obtain ⟨rfl, rfl⟩ := List.cons.inj starts
    exact next_stray wellFormed
  | unterminated body =>
    cases ends
    rw [text, List.append_nil] at starts
    obtain ⟨rfl, rfl⟩ := List.cons.inj starts
    rw [next_quote, quoted_unterminated wellFormed]

theorem quoted_spec (rest : List Char) :
    (quoted rest).1.WellFormed ∧ (quoted rest).1.Ends (quoted rest).2 := by
  have inside := not_mem_takeWhile_ne '"' rest
  fun_cases quoted rest with
  | case1 => exact ⟨inside, rfl⟩
  | case2 => exact ⟨inside, trivial⟩

theorem commented_spec (rest : List Char) :
    (commented rest).1.WellFormed ∧ (commented rest).1.Ends (commented rest).2 := by
  constructor
  · exact not_mem_takeWhile_ne '\n' rest
  · intro c found
    simpa using head?_dropWhile_false rest c found

/-- The first segment that is read has its shape and can end where it does. -/
theorem next_spec (first : Char) (rest : List Char) :
    (next first rest).1.WellFormed ∧ (next first rest).1.Ends (next first rest).2 := by
  fun_cases next first rest with
  | case1 blank => exact ⟨blank, trivial⟩
  | case2 => exact quoted_spec rest
  | case3 _ _ digit => exact ⟨Numeral.next_wellFormed digit, Numeral.next_ends _⟩
  | case4 _ _ _ start => exact ⟨isWord_of_all start List.all_takeWhile, head?_dropWhile_false rest⟩
  | case5 => exact commented_spec _
  | case6 _ _ _ _ notComment s found =>
    refine ⟨trivial, Symbol.extend_ends ?_⟩
    rintro rfl second
    have spelled := Symbol.spelling_of_ofChar? found
    obtain rfl : '/' = first := (List.cons.inj spelled).1
    exact notComment ⟨rfl, second⟩
  | case7 notBlank notQuote notDigit notStart _ notSymbol =>
    refine ⟨?_, trivial⟩
    simp [WellFormed, isStray, isWordPart, notBlank, notQuote, notDigit, notStart, notSymbol]

end Segment
end ScriptLexer
