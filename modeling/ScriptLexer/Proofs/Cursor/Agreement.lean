import ScriptLexer.Proofs.Cursor.Taking
import ScriptLexer.Proofs.Findings
import Mathlib.Logic.Relation

/-! A scan by cursor finds what the scan by segments finds. In front of a segment the
cursor takes just that segment, whatever its kind, so that a run goes through the
segmentation of its source. With the bounds, no run fails. -/
namespace ScriptLexer
namespace Cursor

/-- Goes on from a point that is not the last. -/
def Steps (source : List Char) (p q : Cursor) : Prop := p.phase ≠ .done ∧ p.step source = .ok q

abbrev Reaches (source : List Char) : Cursor → Cursor → Prop :=
  Relation.ReflTransGen (Steps source)

theorem Run.of_reaches {source : List Char} {p q last : Cursor} {points : List Cursor}
    (reaches : Reaches source p q) (run : Run source q points last) :
    ∃ others, Run source p others last := by
  induction reaches using Relation.ReflTransGen.head_induction_on with
  | refl => exact ⟨points, run⟩
  | head stepped _ ih =>
    obtain ⟨others, run⟩ := ih
    exact ⟨_, .step stepped.1 stepped.2 run⟩

/-! ### Loops -/

section Loops

variable {source text rest : List Char} {p q : Cursor} {phase : Phase}
  (short : source.length + 1 < UInt64.size)

include short

/-- A loop over a class takes a run of it, and then goes on as it is told. The class is one
of characters within a line, so that no line has to be counted. -/
theorem reaches_skip {inside : Char → Bool} {leave : List Char → Except Failure Cursor}
    {run : List Char} (going : phase ≠ .done) (inLine : inside '\n' = false)
    (does : ∀ text, (p.taken phase text).step source =
      (p.taken phase text).skip source inside (leave text))
    (left : source.drop p.current = text ++ (run ++ rest)) (within : ∀ c ∈ run, inside c = true)
    (stop : ∀ c ∈ rest.head?, inside c = false) (leaves : leave (text ++ run) = .ok q) :
    Reaches source (p.taken phase text) q := by
  induction run generalizing text with
  | nil =>
    refine .single ⟨going, ?_⟩
    rw [does, skip, peek_taken left]
    rw [List.append_nil] at leaves
    cases rest with
    | nil => exact leaves
    | cons c rest => simpa [stop c rfl] using leaves
  | cons c run ih =>
    obtain ⟨first, within⟩ := List.forall_mem_cons.1 within
    have other : c ≠ '\n' := by
      rintro rfl
      simp [inLine] at first
    have stepped : (p.taken phase text).step source = .ok (p.taken phase (text ++ [c])) := by
      rw [does, skip, peek_taken left, List.cons_append, List.head?_cons, Option.any_some,
        if_pos first]
      exact advance_taken short other left fun _ => phase
    refine .head ⟨going, stepped⟩ (ih ?_ within ?_)
    · simpa using left
    · simpa using leaves

/-- A character of a string is counted as a line if it ends one, and then taken. -/
theorem reaches_string_char {c : Char} (left : source.drop p.current = text ++ c :: rest)
    (unquoted : c ≠ '"') (below : p.line + text.count '\n' ≤ p.current + text.length) :
    Reaches source (p.taken .string text) (p.taken .string (text ++ [c])) := by
  have bound := lt_length_of_drop left
  have looked : (p.taken .string text).step source =
      .ok { p.taken .stringBody text with line := p.line + (text ++ [c]).count '\n' } := by
    change (p.taken .string text).quoted source = _
    rw [quoted, peek_taken left, List.count_append, ← Nat.add_assoc]
    simp only [List.head?_cons, if_neg unquoted]
    by_cases same : c = '\n'
    · rw [if_pos same, newLine_eq (by simp only [taken]; omega), same]
      rfl
    · rw [if_neg same, List.count_singleton, if_neg (by simpa using same)]
      rfl
  have found : source[(p.taken .stringBody text).current]? = some c := peek_taken left
  have fits : (p.taken .stringBody text).current + 1 < UInt64.size := fits_taken short left
  have took := advance_eq
    (p := { p.taken .stringBody text with line := p.line + (text ++ [c]).count '\n' })
    fits found fun _ => .string
  have same : (text ++ [c]).length = text.length + 1 := by simp
  refine .head ⟨by simp, looked⟩ (.single ⟨by simp, took.trans ?_⟩)
  rw [taken, taken, same, Nat.add_assoc]

/-- The loop of a string takes the text up to the next quote. -/
theorem reaches_string_end {body : List Char}
    (left : source.drop p.current = text ++ (body ++ rest)) (unquoted : '"' ∉ body)
    (stop : ∀ c ∈ rest.head?, c = '"')
    (below : p.line + text.count '\n' ≤ p.current + text.length) :
    Reaches source (p.taken .string text) (p.taken .stringEnd (text ++ body)) := by
  induction body generalizing text with
  | nil =>
    refine .single ⟨by simp, ?_⟩
    change (p.taken .string text).quoted source = _
    rw [quoted, peek_taken left, List.nil_append, List.append_nil]
    cases rest with
    | nil => rfl
    | cons c rest =>
      rw [stop c rfl]
      rfl
  | cons c body ih =>
    rw [List.mem_cons, not_or] at unquoted
    have counted : [c].count '\n' ≤ 1 := List.count_le_length
    have moved : (text ++ [c]) ++ (body ++ rest) = text ++ (c :: body ++ rest) := by simp
    have inner := ih (left.trans moved.symm) unquoted.2 (by
      rw [List.count_append, List.length_append, List.length_singleton]
      omega)
    rw [List.append_assoc, List.singleton_append] at inner
    exact (reaches_string_char short left (Ne.symm unquoted.1) below).trans inner

end Loops

/-! ### Segments -/

/-- The point behind a segment. -/
def behind (p : Cursor) (segment : Segment) : Cursor :=
  { p.taken .head segment.text with
    tokens := p.tokens ++ (segment.tokenOn? p.line).toList
    faults := p.faults ++ (segment.faultOn? p.line).toList }

theorem behind_silent {p : Cursor} {segment : Segment} (silent : segment.meaning? = none)
    (sound : segment.cause? = none) : p.behind segment = p.taken .head segment.text := by
  cases segment with
  | blank | comment => simp [behind, taken, Segment.tokenOn?, Segment.meaning?, Segment.faultOn?]
  | _ => contradiction

theorem behind_lexeme {p : Cursor} {segment : Segment} {meaning : Meaning}
    (means : segment.meaning? = some meaning) :
    p.behind segment =
      (p.taken .head segment.text).keep ⟨meaning, String.ofList segment.text, p.line⟩ := by
  cases segment with
  | blank | comment | unexpected | unterminated => contradiction
  | _ => simp [behind, taken, keep, Segment.tokenOn?, means, Segment.faultOn?]

section Segments

variable {source rest : List Char} {p : Cursor} (short : source.length + 1 < UInt64.size)
  (head : p.phase = .head)

include short head

theorem reaches_first {c : Char} (left : source.drop p.current = c :: rest) :
    Reaches source p { p with
      phase := .choose c, start := p.current, current := p.current + 1, startLine := p.line } := by
  have bound : p.current + ([] : List Char).length < source.length := lt_length_of_drop left
  have found : source[p.current]? = some c := by
    rw [← List.head?_drop, left, List.head?_cons]
  have marked : p.step source = .ok { p with phase := .mark, start := p.current } := by
    simp only [step, head]
    exact if_pos bound
  have took := advance_eq
    (p := { p with phase := .first, start := p.current, startLine := p.line })
    (by simp only [List.length_nil, Nat.add_zero] at bound ⊢; omega) found .choose
  exact .head ⟨by simp [head], marked⟩ (.head ⟨by simp, rfl⟩ (.single ⟨by simp, took⟩))

theorem reaches_choose {c : Char} (other : c ≠ '\n') (left : source.drop p.current = c :: rest) :
    Reaches source p (p.taken (.choose c) [c]) := by
  have first := reaches_first short head left
  rw [taken, List.count_singleton, if_neg (by simpa using other)]
  exact first

theorem reaches_blank {c : Char} (blank : c.isWhitespace = true)
    (left : source.drop p.current = c :: rest) (below : p.line ≤ 1 + p.current) :
    Reaches source p (p.taken .head [c]) := by
  have bound : p.current + ([] : List Char).length < source.length := lt_length_of_drop left
  refine (reaches_first short head left).trans (.single ⟨by simp, ?_⟩)
  exact choose_blank blank (by simp only [List.length_nil, Nat.add_zero] at bound ⊢; omega)

theorem reaches_comment {body : List Char} (line : '\n' ∉ body)
    (left : source.drop p.current = '/' :: '/' :: (body ++ rest))
    (stop : ∀ c ∈ rest.head?, c = '\n') :
    Reaches source p (p.taken .head ('/' :: '/' :: body)) := by
  have second : (p.taken (.choose '/') ['/']).step source = .ok (p.taken .comment ['/', '/']) :=
    accept_expected short (by decide) left _ _
  refine (reaches_choose short head (by decide) left).trans (.head ⟨by simp, second⟩ ?_)
  exact reaches_skip short (by simp) rfl (fun _ => rfl) left (forall_ne_of_not_mem line)
    (by simpa using stop) rfl

theorem reaches_symbol {s : Symbol} (left : source.drop p.current = s.spelling ++ rest)
    (ends : s.Ends rest) : Reaches source p (p.taken (.token (.symbol s)) s.spelling) := by
  rcases s.spelling_cases with ⟨c, spelled, found⟩ | ⟨c, base, spelled, found, joined⟩
  · rw [spelled] at left ⊢
    have other := ne_line_feed (Symbol.ofChar?_class found).1
    refine (reaches_choose short head other left).trans (.single ⟨by simp, ?_⟩)
    refine (choose_symbol found).trans ?_
    unfold extend
    split
    · exact accept_other left (ends.2 ‹_›) _ _
    split
    · rename_i wide joined
      exact accept_other left (ends.1 (by simp [joined])) _ _
    · rfl
  · rw [spelled] at left ⊢
    have other := ne_line_feed (Symbol.ofChar?_class found).1
    have notSlash : base ≠ .slash := by
      rintro rfl
      contradiction
    refine (reaches_choose short head other left).trans (.single ⟨by simp, ?_⟩)
    refine (choose_symbol found).trans ?_
    rw [extend, if_neg notSlash, joined]
    exact accept_expected short (by decide) left _ _

theorem reaches_word {letters : List Char} (word : IsWord letters)
    (left : source.drop p.current = letters ++ rest)
    (stop : ∀ c ∈ rest.head?, isWordPart c = false) :
    Reaches source p (p.taken .wordToken letters) := by
  obtain ⟨nonempty, start, part⟩ := word
  cases letters with
  | nil => contradiction
  | cons c letters =>
    have start : isWordStart c = true := start c rfl
    have inside := (List.forall_mem_cons.1 part).2
    have other := ne_line_feed (class_of_isWordPart (isWordPart_of_isWordStart start)).1
    have chosen : (p.taken (.choose c) [c]).step source = .ok (p.taken .word [c]) :=
      choose_word start
    refine (reaches_choose short head other left).trans (.head ⟨by simp, chosen⟩ ?_)
    exact reaches_skip short (by simp) rfl (fun _ => rfl) left inside stop rfl

theorem reaches_whole {digits : List Char} (nonempty : digits ≠ [])
    (digit : ∀ c ∈ digits, c.isDigit = true) (left : source.drop p.current = digits ++ rest)
    (stop : ∀ c ∈ rest.head?, c.isDigit = false) {q : Cursor}
    (leaves : (p.taken .whole digits).point source = .ok q) : Reaches source p q := by
  cases digits with
  | nil => contradiction
  | cons c digits =>
    obtain ⟨first, others⟩ := List.forall_mem_cons.1 digit
    have other := ne_line_feed (class_of_isWordPart (isWordPart_of_isDigit first)).1
    have chosen : (p.taken (.choose c) [c]).step source = .ok (p.taken .whole [c]) :=
      choose_digit first
    refine (reaches_choose short head other left).trans (.head ⟨by simp, chosen⟩ ?_)
    exact reaches_skip short (by simp) rfl (fun _ => rfl) left others stop leaves

theorem reaches_number {n : Numeral} (wellFormed : n.WellFormed)
    (left : source.drop p.current = n.text ++ rest) (ends : n.Ends rest) :
    Reaches source p (p.taken .numberToken n.text) := by
  obtain ⟨whole, fraction⟩ := n
  obtain ⟨nonempty, wholeDigits, fractionDigits⟩ := wellFormed
  cases fraction with
  | nil =>
    have pointed : (p.taken .whole whole).point source = .ok (p.taken .numberToken whole) :=
      point_other short left (ends.2 rfl)
    exact reaches_whole short head nonempty wholeDigits left ends.1 pointed
  | cons d fraction =>
    obtain ⟨digit, -⟩ := List.forall_mem_cons.1 fractionDigits
    have parts : source.drop p.current = whole ++ '.' :: (d :: fraction ++ rest) := by
      simpa [Numeral.text] using left
    have moved : source.drop p.current = whole ++ ['.'] ++ (d :: fraction ++ rest) := by
      simpa using parts
    have pointed : (p.taken .whole whole).point source = .ok (p.taken .fraction (whole ++ ['.'])) :=
      point_fraction short digit parts
    refine (reaches_whole short head nonempty wholeDigits parts (by simp) pointed).trans ?_
    have text : Numeral.text ⟨whole, d :: fraction⟩ = whole ++ ['.'] ++ d :: fraction := by
      simp [Numeral.text]
    rw [text]
    exact reaches_skip short (by simp) rfl (fun _ => rfl) moved fractionDigits ends.1 rfl

theorem reaches_quote {body : List Char} (unquoted : '"' ∉ body)
    (left : source.drop p.current = '"' :: (body ++ rest)) (stop : ∀ c ∈ rest.head?, c = '"')
    (below : p.line ≤ 1 + p.current) : Reaches source p (p.taken .stringEnd ('"' :: body)) := by
  have chosen : (p.taken (.choose '"') ['"']).step source = .ok (p.taken .string ['"']) := rfl
  have counted : ['"'].count '\n' = 0 := rfl
  refine (reaches_choose short head (by decide) left).trans (.head ⟨by simp, chosen⟩ ?_)
  exact reaches_string_end short left unquoted stop (by rw [counted, List.length_singleton]; omega)

/-- A lexeme in front of the cursor is taken, and its token is kept. -/
theorem reaches_lexeme {segment : Segment} {meaning : Meaning}
    (wellFormed : segment.WellFormed) (ends : segment.Ends rest)
    (means : segment.meaning? = some meaning)
    (left : source.drop p.current = segment.text ++ rest) (below : p.line ≤ 1 + p.current) :
    Reaches source p (p.behind segment) := by
  have nonempty := wellFormed.text_ne_nil
  rw [behind_lexeme means]
  cases segment with
  | symbol s =>
    cases means
    refine (reaches_symbol short head left ends).trans (.single ⟨by simp, ?_⟩)
    exact token_taken nonempty left rfl
  | word letters =>
    cases means
    refine (reaches_word short head wellFormed left ends).trans
      (.head ⟨by simp, word_token_taken nonempty left⟩ (.single ⟨by simp, ?_⟩))
    refine token_taken nonempty left ?_
    cases Keyword.ofSpelling? (String.ofList letters) <;> rfl
  | number n =>
    cases means
    refine (reaches_number short head wellFormed left ends).trans (.single ⟨by simp, ?_⟩)
    exact number_token_taken wellFormed nonempty left
  | string body =>
    cases means
    have opened : source.drop p.current = '"' :: (body ++ '"' :: rest) := by
      simpa [Segment.text] using left
    refine (reaches_quote short head wellFormed opened (by simp) below).trans
      (.head ⟨by simp, string_end_taken short opened⟩ (.single ⟨by simp, ?_⟩))
    exact string_token_taken short left
  | blank | comment | unexpected | unterminated => contradiction

/-- A segment in front of the cursor is taken, and what it is goes to what was found. -/
theorem reaches_behind {segment : Segment} (wellFormed : segment.WellFormed)
    (ends : segment.Ends rest) (left : source.drop p.current = segment.text ++ rest)
    (below : p.line ≤ 1 + p.current) : Reaches source p (p.behind segment) := by
  cases segment with
  | blank c =>
    rw [behind_silent rfl rfl]
    exact reaches_blank short head wellFormed left below
  | comment body =>
    rw [behind_silent rfl rfl]
    exact reaches_comment short head wellFormed left ends
  | unexpected c =>
    have other : c ≠ '\n' := by
      rintro rfl
      contradiction
    have blamed : p.behind (.unexpected c) =
        (p.taken (.choose c) [c]).blame (.unexpectedCharacter c) := by
      simp [behind, taken, blame, Segment.tokenOn?, Segment.meaning?, Segment.faultOn?,
        Segment.text, other]
    rw [blamed]
    exact (reaches_choose short head other left).trans (.single ⟨by simp, choose_stray wellFormed⟩)
  | unterminated body =>
    cases ends
    have blamed : p.behind (.unterminated body) =
        (p.taken .stringEnd ('"' :: body)).blame .unterminatedString := by
      simp [behind, taken, blame, Segment.tokenOn?, Segment.meaning?, Segment.faultOn?,
        Segment.text]
    have opened : source.drop p.current = '"' :: (body ++ []) := left
    rw [List.append_nil] at left
    rw [blamed]
    exact (reaches_quote short head wellFormed opened (by simp) below).trans
      (.single ⟨by simp, string_open_taken left (List.cons_ne_nil _ _)⟩)
  | symbol | word | number | string =>
    exact reaches_lexeme short head wellFormed ends rfl left below

end Segments

/-! ### Runs -/

theorem line_behind_le {p : Cursor} {segment : Segment} (below : p.line ≤ 1 + p.current) :
    (p.behind segment).line ≤ 1 + (p.behind segment).current := by
  have counted : segment.text.count '\n' ≤ segment.text.length := List.count_le_length
  simp only [behind, taken]
  omega

/-- From the start of a segment the cursor goes through all segments that are left. -/
theorem exists_run {source rest : List Char} {segments : List Segment} {p : Cursor}
    (short : source.length + 1 < UInt64.size) (cut : Segmentation rest segments)
    (head : p.phase = .head) (left : source.drop p.current = rest)
    (below : p.line ≤ 1 + p.current) :
    ∃ points last, Run source p points last ∧
      last.tokens = p.tokens ++ (findings Segment.tokenOn? p.line segments ++
        [.endOfInput (p.line + rest.count '\n')]) ∧
      last.faults = p.faults ++ findings Segment.faultOn? p.line segments := by
  -- The induction is on the segmentation, the cursor at the start of a segment each time.
  induction cut generalizing p with
  | nil =>
    have finished : p.step source =
        .ok { p with phase := .done, tokens := p.tokens ++ [.endOfInput p.line] } := by
      simp only [step, head]
      exact if_neg (Nat.not_lt.2 (List.drop_eq_nil_iff.1 left))
    exact ⟨_, _, .step (by simp [head]) finished (.done rfl), rfl, (List.append_nil _).symm⟩
  | @cons segment rest segments wellFormed ends tail ih =>
    have reaches := reaches_behind short head wellFormed ends left below
    have behindLeft : source.drop (p.behind segment).current = rest := by
      change source.drop (p.current + segment.text.length) = rest
      rw [← List.drop_drop, left, List.drop_left]
    obtain ⟨points, last, run, tokens, faults⟩ := ih rfl behindLeft (line_behind_le below)
    obtain ⟨others, whole⟩ := Run.of_reaches reaches run
    refine ⟨others, last, whole, ?_, ?_⟩
    · rw [tokens, findings, List.count_append, ← Nat.add_assoc, List.append_assoc]
      exact List.append_assoc ..
    · rw [faults, findings]
      exact List.append_assoc ..

end Cursor

/-- On a source whose length is a machine word with room, the cursor has one run. It finds
what a scan finds, every index, slice and counter on the way is in bounds and no action
fails, and each segment moves the cursor, so that there are no more segments than characters. -/
theorem cursor_run_safe (source : String) (short : source.toList.length + 1 < UInt64.size) :
    ∃ points last,
      (∀ others final, Cursor.Run source.toList {} others final ↔ others = points ∧ final = last) ∧
      Scanned.mk last.tokens last.faults = scan source ∧
      (∀ p ∈ points, p.Safe source.toList.length ∧ ∃ q, p.step source.toList = .ok q) ∧
      (points.Pairwise fun p q => p.phase = .first → q.phase = .head → p.current < q.current) ∧
      points.countP (·.phase = .first) ≤ source.toList.length := by
  obtain ⟨segments, cut⟩ := exists_segmentation source.toList
  obtain ⟨points, last, run, tokens, faults⟩ :=
    Cursor.exists_run (p := {}) short cut rfl (List.drop_zero ..) (Nat.le_refl 1)
  have safe := Cursor.safe_initial source.toList.length
  refine ⟨points, last, ?_, ?_, ?_, run.pairwise_lt short safe, ?_⟩
  · intro others final
    constructor
    · exact run.unique
    · rintro ⟨rfl, rfl⟩
      exact run
  · rw [cut.scan_eq, tokens, faults]
    rfl
  · intro p member
    obtain ⟨bounds, -⟩ := run.forall_safe short safe p member
    obtain ⟨q, stepped, -⟩ := Cursor.step_leads short bounds
    exact ⟨bounds, q, stepped⟩
  · exact Nat.le_of_add_right_le (run.countP_first_le short safe)

theorem cursor_run_safe_open_string :
    "x\n\"\n".toList.length + 1 < UInt64.size ∧
      ∃ points last, Cursor.Run "x\n\"\n".toList {} points last ∧
        last.tokens = [⟨.identifier, "x", 1⟩, .endOfInput 3] ∧
        last.faults = [⟨.unterminatedString, 3⟩] ∧ (∀ p ∈ points, p.current ≤ 4) ∧
        points.countP (·.phase = .first) ≤ 4 := by
  have short : "x\n\"\n".toList.length + 1 < UInt64.size := by decide
  have found : scan "x\n\"\n" =
      ⟨[⟨.identifier, "x", 1⟩, .endOfInput 3], [⟨.unterminatedString, 3⟩]⟩ := by decide +kernel
  obtain ⟨points, last, only, same, safe, -, count⟩ := cursor_run_safe _ short
  rw [found, Scanned.mk.injEq] at same
  exact ⟨short, points, last, (only points last).2 ⟨rfl, rfl⟩, same.1, same.2,
    fun p member => (safe p member).1.current_le, count⟩

end ScriptLexer
