import ScriptLexer.Proofs.LongestMatch
import ScriptLexer.Proofs.Modes

/-! Continuations: sources with more text behind them. A segment still ends where it
did if the text that is behind it now is milder than the text that was. The main
statements are that more text can change the last two tokens only, and that a line
break keeps what is before it and behind it apart. -/
namespace ScriptLexer

/-- The other text starts with a blank or as the first one does, so it goes on with
no segment that can end in front of the first. -/
structure Milder (rest other : List Char) : Prop where
  first : ∀ c ∈ other.head?, c.isWhitespace = true ∨ c ∈ rest.head?
  line : (∀ c ∈ rest.head?, c = '\n') → ∀ c ∈ other.head?, c = '\n'
  fraction : ∀ c tail, other = '.' :: c :: tail → c.isDigit = true → ∃ more, rest = '.' :: c :: more

namespace Milder

variable {rest other : List Char}

/-- A class of characters that are no blanks is refused where it was refused before. -/
theorem head_outside {p : Char → Bool} (milder : Milder rest other)
    (noBlank : ∀ c, c.isWhitespace = true → p c = false) (stop : ∀ c ∈ rest.head?, p c = false) :
    ∀ c ∈ other.head?, p c = false := by
  intro c found
  rcases milder.first c found with blank | shared
  · exact noBlank c blank
  · exact stop c shared

theorem head_ne {c : Char} (milder : Milder rest other) (notBlank : c.isWhitespace = false)
    (different : rest.head? ≠ some c) : other.head? ≠ some c := by
  intro same
  rcases milder.first c same with blank | shared
  · simp [blank] at notBlank
  · exact different shared

/-- Behind a text that both share, only the first characters make a difference. -/
theorem append_first {text : List Char} (nonempty : text ≠ [])
    (first : ∀ c ∈ other.head?, c.isWhitespace = true ∨ c ∈ rest.head?) :
    Milder (text ++ rest) (text ++ other) := by
  obtain ⟨c, tail, rfl⟩ := List.exists_cons_of_ne_nil nonempty
  refine ⟨fun d same => .inr same, fun line => line, ?_⟩
  intro d left same digit
  obtain ⟨rfl, behind⟩ := List.cons.inj same
  cases tail with
  | nil =>
    -- The digit behind a lone point comes from the other text.
    have found : d ∈ other.head? := by
      change other = d :: left at behind
      simp [behind]
    rcases first d found with blank | shared
    · simp [isDigit_of_isWhitespace blank] at digit
    · obtain ⟨more, rfl⟩ := List.head?_eq_some_iff.1 shared
      exact ⟨more, rfl⟩
  | cons e tail =>
    obtain ⟨rfl, -⟩ := List.cons.inj behind
    exact ⟨tail ++ rest, rfl⟩

theorem append (milder : Milder rest other) (text : List Char) :
    Milder (text ++ rest) (text ++ other) := by
  by_cases empty : text = []
  · rwa [empty]
  · exact append_first empty milder.first

/-- No segment looks further than two characters. -/
theorem of_two {text : List Char} (long : 2 ≤ text.length) (more : List Char) :
    Milder text (text ++ more) := by
  match text, long with
  | c :: d :: tail, _ =>
    refine ⟨fun e same => .inr same, fun line => line, ?_⟩
    intro e left same _
    obtain ⟨rfl, behind⟩ := List.cons.inj same
    obtain ⟨rfl, -⟩ := List.cons.inj behind
    exact ⟨tail, rfl⟩

/-- A text that starts with a line break, or not at all, goes on with nothing. -/
theorem of_line (line : ∀ c ∈ other.head?, c = '\n') : Milder rest other := by
  refine ⟨?_, fun _ => line, ?_⟩
  · intro c found
    rw [line c found]
    exact .inl rfl
  · rintro c tail rfl -
    exact absurd (line '.' rfl) (by decide)

/-- A blank goes on with nothing but a comment. -/
theorem of_blank {c d : Char} {tail more : List Char} (blank : d.isWhitespace = true)
    (noLine : c ≠ '\n') : Milder (c :: tail) (d :: more) := by
  refine ⟨?_, ?_, ?_⟩
  · intro e same
    obtain rfl : d = e := Option.some.inj same
    exact .inl blank
  · intro line
    exact absurd (line c rfl) noLine
  · intro e left same _
    obtain ⟨rfl, -⟩ := List.cons.inj same
    contradiction

theorem line_break (text more : List Char) : Milder text (text ++ '\n' :: more) := by
  have behind : Milder [] ('\n' :: more) := of_line (by simp)
  simpa using behind.append text

end Milder

/-- A closed segment ends in front of a milder text as well. -/
theorem Segment.Ends.of_milder {segment : Segment} {rest other : List Char}
    (ends : segment.Ends rest) (milder : Milder rest other)
    (opened : segment.cause? = some .unterminatedString → rest = [] → other = []) :
    segment.Ends other := by
  cases segment with
  | blank | string | unexpected => trivial
  | comment body => exact milder.line ends
  | symbol s =>
    constructor
    · intro wide
      exact milder.head_ne (by decide) (ends.1 wide)
    · intro slash
      exact milder.head_ne (by decide) (ends.2 slash)
  | word letters => exact milder.head_outside (fun c => isWordPart_of_isWhitespace) ends
  | number numeral =>
    refine ⟨milder.head_outside (fun c => isDigit_of_isWhitespace) ends.1, ?_⟩
    intro whole c tail same
    by_contra digit
    rw [Bool.not_eq_false] at digit
    obtain ⟨more, same⟩ := milder.fraction c tail same digit
    simp [ends.2 whole c more same] at digit
  | unterminated body => exact opened rfl ends

namespace Segmentation

variable {source : List Char} {segments : List Segment}

/-- More text behind a source can change no more than its last two segments. -/
theorem exists_stable (cut : Segmentation source segments) (more : List Char) :
    ∃ front back others, segments = front ++ back ∧ back.length ≤ 2 ∧
      Segmentation (source ++ more) (front ++ others) := by
  induction cut with
  | nil =>
    obtain ⟨others, whole⟩ := exists_segmentation more
    exact ⟨[], [], others, rfl, Nat.zero_le 2, whole⟩
  | @cons segment rest segments wellFormed ends tail ih =>
    by_cases long : 2 ≤ rest.length
    · obtain ⟨front, back, others, rfl, short, whole⟩ := ih
      have nonempty : rest ≠ [] := by
        rintro rfl
        contradiction
      have stays : segment.Ends (rest ++ more) :=
        ends.of_milder (.of_two long more) fun _ empty => absurd empty nonempty
      refine ⟨segment :: front, back, others, rfl, short, ?_⟩
      rw [List.append_assoc]
      exact .cons wellFormed stays whole
    · obtain ⟨others, whole⟩ := exists_segmentation (segment.text ++ rest ++ more)
      have few := tail.length_le
      refine ⟨[], segment :: segments, others, rfl, ?_, whole⟩
      rw [List.length_cons]
      omega

/-- Segments stay in front of another text that goes on with none of them. -/
theorem change_tail {front back others : List Segment} {other : List Char}
    (cut : Segmentation source (front ++ back)) (milder : Milder (back.flatMap Segment.text) other)
    (opened : ∀ segment ∈ front, segment.cause? = some .unterminatedString →
      back.flatMap Segment.text = [] → other = [])
    (tail : Segmentation other others) :
    Segmentation (front.flatMap Segment.text ++ other) (front ++ others) := by
  induction front generalizing source with
  | nil => exact tail
  | cons segment front ih =>
    obtain ⟨first, opened⟩ := List.forall_mem_cons.1 opened
    cases cut with
    | @cons _ rest _ wellFormed ends inner =>
      have behind : rest = front.flatMap Segment.text ++ back.flatMap Segment.text := by
        rw [← List.flatMap_append]
        exact inner.flatMap_text.symm
      have stays : segment.Ends (front.flatMap Segment.text ++ other) := by
        rw [behind] at ends
        refine ends.of_milder (milder.append _) ?_
        intro cause nothing
        obtain ⟨none, empty⟩ := List.append_eq_nil_iff.1 nothing
        rw [none, first cause empty, List.append_nil]
      rw [List.flatMap_cons, List.append_assoc]
      exact .cons wellFormed stays (ih inner opened)

/-- At a line break segments keep apart, if no string is open there. -/
theorem append_line {next : List Char} {others : List Segment} (cut : Segmentation source segments)
    (closed : ∀ segment ∈ segments, segment.cause? ≠ some .unterminatedString)
    (after : Segmentation next others) :
    Segmentation (source ++ '\n' :: next) (segments ++ .blank '\n' :: others) := by
  have shape : (Segment.blank '\n').WellFormed := rfl
  rw [← List.append_nil segments] at cut
  have whole := cut.change_tail (.line_break [] next)
    (fun segment member opened => absurd opened (closed segment member)) (.cons shape trivial after)
  rwa [← cut.flatMap_text, List.append_nil]

end Segmentation

/-- More text behind a source leaves all but its last two tokens as they are, and
every unexpected character. -/
theorem scan_append_stable (a b : String) :
    ∃ tokens line, (scan a).tokens = tokens ++ [.endOfInput line] ∧
      tokens.take (tokens.length - 2) <+: (scan (a ++ b)).tokens ∧
      (scan a).faults.filter (·.cause.isUnexpected) <+: (scan (a ++ b)).faults := by
  obtain ⟨segments, cut⟩ := exists_segmentation a.toList
  obtain ⟨front, back, others, rfl, short, whole⟩ := cut.exists_stable b.toList
  rw [← String.toList_append] at whole
  refine ⟨findings Segment.tokenOn? 1 (front ++ back), 1 + a.toList.count '\n', ?_, ?_, ?_⟩
  · rw [cut.scan_eq]
  · have few : (findings Segment.tokenOn? (1 + (front.flatMap Segment.text).count '\n') back).length ≤ 2 :=
      (length_findings_le _ back).trans short
    rw [whole.scan_eq, findings_append, findings_append, List.append_assoc, List.take_append_of_le_length]
    · exact (List.take_prefix _ _).trans (List.prefix_append _ _)
    · rw [List.length_append]
      omega
  · rw [filter_isUnexpected_faults, scan_faults_eq, String.toList_append, straysBehind_append,
      List.append_assoc]
    exact List.prefix_append _ _

theorem Segmentation.closed_of_faults {source : String} {segments : List Segment}
    (cut : Segmentation source.toList segments)
    (closed : ∀ f ∈ (scan source).faults, f.cause ≠ .unterminatedString) :
    ∀ segment ∈ segments, segment.cause? ≠ some .unterminatedString := by
  intro segment member opened
  have cause : .unterminatedString ∈ (scan source).faults.map Fault.cause := by
    rw [cut.map_cause]
    exact List.mem_filterMap.2 ⟨segment, member, opened⟩
  obtain ⟨f, found, same⟩ := List.mem_map.1 cause
  exact closed f found same

/-- Where no string is open, a line break makes two scans of one. -/
theorem scan_append_line (a b : String)
    (closed : ∀ f ∈ (scan a).faults, f.cause ≠ .unterminatedString) :
    ∃ tokens, (scan a).tokens = tokens ++ [.endOfInput (1 + a.toList.count '\n')] ∧
      scan (a ++ "\n" ++ b) =
        ⟨tokens ++ (scan b).tokens.map (.addLines (1 + a.toList.count '\n')),
          (scan a).faults ++ (scan b).faults.map (.addLines (1 + a.toList.count '\n'))⟩ := by
  obtain ⟨segments, cut⟩ := exists_segmentation a.toList
  obtain ⟨others, after⟩ := exists_segmentation b.toList
  have whole : Segmentation (a ++ "\n" ++ b).toList (segments ++ .blank '\n' :: others) := by
    simpa using cut.append_line (cut.closed_of_faults closed) after
  have tokens := findings_add (Segment.tokenOn?_add (1 + a.toList.count '\n')) 1 others
  have faults := findings_add (Segment.faultOn?_add (1 + a.toList.count '\n')) 1 others
  have lines : 1 + (a ++ "\n" ++ b).toList.count '\n' =
      1 + b.toList.count '\n' + (1 + a.toList.count '\n') := by
    have lineFeed : "\n".toList.count '\n' = 1 := by decide
    rw [String.toList_append, String.toList_append, List.count_append, List.count_append, lineFeed]
    omega
  refine ⟨findings Segment.tokenOn? 1 segments, ?_, ?_⟩
  · rw [cut.scan_eq]
  · rw [whole.scan_eq, cut.scan_eq, after.scan_eq, findings_append, findings_append,
      cut.flatMap_text, List.map_append, ← tokens, ← faults, Nat.add_comm 1 (1 + _), lines,
      List.append_assoc]
    -- The line break itself is seen as nothing but one line more.
    rfl

theorem scan_append_line_behind_comment :
    (∀ f ∈ (scan "x // \"").faults, f.cause ≠ .unterminatedString) ∧
      ∃ tokens, (scan "x // \"").tokens = tokens ++ [.endOfInput 1] ∧
        scan ("x // \"" ++ "\n" ++ "@ \"") =
          ⟨tokens ++ (scan "@ \"").tokens.map (.addLines 1),
            (scan "x // \"").faults ++ (scan "@ \"").faults.map (.addLines 1)⟩ := by
  have closed : ∀ f ∈ (scan "x // \"").faults, f.cause ≠ .unterminatedString := by
    rw [scan_faults_eq]
    decide
  exact ⟨closed, scan_append_line _ _ closed⟩

end ScriptLexer
