import ScriptLexer.Proofs.Lexeme

/-! Longest match. A reader that knows the lexical grammar and nothing of segments
removes the longest prefix it can name, over and over; a prefix that it cannot
name is a fault. The main statement is that a scan finds what this reader finds. -/
namespace ScriptLexer

/-- The texts that are removed as a whole. A lexeme is removed with its meaning,
a blank or a comment without one. -/
inductive Removable : Option Meaning → List Char → Prop
  | lexeme {meaning : Meaning} {text : List Char} (lexeme : Lexeme meaning text) :
      Removable (some meaning) text
  | blank {c : Char} (blank : c ∈ [' ', '\t', '\r', '\n']) : Removable none [c]
  | comment {body : List Char} (line : '\n' ∉ body) : Removable none ('/' :: '/' :: body)

structure Longest (source : List Char) (found : Option Meaning) (text rest : List Char) : Prop where
  removable : Removable found text
  source_eq : source = text ++ rest
  maximal : ∀ other longer, Removable other longer → longer <+: source →
    longer.length ≤ text.length

def Stuck (source : List Char) : Prop :=
  ∀ found text, Removable found text → ¬text <+: source

/-- What a token says apart from its place. -/
structure Content where
  kind : Kind
  lexeme : String
  literal? : Option Literal
  deriving DecidableEq

def Meaning.content (text : List Char) (meaning : Meaning) : Content :=
  ⟨meaning.kind, String.ofList text, meaning.literal?⟩

def Token.content (t : Token) : Content := ⟨t.kind, t.lexeme, t.literal?⟩

inductive LongestMatch : List Char → List Content → List Cause → Prop
  | done : LongestMatch [] [] []
  | removed {source text rest : List Char} {found : Option Meaning} {contents : List Content}
      {causes : List Cause} (longest : Longest source found text rest)
      (tail : LongestMatch rest contents causes) :
      LongestMatch source ((found.map (Meaning.content text)).toList ++ contents) causes
  | unterminated {rest : List Char} (stuck : Stuck ('"' :: rest)) :
      LongestMatch ('"' :: rest) [] [.unterminatedString]
  | unexpected {c : Char} {rest : List Char} {contents : List Content} {causes : List Cause}
      (stuck : Stuck (c :: rest)) (notQuote : c ≠ '"') (tail : LongestMatch rest contents causes) :
      LongestMatch (c :: rest) contents (.unexpectedCharacter c :: causes)

theorem removable_iff {found : Option Meaning} {text : List Char} :
    Removable found text ↔
      ∃ segment : Segment, segment.WellFormed ∧ segment.cause? = none ∧
        segment.meaning? = found ∧ segment.text = text := by
  constructor
  · intro removable
    cases removable with
    | lexeme lexeme =>
      obtain ⟨segment, wellFormed, means, spelled⟩ := lexeme_iff.1 lexeme
      refine ⟨segment, wellFormed, ?_, means, spelled⟩
      cases segment <;> first | rfl | contradiction
    | @blank c blank => exact ⟨.blank c, isWhitespace_iff.2 blank, rfl, rfl, rfl⟩
    | comment line => exact ⟨.comment _, line, rfl, rfl, rfl⟩
  · rintro ⟨segment, wellFormed, sound, rfl, rfl⟩
    cases segment with
    | blank c => exact .blank (isWhitespace_iff.1 wellFormed)
    | comment body => exact .comment wellFormed
    | unexpected | unterminated => contradiction
    | symbol | word | number | string => exact .lexeme (lexeme_iff.2 ⟨_, wellFormed, rfl, rfl⟩)

theorem Removable.text_ne_nil {found : Option Meaning} {text : List Char}
    (removable : Removable found text) : text ≠ [] := by
  obtain ⟨segment, wellFormed, -, -, rfl⟩ := removable_iff.1 removable
  exact wellFormed.text_ne_nil

/-- No text has two meanings. -/
theorem Removable.unique {found other : Option Meaning} {text : List Char}
    (a : Removable found text) (b : Removable other text) : found = other := by
  obtain ⟨first, shapeA, -, rfl, spelledA⟩ := removable_iff.1 a
  obtain ⟨second, shapeB, -, rfl, spelledB⟩ := removable_iff.1 b
  have same := Segment.append_unique shapeA first.ends_nil shapeB second.ends_nil
    (by rw [spelledA, spelledB])
  rw [same.1]

theorem Longest.unique {source text rest other left : List Char} {found means : Option Meaning}
    (a : Longest source found text rest) (b : Longest source means other left) :
    found = means ∧ text = other ∧ rest = left := by
  have startsA : text <+: source := ⟨rest, a.source_eq.symm⟩
  have startsB : other <+: source := ⟨left, b.source_eq.symm⟩
  have lengths : text.length = other.length :=
    Nat.le_antisymm (b.maximal _ _ a.removable startsA) (a.maximal _ _ b.removable startsB)
  obtain ⟨rfl, rfl⟩ := List.append_inj (a.source_eq.symm.trans b.source_eq) lengths
  exact ⟨a.removable.unique b.removable, rfl, rfl⟩

theorem Longest.not_stuck {source text rest : List Char} {found : Option Meaning}
    (longest : Longest source found text rest) : ¬Stuck source := by
  intro stuck
  exact stuck found text longest.removable ⟨rest, longest.source_eq.symm⟩

theorem LongestMatch.unique {source : List Char} {contents others : List Content}
    {causes faults : List Cause} (a : LongestMatch source contents causes)
    (b : LongestMatch source others faults) : contents = others ∧ causes = faults := by
  induction a generalizing others faults with
  | done =>
    cases b with
    | done => exact ⟨rfl, rfl⟩
    | removed longest tail =>
      have empty := (List.append_eq_nil_iff.1 longest.source_eq.symm).1
      exact absurd empty longest.removable.text_ne_nil
  | removed longest tail ih =>
    cases b with
    | done =>
      have empty := (List.append_eq_nil_iff.1 longest.source_eq.symm).1
      exact absurd empty longest.removable.text_ne_nil
    | removed other rest =>
      obtain ⟨rfl, rfl, rfl⟩ := longest.unique other
      obtain ⟨rfl, rfl⟩ := ih rest
      exact ⟨rfl, rfl⟩
    | unterminated stuck => exact absurd stuck longest.not_stuck
    | unexpected stuck => exact absurd stuck longest.not_stuck
  | unterminated stuck =>
    cases b with
    | removed longest => exact absurd stuck longest.not_stuck
    | unterminated => exact ⟨rfl, rfl⟩
    | unexpected _ notQuote => exact absurd rfl notQuote
  | unexpected stuck notQuote tail ih =>
    cases b with
    | removed longest => exact absurd stuck longest.not_stuck
    | unterminated => exact absurd rfl notQuote
    | unexpected _ _ rest =>
      obtain ⟨rfl, rfl⟩ := ih rest
      exact ⟨rfl, rfl⟩

namespace Segment

theorem longest {segment : Segment} {rest : List Char} (wellFormed : segment.WellFormed)
    (ends : segment.Ends rest) (sound : segment.cause? = none) :
    Longest (segment.text ++ rest) segment.meaning? segment.text rest := by
  refine ⟨removable_iff.2 ⟨segment, wellFormed, sound, rfl, rfl⟩, rfl, ?_⟩
  intro found longer removable starts
  obtain ⟨other, shape, -, -, rfl⟩ := removable_iff.1 removable
  exact not_longer wellFormed ends shape starts

/-- A text is stuck if all its prefixes are texts of faults. -/
theorem stuck_of_faults {source : List Char}
    (faults : ∀ text, text <+: source → text ≠ [] → ∃ (fault : Segment) (more : List Char),
      fault.WellFormed ∧ fault.Ends more ∧ fault.cause?.isSome ∧ fault.text ++ more = text) :
    Stuck source := by
  intro found text removable starts
  obtain ⟨segment, wellFormed, sound, -, rfl⟩ := removable_iff.1 removable
  obtain ⟨fault, more, shape, ends, cause, spelled⟩ := faults _ starts wellFormed.text_ne_nil
  have same := append_unique shape ends wellFormed segment.ends_nil (by rw [spelled, List.append_nil])
  rw [same.1, sound] at cause
  contradiction

theorem stuck_unexpected {c : Char} {rest : List Char} (stray : isStray c = true) :
    Stuck (c :: rest) := by
  apply stuck_of_faults
  rintro text starts nonempty
  obtain ⟨d, more, rfl⟩ := List.exists_cons_of_ne_nil nonempty
  obtain ⟨rfl, -⟩ := List.cons_prefix_cons.1 starts
  exact ⟨.unexpected d, more, stray, trivial, rfl, rfl⟩

theorem stuck_unterminated {body : List Char} (opened : '"' ∉ body) : Stuck ('"' :: body) := by
  apply stuck_of_faults
  rintro text starts nonempty
  obtain ⟨d, more, rfl⟩ := List.exists_cons_of_ne_nil nonempty
  obtain ⟨rfl, inner⟩ := List.cons_prefix_cons.1 starts
  have opened : '"' ∉ more := by
    intro member
    exact opened (inner.subset member)
  exact ⟨.unterminated more, [], opened, rfl, rfl, List.append_nil _⟩

def content? (segment : Segment) : Option Content :=
  segment.meaning?.map (Meaning.content segment.text)

end Segment

theorem Segmentation.longestMatch {source : List Char} {segments : List Segment}
    (cut : Segmentation source segments) :
    LongestMatch source (segments.filterMap Segment.content?)
      (segments.filterMap Segment.cause?) := by
  induction cut with
  | nil => exact .done
  | @cons segment rest segments wellFormed ends tail ih =>
    cases segment with
    | unexpected c =>
      have notQuote : c ≠ '"' := by
        rintro rfl
        contradiction
      exact .unexpected (Segment.stuck_unexpected wellFormed) notQuote ih
    | unterminated body =>
      -- An open string runs to the end of the source, so no segment follows it.
      cases ends
      obtain rfl := tail.unique .nil
      rw [Segment.text, List.append_nil]
      exact .unterminated (Segment.stuck_unterminated wellFormed)
    | _ => exact .removed (Segment.longest wellFormed ends rfl) ih

theorem Placed.token?_content (p : Placed) :
    p.token?.map Token.content = p.segment.content? := by
  rw [p.token?_eq, Option.map_map]
  rfl

namespace Segmentation

variable {source : String} {segments : List Segment}

/-- The tokens of a scan, told without their places. -/
theorem map_content (cut : Segmentation source.toList segments) :
    (scan source).tokens.map Token.content =
      segments.filterMap Segment.content? ++ [⟨.endOfInput, "", none⟩] := by
  have placed : ScriptLexer.segments source = place .start segments := cut.segmentsFrom_eq .start
  rw [scan, List.map_append, List.map_filterMap, placed, filterMap_place Placed.token?_content]
  rfl

theorem map_cause (cut : Segmentation source.toList segments) :
    (scan source).faults.map Fault.cause = segments.filterMap Segment.cause? := by
  have placed : ScriptLexer.segments source = place .start segments := cut.segmentsFrom_eq .start
  rw [scan, List.map_filterMap, placed, filterMap_place Placed.fault?_cause]

end Segmentation

/-- The longest match reads every source in one way, and a scan finds just that,
with the end of input behind it. -/
theorem scan_longestMatch (source : String) :
    ∃ contents : List Content,
      (scan source).tokens.map Token.content = contents ++ [⟨.endOfInput, "", none⟩] ∧
        ∀ others causes, LongestMatch source.toList others causes ↔
          others = contents ∧ causes = (scan source).faults.map Fault.cause := by
  obtain ⟨found, cut⟩ := exists_segmentation source.toList
  refine ⟨_, cut.map_content, ?_⟩
  intro others causes
  rw [cut.map_cause]
  constructor
  · intro reads
    exact reads.unique cut.longestMatch
  · rintro ⟨rfl, rfl⟩
    exact cut.longestMatch

end ScriptLexer
