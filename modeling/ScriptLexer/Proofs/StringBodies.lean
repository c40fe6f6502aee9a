import ScriptLexer.Proofs.Continuation
import Mathlib.Data.List.Forall2

/-! String bodies: a scan reads nothing in a string but its line feeds. The main
statement is that another body in the same place, of any length, leaves all that is in
front of the string as it is, and moves what is behind it by whole lines. -/
namespace ScriptLexer

/-- The other token is the same, some lines further down, or up if that is negative. -/
structure Token.Moved (lines : ℤ) (t other : Token) : Prop where
  meaning : other.meaning = t.meaning
  lexeme : other.lexeme = t.lexeme
  line : (other.line : ℤ) = t.line + lines

structure Fault.Moved (lines : ℤ) (f other : Fault) : Prop where
  cause : other.cause = f.cause
  line : (other.line : ℤ) = f.line + lines

/-- The source in which a string has this body, with the texts around it. -/
def quoteBetween (before body after : List Char) : String :=
  String.ofList (before ++ '"' :: (body ++ '"' :: after))

theorem toList_quoteBetween (before body after : List Char) :
    (quoteBetween before body after).toList = before ++ '"' :: (body ++ '"' :: after) :=
  String.toList_ofList

/-! ### Places -/

theorem place_eq_append_cons {position start : Position} {segments : List Segment}
    {segment : Segment} {before after : List Placed}
    (split : place position segments = before ++ ⟨start, segment⟩ :: after) :
    ∃ front back, segments = front ++ segment :: back ∧ before = place position front ∧
      start = position.after (front.flatMap Segment.text) ∧
      after = place (start.after segment.text) back := by
  induction before generalizing position segments with
  | nil =>
    cases segments with
    | nil => contradiction
    | cons first segments =>
      obtain ⟨⟨⟩, rfl⟩ := List.cons.inj split
      exact ⟨[], segments, rfl, rfl, rfl, rfl⟩
  | cons p before ih =>
    cases segments with
    | nil => contradiction
    | cons first segments =>
      obtain ⟨rfl, inner⟩ := List.cons.inj split
      obtain ⟨front, back, rfl, rfl, started, behind⟩ := ih inner
      refine ⟨first :: front, back, rfl, rfl, ?_, behind⟩
      rw [started, List.flatMap_cons, Position.after_append]

/-- A token but the last stands in some place, with the earlier ones in front. -/
theorem exists_place_of_tokens {source : String} {earlier later : List Token} {t : Token}
    (split : (scan source).tokens = earlier ++ t :: later) (inside : t.kind ≠ .endOfInput) :
    ∃ before p after, segments source = before ++ p :: after ∧
      before.filterMap Placed.token? = earlier ∧ p.token? = some t := by
  have last (line : Nat) (same : Token.endOfInput line = t) : False := by
    subst same
    exact inside rfl
  rw [scan_eq, List.append_eq_append_iff] at split
  rcases split with ⟨more, -, tail⟩ | ⟨more, found, tail⟩
  · cases more with
    | nil => exact (last _ (List.cons.inj tail).1).elim
    | cons u more => simp at tail
  · cases more with
    | nil => exact (last _ (List.cons.inj tail).1.symm).elim
    | cons u more =>
      obtain ⟨rfl, rfl⟩ := List.cons.inj tail
      obtain ⟨before, rest, places, early, behind⟩ := List.filterMap_eq_append_iff.1 found
      obtain ⟨silent, p, after, rfl, none, token, -⟩ := List.filterMap_eq_cons_iff.1 behind
      refine ⟨before ++ silent, p, after, ?_, ?_, token⟩
      · rw [List.append_assoc]
        exact places
      · rw [List.filterMap_append, early, List.filterMap_eq_nil_iff.2 none, List.append_nil]

theorem exists_string_of_token? {p : Placed} {t : Token} (token : p.token? = some t)
    (string : t.kind = .string) : ∃ start body, p = ⟨start, .string body⟩ := by
  obtain ⟨start, segment⟩ := p
  cases segment with
  | string body => exact ⟨start, body, rfl⟩
  | word letters =>
    obtain rfl := Option.some.inj token
    change (Meaning.kind (Option.elim _ _ _)) = _ at string
    cases found : Keyword.ofSpelling? (String.ofList letters) <;> rw [found] at string <;> contradiction
  | symbol | number =>
    obtain rfl := Option.some.inj token
    contradiction
  | blank | comment | unexpected | unterminated => contradiction

/-! ### Segments -/

theorem Milder.of_quote (a b : List Char) : Milder ('"' :: a) ('"' :: b) := by
  refine ⟨fun c found => .inr found, fun line => line, ?_⟩
  intro c tail same
  exact absurd (List.cons.inj same).1 (by decide)

theorem Segmentation.replace_string {source body other : List Char} {front back : List Segment}
    (cut : Segmentation source (front ++ .string body :: back)) (unquoted : '"' ∉ other) :
    Segmentation (front.flatMap Segment.text ++ '"' :: (other ++ '"' :: back.flatMap Segment.text))
      (front ++ .string other :: back) := by
  have shape : (Segment.string other).WellFormed := unquoted
  have tail := Segmentation.cons shape trivial cut.of_append.of_cons.2.2
  have closed := cut.closed_front
  have whole := cut.change_tail (.of_quote _ _)
    (fun segment member opened => absurd opened (closed segment member)) tail
  simpa [Segment.text] using whole

section Findings

variable (old new line : Nat) (segments : List Segment)

theorem tokens_moved :
    List.Forall₂ (Token.Moved ((new : ℤ) - old)) (findings Segment.tokenOn? (line + old) segments)
      (findings Segment.tokenOn? (line + new) segments) := by
  rw [findings_add (Segment.tokenOn?_add old), findings_add (Segment.tokenOn?_add new),
    List.forall₂_map_left_iff, List.forall₂_map_right_iff, List.forall₂_same]
  intro t _
  refine ⟨rfl, rfl, ?_⟩
  simp only [Token.addLines]
  omega

theorem faults_moved :
    List.Forall₂ (Fault.Moved ((new : ℤ) - old)) (findings Segment.faultOn? (line + old) segments)
      (findings Segment.faultOn? (line + new) segments) := by
  rw [findings_add (Segment.faultOn?_add old), findings_add (Segment.faultOn?_add new),
    List.forall₂_map_left_iff, List.forall₂_map_right_iff, List.forall₂_same]
  intro f _
  refine ⟨rfl, ?_⟩
  simp only [Fault.addLines]
  omega

end Findings

/-- A scan around a string: what is found behind it depends on its body by lines only. -/
theorem Segmentation.scan_string {source : String} {body : List Char} {front back : List Segment}
    (cut : Segmentation source.toList (front ++ .string body :: back)) {line : Nat}
    (starts : line = 1 + (front.flatMap Segment.text).count '\n') :
    scan source =
      ⟨findings Segment.tokenOn? 1 front ++
          .string (String.ofList ('"' :: (body ++ ['"']))) (String.ofList body) line ::
            (findings Segment.tokenOn? (line + body.count '\n') back ++
              [.endOfInput (line + (back.flatMap Segment.text).count '\n' + body.count '\n')]),
        findings Segment.faultOn? 1 front ++
          findings Segment.faultOn? (line + body.count '\n') back⟩ := by
  have lines : (Segment.string body).text.count '\n' = body.count '\n' := by
    simp [Segment.text]
  have whole : 1 + source.toList.count '\n' =
      line + (back.flatMap Segment.text).count '\n' + body.count '\n' := by
    rw [← cut.flatMap_text, List.flatMap_append, List.flatMap_cons, List.count_append,
      List.count_append, lines]
    omega
  rw [cut.scan_eq, findings_append, findings_append, findings, findings, lines, whole, ← starts,
    List.append_assoc]
  rfl

/-- Where a string token stands: the segments around it, and its line. -/
theorem exists_segmentation_of_string {source : String} {earlier later : List Token} {t : Token}
    (split : (scan source).tokens = earlier ++ t :: later) (string : t.kind = .string) :
    ∃ front start body back, Segmentation source.toList (front ++ .string body :: back) ∧
      segments source = place .start front ++ ⟨start, .string body⟩ ::
        place (start.after (Segment.string body).text) back ∧
      findings Segment.tokenOn? 1 front = earlier ∧ (Placed.mk start (.string body)).token? = some t ∧
      start.line = 1 + (front.flatMap Segment.text).count '\n' := by
  obtain ⟨before, p, after, places, early, token⟩ :=
    exists_place_of_tokens split (by simp [string])
  obtain ⟨start, body, rfl⟩ := exists_string_of_token? token string
  obtain ⟨found, cut⟩ := exists_segmentation source.toList
  obtain ⟨front, back, rfl, rfl, started, rfl⟩ :=
    place_eq_append_cons ((cut.segmentsFrom_eq .start).symm.trans places)
  rw [filterMap_place_line Placed.token?_line] at early
  exact ⟨front, start, body, back, cut, places, early, token, congrArg Position.line started⟩

/-- Whatever stands between its quotes is the value of a string token, and nothing else that a
scan finds depends on it: in front of the string all is found as before, and what is behind moves
by the line feeds of the other body less those of this one. -/
theorem scan_string_opaque (source : String) {earlier later : List Token} {t : Token}
    (split : (scan source).tokens = earlier ++ t :: later) (string : t.kind = .string) :
    ∃ before start body after, segments source = before ++ ⟨start, .string body⟩ :: after ∧
      before.filterMap Placed.token? = earlier ∧ (Placed.mk start (.string body)).token? = some t ∧
      source = quoteBetween (before.flatMap Placed.text) body (after.flatMap Placed.text) ∧
      (scan source).faults = before.filterMap Placed.fault? ++ after.filterMap Placed.fault? ∧
      ∀ other : List Char, '"' ∉ other → ∃ tokens faults,
        scan (quoteBetween (before.flatMap Placed.text) other (after.flatMap Placed.text)) =
          ⟨earlier ++ .string (String.ofList ('"' :: (other ++ ['"']))) (String.ofList other) t.line ::
              tokens, before.filterMap Placed.fault? ++ faults⟩ ∧
        List.Forall₂ (Token.Moved ((other.count '\n' : ℤ) - body.count '\n')) later tokens ∧
        List.Forall₂ (Fault.Moved ((other.count '\n' : ℤ) - body.count '\n'))
          (after.filterMap Placed.fault?) faults := by
  obtain ⟨front, start, body, back, cut, places, early, token, line⟩ :=
    exists_segmentation_of_string split string
  have behind : (start.after (Segment.string body).text).line = start.line + body.count '\n' := by
    simp [Position.after, Segment.text]
  have text : source = quoteBetween (front.flatMap Segment.text) body (back.flatMap Segment.text) := by
    apply String.toList_injective
    rw [toList_quoteBetween, ← cut.flatMap_text]
    simp [Segment.text]
  have value : t.line = start.line := by
    rw [← Option.some.inj token]
  have original := cut.scan_string line
  rw [original, early] at split
  obtain ⟨-, rfl⟩ := List.cons.inj (List.append_cancel_left split)
  refine ⟨place .start front, start, body, place (start.after (Segment.string body).text) back,
    places, ?_, token, ?_, ?_, ?_⟩
  · rw [filterMap_place_line Placed.token?_line]
    exact early
  · rw [flatMap_text_place, flatMap_text_place, ← text]
  · rw [original, filterMap_place_line Placed.fault?_line, filterMap_place_line Placed.fault?_line,
      behind]
    rfl
  · intro other unquoted
    have whole : Segmentation
        (quoteBetween (front.flatMap Segment.text) other (back.flatMap Segment.text)).toList
        (front ++ .string other :: back) := by
      rw [toList_quoteBetween]
      exact cut.replace_string unquoted
    rw [flatMap_text_place, flatMap_text_place, whole.scan_string line, value,
      filterMap_place_line Placed.fault?_line, filterMap_place_line Placed.fault?_line, behind, early]
    refine ⟨_, _, rfl, ?_, faults_moved _ _ _ _⟩
    refine List.rel_append (tokens_moved _ _ _ _) (.cons ⟨rfl, rfl, ?_⟩ .nil)
    simp only [Token.endOfInput]
    omega

theorem scan_string_opaque_lines :
    ((scan "a\"b\nc\"@d").tokens = [⟨.identifier, "a", 1⟩] ++
        .string "\"b\nc\"" "b\nc" 1 :: [⟨.identifier, "d", 2⟩, .endOfInput 2] ∧
      Token.kind (.string "\"b\nc\"" "b\nc" 1) = .string ∧ '"' ∉ ['/', '/', '@']) ∧
    ∃ before body after tokens faults, "a\"b\nc\"@d" = quoteBetween before body after ∧
      scan (quoteBetween before ['/', '/', '@'] after) =
        ⟨⟨.identifier, "a", 1⟩ :: .string "\"//@\"" "//@" 1 :: tokens, faults⟩ ∧
      List.Forall₂ (Token.Moved ((0 : ℤ) - body.count '\n')) [⟨.identifier, "d", 2⟩, .endOfInput 2]
        tokens := by
  have tokens : (scan "a\"b\nc\"@d").tokens = [⟨.identifier, "a", 1⟩] ++
      .string "\"b\nc\"" "b\nc" 1 :: [⟨.identifier, "d", 2⟩, .endOfInput 2] := by
    decide +kernel
  have unquoted : '"' ∉ ['/', '/', '@'] := by decide
  obtain ⟨before, start, body, after, -, -, -, text, -, replaced⟩ :=
    scan_string_opaque _ tokens rfl
  obtain ⟨found, faults, same, moved, -⟩ := replaced _ unquoted
  exact ⟨⟨tokens, rfl, unquoted⟩, _, body, _, found, _, text, same, moved⟩

end ScriptLexer
