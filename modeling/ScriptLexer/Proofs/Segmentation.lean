import ScriptLexer.Proofs.FirstSegment
import ScriptLexer.Scan

/-! Segmentations: a source cut into segments of their shapes, each of which can
end where the next one starts. A source has exactly one, it does not depend on
any place, and what a scan finds is read off it. -/
namespace ScriptLexer
namespace Segment

theorem WellFormed.text_ne_nil {segment : Segment} (wellFormed : segment.WellFormed) :
    segment.text ≠ [] := by
  cases segment with
  | symbol s => exact s.spelling_ne_nil
  | word letters => exact wellFormed.ne_nil
  | number numeral =>
    simp only [text, Numeral.text]
    split <;> simp [wellFormed.whole_ne_nil]
  | _ => simp [text]

theorem ends_nil (segment : Segment) : segment.Ends [] := by
  cases segment <;> simp [Ends, Symbol.Ends, Numeral.Ends]

/-- Only the text right behind a segment can keep it from ending. -/
theorem Ends.of_append {segment : Segment} {rest more : List Char}
    (ends : segment.Ends (rest ++ more)) : segment.Ends rest := by
  cases rest with
  | nil => exact segment.ends_nil
  | cons c rest =>
    cases segment with
    | number numeral =>
      refine ⟨ends.1, ?_⟩
      intro whole d tail same
      apply ends.2 whole d (tail ++ more)
      rw [same, List.cons_append, List.cons_append]
    | unterminated body => cases ends
    | _ => exact ends

theorem append_unique {a b : Segment} {rest left : List Char} (shapeA : a.WellFormed)
    (endA : a.Ends rest) (shapeB : b.WellFormed) (endB : b.Ends left)
    (same : a.text ++ rest = b.text ++ left) : a = b ∧ rest = left := by
  cases source : a.text ++ rest with
  | nil => exact absurd (List.append_eq_nil_iff.1 source).1 shapeA.text_ne_nil
  | cons first tail =>
    have readA := next_append shapeA endA source
    have readB := next_append shapeB endB (same.symm.trans source)
    exact Prod.mk.inj (readA.symm.trans readB)

/-- A text that a segment ends in front of makes no longer segment with it. -/
theorem not_longer {a b : Segment} {rest : List Char} (shapeA : a.WellFormed) (endA : a.Ends rest)
    (shapeB : b.WellFormed) (starts : b.text <+: a.text ++ rest) :
    b.text.length ≤ a.text.length := by
  by_contra longer
  have inner : a.text <+: b.text :=
    List.prefix_of_prefix_length_le (List.prefix_append _ _) starts (by omega)
  obtain ⟨more, sameB⟩ := inner
  obtain ⟨left, sameRest⟩ := starts
  rw [← sameB, List.append_assoc, List.append_cancel_left_eq] at sameRest
  -- The longer text is read as `b` alone, and as `a` with the rest of it.
  have endMore : a.Ends more := Ends.of_append (sameRest ▸ endA)
  have equal := append_unique shapeA endMore shapeB b.ends_nil (by rw [sameB, List.append_nil])
  rw [equal.2, List.append_nil] at sameB
  exact longer (by rw [sameB])

/-- What a segment means, if it is a lexeme. -/
def meaning? : Segment → Option Meaning
  | symbol s => some (.symbol s)
  | word letters =>
    some ((Keyword.ofSpelling? (String.ofList letters)).elim .identifier .keyword)
  | number numeral => some (.literal (.number numeral.value.toBinary64))
  | string body => some (.literal (.string (String.ofList body)))
  | blank _ | comment _ | unexpected _ | unterminated _ => none

/-- Why a segment is a fault, if it is one. -/
def cause? : Segment → Option Cause
  | unexpected c => some (.unexpectedCharacter c)
  | unterminated _ => some .unterminatedString
  | blank _ | comment _ | symbol _ | word _ | number _ | string _ => none

end Segment

theorem Placed.token?_eq (p : Placed) :
    p.token? = p.segment.meaning?.map fun m => ⟨m, String.ofList p.text, p.start.line⟩ := by
  obtain ⟨start, segment⟩ := p
  cases segment <;> rfl

theorem Placed.fault?_cause (p : Placed) : p.fault?.map Fault.cause = p.segment.cause? := by
  obtain ⟨start, segment⟩ := p
  cases segment <;> rfl

inductive Segmentation : List Char → List Segment → Prop
  | nil : Segmentation [] []
  | cons {segment : Segment} {rest : List Char} {segments : List Segment}
      (wellFormed : segment.WellFormed) (ends : segment.Ends rest)
      (tail : Segmentation rest segments) :
      Segmentation (segment.text ++ rest) (segment :: segments)

theorem exists_first_segment {source : List Char} (nonempty : source ≠ []) :
    ∃ (segment : Segment) (rest : List Char), segment.WellFormed ∧ segment.Ends rest ∧
      segment.text ++ rest = source := by
  obtain ⟨first, tail, rfl⟩ := List.exists_cons_of_ne_nil nonempty
  obtain ⟨wellFormed, ends⟩ := Segment.next_spec first tail
  exact ⟨_, _, wellFormed, ends, Segment.next_text first tail⟩

theorem exists_segmentation (source : List Char) : ∃ segments, Segmentation source segments := by
  match source with
  | [] => exact ⟨[], .nil⟩
  | first :: rest =>
    obtain ⟨segments, tail⟩ := exists_segmentation (Segment.next first rest).2
    obtain ⟨wellFormed, ends⟩ := Segment.next_spec first rest
    refine ⟨(Segment.next first rest).1 :: segments, ?_⟩
    have cut := Segmentation.cons wellFormed ends tail
    rwa [Segment.next_text] at cut
termination_by source.length
decreasing_by exact Segment.next_shorter first rest

/-- Gives each segment the place behind the ones before it. -/
def place (position : Position) : List Segment → List Placed
  | [] => []
  | segment :: segments => ⟨position, segment⟩ :: place (position.after segment.text) segments

theorem map_segment_place (position : Position) (segments : List Segment) :
    (place position segments).map Placed.segment = segments := by
  induction segments generalizing position with
  | nil => rfl
  | cons segment segments ih => rw [place, List.map_cons, ih]

/-- What is seen of segments alone does not depend on where they are placed. -/
theorem filterMap_place {α : Type} {view : Placed → Option α} {read : Segment → Option α}
    (same : ∀ p, view p = read p.segment) (position : Position) (segments : List Segment) :
    (place position segments).filterMap view = segments.filterMap read := by
  induction segments generalizing position with
  | nil => rfl
  | cons segment segments ih => rw [place, List.filterMap_cons, List.filterMap_cons, same, ih]

theorem flatMap_text_place (position : Position) (segments : List Segment) :
    (place position segments).flatMap Placed.text = segments.flatMap Segment.text := by
  induction segments generalizing position with
  | nil => rfl
  | cons segment segments ih => rw [place, List.flatMap_cons, List.flatMap_cons, ih]; rfl

theorem place_append (position : Position) (front back : List Segment) :
    place position (front ++ back) =
      place position front ++ place (position.after (front.flatMap Segment.text)) back := by
  induction front generalizing position with
  | nil => rfl
  | cons segment front ih =>
    rw [List.cons_append, place, place, ih, List.flatMap_cons, Position.after_append]
    rfl

namespace Segmentation

variable {source : List Char} {segments : List Segment}

theorem segmentsFrom_eq (cut : Segmentation source segments) (position : Position) :
    segmentsFrom position source = place position segments := by
  induction cut generalizing position with
  | nil => exact segmentsFrom_nil position
  | @cons segment rest segments wellFormed ends tail ih =>
    cases starts : segment.text ++ rest with
    | nil => exact absurd (List.append_eq_nil_iff.1 starts).1 wellFormed.text_ne_nil
    | cons first left =>
      rw [segmentsFrom_cons, Segment.next_append wellFormed ends starts]
      simp only [place, ih]
      rfl

theorem unique (cut : Segmentation source segments) {others : List Segment}
    (other : Segmentation source others) : segments = others := by
  have same := (cut.segmentsFrom_eq .start).symm.trans (other.segmentsFrom_eq .start)
  rw [← map_segment_place .start segments, same, map_segment_place]

theorem flatMap_text (cut : Segmentation source segments) :
    segments.flatMap Segment.text = source := by
  induction cut with
  | nil => rfl
  | cons wellFormed ends tail ih => rw [List.flatMap_cons, ih]

theorem length_le (cut : Segmentation source segments) : segments.length ≤ source.length := by
  induction cut with
  | nil => exact Nat.le_refl 0
  | cons wellFormed ends tail ih =>
    have nonempty := List.length_pos_iff.2 wellFormed.text_ne_nil
    rw [List.length_cons, List.length_append]
    omega

theorem text_ne_nil (cut : Segmentation source segments) :
    ∀ segment ∈ segments, segment.text ≠ [] := by
  induction cut with
  | nil => simp
  | cons wellFormed ends tail ih => exact List.forall_mem_cons.2 ⟨wellFormed.text_ne_nil, ih⟩

theorem of_cons {segment : Segment} (cut : Segmentation source (segment :: segments)) :
    segment.WellFormed ∧ segment.Ends (segments.flatMap Segment.text) ∧
      Segmentation (segments.flatMap Segment.text) segments := by
  cases cut with
  | cons wellFormed ends tail =>
    rw [tail.flatMap_text]
    exact ⟨wellFormed, ends, tail⟩

theorem of_append {front back : List Segment} (cut : Segmentation source (front ++ back)) :
    Segmentation (back.flatMap Segment.text) back := by
  induction front generalizing source with
  | nil =>
    rw [List.nil_append] at cut
    rwa [cut.flatMap_text]
  | cons segment front ih => exact ih cut.of_cons.2.2

/-- An open string has no segment behind it. -/
theorem closed_front {front back : List Segment} {next : Segment}
    (cut : Segmentation source (front ++ next :: back)) :
    ∀ segment ∈ front, segment.cause? ≠ some .unterminatedString := by
  intro segment member opened
  obtain ⟨before, after, rfl⟩ := List.append_of_mem member
  rw [List.append_assoc, List.cons_append] at cut
  obtain ⟨-, ends, tail⟩ := cut.of_append.of_cons
  have nonempty := tail.of_append.of_cons.1.text_ne_nil
  cases segment with
  | unterminated body =>
    rw [List.flatMap_append, List.flatMap_cons] at ends
    exact nonempty (List.append_eq_nil_iff.1 (List.append_eq_nil_iff.1 ends).2).1
  | _ => simp [Segment.cause?] at opened

theorem place_split (cut : Segmentation source segments) {position : Position} {p : Placed}
    {before after : List Placed} (split : place position segments = before ++ p :: after) :
    p.segment.WellFormed ∧ p.segment.Ends (after.flatMap Placed.text) ∧
      p.start = position.after (before.flatMap Placed.text) := by
  induction before generalizing position source segments with
  | nil =>
    cases cut with
    | nil => contradiction
    | @cons segment rest segments wellFormed ends tail =>
      obtain ⟨rfl, rfl⟩ := List.cons.inj split
      refine ⟨wellFormed, ?_, rfl⟩
      rwa [flatMap_text_place, tail.flatMap_text]
  | cons q before ih =>
    cases cut with
    | nil => contradiction
    | @cons segment rest segments wellFormed ends tail =>
      obtain ⟨rfl, inner⟩ := List.cons.inj split
      obtain ⟨shape, ending, started⟩ := ih tail inner
      refine ⟨shape, ending, ?_⟩
      rw [List.flatMap_cons, Position.after_append, started]
      rfl

end Segmentation

/-- Every segment of a source has its shape, can end where the next one starts,
and starts behind the text of those before it. -/
theorem segmentsFrom_split {position : Position} {source : List Char} {p : Placed}
    {before after : List Placed} (split : segmentsFrom position source = before ++ p :: after) :
    p.segment.WellFormed ∧ p.segment.Ends (after.flatMap Placed.text) ∧
      p.start = position.after (before.flatMap Placed.text) := by
  obtain ⟨found, cut⟩ := exists_segmentation source
  exact cut.place_split ((cut.segmentsFrom_eq position).symm.trans split)

theorem segmentsFrom_append {segment : Segment} {rest : List Char} (wellFormed : segment.WellFormed)
    (ends : segment.Ends rest) (position : Position) :
    segmentsFrom position (segment.text ++ rest) =
      ⟨position, segment⟩ :: segmentsFrom (position.after segment.text) rest := by
  obtain ⟨found, cut⟩ := exists_segmentation rest
  rw [(Segmentation.cons wellFormed ends cut).segmentsFrom_eq, cut.segmentsFrom_eq]
  rfl

/-- The tokens that a scan finds from a place on. -/
def tokensFrom (position : Position) (source : List Char) : List Token :=
  (segmentsFrom position source).filterMap Placed.token?

def faultsFrom (position : Position) (source : List Char) : List Fault :=
  (segmentsFrom position source).filterMap Placed.fault?

theorem scan_eq (source : String) :
    scan source = ⟨tokensFrom .start source.toList ++ [.endOfInput (1 + source.toList.count '\n')],
      faultsFrom .start source.toList⟩ := rfl

section Found

variable (position : Position)

@[simp] theorem tokensFrom_nil : tokensFrom position [] = [] := by
  simp [tokensFrom]

@[simp] theorem faultsFrom_nil : faultsFrom position [] = [] := by
  simp [faultsFrom]

theorem tokensFrom_lexeme {segment : Segment} {meaning : Meaning} {rest : List Char}
    (wellFormed : segment.WellFormed) (ends : segment.Ends rest)
    (means : segment.meaning? = some meaning) :
    tokensFrom position (segment.text ++ rest) =
      ⟨meaning, String.ofList segment.text, position.line⟩ ::
        tokensFrom (position.after segment.text) rest := by
  rw [tokensFrom, segmentsFrom_append wellFormed ends, List.filterMap_cons_some]
  · rfl
  · rw [Placed.token?_eq, means]
    rfl

theorem tokensFrom_silent {segment : Segment} {rest : List Char} (wellFormed : segment.WellFormed)
    (ends : segment.Ends rest) (silent : segment.meaning? = none) :
    tokensFrom position (segment.text ++ rest) = tokensFrom (position.after segment.text) rest := by
  rw [tokensFrom, segmentsFrom_append wellFormed ends, List.filterMap_cons_none]
  · rfl
  · rw [Placed.token?_eq, silent]
    rfl

theorem faultsFrom_sound {segment : Segment} {rest : List Char} (wellFormed : segment.WellFormed)
    (ends : segment.Ends rest) (sound : segment.cause? = none) :
    faultsFrom position (segment.text ++ rest) = faultsFrom (position.after segment.text) rest := by
  rw [faultsFrom, segmentsFrom_append wellFormed ends, List.filterMap_cons_none]
  · rfl
  · rw [← Option.map_eq_none_iff (f := Fault.cause), Placed.fault?_cause, sound]

/-- Blanks are found as nothing but a later place. -/
theorem segmentsFrom_blanks {gap : List Char} (blank : ∀ c ∈ gap, c ∈ [' ', '\t', '\r', '\n'])
    (source : List Char) :
    segmentsFrom position (gap ++ source) =
      place position (gap.map .blank) ++ segmentsFrom (position.after gap) source := by
  induction gap generalizing position with
  | nil => rfl
  | cons c gap ih =>
    obtain ⟨first, blank⟩ := List.forall_mem_cons.1 blank
    have shape : (Segment.blank c).WellFormed := isWhitespace_iff.2 first
    have ends : (Segment.blank c).Ends (gap ++ source) := trivial
    have read := segmentsFrom_append shape ends position
    rw [ih _ blank, ← Position.after_append] at read
    exact read

theorem filterMap_place_blanks {α : Type} {view : Placed → Option α} (gap : List Char)
    (silent : ∀ start c, view ⟨start, .blank c⟩ = none) :
    (place position (gap.map .blank)).filterMap view = [] := by
  induction gap generalizing position with
  | nil => rfl
  | cons c gap ih => rw [List.map_cons, place, List.filterMap_cons_none (silent _ c), ih]

theorem tokensFrom_blanks {gap : List Char} (blank : ∀ c ∈ gap, c ∈ [' ', '\t', '\r', '\n'])
    (source : List Char) :
    tokensFrom position (gap ++ source) = tokensFrom (position.after gap) source := by
  rw [tokensFrom, segmentsFrom_blanks position blank, List.filterMap_append,
    filterMap_place_blanks position gap fun _ _ => rfl]
  rfl

theorem faultsFrom_blanks {gap : List Char} (blank : ∀ c ∈ gap, c ∈ [' ', '\t', '\r', '\n'])
    (source : List Char) :
    faultsFrom position (gap ++ source) = faultsFrom (position.after gap) source := by
  rw [faultsFrom, segmentsFrom_blanks position blank, List.filterMap_append,
    filterMap_place_blanks position gap fun _ _ => rfl]
  rfl

/-- No token lies on a line before the place where the source starts. -/
theorem line_le_of_mem_tokensFrom {source : List Char} {t : Token}
    (member : t ∈ tokensFrom position source) : position.line ≤ t.line := by
  obtain ⟨p, found, token⟩ := List.mem_filterMap.1 member
  obtain ⟨before, after, split⟩ := List.mem_iff_append.1 found
  obtain ⟨meaning, -, rfl⟩ := Option.map_eq_some_iff.1 (p.token?_eq.symm.trans token)
  rw [(segmentsFrom_split split).2.2]
  exact Nat.le_add_right _ _

end Found
end ScriptLexer
