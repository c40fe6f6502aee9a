import ScriptLexer.Proofs.Continuation

/-! Cleaning: a space in the place of every unexpected character, and nothing in
that of a comment. The main statement is that this leaves every token and an open
string as they are, on their lines, so neither faults nor comments reach further
than their own text. -/
namespace ScriptLexer
namespace Segment

/-- The text that takes the place of a segment. -/
def cleanText : Segment → List Char
  | unexpected _ => [' ']
  | comment _ => []
  | segment => segment.text

/-- The segments of that text. -/
def cleaned : Segment → List Segment
  | unexpected _ => [blank ' ']
  | comment _ => []
  | segment => [segment]

theorem flatMap_text_cleaned (segment : Segment) :
    segment.cleaned.flatMap text = segment.cleanText := by
  cases segment <;> simp [cleaned, cleanText, text]

theorem count_cleanText {segment : Segment} (wellFormed : segment.WellFormed) :
    segment.cleanText.count '\n' = segment.text.count '\n' := by
  cases segment with
  | unexpected c =>
    have noLine : c ≠ '\n' := by
      rintro rfl
      contradiction
    simp [cleanText, text, noLine]
  | comment body =>
    have noLine : body.count '\n' = 0 := List.count_eq_zero.2 wellFormed
    simp [cleanText, text, noLine]
  | _ => rfl

end Segment

/-- The source with its unexpected characters blanked out and its comments left out. -/
def clean (source : String) : String :=
  String.ofList ((segments source).flatMap fun p => p.segment.cleanText)

namespace Segmentation

variable {source : List Char} {segments : List Segment}

theorem milder_clean (cut : Segmentation source segments) :
    Milder source (segments.flatMap Segment.cleanText) := by
  induction cut with
  | nil => exact .of_line (by simp)
  | @cons segment rest segments wellFormed ends tail ih =>
    rw [List.flatMap_cons]
    cases segment with
    | unexpected c =>
      apply Milder.of_blank rfl
      rintro rfl
      contradiction
    | comment body => exact .of_line (ih.line ends)
    | _ => exact ih.append _

/-- What is left of the segments of a source are the segments of what is left of it. -/
theorem clean (cut : Segmentation source segments) :
    Segmentation (segments.flatMap Segment.cleanText) (segments.flatMap Segment.cleaned) := by
  induction cut with
  | nil => exact .nil
  | @cons segment rest segments wellFormed ends tail ih =>
    have nothing (empty : rest = []) : segments.flatMap Segment.cleanText = [] := by
      subst empty
      rw [tail.unique .nil]
      rfl
    have stays := ends.of_milder tail.milder_clean fun _ => nothing
    cases segment with
    | unexpected c =>
      have shape : (Segment.blank ' ').WellFormed := rfl
      exact .cons shape trivial ih
    | comment body => exact ih
    | _ => exact .cons wellFormed stays ih

theorem count_clean (cut : Segmentation source segments) :
    (segments.flatMap Segment.cleanText).count '\n' = source.count '\n' := by
  induction cut with
  | nil => rfl
  | cons wellFormed ends tail ih =>
    rw [List.flatMap_cons, List.count_append, List.count_append, ih,
      Segment.count_cleanText wellFormed]

theorem findings_clean {α : Type} {view kept : Nat → Segment → Option α}
    (same : ∀ line segment, findings view line segment.cleaned = (kept line segment).toList)
    (cut : Segmentation source segments) (line : Nat) :
    findings view line (segments.flatMap Segment.cleaned) = findings kept line segments := by
  induction cut generalizing line with
  | nil => rfl
  | cons wellFormed ends tail ih =>
    rw [List.flatMap_cons, findings_append, findings, same, ih, Segment.flatMap_text_cleaned,
      Segment.count_cleanText wellFormed]

end Segmentation

/-- Cleaning a source changes no token and takes away just the faults of
unexpected characters. -/
theorem scan_clean (source : String) :
    scan (clean source) =
      ⟨(scan source).tokens, (scan source).faults.filter (!·.cause.isUnexpected)⟩ := by
  obtain ⟨found, cut⟩ := exists_segmentation source.toList
  have text : (clean source).toList = found.flatMap Segment.cleanText := by
    rw [clean, String.toList_ofList, segments, cut.segmentsFrom_eq, ← List.flatMap_map,
      map_segment_place]
  have whole : Segmentation (clean source).toList (found.flatMap Segment.cleaned) :=
    text ▸ cut.clean
  have lines : (clean source).toList.count '\n' = source.toList.count '\n' := by
    rw [text, cut.count_clean]
  have tokens : findings Segment.tokenOn? 1 (found.flatMap Segment.cleaned) =
      findings Segment.tokenOn? 1 found := by
    refine cut.findings_clean ?_ 1
    intro line segment
    cases segment <;> rfl
  have faults : findings Segment.faultOn? 1 (found.flatMap Segment.cleaned) =
      (findings Segment.faultOn? 1 found).filter (!·.cause.isUnexpected) := by
    rw [filter_findings]
    refine cut.findings_clean ?_ 1
    intro line segment
    cases segment <;> rfl
  rw [whole.scan_eq, cut.scan_eq, tokens, faults, lines]

example : clean "1@2 // 3\n\"@//\"" = "1 2 \n\"@//\"" := by
  decide +kernel

end ScriptLexer
