import ScriptLexer.Proofs.Segmentation

/-! Findings: what a scan finds, told from the segments of a source and the lines
on which they start. No more of a place shows in a token or a fault, so findings
can be cut where segments can, and moved to other lines as a whole. -/
namespace ScriptLexer
namespace Segment

/-- The token of a segment that starts on a line. -/
def tokenOn? (line : Nat) (segment : Segment) : Option Token :=
  segment.meaning?.map fun meaning => ⟨meaning, String.ofList segment.text, line⟩

/-- The fault of a segment that starts on a line. -/
def faultOn? (line : Nat) : Segment → Option Fault
  | unexpected c => some ⟨.unexpectedCharacter c, line⟩
  | unterminated body => some ⟨.unterminatedString, line + body.count '\n'⟩
  | blank _ | comment _ | symbol _ | word _ | number _ | string _ => none

end Segment

namespace Placed

theorem token?_line (p : Placed) : p.token? = p.segment.tokenOn? p.start.line :=
  p.token?_eq

theorem fault?_line (p : Placed) : p.fault? = p.segment.faultOn? p.start.line := by
  obtain ⟨start, segment⟩ := p
  cases segment with
  | unterminated body => simp [fault?, Segment.faultOn?, stop, text, Segment.text, Position.after]
  | _ => rfl

end Placed

section Findings

variable {α : Type} {view : Nat → Segment → Option α}

/-- What is seen of segments that follow each other, the first one on some line. -/
def findings (view : Nat → Segment → Option α) (line : Nat) : List Segment → List α
  | [] => []
  | segment :: segments =>
    (view line segment).toList ++ findings view (line + segment.text.count '\n') segments

theorem findings_append (line : Nat) (front back : List Segment) :
    findings view line (front ++ back) =
      findings view line front ++
        findings view (line + (front.flatMap Segment.text).count '\n') back := by
  induction front generalizing line with
  | nil => rfl
  | cons segment front ih =>
    rw [List.cons_append, findings, findings, ih, List.append_assoc, List.flatMap_cons,
      List.count_append, Nat.add_assoc]

theorem length_findings_le (line : Nat) (segments : List Segment) :
    (findings view line segments).length ≤ segments.length := by
  induction segments generalizing line with
  | nil => exact Nat.le_refl 0
  | cons segment segments ih =>
    have first : (view line segment).toList.length ≤ 1 := by
      cases view line segment <;> simp
    have tail := ih (line + segment.text.count '\n')
    rw [findings, List.length_append, List.length_cons]
    omega

theorem filter_findings (keep : α → Bool) (line : Nat) (segments : List Segment) :
    (findings view line segments).filter keep =
      findings (fun line segment => (view line segment).filter keep) line segments := by
  induction segments generalizing line with
  | nil => rfl
  | cons segment segments ih =>
    rw [findings, findings, List.filter_append, ih, Option.toList_filter]

/-- If a view of one segment moves with its line, so does that of many. -/
theorem findings_add {lines : Nat} {move : α → α}
    (moves : ∀ line segment, view (line + lines) segment = (view line segment).map move)
    (line : Nat) (segments : List Segment) :
    findings view (line + lines) segments = (findings view line segments).map move := by
  induction segments generalizing line with
  | nil => rfl
  | cons segment segments ih =>
    have tail := ih (line + segment.text.count '\n')
    rw [Nat.add_right_comm] at tail
    rw [findings, findings, List.map_append, moves, tail]
    cases view line segment <;> rfl

theorem findings_congr {segments : List Segment}
    (same : ∀ segment ∈ segments, ∀ line, view line segment = kept line segment) (line : Nat) :
    findings view line segments = findings kept line segments := by
  induction segments generalizing line with
  | nil => rfl
  | cons segment segments ih =>
    obtain ⟨first, same⟩ := List.forall_mem_cons.1 same
    rw [findings, findings, first, ih same]

theorem findings_add_line (lines line : Nat) (segments : List Segment) :
    findings (fun line => view (line + lines)) line segments = findings view (line + lines) segments := by
  induction segments generalizing line with
  | nil => rfl
  | cons segment segments ih => rw [findings, findings, ih, Nat.add_right_comm]

theorem filterMap_place_line {seen : Placed → Option α}
    (same : ∀ p, seen p = view p.start.line p.segment) (position : Position)
    (segments : List Segment) :
    (place position segments).filterMap seen = findings view position.line segments := by
  induction segments generalizing position with
  | nil => rfl
  | cons segment segments ih =>
    rw [place, List.filterMap_cons, same, ih, findings]
    cases view position.line segment <;> rfl

end Findings

/-- A scan is read off the one segmentation of its source. -/
theorem Segmentation.scan_eq {source : String} {segments : List Segment}
    (cut : Segmentation source.toList segments) :
    scan source =
      ⟨findings Segment.tokenOn? 1 segments ++ [.endOfInput (1 + source.toList.count '\n')],
        findings Segment.faultOn? 1 segments⟩ := by
  rw [ScriptLexer.scan_eq, tokensFrom, faultsFrom, cut.segmentsFrom_eq,
    filterMap_place_line Placed.token?_line, filterMap_place_line Placed.fault?_line]
  rfl

/-- The token as it is found with more lines in front. -/
def Token.addLines (lines : Nat) (t : Token) : Token := { t with line := t.line + lines }

def Fault.addLines (lines : Nat) (f : Fault) : Fault := { f with line := f.line + lines }

def Cause.isUnexpected : Cause → Bool
  | unexpectedCharacter _ => true
  | unterminatedString => false

theorem Segment.tokenOn?_add (lines line : Nat) (segment : Segment) :
    segment.tokenOn? (line + lines) = (segment.tokenOn? line).map (Token.addLines lines) := by
  rw [tokenOn?, tokenOn?, Option.map_map]
  rfl

theorem Segment.faultOn?_add (lines line : Nat) (segment : Segment) :
    segment.faultOn? (line + lines) = (segment.faultOn? line).map (Fault.addLines lines) := by
  cases segment with
  | unterminated body => simp [faultOn?, Fault.addLines, Nat.add_right_comm]
  | _ => rfl

end ScriptLexer
