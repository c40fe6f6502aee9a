import ScriptLexer.Proofs.Continuation
import Mathlib.Data.List.Basic

/-! Insertions: blanks put into a source in front of a segment, or at its end. A
comment or an open string in front of them takes them in, and every other segment
ends there. The main statement is that nothing but lines changes in a scan. -/
namespace ScriptLexer

/-- The fault with more lines behind its segment, which only an open string takes in. -/
def Fault.delay (lines : Nat) (f : Fault) : Fault :=
  match f.cause with
  | .unexpectedCharacter _ => f
  | .unterminatedString => f.addLines lines

namespace Segment

/-- A segment with what it takes in of the blanks behind it, and the blanks left over.
A comment goes on to the end of its line, an open string to the end of the source. -/
def absorb (gap : List Char) : Segment → Segment × List Char
  | comment body => (comment (body ++ gap.takeWhile (· != '\n')), gap.dropWhile (· != '\n'))
  | unterminated body => (unterminated (body ++ gap), [])
  | segment => (segment, gap)

section Absorb

variable {segment : Segment} {gap rest : List Char}

theorem absorb_text (segment : Segment) (gap : List Char) :
    (segment.absorb gap).1.text ++ (segment.absorb gap).2 = segment.text ++ gap := by
  cases segment with
  | comment body => simp [absorb, text, List.takeWhile_append_dropWhile]
  | unterminated body => simp [absorb, text]
  | _ => rfl

theorem absorb_left_subset (segment : Segment) (gap : List Char) :
    (segment.absorb gap).2 ⊆ gap := by
  cases segment with
  | comment body => exact (List.dropWhile_sublist _).subset
  | unterminated body => exact List.nil_subset gap
  | _ => exact List.Subset.refl gap

theorem WellFormed.absorb (wellFormed : segment.WellFormed)
    (blank : ∀ c ∈ gap, c.isWhitespace = true) : (segment.absorb gap).1.WellFormed := by
  cases segment with
  | comment body => exact List.not_mem_append wellFormed (not_mem_takeWhile_ne '\n' gap)
  | unterminated body =>
    have unquoted : '"' ∉ gap := by
      intro quote
      exact absurd (blank '"' quote) (by decide)
    exact List.not_mem_append wellFormed unquoted
  | _ => exact wellFormed

/-- In front of a blank every segment ends but a comment and an open string. -/
theorem ends_blank {c : Char} (code : segment.mode.readsCode = true) (blank : c.isWhitespace = true) :
    segment.Ends (c :: rest) := by
  have different {d : Char} (notBlank : d.isWhitespace = false) : (c :: rest).head? ≠ some d := by
    intro same
    obtain rfl : c = d := Option.some.inj same
    simp [blank] at notBlank
  cases segment with
  | blank | string | unexpected => trivial
  | comment | unterminated => contradiction
  | symbol s => exact ⟨fun _ => different (by decide), fun _ => different (by decide)⟩
  | word letters => simpa [Ends] using isWordPart_of_isWhitespace blank
  | number numeral =>
    refine ⟨by simpa using isDigit_of_isWhitespace blank, ?_⟩
    intro _ d tail same
    exact absurd (congrArg List.head? same) (different (by decide))

theorem Ends.absorb (ends : segment.Ends rest) (blank : ∀ c ∈ gap, c.isWhitespace = true) :
    (segment.absorb gap).1.Ends ((segment.absorb gap).2 ++ rest) := by
  cases segment with
  | comment body =>
    have stop := head?_dropWhile_false (p := (· != '\n')) gap
    intro c found
    cases left : gap.dropWhile (· != '\n') with
    | nil =>
      rw [Segment.absorb, left] at found
      exact ends c found
    | cons d tail =>
      rw [Segment.absorb, left] at found
      rw [left] at stop
      simpa using stop c found
  | unterminated body => exact ends
  | symbol s =>
    cases gap with
    | nil => exact ends
    | cons c gap => exact ends_blank (by cases s <;> rfl) (blank c List.mem_cons_self)
  | _ =>
    cases gap with
    | nil => exact ends
    | cons c gap => exact ends_blank rfl (blank c List.mem_cons_self)

theorem absorb_tokenOn? (segment : Segment) (gap : List Char) (line : Nat) :
    (segment.absorb gap).1.tokenOn? line = segment.tokenOn? line := by
  cases segment <;> rfl

theorem absorb_faultOn? (segment : Segment) (gap : List Char) (line : Nat) :
    (segment.absorb gap).1.faultOn? line = (segment.faultOn? line).map (.delay (gap.count '\n')) := by
  cases segment with
  | unterminated body => simp [absorb, faultOn?, Fault.delay, Fault.addLines, Nat.add_assoc]
  | _ => rfl

end Absorb
end Segment

/-- The segments of a source with blanks between its first segments and the others. -/
def withBlanks (gap : List Char) (front back : List Segment) : List Segment :=
  match front.getLast? with
  | none => gap.map .blank ++ back
  | some last => front.dropLast ++ (last.absorb gap).1 :: ((last.absorb gap).2.map .blank ++ back)

theorem withBlanks_concat (gap : List Char) (front back : List Segment) (last : Segment) :
    withBlanks gap (front ++ [last]) back =
      front ++ (last.absorb gap).1 :: ((last.absorb gap).2.map .blank ++ back) := by
  simp [withBlanks]

theorem flatMap_text_blanks (gap : List Char) : (gap.map Segment.blank).flatMap Segment.text = gap := by
  induction gap with
  | nil => rfl
  | cons c gap ih => rw [List.map_cons, List.flatMap_cons, ih]; rfl

namespace Segmentation

variable {source gap : List Char} {segments front back : List Segment}

theorem blanks (cut : Segmentation source segments) (blank : ∀ c ∈ gap, c.isWhitespace = true) :
    Segmentation (gap ++ source) (gap.map .blank ++ segments) := by
  induction gap with
  | nil => exact cut
  | cons c gap ih =>
    obtain ⟨first, blank⟩ := List.forall_mem_cons.1 blank
    have shape : (Segment.blank c).WellFormed := first
    exact .cons shape trivial (ih blank)

/-- Blanks in front of a segment leave a segmentation. -/
theorem withBlanks (cut : Segmentation source (front ++ back))
    (blank : ∀ c ∈ gap, c.isWhitespace = true) :
    Segmentation (front.flatMap Segment.text ++ (gap ++ back.flatMap Segment.text))
      (withBlanks gap front back) := by
  rcases front.eq_nil_or_concat' with rfl | ⟨front, last, rfl⟩
  · exact cut.of_append.blanks blank
  · rw [List.append_assoc, List.singleton_append] at cut
    obtain ⟨wellFormed, ends, tail⟩ := cut.of_append.of_cons
    have left : ∀ c ∈ (last.absorb gap).2, c.isWhitespace = true := by
      intro c member
      exact blank c (last.absorb_left_subset gap member)
    have behind := Segmentation.cons (wellFormed.absorb blank) (ends.absorb blank) (tail.blanks left)
    rw [← List.append_assoc, last.absorb_text, List.append_assoc] at behind
    have first : ∀ c ∈ (gap ++ back.flatMap Segment.text).head?,
        c.isWhitespace = true ∨ c ∈ (back.flatMap Segment.text).head? := by
      intro c found
      cases gap with
      | nil => exact .inr found
      | cons d gap =>
        obtain rfl : d = c := Option.some.inj found
        exact .inl (blank d List.mem_cons_self)
    have closed := cut.closed_front
    have whole := cut.change_tail (.append_first wellFormed.text_ne_nil first)
      (fun segment member opened => absurd opened (closed segment member)) behind
    rw [withBlanks_concat, List.flatMap_append, List.flatMap_singleton, List.append_assoc]
    exact whole

end Segmentation

section Findings

variable {α : Type} {view kept : Nat → Segment → Option α}

theorem findings_blanks (silent : ∀ line c, view line (.blank c) = none) (line : Nat)
    (gap : List Char) : findings view line (gap.map .blank) = [] := by
  induction gap generalizing line with
  | nil => rfl
  | cons c gap ih =>
    rw [List.map_cons, findings, silent, ih]
    rfl

/-- With blanks between them, the first segments are seen with what they take in, and
the others with the lines of the blanks in front. -/
theorem findings_withBlanks {gap : List Char} {front back : List Segment}
    (silent : ∀ line c, view line (.blank c) = none)
    (same : ∀ segment ∈ front.dropLast, ∀ line, view line segment = kept line segment)
    (taken : ∀ segment line, view line (segment.absorb gap).1 = kept line segment) (line : Nat) :
    findings view line (withBlanks gap front back) =
      findings kept line front ++
        findings view (line + (front.flatMap Segment.text).count '\n' + gap.count '\n') back := by
  rcases front.eq_nil_or_concat' with rfl | ⟨front, last, rfl⟩
  · have blanks := findings_blanks silent line gap
    rw [withBlanks, List.getLast?_nil, findings_append, blanks, flatMap_text_blanks]
    rfl
  · rw [List.dropLast_concat] at same
    have lines := congrArg (List.count '\n') (last.absorb_text gap)
    rw [List.count_append, List.count_append] at lines
    rw [withBlanks_concat, findings_append, findings_append, findings, findings_append, taken,
      findings_blanks silent, flatMap_text_blanks, findings_congr same, findings, findings,
      List.flatMap_append, List.count_append, List.append_nil, List.nil_append, List.append_assoc,
      List.flatMap_singleton]
    congr 3
    omega

end Findings

/-! ### Places before and behind an insertion -/

theorem offset_le_of_mem_place {position : Position} {segments : List Segment} {p : Placed}
    (member : p ∈ place position segments) : position.offset ≤ p.start.offset := by
  induction segments generalizing position with
  | nil => contradiction
  | cons segment segments ih =>
    rcases List.mem_cons.1 member with rfl | member
    · exact Nat.le_refl _
    · exact (Nat.le_add_right _ _).trans (ih member)

theorem offset_lt_of_mem_place {position : Position} {segments : List Segment} {p : Placed}
    (nonempty : ∀ segment ∈ segments, segment.text ≠ []) (member : p ∈ place position segments) :
    p.start.offset < (position.after (segments.flatMap Segment.text)).offset := by
  induction segments generalizing position with
  | nil => contradiction
  | cons segment segments ih =>
    obtain ⟨first, nonempty⟩ := List.forall_mem_cons.1 nonempty
    rw [List.flatMap_cons, Position.after_append]
    rcases List.mem_cons.1 member with rfl | member
    · have long := List.length_pos_iff.2 first
      simp only [Position.after]
      omega
    · exact ih nonempty member

/-- Where the segments of a source start, and where the source ends. -/
def segmentStarts (source : String) : List Nat :=
  (segments source).map (·.start.offset) ++ [source.toList.length]

/-- A gap to be put into a source. -/
structure Insertion where
  offset : Nat
  gap : List Char

namespace Insertion

def apply (i : Insertion) (source : String) : String :=
  String.ofList (source.toList.take i.offset ++ (i.gap ++ source.toList.drop i.offset))

/-- The lines that the gap adds in front of a place. -/
def linesBefore (i : Insertion) (p : Position) : Nat :=
  if p.offset < i.offset then 0 else i.gap.count '\n'

/-- The token of a place, on its line behind the insertion. -/
def token? (i : Insertion) (p : Placed) : Option Token :=
  p.token?.map (.addLines (i.linesBefore p.start))

/-- The fault of a place, on its line behind the insertion. An open string is noticed
at the end of the source, so the whole gap is in front. -/
def fault? (i : Insertion) (p : Placed) : Option Fault :=
  p.fault?.map fun f =>
    match f.cause with
    | .unexpectedCharacter _ => f.addLines (i.linesBefore p.start)
    | .unterminatedString => f.addLines (i.gap.count '\n')

end Insertion

theorem exists_split_of_mem_segmentStarts {source : String} {offset : Nat}
    (starts : offset ∈ segmentStarts source) :
    ∃ front back, Segmentation source.toList (front ++ back) ∧
      (front.flatMap Segment.text).length = offset := by
  obtain ⟨found, cut⟩ := exists_segmentation source.toList
  rcases List.mem_append.1 starts with inside | last
  · obtain ⟨p, member, rfl⟩ := List.mem_map.1 inside
    rw [segments, cut.segmentsFrom_eq] at member
    obtain ⟨before, after, split⟩ := List.append_of_mem member
    have parts := congrArg (List.map Placed.segment) split
    rw [map_segment_place, List.map_append] at parts
    refine ⟨_, _, parts ▸ cut, ?_⟩
    rw [(cut.place_split split).2.2, List.flatMap_map]
    simp [Position.after, Position.start, Placed.text]
  · refine ⟨found, [], by rwa [List.append_nil], ?_⟩
    rw [cut.flatMap_text, List.mem_singleton.1 last]

/-- What is seen of places, told on both sides of an offset by segments and lines. -/
theorem filterMap_place_split {α : Type} {view kept : Nat → Segment → Option α}
    {seen : Placed → Option α} {front back : List Segment} {lines : Nat}
    (nonempty : ∀ segment ∈ front, segment.text ≠ [])
    (before : ∀ p, p.start.offset < (front.flatMap Segment.text).length →
      seen p = kept p.start.line p.segment)
    (behind : ∀ p, (front.flatMap Segment.text).length ≤ p.start.offset →
      seen p = view (p.start.line + lines) p.segment) :
    (place .start (front ++ back)).filterMap seen =
      findings kept 1 front ++
        findings view (1 + (front.flatMap Segment.text).count '\n' + lines) back := by
  have offset : (Position.start.after (front.flatMap Segment.text)).offset =
      (front.flatMap Segment.text).length := Nat.zero_add _
  have first : (place .start front).filterMap seen =
      (place .start front).filterMap fun p => kept p.start.line p.segment := by
    apply List.filterMap_congr
    intro p member
    exact before p (offset ▸ offset_lt_of_mem_place nonempty member)
  have second : (place (Position.start.after (front.flatMap Segment.text)) back).filterMap seen =
      (place (Position.start.after (front.flatMap Segment.text)) back).filterMap
        fun p => view (p.start.line + lines) p.segment := by
    apply List.filterMap_congr
    intro p member
    exact behind p (offset ▸ offset_le_of_mem_place member)
  have moved : (place (Position.start.after (front.flatMap Segment.text)) back).filterMap
        (fun p => view (p.start.line + lines) p.segment) =
      findings (fun line => view (line + lines))
        (Position.start.after (front.flatMap Segment.text)).line back := by
    apply filterMap_place_line
    intro p
    rfl
  rw [place_append, List.filterMap_append, first, second, moved,
    filterMap_place_line fun _ => rfl, findings_add_line]
  rfl

/-- Only the last of the first segments can be an open string. -/
theorem Segmentation.faultOn?_delay {source : List Char} {front back : List Segment} {lines : Nat}
    (cut : Segmentation source (front ++ back)) :
    ∀ segment ∈ front.dropLast, ∀ line,
      segment.faultOn? line = (segment.faultOn? line).map (.delay lines) := by
  intro segment member line
  rcases front.eq_nil_or_concat' with rfl | ⟨front, last, rfl⟩
  · contradiction
  · rw [List.dropLast_concat] at member
    rw [List.append_assoc, List.singleton_append] at cut
    have closed := cut.closed_front segment member
    cases segment with
    | unterminated body => exact absurd rfl closed
    | _ => rfl

namespace Insertion

variable (i : Insertion) {p : Placed}

theorem linesBefore_of_lt (early : p.start.offset < i.offset) : i.linesBefore p.start = 0 :=
  if_pos early

theorem linesBefore_of_le (late : i.offset ≤ p.start.offset) :
    i.linesBefore p.start = i.gap.count '\n' :=
  if_neg (Nat.not_lt.2 late)

theorem token?_of_lt (early : p.start.offset < i.offset) :
    i.token? p = p.segment.tokenOn? p.start.line := by
  rw [token?, i.linesBefore_of_lt early, p.token?_line]
  exact congrFun Option.map_id _

theorem token?_of_le (late : i.offset ≤ p.start.offset) :
    i.token? p = p.segment.tokenOn? (p.start.line + i.gap.count '\n') := by
  rw [token?, i.linesBefore_of_le late, p.token?_line, Segment.tokenOn?_add]

theorem fault?_of_lt (early : p.start.offset < i.offset) :
    i.fault? p = (p.segment.faultOn? p.start.line).map (.delay (i.gap.count '\n')) := by
  rw [fault?, i.linesBefore_of_lt early, p.fault?_line]
  rfl

theorem token?_content (p : Placed) :
    (i.token? p).map Token.content = p.token?.map Token.content := by
  rw [token?, Option.map_map]
  rfl

theorem fault?_cause (p : Placed) : (i.fault? p).map Fault.cause = p.fault?.map Fault.cause := by
  rw [fault?, Option.map_map]
  congr 1
  funext f
  rw [Function.comp_apply]
  split <;> rfl

theorem fault?_of_le (late : i.offset ≤ p.start.offset) :
    i.fault? p = p.segment.faultOn? (p.start.line + i.gap.count '\n') := by
  rw [fault?, i.linesBefore_of_le late, p.fault?_line, Segment.faultOn?_add]
  congr 1
  funext f
  split <;> rfl

end Insertion

/-- Blanks in front of a segment, or at the end, change nothing that a scan finds but
lines: what starts behind them, an open string and the end of input come as many lines
later as they have line feeds. -/
theorem scan_insert_blanks (source : String) (i : Insertion) (starts : i.offset ∈ segmentStarts source)
    (blank : ∀ c ∈ i.gap, c ∈ [' ', '\t', '\r', '\n']) :
    (scan (i.apply source)).tokens.map Token.content = (scan source).tokens.map Token.content ∧
      (scan (i.apply source)).faults.map Fault.cause = (scan source).faults.map Fault.cause ∧
      scan (i.apply source) =
        ⟨(segments source).filterMap i.token? ++
            [.endOfInput (1 + source.toList.count '\n' + i.gap.count '\n')],
          (segments source).filterMap i.fault?⟩ := by
  obtain ⟨front, back, cut, length⟩ := exists_split_of_mem_segmentStarts starts
  have blank : ∀ c ∈ i.gap, c.isWhitespace = true := by
    intro c member
    exact isWhitespace_iff.2 (blank c member)
  have text : source.toList = front.flatMap Segment.text ++ back.flatMap Segment.text := by
    rw [← List.flatMap_append, cut.flatMap_text]
  have whole : Segmentation (i.apply source).toList (withBlanks i.gap front back) := by
    rw [Insertion.apply, String.toList_ofList, text, List.take_left' length, List.drop_left' length]
    exact cut.withBlanks blank
  have nonempty : ∀ segment ∈ front, segment.text ≠ [] := by
    intro segment member
    exact cut.text_ne_nil segment (List.mem_append_left back member)
  have tokens : (segments source).filterMap i.token? =
      findings Segment.tokenOn? 1 (withBlanks i.gap front back) := by
    rw [findings_withBlanks (fun _ _ => rfl) (fun _ _ _ => rfl) (fun s => s.absorb_tokenOn? i.gap),
      segments, cut.segmentsFrom_eq]
    apply filterMap_place_split nonempty <;> rw [length]
    · exact fun _ => i.token?_of_lt
    · exact fun _ => i.token?_of_le
  have faults : (segments source).filterMap i.fault? =
      findings Segment.faultOn? 1 (withBlanks i.gap front back) := by
    rw [findings_withBlanks (fun _ _ => rfl) cut.faultOn?_delay (fun s => s.absorb_faultOn? i.gap),
      segments, cut.segmentsFrom_eq]
    apply filterMap_place_split nonempty <;> rw [length]
    · exact fun _ => i.fault?_of_lt
    · exact fun _ => i.fault?_of_le
  have lines : (i.apply source).toList.count '\n' = source.toList.count '\n' + i.gap.count '\n' := by
    rw [Insertion.apply, String.toList_ofList, List.count_append, List.count_append, Nat.add_left_comm,
      ← List.count_append, List.take_append_drop, Nat.add_comm]
  have found : scan (i.apply source) =
      ⟨(segments source).filterMap i.token? ++
          [.endOfInput (1 + source.toList.count '\n' + i.gap.count '\n')],
        (segments source).filterMap i.fault?⟩ := by
    rw [whole.scan_eq, tokens, faults, lines, Nat.add_assoc]
  refine ⟨?_, ?_, found⟩
  · rw [found, scan, List.map_append, List.map_append, List.map_filterMap, List.map_filterMap]
    simp only [i.token?_content]
    rfl
  · rw [found, scan, List.map_filterMap, List.map_filterMap]
    simp only [i.fault?_cause]

theorem scan_insert_blanks_behind_comment :
    (5 ∈ segmentStarts "@1.//\n\"" ∧ ∀ c ∈ [' ', '\n'], c ∈ [' ', '\t', '\r', '\n']) ∧
      scan "@1.// \n\n\"" = ⟨[⟨.literal (.number (Decimal.mk 1 0).toBinary64), "1", 1⟩,
          ⟨.symbol .dot, ".", 1⟩, .endOfInput 3],
        [⟨.unexpectedCharacter '@', 1⟩, ⟨.unterminatedString, 3⟩]⟩ := by
  have starts : 5 ∈ segmentStarts "@1.//\n\"" := by decide +kernel
  have blank : ∀ c ∈ [' ', '\n'], c ∈ [' ', '\t', '\r', '\n'] := by simp
  have found := (scan_insert_blanks "@1.//\n\"" ⟨5, [' ', '\n']⟩ starts blank).2.2
  exact ⟨⟨starts, blank⟩, found.trans (by decide +kernel)⟩

end ScriptLexer
