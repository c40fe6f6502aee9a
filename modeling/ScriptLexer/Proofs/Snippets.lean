import ScriptLexer.Proofs.Outcomes
import ScriptLexer.Proofs.Segmentation
import Mathlib.Data.List.SplitBy

/-! Source lines and the faults they are shown for. A scan counts line feeds while it
goes, lines are cut from the whole source, and the main statement is that both agree:
a fault is shown with the stretch between line feeds where it is noticed. -/
namespace ScriptLexer

/-- A longest stretch of a source without a line feed, with the texts around it. -/
structure Stretch (source head line tail : List Char) : Prop where
  source_eq : source = head ++ (line ++ tail)
  noLineFeed : '\n' ∉ line
  starts : ∀ c ∈ head.getLast?, c = '\n'
  ends : ∀ c ∈ tail.head?, c = '\n'

/-- A stretch less one carriage return that the line feed behind it follows. -/
def lineShown (line tail : List Char) : List Char :=
  if tail.head? = some '\n' ∧ line.getLast? = some '\r' then line.dropLast else line

section Lines

variable {head line tail : List Char}

theorem mem_lineShown {c : Char} (member : c ∈ line) (other : c ≠ '\r') : c ∈ lineShown line tail := by
  unfold lineShown
  split
  · rename_i ends
    obtain ⟨body, rfl⟩ := List.getLast?_eq_some_iff.1 ends.2
    simpa [other] using member
  · exact member

theorem lineShown_subset (line tail : List Char) : lineShown line tail ⊆ line := by
  unfold lineShown
  split
  · exact (List.dropLast_sublist line).subset
  · exact List.Subset.refl line

theorem isChain_line (inside : '\n' ∉ line) (last : Char) :
    (line ++ [last]).IsChain fun c _ => (c != '\n') = true := by
  induction line with
  | nil => exact .singleton last
  | cons c line ih =>
    obtain ⟨first, inside⟩ := not_or.1 (List.mem_cons.not.1 inside)
    rw [List.cons_append, List.isChain_cons]
    refine ⟨?_, ih inside⟩
    intro d _
    simpa using Ne.symm first

theorem dropLineEnd_line (inside : '\n' ∉ line) : dropLineEnd line = line := by
  have noEnd : line.getLast? ≠ some '\n' := by
    intro last
    exact inside (List.mem_of_getLast? last)
  rw [dropLineEnd, if_neg noEnd]

theorem sourceLines_append (starts : ∀ c ∈ head.getLast?, c = '\n') (tail : List Char) :
    sourceLines (head ++ tail) = sourceLines head ++ sourceLines tail := by
  rw [sourceLines, List.splitBy_append, List.map_append]
  · rfl
  · intro c last d _
    simp [starts c last]

theorem sourceLines_line (inside : '\n' ∉ line) (nonempty : line ≠ []) :
    sourceLines line = [line] := by
  have chain : line.IsChain fun c _ => (c != '\n') = true := by
    rw [← List.dropLast_append_getLast nonempty]
    apply isChain_line
    intro member
    exact inside ((List.dropLast_sublist line).subset member)
  rw [sourceLines, List.splitBy_of_isChain nonempty chain, List.map_singleton,
    dropLineEnd_line inside]

theorem sourceLines_line_feed (inside : '\n' ∉ line) (tail : List Char) :
    sourceLines (line ++ '\n' :: tail) = lineShown line ('\n' :: tail) :: sourceLines tail := by
  have first : sourceLines (line ++ ['\n']) = [lineShown line ('\n' :: tail)] := by
    rw [sourceLines, List.splitBy_of_isChain (by simp) (isChain_line inside '\n')]
    simp [dropLineEnd, lineShown]
  rw [List.append_cons, sourceLines_append (by simp), first]
  rfl

/-- A text that ends in a line feed has as many lines as line feeds. -/
theorem length_sourceLines (head : List Char) (starts : ∀ c ∈ head.getLast?, c = '\n') :
    (sourceLines head).length = head.count '\n' := by
  match last : head.getLast? with
  | none =>
    rw [List.getLast?_eq_none_iff.1 last]
    rfl
  | some c =>
    obtain rfl := starts c last
    obtain ⟨line, tail, same, inside⟩ := List.eq_append_cons_of_mem (List.mem_of_getLast? last)
    have shorter : tail.length < head.length := by
      rw [same, List.length_append, List.length_cons]
      omega
    have rest : ∀ c ∈ tail.getLast?, c = '\n' := by
      intro c found
      apply starts
      rw [same, List.getLast?_append, List.getLast?_cons]
      simp_all
    rw [same, sourceLines_line_feed inside, List.length_cons, length_sourceLines tail rest,
      List.count_append, List.count_cons_self, List.count_eq_zero.2 inside, Nat.zero_add]
termination_by head.length

end Lines

namespace Stretch

variable {source head line tail : List Char}

/-- The stretch behind some line feeds is the line with that number, if it is a line at all:
nothing behind the last line feed is none. -/
theorem getElem?_sourceLines (stretch : Stretch source head line tail) :
    (sourceLines source)[head.count '\n']? =
      if line = [] ∧ tail = [] then none else some (lineShown line tail) := by
  rw [stretch.source_eq, sourceLines_append stretch.starts,
    ← length_sourceLines head stretch.starts, List.getElem?_append_right (Nat.le_refl _), Nat.sub_self]
  cases tail with
  | nil =>
    by_cases empty : line = []
    · rw [empty]
      rfl
    · rw [List.append_nil, sourceLines_line stretch.noLineFeed empty]
      simp [empty, lineShown]
  | cons c tail =>
    obtain rfl := stretch.ends c rfl
    rw [sourceLines_line_feed stretch.noLineFeed]
    simp

theorem snippet?_eq (stretch : Stretch source head line tail) :
    Diagnostic.snippet? (sourceLines source).toArray (1 + head.count '\n') =
      if line = [] ∧ tail = [] then none else some (String.ofList (lineShown line tail)) := by
  rw [Diagnostic.snippet?, Nat.add_sub_cancel_left, List.getElem?_toArray,
    stretch.getElem?_sourceLines]
  split <;> rfl

/-- The last stretch is empty just behind a line feed. -/
theorem eq_nil_iff (stretch : Stretch source head line []) (nonempty : source ≠ []) :
    line = [] ↔ source.getLast? = some '\n' := by
  have whole : source = head ++ line := by simpa using stretch.source_eq
  by_cases empty : line = []
  · rw [empty, List.append_nil] at whole
    rw [whole] at nonempty ⊢
    have last := stretch.starts _ (List.getLast?_eq_some_getLast nonempty)
    simp [empty, List.getLast?_eq_some_getLast nonempty, last]
  · have last : source.getLast? = some (line.getLast empty) := by
      rw [whole, List.getLast?_append_of_ne_nil head empty, List.getLast?_eq_some_getLast empty]
    have different : line.getLast empty ≠ '\n' := by
      intro same
      exact stretch.noLineFeed (same ▸ List.getLast_mem empty)
    simp [empty, last, different]

end Stretch

theorem exists_last_stretch (text : List Char) :
    ∃ head left, text = head ++ left ∧ '\n' ∉ left ∧ ∀ c ∈ head.getLast?, c = '\n' := by
  induction text using List.reverseRecOn with
  | nil => exact ⟨[], [], rfl, by simp, by simp⟩
  | append_singleton text c ih =>
    by_cases lineFeed : c = '\n'
    · exact ⟨text ++ [c], [], by simp, by simp, by simp [lineFeed]⟩
    · obtain ⟨head, left, rfl, inside, starts⟩ := ih
      refine ⟨head, left ++ [c], by simp, ?_, starts⟩
      simpa [inside] using Ne.symm lineFeed

/-- Every place in a source lies in a stretch of it, unless a line feed stands there. -/
theorem exists_stretch_around {c : Char} (other : c ≠ '\n') (before after : List Char) :
    ∃ head left right tail, before = head ++ left ∧ after = right ++ tail ∧
      Stretch (before ++ c :: after) head (left ++ c :: right) tail := by
  obtain ⟨head, left, rfl, inside, starts⟩ := exists_last_stretch before
  refine ⟨head, left, after.takeWhile (· != '\n'), after.dropWhile (· != '\n'), rfl,
    List.takeWhile_append_dropWhile.symm, ?_, ?_, starts, ?_⟩
  · simp [List.takeWhile_append_dropWhile]
  · simp [inside, Ne.symm other, not_mem_takeWhile_ne]
  · simpa using head?_dropWhile_false (p := (· != '\n')) after

namespace Fault

/-- The source line that is shown with a fault. -/
def snippet? (source : String) (f : Fault) : Option String :=
  Diagnostic.snippet? (sourceLines source.toList).toArray f.line

/-- The line that tells what is wrong and where. -/
def heading (f : Fault) : String :=
  Style.brightBlack.apply ("[line " ++ toString f.line ++ "]") ++ " " ++
    Style.boldRed.apply "Error" ++ ": " ++ Style.red.apply f.message ++ "\n"

/-- The line that shows a source line, its number in the margin. -/
def quote (f : Fault) (snippet : String) : String :=
  Style.brightBlack.apply (Diagnostic.margin f.line) ++ snippet ++ "\n"

def help (f : Fault) : Help :=
  match f.cause with
  | .unexpectedCharacter _ => .unexpectedCharacter
  | .unterminatedString => .unterminatedString

theorem ofMessage?_message (f : Fault) : Help.ofMessage? f.message = some f.help := by
  obtain ⟨cause, line⟩ := f
  cases cause with
  | unexpectedCharacter c =>
    change Help.ofMessage? "Unexpected character." = some .unexpectedCharacter
    decide +kernel
  | unterminatedString =>
    change Help.ofMessage? "Unterminated string." = some .unterminatedString
    decide +kernel

/-- What is shown of a fault is its heading, the source line if there is one, and help. -/
theorem block_eq (source : String) (f : Fault) :
    f.block source = f.heading ++ (f.snippet? source).elim "" f.quote ++ f.help.render := by
  have help : (Help.ofMessage? f.diagnostic.message).elim "" Help.render = f.help.render :=
    congrArg (Option.elim · "" Help.render) f.ofMessage?_message
  rw [← help]
  rfl

end Fault

section Snippets

variable {source : String} {front back : List Placed} {start : Position}

theorem toList_of_split {p : Placed} (split : segments source = front ++ p :: back) :
    source.toList = front.flatMap Placed.text ++ (p.text ++ back.flatMap Placed.text) := by
  rw [← List.flatMap_cons, ← List.flatMap_append, ← split]
  exact (flatMap_text_segmentsFrom .start source.toList).symm

/-- An unexpected character is shown with the stretch around it. -/
theorem exists_snippet_unexpected {c : Char}
    (split : segments source = front ++ ⟨start, .unexpected c⟩ :: back) :
    ∃ head left right tail, front.flatMap Placed.text = head ++ left ∧
      back.flatMap Placed.text = right ++ tail ∧
      Stretch source.toList head (left ++ c :: right) tail ∧
      Fault.snippet? source ⟨.unexpectedCharacter c, start.line⟩ =
        some (String.ofList (lineShown (left ++ c :: right) tail)) := by
  obtain ⟨stray, -, started⟩ := segmentsFrom_split split
  have text : source.toList = front.flatMap Placed.text ++ c :: back.flatMap Placed.text :=
    toList_of_split split
  have noLine : c ≠ '\n' := by
    rintro rfl
    contradiction
  obtain ⟨head, left, right, tail, before, after, stretch⟩ :=
    exists_stretch_around noLine (front.flatMap Placed.text) (back.flatMap Placed.text)
  rw [← text] at stretch
  have lines : start.line = 1 + head.count '\n' := by
    have inside := stretch.noLineFeed
    rw [List.mem_append, not_or] at inside
    change start = _ at started
    rw [started, before, Position.after, List.count_append, List.count_eq_zero.2 inside.1]
    rfl
  refine ⟨head, left, right, tail, before, after, stretch, ?_⟩
  rw [Fault.snippet?, lines, stretch.snippet?_eq]
  simp

/-- An open string is shown with the last stretch of the source, if that is not empty. -/
theorem exists_snippet_unterminated {body : List Char}
    (split : segments source = front ++ ⟨start, .unterminated body⟩ :: back) :
    ∃ head line, Stretch source.toList head line [] ∧
      Fault.snippet? source ⟨.unterminatedString, (Placed.mk start (.unterminated body)).stop.line⟩ =
        if source.toList.getLast? = some '\n' then none else some (String.ofList line) := by
  obtain ⟨-, last, started⟩ := segmentsFrom_split split
  have behind : back.flatMap Placed.text = [] := last
  have text := toList_of_split split
  rw [behind, List.append_nil] at text
  obtain ⟨head, line, same, inside, starts⟩ := exists_last_stretch source.toList
  have stretch : Stretch source.toList head line [] := ⟨by simpa using same, inside, starts, by simp⟩
  have lines : (Placed.mk start (.unterminated body)).stop.line = 1 + head.count '\n' := by
    rw [Placed.stop, started, ← Position.after_append, ← text, same, Position.after,
      List.count_append, List.count_eq_zero.2 inside]
    rfl
  have nonempty : source.toList ≠ [] := by
    rw [text]
    simp [Placed.text, Segment.text]
  refine ⟨head, line, stretch, ?_⟩
  simp only [Fault.snippet?, lines, stretch.snippet?_eq, ← stretch.eq_nil_iff nonempty]
  simp [lineShown]

end Snippets

/-- Every fault is shown as a heading, the line it is about, and help. For an unexpected
character that line is the stretch between line feeds around it, for an open string the text
behind the last line feed, if there is any. -/
theorem scan_faults_quoted (source : String) {earlier later : List Fault} {f : Fault}
    (split : (scan source).faults = earlier ++ f :: later) :
    ∃ front p back, segments source = front ++ p :: back ∧
      front.filterMap Placed.fault? = earlier ∧ p.fault? = some f ∧
      match f.cause with
      | .unexpectedCharacter c => ∃ head left right tail snippet,
          front.flatMap Placed.text = head ++ left ∧ p.text = [c] ∧
          back.flatMap Placed.text = right ++ tail ∧
          Stretch source.toList head (left ++ c :: right) tail ∧
          f.snippet? source = some snippet ∧
          f.block source = f.heading ++ f.quote snippet ++ Help.unexpectedCharacter.render ∧
          snippet.toList = lineShown (left ++ c :: right) tail ∧
          c ∈ snippet.toList ∧ '\n' ∉ snippet.toList
      | .unterminatedString => ∃ head line, Stretch source.toList head line [] ∧
          f.snippet? source =
            (if source.toList.getLast? = some '\n' then none else some (String.ofList line)) ∧
          f.block source = f.heading ++
            (if source.toList.getLast? = some '\n' then "" else f.quote (String.ofList line)) ++
            Help.unterminatedString.render := by
  obtain ⟨front, rest, parts, early, found⟩ := List.filterMap_eq_append_iff.1 split
  obtain ⟨silent, p, back, rfl, sound, fault, -⟩ := List.filterMap_eq_cons_iff.1 found
  rw [← List.append_assoc] at parts
  have before : (front ++ silent).filterMap Placed.fault? = earlier := by
    rw [List.filterMap_append, early, List.filterMap_eq_nil_iff.2 sound, List.append_nil]
  refine ⟨front ++ silent, p, back, parts, before, fault, ?_⟩
  obtain ⟨start, segment⟩ := p
  cases segment with
  | unexpected c =>
    obtain rfl := Option.some.inj fault
    obtain ⟨head, left, right, tail, one, two, stretch, shown⟩ := exists_snippet_unexpected parts
    have stray : isStray c = true := (segmentsFrom_split parts).1
    have noReturn : c ≠ '\r' := by
      rintro rfl
      contradiction
    refine ⟨head, left, right, tail, _, one, rfl, two, stretch, shown, ?_, String.toList_ofList,
      ?_, ?_⟩
    · rw [Fault.block_eq, shown]
      rfl
    · rw [String.toList_ofList]
      exact mem_lineShown (by simp) noReturn
    · rw [String.toList_ofList]
      intro member
      exact stretch.noLineFeed (lineShown_subset _ _ member)
  | unterminated body =>
    obtain rfl := Option.some.inj fault
    obtain ⟨head, line, stretch, shown⟩ := exists_snippet_unterminated parts
    refine ⟨head, line, stretch, shown, ?_⟩
    rw [Fault.block_eq, shown, apply_ite (Option.elim · "" _)]
    rfl
  | _ => contradiction

theorem scan_faults_quoted_behind_string :
    (scan "\"a\nb\" @\r\nc").faults = [] ++ ⟨.unexpectedCharacter '@', 2⟩ :: [] ∧
      ∃ head left right tail, Stretch "\"a\nb\" @\r\nc".toList head (left ++ '@' :: right) tail ∧
        Fault.snippet? "\"a\nb\" @\r\nc" ⟨.unexpectedCharacter '@', 2⟩ = some "b\" @" ∧
        Fault.block "\"a\nb\" @\r\nc" ⟨.unexpectedCharacter '@', 2⟩ =
          Fault.heading ⟨.unexpectedCharacter '@', 2⟩ ++
            Fault.quote ⟨.unexpectedCharacter '@', 2⟩ "b\" @" ++ Help.unexpectedCharacter.render ∧
        "b\" @".toList = lineShown (left ++ '@' :: right) tail := by
  have faults : (scan "\"a\nb\" @\r\nc").faults = [] ++ ⟨.unexpectedCharacter '@', 2⟩ :: [] := by
    decide +kernel
  have shown : Fault.snippet? "\"a\nb\" @\r\nc" ⟨.unexpectedCharacter '@', 2⟩ = some "b\" @" := by
    decide +kernel
  obtain ⟨-, -, -, -, -, -, head, left, right, tail, snippet, -, -, -, stretch, found, block, same,
    -⟩ := scan_faults_quoted _ faults
  obtain rfl := Option.some.inj (found.symm.trans shown)
  exact ⟨faults, head, left, right, tail, stretch, shown, block, same⟩

end ScriptLexer
