import ScriptLexer.Proofs.Insertion
import ScriptLexer.Proofs.Listings
import ScriptLexer.Proofs.Outcomes
import ScriptLexer.Proofs.Snippets

/-! Line endings: a carriage return in front of every line feed. It is a blank
between segments, the end of a comment that runs up to the line feed, and a part of
a string. The main statement is that a scan finds the same faults and tokens, but
for the strings that run over several lines, and that a terminal shows the same. -/
namespace ScriptLexer

/-- The text with a carriage return in front of every line feed. -/
def addReturns (text : List Char) : List Char :=
  text.flatMap fun c => if c = '\n' then ['\r', '\n'] else [c]

def returned (text : String) : String := String.ofList (addReturns text.toList)

section AddReturns

variable {text rest : List Char}

@[simp] theorem addReturns_nil : addReturns [] = [] := rfl

theorem addReturns_lineFeed (rest : List Char) :
    addReturns ('\n' :: rest) = '\r' :: '\n' :: addReturns rest := rfl

theorem addReturns_cons {c : Char} (other : c ≠ '\n') (rest : List Char) :
    addReturns (c :: rest) = c :: addReturns rest := by
  simp [addReturns, other]

theorem addReturns_append (text rest : List Char) :
    addReturns (text ++ rest) = addReturns text ++ addReturns rest :=
  List.flatMap_append

theorem addReturns_of_not_mem (noLine : '\n' ∉ text) : addReturns text = text := by
  induction text with
  | nil => rfl
  | cons c text ih =>
    obtain ⟨first, noLine⟩ := not_or.1 (List.mem_cons.not.1 noLine)
    rw [addReturns_cons (Ne.symm first), ih noLine]

/-- Carriage returns alone are put in, so other characters are as many as before. -/
theorem count_addReturns {c : Char} (other : c ≠ '\r') (text : List Char) :
    (addReturns text).count c = text.count c := by
  induction text with
  | nil => rfl
  | cons d text ih =>
    by_cases lineFeed : d = '\n'
    · rw [lineFeed, addReturns_lineFeed, List.count_cons_of_ne (Ne.symm other), List.count_cons,
        List.count_cons, ih]
    · rw [addReturns_cons lineFeed, List.count_cons, List.count_cons, ih]

theorem mem_addReturns {c : Char} (other : c ≠ '\r') : c ∈ addReturns text ↔ c ∈ text := by
  rw [← List.count_pos_iff, count_addReturns other, List.count_pos_iff]

/-- Where no line feed stands, a text is no harder to end in front of than before. -/
theorem milder_addReturns (noLine : text.head? ≠ some '\n') : Milder text (addReturns text) := by
  cases text with
  | nil => exact .of_line (by simp)
  | cons c tail =>
    have other : c ≠ '\n' := by simpa using noLine
    rw [addReturns_cons other]
    refine ⟨fun d found => .inr found, fun line => line, ?_⟩
    intro d left same digit
    obtain ⟨rfl, behind⟩ := List.cons.inj same
    cases tail with
    | nil => contradiction
    | cons e tail =>
      by_cases lineFeed : e = '\n'
      · rw [lineFeed, addReturns_lineFeed] at behind
        obtain ⟨rfl, -⟩ := List.cons.inj behind
        contradiction
      · rw [addReturns_cons lineFeed] at behind
        obtain ⟨rfl, -⟩ := List.cons.inj behind
        exact ⟨tail, rfl⟩

end AddReturns

/-! ### Segments -/

namespace Segment

/-- The segment with carriage returns in its characters. -/
def withReturns : Segment → Segment
  | string body => string (addReturns body)
  | unterminated body => unterminated (addReturns body)
  | segment => segment

variable {segment : Segment} {rest : List Char}

theorem WellFormed.withReturns (wellFormed : segment.WellFormed) :
    segment.withReturns.WellFormed := by
  cases segment with
  | string body => exact (mem_addReturns (by decide)).not.2 wellFormed
  | unterminated body => exact (mem_addReturns (by decide)).not.2 wellFormed
  | _ => exact wellFormed

/-- Line feeds are blanks of their own, or parts of strings. -/
theorem withReturns_text (wellFormed : segment.WellFormed) (other : segment ≠ blank '\n') :
    segment.withReturns.text = addReturns segment.text := by
  cases segment with
  | string body =>
    rw [withReturns, text, text, addReturns_cons (by decide), addReturns_append]
    rfl
  | unterminated body =>
    rw [withReturns, text, text, addReturns_cons (by decide)]
  | blank c =>
    have noLine : c ≠ '\n' := fun same => other (congrArg blank same)
    exact (addReturns_cons noLine []).symm
  | comment body =>
    have inside := addReturns_of_not_mem wellFormed
    change '/' :: '/' :: body = addReturns ('/' :: '/' :: body)
    rw [addReturns_cons (by decide), addReturns_cons (by decide), inside]
  | symbol s => cases s <;> rfl
  | word letters =>
    refine (addReturns_of_not_mem ?_).symm
    intro lineFeed
    exact absurd (wellFormed.part '\n' lineFeed) (by decide)
  | number numeral =>
    refine (addReturns_of_not_mem ?_).symm
    intro lineFeed
    exact absurd (Numeral.mem_text wellFormed lineFeed) (by decide)
  | unexpected c =>
    have noLine : c ≠ '\n' := by
      rintro rfl
      contradiction
    exact (addReturns_cons noLine []).symm

theorem Ends.withReturns (ends : segment.Ends rest) (noComment : ∀ body, segment ≠ comment body) :
    segment.withReturns.Ends (addReturns rest) := by
  by_cases lineFeed : rest.head? = some '\n'
  · obtain ⟨tail, rfl⟩ := List.head?_eq_some_iff.1 lineFeed
    rw [addReturns_lineFeed]
    cases segment with
    | comment body => exact absurd rfl (noComment body)
    | unterminated body => contradiction
    | symbol s => exact ends_blank (by cases s <;> rfl) rfl
    | _ => exact ends_blank rfl rfl
  · cases segment with
    | comment body => exact absurd rfl (noComment body)
    | unterminated body =>
      cases ends
      rfl
    | string => trivial
    | _ => exact ends.of_milder (milder_addReturns lineFeed) (by simp [cause?])

end Segment

/-! ### Findings -/

/-- The meaning with carriage returns in a string. -/
def Meaning.withReturns : Meaning → Meaning
  | literal (.string value) => literal (.string (returned value))
  | meaning => meaning

/-- The token with carriage returns in its lexeme, and in its value if it is a string. -/
def Token.withReturns (t : Token) : Token where
  meaning := t.meaning.withReturns
  lexeme := returned t.lexeme
  line := t.line

namespace Segment

variable {segment : Segment}

theorem meaning?_withReturns (segment : Segment) :
    segment.withReturns.meaning? = segment.meaning?.map Meaning.withReturns := by
  cases segment with
  | string body => simp [withReturns, meaning?, Meaning.withReturns, returned]
  | word letters =>
    simp only [withReturns, meaning?]
    cases Keyword.ofSpelling? (String.ofList letters) <;> rfl
  | _ => rfl

theorem tokenOn?_withReturns (wellFormed : segment.WellFormed) (other : segment ≠ blank '\n')
    (line : Nat) :
    segment.withReturns.tokenOn? line = (segment.tokenOn? line).map Token.withReturns := by
  rw [tokenOn?, tokenOn?, meaning?_withReturns, withReturns_text wellFormed other, Option.map_map,
    Option.map_map]
  congr 1
  funext meaning
  simp [Token.withReturns, returned]

theorem faultOn?_withReturns (segment : Segment) (line : Nat) :
    segment.withReturns.faultOn? line = segment.faultOn? line := by
  cases segment with
  | unterminated body => rw [withReturns, faultOn?, faultOn?, count_addReturns (by decide)]
  | _ => rfl

end Segment

theorem findings_cons_silent {α : Type} {view : Nat → Segment → Option α} {line : Nat}
    {segment : Segment} (silent : view line segment = none) (noLine : '\n' ∉ segment.text)
    (segments : List Segment) :
    findings view line (segment :: segments) = findings view line segments := by
  rw [findings, silent, List.count_eq_zero.2 noLine]
  rfl

namespace Segmentation

variable {source : List Char} {segments : List Segment}

/-- A carriage return in front of a text is a segment of its own. -/
theorem of_return (cut : Segmentation ('\r' :: source) segments) :
    ∃ others, segments = .blank '\r' :: others ∧ Segmentation source others := by
  obtain ⟨others, tail⟩ := exists_segmentation source
  have shape : (Segment.blank '\r').WellFormed := rfl
  exact ⟨others, cut.unique (.cons shape trivial tail), tail⟩

/-- A comment takes in the carriage return in front of its line feed. -/
theorem comment_withReturns {body rest : List Char} {others : List Segment} (line : '\n' ∉ body)
    (ends : ∀ c ∈ rest.head?, c = '\n') (tail : Segmentation (addReturns rest) others) :
    ∃ taken left, Segmentation (addReturns ('/' :: '/' :: body ++ rest)) (.comment taken :: left) ∧
      '\n' ∉ taken ∧ (others = left ∨ others = .blank '\r' :: left) := by
  have slashes : addReturns ('/' :: '/' :: body ++ rest) = '/' :: '/' :: (body ++ addReturns rest) := by
    rw [List.cons_append, List.cons_append, addReturns_cons (by decide),
      addReturns_cons (by decide), addReturns_append, addReturns_of_not_mem line]
  rw [slashes]
  cases rest with
  | nil =>
    have shape : (Segment.comment body).WellFormed := line
    have cut := Segmentation.cons shape (Segment.ends_nil _) tail
    exact ⟨body, others, cut, line, .inl rfl⟩
  | cons c rest =>
    obtain rfl := ends c rfl
    rw [addReturns_lineFeed] at tail ⊢
    obtain ⟨left, rfl, behind⟩ := tail.of_return
    have shape : (Segment.comment (body ++ ['\r'])).WellFormed :=
      List.not_mem_append line (by decide)
    have cut := Segmentation.cons shape (by simp [Segment.Ends]) behind
    refine ⟨body ++ ['\r'], left, ?_, shape, .inr rfl⟩
    simpa [Segment.text] using cut

/-- With carriage returns in front of its line feeds a source has other segments, but
what is found in them is the same up to carriage returns. -/
theorem exists_withReturns (cut : Segmentation source segments) :
    ∃ others, Segmentation (addReturns source) others ∧ ∀ line,
      findings Segment.tokenOn? line others =
        (findings Segment.tokenOn? line segments).map Token.withReturns ∧
      findings Segment.faultOn? line others = findings Segment.faultOn? line segments := by
  induction cut with
  | nil => exact ⟨[], .nil, fun line => ⟨rfl, rfl⟩⟩
  | @cons segment rest segments wellFormed ends tail ih =>
    obtain ⟨others, whole, found⟩ := ih
    by_cases lineFeed : segment = .blank '\n'
    · subst lineFeed
      have first : (Segment.blank '\r').WellFormed := rfl
      exact ⟨.blank '\r' :: .blank '\n' :: others, .cons first trivial (.cons wellFormed trivial whole),
        fun line => found (line + 1)⟩
    · by_cases comment : ∃ body, segment = .comment body
      · obtain ⟨body, rfl⟩ := comment
        obtain ⟨taken, left, cut, inside, same⟩ := whole.comment_withReturns wellFormed ends
        refine ⟨.comment taken :: left, cut, fun line => ?_⟩
        have noLine {text : List Char} (inside : '\n' ∉ text) : '\n' ∉ (Segment.comment text).text := by
          simpa [Segment.text] using inside
        rw [findings_cons_silent rfl (noLine inside), findings_cons_silent rfl (noLine inside),
          findings_cons_silent rfl (noLine wellFormed), findings_cons_silent rfl (noLine wellFormed)]
        rcases same with rfl | rfl
        · exact found line
        · exact found line
      · have cut := Segmentation.cons wellFormed.withReturns
          (ends.withReturns (not_exists.1 comment)) whole
        rw [segment.withReturns_text wellFormed lineFeed, ← addReturns_append] at cut
        refine ⟨segment.withReturns :: others, cut, fun line => ?_⟩
        have lines : segment.withReturns.text.count '\n' = segment.text.count '\n' := by
          rw [segment.withReturns_text wellFormed lineFeed, count_addReturns (by decide)]
        obtain ⟨tokens, faults⟩ := found (line + segment.text.count '\n')
        rw [findings, findings, findings, findings, lines, tokens, faults, List.map_append,
          Segment.tokenOn?_withReturns wellFormed lineFeed, Segment.faultOn?_withReturns,
          Option.toList_map]
        exact ⟨rfl, rfl⟩

end Segmentation

/-! ### Source lines -/

/-- What is shown of a line does not show whether a carriage return stood at its end. -/
theorem sourceLines_addReturns (source : List Char) (free : '\r' ∉ source) :
    sourceLines (addReturns source) = sourceLines source := by
  by_cases lineFeed : '\n' ∈ source
  · obtain ⟨line, tail, same, inside⟩ := List.eq_append_cons_of_mem lineFeed
    have shorter : tail.length < source.length := by
      rw [same, List.length_append, List.length_cons]
      omega
    rw [same, List.mem_append, List.mem_cons, not_or, not_or] at free
    obtain ⟨noReturn, -, noReturns⟩ := free
    have returned : '\n' ∉ line ++ ['\r'] := List.not_mem_append inside (by decide)
    have shown : lineShown line ('\n' :: tail) = line := by
      have last : line.getLast? ≠ some '\r' := fun last => noReturn (List.mem_of_getLast? last)
      simp [lineShown, last]
    rw [same, addReturns_append, addReturns_of_not_mem inside, addReturns_lineFeed, List.append_cons,
      sourceLines_line_feed returned, sourceLines_line_feed inside, shown,
      sourceLines_addReturns tail noReturns]
    simp [lineShown]
  · rw [addReturns_of_not_mem lineFeed]
termination_by source.length

theorem Fault.block_returned {source : String} (free : '\r' ∉ source.toList) (f : Fault) :
    f.block (returned source) = f.block source := by
  rw [block, block, returned, String.toList_ofList, sourceLines_addReturns _ free]

/-- A found token without a line feed stays as it is. -/
theorem Token.Found.withReturns_eq {t : Token} (found : t.Found) (noLine : '\n' ∉ t.lexeme.toList) :
    t.withReturns = t := by
  have unchanged {text : List Char} (inside : '\n' ∉ text) :
      returned (String.ofList text) = String.ofList text := by
    rw [returned, String.toList_ofList, addReturns_of_not_mem inside]
  cases found with
  | endOfInput => rfl
  | @lexeme meaning text line lexeme =>
    rw [String.toList_ofList] at noLine
    have same : meaning.withReturns = meaning := by
      cases lexeme with
      | @string body unquoted =>
        have inside : '\n' ∉ body := by
          intro lineFeed
          exact noLine (by simp [lineFeed])
        rw [Meaning.withReturns, unchanged inside]
      | symbol | keyword | identifier | number => rfl
    rw [Token.withReturns, unchanged noLine, same]

/-- Line endings of either kind make the same faults and the same tokens, but for carriage
returns in strings. If all of a source's are added ones, a run shows the same faults in the
same way and ends with the same status. -/
theorem scan_returned (source : String) :
    (scan (returned source)).tokens = (scan source).tokens.map Token.withReturns ∧
      (scan (returned source)).faults = (scan source).faults ∧
      (∀ t ∈ (scan source).tokens, '\n' ∉ t.lexeme.toList → t.withReturns = t) ∧
      ('\r' ∉ source.toList → ∀ (arguments others : List String) (stdin input : ByteArray)
        (files places : CommandLine.FileSystem) (format listed : Format),
        CommandLine.Takes stdin files arguments (.scanned format source) →
        CommandLine.Takes input places others (.scanned listed (returned source)) →
          (CommandLine.run others input places).stderr =
              (CommandLine.run arguments stdin files).stderr ∧
            (CommandLine.run others input places).code =
              (CommandLine.run arguments stdin files).code) := by
  obtain ⟨segments, cut⟩ := exists_segmentation source.toList
  obtain ⟨others, whole, found⟩ := cut.exists_withReturns
  obtain ⟨tokens, faults⟩ := found 1
  have whole : Segmentation (returned source).toList others := by
    rwa [returned, String.toList_ofList]
  have lines : (returned source).toList.count '\n' = source.toList.count '\n' := by
    rw [returned, String.toList_ofList, count_addReturns (by decide)]
  have same : (scan (returned source)).faults = (scan source).faults := by
    rw [whole.scan_eq, cut.scan_eq, faults]
  refine ⟨?_, same, ?_, ?_⟩
  · rw [whole.scan_eq, cut.scan_eq, tokens, lines, List.map_append]
    rfl
  · intro t member
    exact (found_of_mem_scan member).withReturns_eq
  · intro free arguments others stdin input files places format listed first second
    have blocks : Fault.block (returned source) = Fault.block source :=
      funext (Fault.block_returned free)
    rw [CommandLine.run_eq, CommandLine.run_eq, ← first.eq_course, ← second.eq_course]
    simp only [CommandLine.Course.outcome, same, blocks]
    exact ⟨trivial, trivial⟩

theorem scan_returned_around_comment :
    (⟨.identifier, "x", 2⟩ ∈ (scan "\"\n\"x@//\n\"").tokens ∧ '\n' ∉ "x".toList ∧
        '\r' ∉ "\"\n\"x@//\n\"".toList ∧
        CommandLine.Takes "\"\n\"x@//\n\"".toUTF8 .empty [] (.scanned .text "\"\n\"x@//\n\"") ∧
        CommandLine.Takes "\"\r\n\"x@//\r\n\"".toUTF8 .empty ["-fjson"]
          (.scanned .json (returned "\"\n\"x@//\n\""))) ∧
      (scan "\"\r\n\"x@//\r\n\"").faults =
        [⟨.unexpectedCharacter '@', 2⟩, ⟨.unterminatedString, 3⟩] ∧
      Token.withReturns ⟨.identifier, "x", 2⟩ = ⟨.identifier, "x", 2⟩ ∧
      (CommandLine.run ["-fjson"] "\"\r\n\"x@//\r\n\"".toUTF8 .empty).stderr =
        (CommandLine.run [] "\"\n\"x@//\n\"".toUTF8 .empty).stderr ∧
      (CommandLine.run ["-fjson"] "\"\r\n\"x@//\r\n\"".toUTF8 .empty).code =
        (CommandLine.run [] "\"\n\"x@//\n\"".toUTF8 .empty).code := by
  obtain ⟨-, faults, kept, shown⟩ := scan_returned "\"\n\"x@//\n\""
  have same : returned "\"\n\"x@//\n\"" = "\"\r\n\"x@//\r\n\"" := by decide +kernel
  have member : ⟨.identifier, "x", 2⟩ ∈ (scan "\"\n\"x@//\n\"").tokens :=
    List.mem_of_getElem? (i := 1) (by decide +kernel)
  have noLine : '\n' ∉ "x".toList := by decide
  have free : '\r' ∉ "\"\n\"x@//\n\"".toList := by decide
  have text : CommandLine.Command.ofArguments [] = .ok (.scan ⟨none, .text⟩) := rfl
  have json : CommandLine.Command.ofArguments ["-fjson"] = .ok (.scan ⟨none, .json⟩) := by decide
  have first : CommandLine.Takes "\"\n\"x@//\n\"".toUTF8 .empty []
      (.scanned .text "\"\n\"x@//\n\"") := .scanned text (.input rfl)
  have second : CommandLine.Takes "\"\r\n\"x@//\r\n\"".toUTF8 .empty ["-fjson"]
      (.scanned .json (returned "\"\n\"x@//\n\"")) := .scanned json (.input (by rw [same]))
  rw [same] at faults
  exact ⟨⟨member, noLine, free, first, second⟩, faults.trans (by decide +kernel),
    kept _ member noLine, shown free _ _ _ _ _ _ _ _ first second⟩

end ScriptLexer
