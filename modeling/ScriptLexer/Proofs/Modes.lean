import ScriptLexer.Proofs.Findings

/-! Modes: a reader of single characters that knows no lexemes. It remembers
whether it is in code, behind a slash of code, in a comment or in a string. The
main statement is that this foretells all faults of a scan, in order and on their
lines. -/
namespace ScriptLexer

inductive Mode
  | code
  | afterSlash
  | comment
  | string
  deriving DecidableEq

namespace Mode

def step : Mode → Char → Mode
  | code, c => if c = '/' then afterSlash else if c = '"' then string else code
  | afterSlash, c => if c = '/' then comment else if c = '"' then string else code
  | comment, c => if c = '\n' then code else comment
  | string, c => if c = '"' then code else string

/-- The mode behind a text; a source starts in code. -/
def behind (text : List Char) : Mode := text.foldl step code

def readsCode : Mode → Bool
  | code | afterSlash => true
  | comment | string => false

end Mode

/-- The characters that code is made of: those of words and numbers, blanks, those
of symbols and the double quote. All others are faults there. -/
def isCodeChar (c : Char) : Bool :=
  c.isAlpha || c.isDigit || c == '_' || [' ', '\t', '\r', '\n'].contains c ||
    ['(', ')', '{', '}', ',', '.', '-', '+', ';', '*', '/', '!', '=', '<', '>'].contains c || c == '"'

/-- The unexpected characters that the modes foretell in a text, when some text
stands before it. -/
def straysBehind (before : List Char) : List Char → List Fault
  | [] => []
  | c :: rest =>
    if (Mode.behind before).readsCode = true ∧ isCodeChar c = false then
      ⟨.unexpectedCharacter c, 1 + before.count '\n'⟩ :: straysBehind (before ++ [c]) rest
    else straysBehind (before ++ [c]) rest

/-- The open string that the modes foretell at the end of a source. -/
def openString (source : List Char) : List Fault :=
  if Mode.behind source = .string then [⟨.unterminatedString, 1 + source.count '\n'⟩] else []

/-! ### Characters of code -/

theorem isCodeChar_eq (c : Char) : isCodeChar c = !isStray c := by
  have blank : c.isWhitespace = [' ', '\t', '\r', '\n'].contains c := by
    rw [Bool.eq_iff_iff, isWhitespace_iff, List.contains_iff_mem]
  simp only [isStray, isCodeChar, isWordPart, isWordStart, blank, Symbol.isNone_ofChar?,
    Bool.not_and, Bool.not_not, bne]
  ac_rfl

theorem isCodeChar_of_isWordPart {c : Char} (part : isWordPart c = true) : isCodeChar c = true := by
  simp [isCodeChar_eq, isStray, part]

theorem isCodeChar_of_isWhitespace {c : Char} (blank : c.isWhitespace = true) :
    isCodeChar c = true := by
  simp [isCodeChar_eq, isStray, blank]

/-! ### Modes along a text -/

namespace Mode

theorem behind_append (before text : List Char) :
    behind (before ++ text) = text.foldl step (behind before) :=
  List.foldl_append

theorem foldl_step_stays {mode : Mode} {text : List Char} (stays : ∀ c ∈ text, mode.step c = mode) :
    text.foldl step mode = mode := by
  induction text with
  | nil => rfl
  | cons c text ih =>
    obtain ⟨first, stays⟩ := List.forall_mem_cons.1 stays
    rw [List.foldl_cons, first, ih stays]

/-- A class without the slash and the double quote keeps a reader in code. -/
theorem step_code {p : Char → Bool} {c : Char} (inside : p c = true) (noSlash : p '/' = false)
    (noQuote : p '"' = false) : code.step c = code := by
  have notSlash : c ≠ '/' := by
    rintro rfl
    simp [noSlash] at inside
  have notQuote : c ≠ '"' := by
    rintro rfl
    simp [noQuote] at inside
  simp [step, notSlash, notQuote]

theorem step_comment {body : List Char} (line : '\n' ∉ body) : ∀ c ∈ body, comment.step c = comment := by
  intro c member
  have different := forall_ne_of_not_mem line c member
  simpa [step] using different

theorem step_string {body : List Char} (unquoted : '"' ∉ body) :
    ∀ c ∈ body, string.step c = string := by
  intro c member
  have different := forall_ne_of_not_mem unquoted c member
  simpa [step] using different

/-- A mode in which a segment can start, with the source from there on. -/
def Precedes : Mode → List Char → Prop
  | code, _ => True
  | afterSlash, source => source.head? ≠ some '/'
  | comment, source => ∀ c ∈ source.head?, c = '\n'
  | string, _ => False

variable {mode : Mode} {c : Char} {rest : List Char}

/-- Where a segment starts, the mode is as good as code. -/
theorem Precedes.step_eq (precedes : mode.Precedes (c :: rest)) : mode.step c = code.step c := by
  cases mode with
  | code => rfl
  | afterSlash =>
    have notSlash : c ≠ '/' := by simpa [Precedes] using precedes
    simp [step, notSlash]
  | comment =>
    obtain rfl : c = '\n' := precedes c rfl
    rfl
  | string => contradiction

theorem Precedes.behind_quote {before : List Char} (precedes : (behind before).Precedes ('"' :: rest)) :
    behind (before ++ ['"']) = string := by
  rw [behind_append, List.foldl_cons, precedes.step_eq]
  rfl

theorem Precedes.readsCode (precedes : mode.Precedes (c :: rest)) (stray : isCodeChar c = false) :
    mode.readsCode = true := by
  cases mode with
  | code | afterSlash => rfl
  | comment =>
    obtain rfl : c = '\n' := precedes c rfl
    contradiction
  | string => contradiction

end Mode

namespace Segment

/-- The mode behind a segment. -/
def mode : Segment → Mode
  | comment _ => .comment
  | symbol s => if s = .slash then .afterSlash else .code
  | unterminated _ => .string
  | blank _ | word _ | number _ | string _ | unexpected _ => .code

theorem Ends.precedes {segment : Segment} {rest : List Char} (ends : segment.Ends rest)
    (closed : segment.cause? ≠ some .unterminatedString) : segment.mode.Precedes rest := by
  cases segment with
  | comment body => exact ends
  | symbol s =>
    rw [mode]
    split
    · rename_i slash
      exact ends.2 slash
    · trivial
  | unterminated body => exact absurd rfl closed
  | _ => trivial

theorem foldl_step_code {segment : Segment} (wellFormed : segment.WellFormed) :
    segment.text.foldl Mode.step .code = segment.mode := by
  cases segment with
  | blank c =>
    have blank : c.isWhitespace = true := wellFormed
    exact Mode.step_code blank rfl rfl
  | comment body => exact Mode.foldl_step_stays (Mode.step_comment wellFormed)
  | symbol s => cases s <;> rfl
  | word letters =>
    apply Mode.foldl_step_stays
    intro c member
    exact Mode.step_code (wellFormed.part c member) rfl rfl
  | number numeral =>
    apply Mode.foldl_step_stays
    intro c member
    rcases Numeral.mem_text wellFormed member with digit | rfl
    · exact Mode.step_code digit rfl rfl
    · rfl
  | string body =>
    have inside := Mode.foldl_step_stays (Mode.step_string wellFormed)
    rw [text, List.foldl_cons, List.foldl_append]
    change ['"'].foldl Mode.step (body.foldl Mode.step .string) = .code
    rw [inside]
    rfl
  | unexpected c =>
    have stray : isStray c = true := wellFormed
    exact Mode.step_code stray rfl rfl
  | unterminated body => exact Mode.foldl_step_stays (Mode.step_string wellFormed)

/-- A segment takes a reader from any mode in which it can start to its own. -/
theorem foldl_step_text {segment : Segment} {mode : Mode} {rest : List Char}
    (wellFormed : segment.WellFormed) (precedes : mode.Precedes (segment.text ++ rest)) :
    segment.text.foldl Mode.step mode = segment.mode := by
  rw [← foldl_step_code wellFormed]
  obtain ⟨c, tail, starts⟩ := List.exists_cons_of_ne_nil wellFormed.text_ne_nil
  rw [starts] at precedes ⊢
  rw [List.foldl_cons, List.foldl_cons, precedes.step_eq]

end Segment

/-! ### Faults along a text -/

section Strays

variable {before text : List Char}

theorem straysBehind_append (before a b : List Char) :
    straysBehind before (a ++ b) = straysBehind before a ++ straysBehind (before ++ a) b := by
  induction a generalizing before with
  | nil => simp [straysBehind]
  | cons c a ih =>
    rw [List.cons_append, straysBehind, straysBehind, ih, List.append_assoc, List.singleton_append]
    split <;> rfl

theorem straysBehind_code (code : text.all isCodeChar = true) : straysBehind before text = [] := by
  induction text generalizing before with
  | nil => rfl
  | cons c text ih =>
    rw [List.all_cons, Bool.and_eq_true] at code
    obtain ⟨first, code⟩ := code
    rw [straysBehind, first, ih code]
    simp

theorem straysBehind_within {mode : Mode} (inside : Mode.behind before = mode)
    (notCode : mode.readsCode = false) (stays : ∀ c ∈ text, mode.step c = mode) :
    straysBehind before text = [] := by
  induction text generalizing before with
  | nil => rfl
  | cons c text ih =>
    obtain ⟨first, stays⟩ := List.forall_mem_cons.1 stays
    have later : Mode.behind (before ++ [c]) = mode := by
      rw [Mode.behind_append, inside]
      exact first
    rw [straysBehind, inside, notCode, ih later stays]
    simp

/-- Nothing is foretold for a comment or a string, from its opening on. -/
theorem straysBehind_opened {mode : Mode} {opening body : List Char}
    (code : opening.all isCodeChar = true) (opened : Mode.behind (before ++ opening) = mode)
    (notCode : mode.readsCode = false) (stays : ∀ c ∈ body, mode.step c = mode) :
    straysBehind before (opening ++ body) = [] := by
  rw [straysBehind_append, straysBehind_code code, straysBehind_within opened notCode stays,
    List.append_nil]

/-- What is foretold are characters in code that code is not made of, each on its line. -/
theorem exists_of_mem_straysBehind {f : Fault} (found : f ∈ straysBehind before text) :
    ∃ front c back, text = front ++ c :: back ∧
      f = ⟨.unexpectedCharacter c, 1 + (before ++ front).count '\n'⟩ ∧
      (Mode.behind (before ++ front)).readsCode = true ∧ isCodeChar c = false := by
  induction text generalizing before with
  | nil => contradiction
  | cons c text ih =>
    have later (member : f ∈ straysBehind (before ++ [c]) text) :
        ∃ front d back, c :: text = front ++ d :: back ∧
          f = ⟨.unexpectedCharacter d, 1 + (before ++ front).count '\n'⟩ ∧
          (Mode.behind (before ++ front)).readsCode = true ∧ isCodeChar d = false := by
      obtain ⟨front, d, back, rfl, place⟩ := ih member
      rw [List.append_assoc, List.singleton_append] at place
      exact ⟨c :: front, d, back, rfl, place⟩
    rw [straysBehind] at found
    split at found
    · rename_i stray
      rcases List.mem_cons.1 found with rfl | member
      · refine ⟨[], c, text, rfl, ?_⟩
        rw [List.append_nil]
        exact ⟨rfl, stray⟩
      · exact later member
    · exact later found

end Strays

/-- What a reader of characters finds along a segment is the fault of the segment. -/
theorem straysBehind_text {segment : Segment} {before rest : List Char}
    (wellFormed : segment.WellFormed) (closed : segment.cause? ≠ some .unterminatedString)
    (precedes : (Mode.behind before).Precedes (segment.text ++ rest)) :
    straysBehind before segment.text = (segment.faultOn? (1 + before.count '\n')).toList := by
  cases segment with
  | blank c =>
    apply straysBehind_code
    rw [Segment.text, List.all_cons, isCodeChar_of_isWhitespace wellFormed]
    rfl
  | comment body =>
    have slashes : Mode.behind (before ++ ['/', '/']) = .comment := by
      rw [Mode.behind_append, List.foldl_cons, precedes.step_eq]
      rfl
    exact straysBehind_opened rfl slashes rfl (Mode.step_comment wellFormed)
  | symbol s =>
    apply straysBehind_code
    cases s <;> rfl
  | word letters =>
    apply straysBehind_code
    rw [List.all_eq_true]
    intro c member
    exact isCodeChar_of_isWordPart (wellFormed.part c member)
  | number numeral =>
    apply straysBehind_code
    rw [List.all_eq_true]
    intro c member
    rcases Numeral.mem_text wellFormed member with digit | rfl
    · exact isCodeChar_of_isWordPart (isWordPart_of_isDigit digit)
    · rfl
  | string body =>
    have inside : straysBehind before ('"' :: body) = [] :=
      straysBehind_opened rfl precedes.behind_quote rfl (Mode.step_string wellFormed)
    have close : straysBehind (before ++ '"' :: body) ['"'] = [] := straysBehind_code rfl
    rw [Segment.text, ← List.cons_append, straysBehind_append, inside, close]
    rfl
  | unexpected c =>
    have stray : isCodeChar c = false := by
      rw [isCodeChar_eq, wellFormed]
      rfl
    simp [Segment.text, Segment.faultOn?, straysBehind, stray, precedes.readsCode stray]
  | unterminated body => exact absurd rfl closed

/-- Read on from a place where a segment can start, the modes foretell what is found. -/
theorem Segmentation.modes {source : List Char} {segments : List Segment}
    (cut : Segmentation source segments) (before : List Char)
    (precedes : (Mode.behind before).Precedes source) :
    findings Segment.faultOn? (1 + before.count '\n') segments =
      straysBehind before source ++ openString (before ++ source) := by
  induction cut generalizing before with
  | nil =>
    have notString : Mode.behind (before ++ []) ≠ .string := by
      rw [List.append_nil]
      intro string
      rw [string] at precedes
      exact precedes
    rw [openString, if_neg notString]
    rfl
  | @cons segment rest segments wellFormed ends tail ih =>
    have mode : Mode.behind (before ++ segment.text) = segment.mode := by
      rw [Mode.behind_append, Segment.foldl_step_text wellFormed precedes]
    by_cases opened : segment.cause? = some .unterminatedString
    · cases segment with
      | unterminated body =>
        -- An open string runs to the end of the source, so no segment follows it.
        cases ends
        obtain rfl := tail.unique .nil
        have inside : straysBehind before ('"' :: body) = [] :=
          straysBehind_opened rfl precedes.behind_quote rfl (Mode.step_string wellFormed)
        rw [List.append_nil, openString, mode, Segment.text, inside]
        simp [findings, Segment.faultOn?, Segment.mode, Nat.add_assoc]
      | _ => simp [Segment.cause?] at opened
    · have later := ih (before ++ segment.text) (mode ▸ ends.precedes opened)
      rw [List.count_append, ← Nat.add_assoc] at later
      rw [findings, later, straysBehind_append, straysBehind_text wellFormed opened precedes,
        List.append_assoc, List.append_assoc]

theorem scan_faults_eq (source : String) :
    (scan source).faults = straysBehind [] source.toList ++ openString source.toList := by
  obtain ⟨segments, cut⟩ := exists_segmentation source.toList
  rw [cut.scan_eq]
  exact cut.modes [] trivial

theorem filter_isUnexpected_faults (source : String) :
    (scan source).faults.filter (·.cause.isUnexpected) = straysBehind [] source.toList := by
  have strays : (straysBehind [] source.toList).filter (·.cause.isUnexpected) =
      straysBehind [] source.toList := by
    rw [List.filter_eq_self]
    intro f found
    obtain ⟨-, c, -, -, rfl, -⟩ := exists_of_mem_straysBehind found
    rfl
  have opened : (openString source.toList).filter (·.cause.isUnexpected) = [] := by
    rw [openString]
    split <;> rfl
  rw [scan_faults_eq, List.filter_append, strays, opened, List.append_nil]

/-- The modes foretell the faults of a scan. An open string comes last, and every
other fault is a character in code, so none that a comment or a string holds. -/
theorem scan_faults_foretold (source : String) :
    (scan source).faults = straysBehind [] source.toList ++ openString source.toList ∧
      (∀ f ∈ (scan source).faults.dropLast, f.cause ≠ .unterminatedString) ∧
      ∀ f ∈ (scan source).faults, ∀ c, f.cause = .unexpectedCharacter c →
        ∃ before after, source.toList = before ++ c :: after ∧
          (Mode.behind before).readsCode = true ∧ isCodeChar c = false ∧
          f.line = 1 + before.count '\n' := by
  have foretold := scan_faults_eq source
  refine ⟨foretold, ?_, ?_⟩
  · intro f found
    have early : f ∈ straysBehind [] source.toList := by
      rw [foretold, openString] at found
      split at found
      · rwa [List.dropLast_concat] at found
      · rw [List.append_nil] at found
        exact (List.dropLast_sublist _).subset found
    obtain ⟨-, c, -, -, rfl, -⟩ := exists_of_mem_straysBehind early
    simp
  · intro f found c cause
    rw [foretold, List.mem_append] at found
    rcases found with stray | opened
    · obtain ⟨before, d, after, split, rfl, code, notCode⟩ := exists_of_mem_straysBehind stray
      obtain rfl : d = c := Cause.unexpectedCharacter.inj cause
      exact ⟨before, after, split, code, notCode, rfl⟩
    · rw [openString] at opened
      split at opened
      · rw [List.mem_singleton.1 opened] at cause
        contradiction
      · contradiction

/-- A quote in a comment opens no string, and two slashes in a string no comment. -/
example : straysBehind [] "@/@ //@\"\n\"//@".toList ++ openString "@/@ //@\"\n\"//@".toList =
    [⟨.unexpectedCharacter '@', 1⟩, ⟨.unexpectedCharacter '@', 1⟩, ⟨.unterminatedString, 2⟩] := by
  decide

end ScriptLexer
