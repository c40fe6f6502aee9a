import ScriptLexer.Fault
import ScriptLexer.Segment
import ScriptLexer.Token

/-! Scanning by cursor: the source is held by index, and a cursor moves over it one
assignment at a time. Every index, slice and counter is checked where it is used, so
that a scan which would go wrong fails and shows why. Counters are machine words. -/
namespace ScriptLexer

/-- Why a scan by cursor cannot go on. -/
inductive Cursor.Failure
  | outOfRange
  | badSlice
  | emptyLexeme
  | overflow
  | missingLiteral (e : MissingLiteral)
  deriving DecidableEq

/-- What a cursor does next. -/
inductive Cursor.Phase
  /-- Looks whether a character is left. -/
  | head
  /-- Notes the line on which a segment starts. -/
  | mark
  /-- Takes the first character of a segment. -/
  | first
  /-- Chooses by that character how to go on. -/
  | choose (c : Char)
  | comment
  | string
  /-- Takes a character of a string. -/
  | stringBody
  | stringEnd
  | stringToken
  | whole
  | fraction
  | numberToken
  | word
  | wordToken
  /-- Makes a token that has no value. -/
  | token (kind : Kind)
  | done
  deriving DecidableEq

/-- A scan at some point: the index where the segment starts, that of the first
character not yet taken, the lines of both, and what was found. -/
structure Cursor where
  phase : Cursor.Phase := .head
  start : Nat := 0
  current : Nat := 0
  startLine : Nat := 1
  line : Nat := 1
  tokens : List Token := []
  faults : List Fault := []
  deriving DecidableEq

namespace Cursor

/-- The next number, if it is a machine word. -/
def increment (n : Nat) : Except Failure Nat :=
  if n + 1 < UInt64.size then .ok (n + 1) else .error .overflow

def goto (p : Cursor) (phase : Phase) : Cursor := { p with phase := phase }

def keep (p : Cursor) (token : Token) : Cursor :=
  { p with tokens := p.tokens ++ [token], phase := .head }

def blame (p : Cursor) (cause : Cause) : Cursor :=
  { p with faults := p.faults ++ [⟨cause, p.line⟩], phase := .head }

/-- Counts a line. -/
def newLine (p : Cursor) (next : Phase) : Except Failure Cursor := do
  return { p with line := ← increment p.line, phase := next }

section Source

variable (source : List Char)

/-- Takes a character, which has to be there, and goes on as it says. -/
def advance (p : Cursor) (next : Char → Phase) : Except Failure Cursor :=
  match source[p.current]? with
  | some c => do return { p with current := ← increment p.current, phase := next c }
  | none => .error .outOfRange

/-- Takes the expected character if it comes next. -/
def accept (p : Cursor) (expected : Char) (taken left : Phase) : Except Failure Cursor :=
  if source[p.current]? = some expected then p.advance source fun _ => taken
  else .ok (p.goto left)

/-- Takes a character of a class and stays in the phase, or leaves it. -/
def skip (p : Cursor) (inside : Char → Bool) (leave : Except Failure Cursor) :
    Except Failure Cursor :=
  if source[p.current]?.any inside then p.advance source fun _ => p.phase else leave

/-- The characters from one index up to another. -/
def slice (first last : Nat) : Except Failure String :=
  if first ≤ last ∧ last ≤ source.length then .ok (String.ofList (source.extract first last))
  else .error .badSlice

def lexeme (p : Cursor) : Except Failure String :=
  if p.start < p.current then slice source p.start p.current else .error .emptyLexeme

/-- The lexeme without its first and last character. -/
def body (p : Cursor) : Except Failure String := do
  slice source (← increment p.start) (p.current - 1)

/-- Looks for what makes a comment or a longer symbol of a symbol. -/
def extend (p : Cursor) (s : Symbol) : Except Failure Cursor :=
  if s = .slash then p.accept source '/' .comment (.token (.symbol s))
  else
    match s.withEqual? with
    | some wide => p.accept source '=' (.token (.symbol wide)) (.token (.symbol s))
    | none => .ok (p.goto (.token (.symbol s)))

def choose (p : Cursor) (c : Char) : Except Failure Cursor :=
  if c = '\n' then p.newLine .head
  else if c.isWhitespace then .ok (p.goto .head)
  else if c = '"' then .ok (p.goto .string)
  else if c.isDigit then .ok (p.goto .whole)
  else if isWordStart c then .ok (p.goto .word)
  else
    match Symbol.ofChar? c with
    | none => .ok (p.blame (.unexpectedCharacter c))
    | some s => p.extend source s

/-- Looks at the next character of a string. -/
def quoted (p : Cursor) : Except Failure Cursor :=
  match source[p.current]? with
  | none => .ok (p.goto .stringEnd)
  | some c =>
    if c = '"' then .ok (p.goto .stringEnd)
    else if c = '\n' then p.newLine .stringBody
    else .ok (p.goto .stringBody)

/-- Looks for a point with a digit behind it. -/
def point (p : Cursor) : Except Failure Cursor := do
  if source[p.current]? = some '.' then
    if source[← increment p.current]?.any Char.isDigit then p.advance source fun _ => .fraction
    else return p.goto .numberToken
  else return p.goto .numberToken

/-- What a cursor does in a phase. It takes at most one character and makes at most
one change to its indices and lines. -/
def step (p : Cursor) : Except Failure Cursor :=
  match p.phase with
  | .head =>
    if p.current < source.length then .ok { p with start := p.current, phase := .mark }
    else .ok { p with tokens := p.tokens ++ [.endOfInput p.line], phase := .done }
  | .mark => .ok { p with startLine := p.line, phase := .first }
  | .first => p.advance source .choose
  | .choose c => p.choose source c
  | .comment => p.skip source (· != '\n') (.ok (p.goto .head))
  | .string => p.quoted source
  | .stringBody => p.advance source fun _ => .string
  | .stringEnd =>
    if p.current < source.length then p.advance source fun _ => .stringToken
    else .ok (p.blame .unterminatedString)
  | .stringToken => do
    let value ← p.body source
    return p.keep (.string (← p.lexeme source) value p.startLine)
  | .whole => p.skip source Char.isDigit (p.point source)
  | .fraction => p.skip source Char.isDigit (.ok (p.goto .numberToken))
  | .numberToken => do
    let lexeme ← p.lexeme source
    return p.keep (.number lexeme (Numeral.next lexeme.toList).1.value.toBinary64 p.startLine)
  | .word => p.skip source isWordPart (.ok (p.goto .wordToken))
  | .wordToken => do
    let lexeme ← p.lexeme source
    return p.goto (.token ((Keyword.ofSpelling? lexeme).elim .identifier .keyword))
  | .token kind => do
    let lexeme ← p.lexeme source
    match Token.plain kind lexeme p.startLine with
    | .ok token => return p.keep token
    | .error e => throw (.missingLiteral e)
  | .done => .ok p

/-- A scan by cursor from one point to its end, with all points on the way. -/
inductive Run : Cursor → List Cursor → Cursor → Prop
  | done {p : Cursor} (finished : p.phase = .done) : Run p [p] p
  | step {p q last : Cursor} {points : List Cursor} (going : p.phase ≠ .done)
      (next : p.step source = .ok q) (tail : Run q points last) : Run p (p :: points) last

end Source
end Cursor
end ScriptLexer
