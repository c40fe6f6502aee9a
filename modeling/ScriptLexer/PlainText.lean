/-! Plain text: what is left of a text without its control sequences and control
characters. Tab, line feed, form feed and carriage return are left in, and inside
an escape or control sequence they also interrupt it: what follows is shown up to
the next control character, and only then the sequence goes on. Sequences are read
to the rules of terminals, so one that does not end swallows the rest of the text. -/
namespace ScriptLexer
namespace PlainText

/-- Where a reader of control sequences stands. -/
inductive Mode
  | text
  /-- Behind an escape character. -/
  | escape
  /-- Behind the first intermediate character of an escape sequence. -/
  | escapeBody
  /-- In the parameters of a control sequence. -/
  | control
  /-- In front of the parameters of a device control string. -/
  | deviceStart
  | deviceParameters
  | deviceBody
  /-- In a device control string or another string for the terminal. -/
  | string
  /-- In an operating system command, which a bell ends. -/
  | command
  deriving DecidableEq

/-- The control characters that are part of plain text. -/
def isLayout (c : Char) : Bool := c == '\t' || c == '\n' || c == '\x0c' || c == '\r'

/-- Whether a character is shown where no sequence is open. -/
def isShown (c : Char) : Bool := isLayout c || (' ' ≤ c && c != '\x7f')

/-- A string for the terminal is read by bytes, and the byte `9c` in the
encoding of a character ends it. -/
def endsString (c : Char) : Bool := (String.utf8EncodeChar c).contains 0x9c

namespace Mode

def afterEscape (c : Char) : Mode :=
  if c = '[' then control
  else if c = ']' then command
  else if c = 'P' then deviceStart
  else if c = 'X' ∨ c = '^' ∨ c = '_' then string
  else if '0' ≤ c ∧ c ≤ '~' then text
  else if ' ' ≤ c ∧ c ≤ '/' then escapeBody
  else escape

/-- Reads on in front of a device control string; a private marker is one of its
parameters only if it comes first. -/
def afterDevice (here parameter : Mode) (c : Char) : Mode :=
  if ' ' ≤ c ∧ c ≤ '/' then deviceBody
  else if '0' ≤ c ∧ c ≤ ';' then parameter
  else if '<' ≤ c ∧ c ≤ '?' then (if here = deviceStart then deviceParameters else string)
  else if '@' ≤ c ∧ c ≤ '~' then string
  else here

/-- The mode behind a character that opens or interrupts no sequence. -/
def advance (mode : Mode) (c : Char) : Mode :=
  match mode with
  | text => text
  | escape => afterEscape c
  | escapeBody => if '0' ≤ c ∧ c ≤ '~' then text else escapeBody
  | control => if '@' ≤ c ∧ c ≤ '~' then text else control
  | deviceStart => afterDevice deviceStart deviceParameters c
  | deviceParameters => afterDevice deviceParameters deviceParameters c
  | deviceBody => if '0' ≤ c ∧ c ≤ '~' then string else deviceBody
  | string => if endsString c then text else string
  | command => if c = '\x07' then text else command

def yieldsToLayout : Mode → Bool
  | escape | escapeBody | control => true
  | _ => false

end Mode

/-- A reader of control sequences. While its sequence is interrupted, it shows text. -/
structure Reader where
  mode : Mode
  interrupted : Bool
  deriving DecidableEq

namespace Reader

def inMode (mode : Mode) : Reader := ⟨mode, false⟩

/-- The reader behind a character, and whether the character is plain text. An
escape character opens a sequence anywhere; cancel and substitute end any, and so
does a character outside ASCII that is shown while a sequence is interrupted. -/
def next (reader : Reader) (c : Char) : Reader × Bool :=
  if c = '\x1b' then (.inMode .escape, false)
  else if c = '\x18' ∨ c = '\x1a' then (.inMode .text, false)
  else if reader.mode = .text then (reader, isShown c)
  else if reader.interrupted && isShown c then (if c ≤ '\x7f' then reader else .inMode .text, true)
  else if reader.mode.yieldsToLayout && isLayout c then (⟨reader.mode, true⟩, true)
  else (.inMode (reader.mode.advance c), false)

end Reader

/-- The plain text of some characters, read on by a reader. -/
def ofChars (reader : Reader) : List Char → List Char
  | [] => []
  | c :: rest =>
    let (following, shown) := reader.next c
    if shown then c :: ofChars following rest else ofChars following rest

end PlainText

def plainText (text : String) : String := String.ofList (PlainText.ofChars (.inMode .text) text.toList)

end ScriptLexer
