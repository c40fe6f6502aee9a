import ScriptLexer.Fault
import ScriptLexer.Json
import ScriptLexer.Token

/-! Listings of tokens, as lines of text or as one JSON document, and diagnostics as they
are shown on a terminal: a heading, the source line that they concern if the source has it,
and help that goes with the message. A line feed ends a source line; a carriage return right
before it belongs to the line end, and one that ends the source belongs to its line. -/
namespace ScriptLexer

inductive Format
  | text
  | json
  deriving DecidableEq

def Literal.toJson : Literal → Json
  | string value => .string value
  | number value => .ofNumber value

def Token.toJson (t : Token) : Json :=
  .record [("kind", .string t.kind.name), ("lexeme", .string t.lexeme),
    ("literal", t.literal?.elim .null Literal.toJson), ("line", .natural t.line)]

def Format.listing (format : Format) (tokens : List Token) : String :=
  match format with
  | text => String.join (tokens.map fun token => token.text ++ "\n")
  | json => (Json.list (tokens.map Token.toJson)).text ++ "\n"

/-- A line without its end: the line feed and one carriage return before it. -/
def dropLineEnd (line : List Char) : List Char :=
  if line.getLast? = some '\n' then
    let body := line.dropLast
    if body.getLast? = some '\r' then body.dropLast else body
  else line

/-- The lines of a source, without their ends; no empty line follows the last line feed. -/
def sourceLines (source : List Char) : List (List Char) :=
  (source.splitBy fun c _ => c != '\n').map dropLineEnd

/-- A way to show a text, switched on before the text and off behind it. -/
inductive Style
  | red
  | yellow
  | brightBlack
  | boldRed
  deriving DecidableEq

namespace Style

/-- The sequence that switches a display attribute. -/
def control (code : String) : String := "\x1b[" ++ code ++ "m"

def foreground (color text : String) : String := control color ++ text ++ control "39"

def apply (text : String) : Style → String
  | red => foreground "31" text
  | yellow => foreground "33" text
  | brightBlack => foreground "90" text
  | boldRed => control "1" ++ foreground "31" text ++ control "0"

end Style

/-- Advice on a fault: what is wrong, and what to look for. -/
structure Help where
  advice : String
  hint : String
  deriving DecidableEq

namespace Help

def unterminatedString : Help where
  advice := "Help: String is missing its closing quote."
  hint := "Make sure every \" has a matching closing \""

def unexpectedCharacter : Help where
  advice := "Help: This character does not start any token."
  hint := "Identifiers use letters, digits and '_'; comments start with //"

def mentions (phrase : List Char) : List Char → Bool
  | [] => phrase.isEmpty
  | c :: rest => phrase.isPrefixOf (c :: rest) || mentions phrase rest

def ofMessage? (message : String) : Option Help :=
  if mentions "Unterminated string".toList message.toList then some unterminatedString
  else if mentions "Unexpected character".toList message.toList then some unexpectedCharacter
  else none

def render (h : Help) : String :=
  Style.yellow.apply h.advice ++ "\n    " ++ Style.brightBlack.apply h.hint ++ "\n"

end Help

namespace Diagnostic

/-- The number of a line and a bar, the number at least three places wide. -/
def margin (line : Nat) : String :=
  let digits := toString line
  String.ofList (List.replicate (3 - digits.length) ' ') ++ digits ++ " | "

/-- The source line with a number, lines counted from one. -/
def snippet? (lines : Array (List Char)) (line : Nat) : Option String :=
  lines[line - 1]?.map String.ofList

def render (lines : Array (List Char)) (d : Diagnostic) : String :=
  match d.line? with
  | none => Style.boldRed.apply "error" ++ ": " ++ Style.red.apply d.message ++ "\n"
  | some line =>
    Style.brightBlack.apply ("[line " ++ toString line ++ "]") ++ " " ++
      Style.boldRed.apply "Error" ++ ": " ++ Style.red.apply d.message ++ "\n" ++
      (snippet? lines line).elim "" (fun snippet =>
        Style.brightBlack.apply (margin line) ++ snippet ++ "\n") ++
      (Help.ofMessage? d.message).elim "" Help.render

end Diagnostic
end ScriptLexer
