import ScriptLexer.PlainText

/-! Usage errors and their messages. What was typed is quoted as plain text. A
usage line follows unless the message is about a bad or missing value; where a
long option is at fault, it shows what was met in front of it. -/
namespace ScriptLexer.CommandLine

/-- The arguments met so far, as a usage line shows them. -/
structure Met where
  path : Bool
  format : Bool
  deriving DecidableEq

inductive UsageError
  | unknownLetter (letter : Char)
  | unknownName (name : String) (met : Met)
  | surplusArgument (argument : String)
  /-- A value for the help option, which takes none. -/
  | surplusValue (value : String) (met : Met)
  | missingFormat
  | badFormat (value : String)
  | repeatedFormat
  | missingPath
  deriving DecidableEq

def usage (pattern : String) : String := "Usage: shoebill " ++ pattern

def generalPattern : String := "[OPTIONS] [PATH]"

/-- The pattern of the arguments met; what was met is no longer optional. -/
def Met.pattern (met : Met) : String :=
  if met.path || met.format then
    (if met.format then "--format <FORMAT> " else "") ++ (if met.path then "<PATH>" else "[PATH]")
  else generalPattern

/-- The pattern of the help option with any of the arguments met. -/
def Met.helpPattern (met : Met) : String :=
  "--help " ++ (if met.path || met.format then "<PATH|--format <FORMAT>>" else "[PATH]")

def quoted (typed : String) : String := "'" ++ plainText typed ++ "'"

namespace UsageError

def unknownMessage (option : String) : String :=
  "unexpected argument " ++ quoted option ++ " found\n\n  tip: to pass " ++ quoted option ++
    " as a value, use " ++ quoted ("-- " ++ option)

def possibleValues : String := "\n  [possible values: text, json]"

def message : UsageError → String
  | unknownLetter letter => unknownMessage (String.ofList ['-', letter])
  | unknownName name _ => unknownMessage ("--" ++ name)
  | surplusArgument argument => "unexpected argument " ++ quoted argument ++ " found"
  | surplusValue value _ =>
    "unexpected value " ++ quoted value ++ " for '--help' found; no more were expected"
  | missingFormat =>
    "a value is required for '--format <FORMAT>' but none was supplied" ++ possibleValues
  | badFormat value => "invalid value " ++ quoted value ++ " for '--format <FORMAT>'" ++ possibleValues
  | repeatedFormat => "the argument '--format <FORMAT>' cannot be used multiple times"
  | missingPath => "a value is required for '[PATH]' but none was supplied"

def pattern? : UsageError → Option String
  | unknownLetter _ | surplusArgument _ | repeatedFormat => some generalPattern
  | unknownName _ met => some met.pattern
  | surplusValue _ met => some met.helpPattern
  | missingFormat | badFormat _ | missingPath => none

def text (e : UsageError) : String :=
  "error: " ++ e.message ++ (e.pattern?.elim "" fun pattern => "\n\n" ++ usage pattern) ++
    "\n\nFor more information, try '--help'.\n"

end UsageError
end ScriptLexer.CommandLine
