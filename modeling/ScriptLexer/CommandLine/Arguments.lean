import ScriptLexer.CommandLine.UsageError
import ScriptLexer.Rendering

/-! Command-line arguments, read from left to right. The value of an option and
a path are checked only when the next option or path begins or the arguments
end, so an unknown option or a surplus argument right behind a bad value is the
one that is reported. A value attached to its option is checked at once. -/
namespace ScriptLexer.CommandLine

/-- What to scan, the standard input if there is no path, and how to list it. -/
structure Request where
  path? : Option String
  format : Format
  deriving DecidableEq

inductive Command
  | help
  | scan (request : Request)
  deriving DecidableEq

/-- An argument that is not checked yet. -/
inductive Pending
  | format (value? : Option String)
  | path (value : String)
  deriving DecidableEq

structure Arguments where
  format? : Option Format := none
  path? : Option String := none
  pending? : Option Pending := none
  onlyPaths : Bool := false
  deriving DecidableEq

def readFormat (value : String) : Except UsageError Format :=
  match value with
  | "text" => .ok .text
  | "json" => .ok .json
  | "" => .error .missingFormat
  | _ => .error (.badFormat value)

namespace Arguments

def checked (a : Arguments) : Met := ⟨a.path?.isSome, a.format?.isSome⟩

/-- The arguments met, a pending one included whether or not it would pass. A
format given twice counts as not given, and one without its value is not met. -/
def met (a : Arguments) : Met :=
  match a.pending? with
  | some (.path _) => { a.checked with path := true }
  | some (.format (some _)) => { a.checked with format := a.format?.isNone }
  | some (.format none) | none => a.checked

def settle (a : Arguments) : Except UsageError Arguments :=
  match a.pending? with
  | none => .ok a
  | some (.format none) => .error .missingFormat
  | some (.format (some value)) =>
    if a.format?.isSome then .error .repeatedFormat
    else do
      let format ← readFormat value
      return { a with format? := some format, pending? := none }
  | some (.path value) =>
    if value.isEmpty then .error .missingPath
    else .ok { a with path? := some value, pending? := none }

/-- Takes a format option, with the value attached to it if there is one. -/
def takeFormat (a : Arguments) (value? : Option String) : Except UsageError Arguments := do
  let a ← a.settle
  let a := { a with pending? := some (.format value?) }
  if value?.isSome then a.settle else return a

/-- Takes a path; a second one is refused. -/
def takePath (a : Arguments) (value : String) : Except UsageError Arguments := do
  let seen :=
    match a.pending? with
    | some (.path _) => true
    | _ => a.path?.isSome
  if seen then throw (.surplusArgument value)
  let a ← a.settle
  return { a with pending? := some (.path value) }

inductive Reading
  | more (arguments : Arguments)
  | help
  deriving DecidableEq

def takeHelp (a : Arguments) : Except UsageError Reading := do
  let _ ← a.settle
  return .help

/-- Takes an option that starts with two dashes; its value follows the first equals sign. -/
def takeLong (a : Arguments) (text : List Char) : Except UsageError Reading := do
  let name := String.ofList (text.takeWhile (· != '='))
  let value? :=
    match text.dropWhile (· != '=') with
    | [] => none
    | _ :: value => some (String.ofList value)
  match name, value? with
  | "format", value? => return .more (← a.takeFormat value?)
  | "help", none => a.takeHelp
  | "help", some value => throw (.surplusValue value a.checked)
  | name, _ => throw (.unknownName name a.met)

/-- Takes an option that starts with one dash; its value is the rest, less one equals sign. -/
def takeShort (a : Arguments) (letter : Char) (rest : List Char) : Except UsageError Reading := do
  match letter with
  | 'h' => a.takeHelp
  | 'f' =>
    match rest with
    | [] => return .more (← a.takeFormat none)
    | '=' :: value => return .more (← a.takeFormat (some (String.ofList value)))
    | value => return .more (← a.takeFormat (some (String.ofList value)))
  | letter => throw (.unknownLetter letter)

/-- Takes an argument that is no option: the value of a format option, or a path. -/
def takePlain (a : Arguments) (text : String) : Except UsageError Reading := do
  match a.pending? with
  | some (.format none) => return .more { a with pending? := some (.format (some text)) }
  | _ => return .more (← a.takePath text)

/-- Takes one argument. Behind two dashes every argument is a path. -/
def take (a : Arguments) (text : String) : Except UsageError Reading := do
  if a.onlyPaths then return .more (← a.takePath text)
  match text.toList with
  | ['-', '-'] => return .more { a with onlyPaths := true }
  | '-' :: '-' :: rest => a.takeLong rest
  | '-' :: letter :: rest => a.takeShort letter rest
  | _ => a.takePlain text

def command (a : Arguments) : Except UsageError Command := do
  let a ← a.settle
  return .scan ⟨a.path?, a.format?.getD .text⟩

/-- Takes the remaining arguments; the first help option or error ends the reading. -/
def read (a : Arguments) : List String → Except UsageError Command
  | [] => a.command
  | text :: rest => do
    match ← a.take text with
    | .more a => a.read rest
    | .help => return .help

end Arguments

def Command.ofArguments (arguments : List String) : Except UsageError Command :=
  Arguments.read {} arguments

end ScriptLexer.CommandLine
