import ScriptLexer.CommandLine.Arguments
import ScriptLexer.CommandLine.FileSystem
import ScriptLexer.Rendering
import ScriptLexer.Scan

/-! The outcome of a run: an exit status and what is written to each stream.
Status 0 is a clean scan or help, 65 a scan with faults, 1 an unreadable source
and 2 a usage error. -/
namespace ScriptLexer.CommandLine

structure Outcome where
  code : Nat
  stdout : String
  stderr : String
  deriving DecidableEq

inductive Unreadable
  | notFound (path : String)
  | failed (path? : Option String) (reason : String)
  deriving DecidableEq

def Unreadable.message : Unreadable → String
  | notFound path => "File not found: " ++ path
  | failed (some path) reason => "Failed to read " ++ path ++ ": " ++ reason
  | failed none reason => reason

/-- The text of what was fetched, which has to be UTF-8. -/
def readSource (path? : Option String) (fetched : Fetched) : Except Unreadable String :=
  match fetched with
  | .absent => .error (.notFound (path?.getD ""))
  | .refused reason => .error (.failed path? reason)
  | .bytes content =>
    match String.fromUTF8? content with
    | some source => .ok source
    | none => .error (.failed path? "stream did not contain valid UTF-8")

def helpText : String :=
  "Scan Shoebill source into tokens\n\n" ++ usage generalPattern ++ "\n\n" ++
  "Arguments:\n" ++
  "  [PATH]  Source file to scan. Reads standard input when omitted\n\n" ++
  "Options:\n" ++
  "  -f, --format <FORMAT>  Output format for the token listing " ++
  "[default: text] [possible values: text, json]\n" ++
  "  -h, --help             Print help\n"

def UsageError.outcome (e : UsageError) : Outcome where
  code := 2
  stdout := ""
  stderr := e.text

def Unreadable.outcome (e : Unreadable) : Outcome where
  code := 1
  stdout := ""
  stderr := Diagnostic.render #[] { message := e.message }

/-- A terminal on which faults are shown as they are found, and the number shown so far. -/
structure Console where
  shown : String
  reported : Nat
  deriving DecidableEq

namespace Console

def empty : Console := ⟨"", 0⟩

/-- Shows a report with the source line that it is about. -/
def report (lines : Array (List Char)) (console : Console) (report : Report) : Console where
  shown := console.shown ++ report.diagnostic.render lines
  reported := console.reported + 1

def hadFault (console : Console) : Bool := 0 < console.reported

end Console

/-- Scans a source, showing each fault as it is found, and lists the tokens. The
status tells whether the terminal was shown a fault. -/
def scanOutcome (format : Format) (source : String) : Outcome :=
  let lines := (sourceLines source.toList).toArray
  let (scanned, console) := scanWith (Console.report lines) .empty source
  { code := if console.hadFault then 65 else 0
    stdout := format.listing scanned.tokens
    stderr := console.shown }

/-- The outcome of a request, once its source was fetched. -/
def Request.outcome (request : Request) (fetched : Fetched) : Outcome :=
  match readSource request.path? fetched with
  | .ok source => scanOutcome request.format source
  | .error e => e.outcome

/-- Runs a command line; the source is fetched only if one is to be scanned. -/
def respond {m : Type → Type} [Monad m] (fetch : Option String → m Fetched)
    (arguments : List String) : m Outcome :=
  match Command.ofArguments arguments with
  | .error e => pure e.outcome
  | .ok .help => pure ⟨0, helpText, ""⟩
  | .ok (.scan request) => request.outcome <$> fetch request.path?

/-- The outcome of a command line on given standard input and files. -/
def run (arguments : List String) (stdin : ByteArray) (files : FileSystem) : Outcome :=
  Id.run (respond (fun path? => pure (path?.elim (.bytes stdin) files.fetch)) arguments)

end ScriptLexer.CommandLine
