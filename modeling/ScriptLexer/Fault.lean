/-! Lexical faults, the reports that a scan hands over while it runs, and
diagnostics, which may also stand for trouble outside any source line. -/
namespace ScriptLexer

/-- A message with the line it concerns, if it concerns one. -/
structure Diagnostic where
  message : String
  line? : Option Nat := none
  deriving DecidableEq

def Diagnostic.text (d : Diagnostic) : String :=
  match d.line? with
  | some line => "[line " ++ toString line ++ "] Error: " ++ d.message
  | none => d.message

/-- What a scan tells its sink about one fault. -/
structure Report where
  line : Nat
  message : String
  deriving DecidableEq

def Report.diagnostic (r : Report) : Diagnostic := ⟨r.message, some r.line⟩

/-- Why a piece of source forms no token. -/
inductive Cause
  | unexpectedCharacter (char : Char)
  | unterminatedString
  deriving DecidableEq

def Cause.message : Cause → String
  | unexpectedCharacter _ => "Unexpected character."
  | unterminatedString => "Unterminated string."

structure Fault where
  cause : Cause
  line : Nat
  deriving DecidableEq

namespace Fault

def message (f : Fault) : String := f.cause.message

def report (f : Fault) : Report := ⟨f.line, f.message⟩

def diagnostic (f : Fault) : Diagnostic := f.report.diagnostic

end Fault
end ScriptLexer
