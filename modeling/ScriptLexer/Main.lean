import ScriptLexer.CommandLine.Outcome

/-! The program: reads the source, prints the outcome and exits with its status. -/
namespace ScriptLexer

/-- The bytes of a stream up to its end. -/
partial def readToEnd (stream : IO.FS.Stream) (content : ByteArray) : IO ByteArray := do
  let chunk ← stream.read 65536
  if chunk.isEmpty then return content else readToEnd stream (content ++ chunk)

/-- A name below something that is no folder counts as absent, and so does one that is too long. -/
def fetchPath (path : String) : IO CommandLine.Fetched := do
  let refused (code : UInt32) (details : String) : CommandLine.Fetched :=
    .refused (details ++ " (os error " ++ toString code ++ ")")
  try
    return .bytes (← (← IO.FS.Handle.mk path .read).readBinToEnd)
  catch
    | .noFileOrDirectory .. => return .absent
    | .inappropriateType _ 20 _ | .invalidArgument _ 36 _ => return .absent
    | .inappropriateType _ code details => return refused code details
    | .permissionDenied _ code details => return refused code details
    | e => return .refused (toString e)

def fetch : Option String → IO CommandLine.Fetched
  | some path => fetchPath path
  | none => return .bytes (← readToEnd (← IO.getStdin) .empty)

end ScriptLexer

def main (arguments : List String) : IO UInt32 := do
  let outcome ← ScriptLexer.CommandLine.respond ScriptLexer.fetch arguments
  (← IO.getStdout).putStr outcome.stdout
  (← IO.getStderr).putStr outcome.stderr
  return outcome.code.toUInt32
