import ScriptLexer.CommandLine.Outcome

/-! What becomes of a command line. It is refused, answered with help, stopped at
a source that cannot be read, or carried out on a source, and just one of these.
Exit status and streams follow from that alone. -/
namespace ScriptLexer

theorem fromUTF8?_toUTF8 (source : String) : String.fromUTF8? source.toUTF8 = some source := by
  have valid := source.isValidUTF8
  simp only [String.fromUTF8?, String.toUTF8_eq_toByteArray, valid, dif_pos]
  rfl

theorem toUTF8_of_fromUTF8? {bytes : ByteArray} {source : String}
    (decoded : String.fromUTF8? bytes = some source) : source.toUTF8 = bytes := by
  unfold String.fromUTF8? at decoded
  split at decoded
  · cases decoded
    rfl
  · contradiction

/-- What is shown of a fault in a source. -/
def Fault.block (source : String) (fault : Fault) : String :=
  fault.diagnostic.render (sourceLines source.toList).toArray

namespace CommandLine

/-- A terminal shows each fault behind those before it, and counts it. -/
theorem Console.foldl_report (source : String) (console : Console) (faults : List Fault) :
    faults.foldl (fun console fault =>
        console.report (sourceLines source.toList).toArray fault.report) console =
      ⟨console.shown ++ String.join (faults.map (Fault.block source)),
        console.reported + faults.length⟩ := by
  induction faults generalizing console with
  | nil => simp
  | cons fault faults ih =>
    rw [List.foldl_cons, ih, List.map_cons, String.join_cons, List.length_cons]
    simp only [Console.report, String.append_assoc, Nat.add_assoc, Nat.add_comm 1]
    rfl

/-- What becomes of a command line. -/
inductive Course
  | refused (error : UsageError)
  | helped
  | stopped (cause : Unreadable)
  | scanned (format : Format) (source : String)

/-- The outcome of a course. The status of a scan tells whether there are faults,
all tokens are listed, and each fault is shown in a block of its own. -/
def Course.outcome : Course → Outcome
  | refused error => ⟨2, "", error.text⟩
  | helped => ⟨0, helpText, ""⟩
  | stopped cause => ⟨1, "", Diagnostic.render #[] { message := cause.message }⟩
  | scanned format source =>
    { code := if (scan source).faults = [] then 0 else 65
      stdout := format.listing (scan source).tokens
      stderr := String.join ((scan source).faults.map (Fault.block source)) }

/-- The count of the terminal and the list of the scan agree on whether there are faults. -/
theorem scanOutcome_eq (format : Format) (source : String) :
    scanOutcome format source = (Course.scanned format source).outcome := by
  have counted : (0 < (scan source).faults.length) = ¬(scan source).faults = [] := by
    rw [List.length_pos_iff]
  simp [scanOutcome, Course.outcome, scanWith_eq, Console.foldl_report, Console.hadFault,
    Console.empty, counted]

section Reading

variable (stdin : ByteArray) (files : FileSystem)

/-- A source is read where its encoding is held: by the standard input if there is
no path, and otherwise by the file at the path. -/
inductive Reads : Option String → String → Prop
  | input {source : String} (held : source.toUTF8 = stdin) : Reads none source
  | file {path source : String} (held : files.fetch path = .bytes source.toUTF8) :
      Reads (some path) source

/-- No source is read if nothing is found at the path, if what is there refuses, as a
folder does, or if the bytes are the encoding of no text. -/
inductive Stops : Option String → Unreadable → Prop
  | absent {path : String} (nothing : files.fetch path = .absent) :
      Stops (some path) (.notFound path)
  | refused {path reason : String} (refuses : files.fetch path = .refused reason) :
      Stops (some path) (.failed path reason)
  | file {path : String} {content : ByteArray} (found : files.fetch path = .bytes content)
      (noText : ∀ source : String, source.toUTF8 ≠ content) :
      Stops (some path) (.failed path "stream did not contain valid UTF-8")
  | input (noText : ∀ source : String, source.toUTF8 ≠ stdin) :
      Stops none (.failed none "stream did not contain valid UTF-8")

variable (arguments : List String)

/-- The course of a command line, by the rules for arguments and for reading. -/
inductive Takes : Course → Prop
  | refused {error : UsageError} (wrong : Command.ofArguments arguments = .error error) :
      Takes (.refused error)
  | helped (asked : Command.ofArguments arguments = .ok .help) : Takes .helped
  | stopped {request : Request} {cause : Unreadable}
      (accepted : Command.ofArguments arguments = .ok (.scan request))
      (stops : Stops stdin files request.path? cause) : Takes (.stopped cause)
  | scanned {request : Request} {source : String}
      (accepted : Command.ofArguments arguments = .ok (.scan request))
      (reads : Reads stdin files request.path? source) :
      Takes (.scanned request.format source)

variable {stdin files arguments} {path? : Option String}

/-- What is fetched for a request. -/
def fetched (stdin : ByteArray) (files : FileSystem) (path? : Option String) : Fetched :=
  path?.elim (.bytes stdin) files.fetch

theorem readSource_undecodable {content : ByteArray}
    (noText : ∀ source : String, source.toUTF8 ≠ content) :
    readSource path? (.bytes content) =
      .error (.failed path? "stream did not contain valid UTF-8") := by
  cases decoded : String.fromUTF8? content with
  | some source => exact absurd (toUTF8_of_fromUTF8? decoded) (noText source)
  | none => simp [readSource, decoded]

theorem Reads.readSource_eq {source : String} (reads : Reads stdin files path? source) :
    readSource path? (fetched stdin files path?) = .ok source := by
  cases reads with
  | input held => simp only [fetched, Option.elim_none, readSource, ← held, fromUTF8?_toUTF8]
  | file held => simp only [fetched, Option.elim_some, held, readSource, fromUTF8?_toUTF8]

theorem Stops.readSource_eq {cause : Unreadable} (stops : Stops stdin files path? cause) :
    readSource path? (fetched stdin files path?) = .error cause := by
  cases stops with
  | absent nothing => simp [fetched, nothing, readSource]
  | refused refuses => simp [fetched, refuses, readSource]
  | file found noText =>
    simp only [fetched, Option.elim_some, found]
    exact readSource_undecodable noText
  | input noText => exact readSource_undecodable noText

/-- The course of a request, once its source was fetched. -/
def Request.course (request : Request) (fetched : Fetched) : Course :=
  match readSource request.path? fetched with
  | .ok source => .scanned request.format source
  | .error cause => .stopped cause

theorem Request.outcome_eq (request : Request) (fetched : Fetched) :
    request.outcome fetched = (request.course fetched).outcome := by
  unfold Request.outcome Request.course
  cases readSource request.path? fetched with
  | ok source => exact scanOutcome_eq request.format source
  | error cause => rfl

/-- The course that a run goes through, its places asked for their bytes. -/
def course (stdin : ByteArray) (files : FileSystem) (arguments : List String) : Course :=
  match Command.ofArguments arguments with
  | .error error => .refused error
  | .ok .help => .helped
  | .ok (.scan request) => request.course (fetched stdin files request.path?)

theorem run_eq (arguments : List String) (stdin : ByteArray) (files : FileSystem) :
    run arguments stdin files = (course stdin files arguments).outcome := by
  unfold run respond course
  cases Command.ofArguments arguments with
  | error error => rfl
  | ok command =>
    cases command with
    | help => rfl
    | scan request => exact request.outcome_eq (fetched stdin files request.path?)

theorem Takes.eq_course {other : Course} (takes : Takes stdin files arguments other) :
    other = course stdin files arguments := by
  cases takes with
  | refused wrong => simp [course, wrong]
  | helped asked => simp [course, asked]
  | stopped accepted stops => simp [course, accepted, Request.course, stops.readSource_eq]
  | scanned accepted reads => simp [course, accepted, Request.course, reads.readSource_eq]

end Reading

end CommandLine
end ScriptLexer
