import ScriptLexer.Fault
import ScriptLexer.Segment
import ScriptLexer.Token

/-! Scanning. A source is cut into placed segments; tokens and faults are two
views of them. A scan never fails: what forms no token becomes a fault and the
scan goes on behind it, and one end-of-input token closes the list. -/
namespace ScriptLexer

/-- A place in a source: the characters before it, and its line counted from one. -/
structure Position where
  offset : Nat
  line : Nat
  deriving DecidableEq

namespace Position

def start : Position := ⟨0, 1⟩

/-- The place behind a text; each line feed in it starts a line. -/
def after (p : Position) (text : List Char) : Position :=
  ⟨p.offset + text.length, p.line + text.count '\n'⟩

@[simp] theorem after_nil (p : Position) : p.after [] = p := rfl

theorem after_append (p : Position) (a b : List Char) :
    p.after (a ++ b) = (p.after a).after b := by
  simp [after, Nat.add_assoc]

end Position

/-- A segment with the place of its first character. -/
structure Placed where
  start : Position
  segment : Segment
  deriving DecidableEq

namespace Placed

def text (p : Placed) : List Char := p.segment.text

def stop (p : Placed) : Position := p.start.after p.text

/-- The token of a lexeme, on the line where it starts. -/
def token? (p : Placed) : Option Token :=
  let token (meaning : Meaning) : Token := ⟨meaning, String.ofList p.text, p.start.line⟩
  match p.segment with
  | .symbol s => some (token (.symbol s))
  | .word letters =>
    some (token ((Keyword.ofSpelling? (String.ofList letters)).elim .identifier .keyword))
  | .number numeral => some (token (.literal (.number numeral.value.toBinary64)))
  | .string body => some (token (.literal (.string (String.ofList body))))
  | .blank _ | .comment _ | .unexpected _ | .unterminated _ => none

/-- The fault of a piece that forms no token, on the line where it is noticed:
an open string is noticed at the end of the source. -/
def fault? (p : Placed) : Option Fault :=
  match p.segment with
  | .unexpected c => some ⟨.unexpectedCharacter c, p.start.line⟩
  | .unterminated _ => some ⟨.unterminatedString, p.stop.line⟩
  | .blank _ | .comment _ | .symbol _ | .word _ | .number _ | .string _ => none

end Placed

/-- Folds over the segments of a source from a place on, in one pass, and ends
with the place behind the source. -/
def foldSegments {σ : Type u} (step : σ → Placed → σ) (state : σ) (position : Position) :
    List Char → σ × Position
  | [] => (state, position)
  | first :: rest =>
    let placed : Placed := ⟨position, (Segment.next first rest).1⟩
    foldSegments step (step state placed) placed.stop (Segment.next first rest).2
termination_by source => source.length
decreasing_by exact Segment.next_shorter first rest

/-- The segments of a source from a place on. -/
def segmentsFrom (position : Position) (source : List Char) : List Placed :=
  (foldSegments Array.push #[] position source).1.toList

def segments (source : String) : List Placed := segmentsFrom .start source.toList

/-- What a scan found, both lists in source order. -/
structure Scanned where
  tokens : List Token
  faults : List Fault
  deriving DecidableEq

namespace Scanned

def hasFaults (s : Scanned) : Bool := !s.faults.isEmpty

def toExcept (s : Scanned) : Except (List Fault) (List Token) :=
  if s.faults.isEmpty then .ok s.tokens else .error s.faults

def equal (a b : Scanned) : Bool := a.tokens == b.tokens && a.faults == b.faults

instance : BEq Scanned := ⟨equal⟩

end Scanned

/-- What a running scan has found, with the state of its sink. -/
structure Progress (σ : Type u) where
  tokens : Array Token
  faults : Array Fault
  state : σ

/-- Takes one segment: a token is kept, a fault is kept and reported. -/
def Progress.step {σ : Type u} (sink : σ → Report → σ) :
    Progress σ → Placed → Progress σ
  | ⟨tokens, faults, state⟩, placed =>
    match placed.token?, placed.fault? with
    | some token, none => ⟨tokens.push token, faults, state⟩
    | none, some fault => ⟨tokens, faults.push fault, sink state fault.report⟩
    | some token, some fault => ⟨tokens.push token, faults.push fault, sink state fault.report⟩
    | none, none => ⟨tokens, faults, state⟩

/-- Scans a source and hands each fault to the sink as soon as it is found. -/
def scanWith {σ : Type u} (sink : σ → Report → σ) (state : σ) (source : String) : Scanned × σ :=
  let (progress, stop) := foldSegments (Progress.step sink) ⟨#[], #[], state⟩ .start source.toList
  let tokens := progress.tokens.push (.endOfInput stop.line)
  (⟨tokens.toList, progress.faults.toList⟩, progress.state)

def scan (source : String) : Scanned where
  tokens := (segments source).filterMap Placed.token? ++
    [.endOfInput (Position.start.after source.toList).line]
  faults := (segments source).filterMap Placed.fault?

/-! ### The fold and the list of segments -/

theorem foldSegments_push (found : Array Placed) (position : Position) (source : List Char) :
    (foldSegments Array.push found position source).1 =
      found ++ (foldSegments Array.push #[] position source).1 := by
  match source with
  | [] => simp [foldSegments]
  | first :: rest =>
    rw [foldSegments, foldSegments, foldSegments_push (found.push _),
      foldSegments_push (Array.push #[] _)]
    simp
termination_by source.length
decreasing_by all_goals exact Segment.next_shorter first rest

@[simp] theorem segmentsFrom_nil (position : Position) : segmentsFrom position [] = [] := by
  simp [segmentsFrom, foldSegments]

theorem segmentsFrom_cons (position : Position) (first : Char) (rest : List Char) :
    segmentsFrom position (first :: rest) =
      let placed : Placed := ⟨position, (Segment.next first rest).1⟩
      placed :: segmentsFrom placed.stop (Segment.next first rest).2 := by
  rw [segmentsFrom, foldSegments, foldSegments_push]
  simp [segmentsFrom]

/-- Every fold over the segments is a fold over their list. -/
theorem foldSegments_eq {σ : Type u} (step : σ → Placed → σ) (state : σ) (position : Position)
    (source : List Char) :
    foldSegments step state position source =
      ((segmentsFrom position source).foldl step state, position.after source) := by
  fun_induction foldSegments step state position source with
  | case1 => simp
  | case2 state position first rest placed ih =>
    rw [ih, segmentsFrom_cons, List.foldl_cons]
    congr 1
    rw [Placed.stop, ← Position.after_append, Placed.text, Segment.next_text]

/-- The segments hold the whole source, in order and without gaps. -/
theorem flatMap_text_segmentsFrom (position : Position) (source : List Char) :
    (segmentsFrom position source).flatMap Placed.text = source := by
  match source with
  | [] => simp
  | first :: rest =>
    rw [segmentsFrom_cons, List.flatMap_cons, flatMap_text_segmentsFrom]
    exact Segment.next_text first rest
termination_by source.length
decreasing_by exact Segment.next_shorter first rest

theorem foldl_step {σ : Type u} (sink : σ → Report → σ) (progress : Progress σ)
    (placed : List Placed) :
    placed.foldl (Progress.step sink) progress =
      ⟨progress.tokens ++ (placed.filterMap Placed.token?).toArray,
        progress.faults ++ (placed.filterMap Placed.fault?).toArray,
        (placed.filterMap Placed.fault?).foldl (fun state fault => sink state fault.report)
          progress.state⟩ := by
  induction placed generalizing progress with
  | nil => simp
  | cons piece rest ih =>
    rw [List.foldl_cons, ih, Progress.step]
    cases token : piece.token? <;> cases fault : piece.fault? <;>
      simp [token, fault]

/-- The sink learns of every fault found, once and in source order, and what is
found does not depend on the sink. -/
theorem scanWith_eq {σ : Type u} (sink : σ → Report → σ) (state : σ) (source : String) :
    scanWith sink state source =
      (scan source, (scan source).faults.foldl (fun state fault => sink state fault.report) state) := by
  simp [scanWith, scan, segments, foldSegments_eq, foldl_step]

end ScriptLexer
