import ScriptLexer.Proofs.LongestMatch

/-! Coverage: the tokens of a source in order, with the segments that stand
before, between and behind them. Nothing of the source is lost or used twice,
and the lines that tokens and faults carry are those of their places. -/
namespace ScriptLexer

/-- A piece of a source: the lexeme of a token, or a segment that makes no token. -/
inductive Piece
  | lexeme (token : Token)
  | filler (placed : Placed)

namespace Piece

def text : Piece → List Char
  | lexeme token => token.lexeme.toList
  | filler placed => placed.text

def token? : Piece → Option Token
  | lexeme token => some token
  | filler _ => none

def fault? : Piece → Option Fault
  | lexeme _ => none
  | filler placed => placed.fault?

/-- The forms of a filler, with the pieces behind it. -/
inductive Fills : Segment → List Piece → Prop
  | blank {c : Char} {after : List Piece} (blank : c ∈ [' ', '\t', '\r', '\n']) :
      Fills (.blank c) after
  | comment {body : List Char} {after : List Piece} (line : '\n' ∉ body)
      (stop : after.flatMap text = [] ∨ (after.flatMap text).head? = some '\n') :
      Fills (.comment body) after
  | unexpected {c : Char} {after : List Piece}
      (free : ∀ meaning rest, ¬Lexeme meaning (c :: rest)) : Fills (.unexpected c) after
  | unterminated {body : List Char} (opened : '"' ∉ body) : Fills (.unterminated body) []

end Piece

def Placed.piece (p : Placed) : Piece := p.token?.elim (.filler p) .lexeme

/-- A gap, and each token with the gap behind it. -/
structure Coverage where
  lead : List Placed
  blocks : List (Token × List Placed)

namespace Coverage

def ofPieces : List Piece → Coverage
  | [] => ⟨[], []⟩
  | .filler placed :: rest => ⟨placed :: (ofPieces rest).lead, (ofPieces rest).blocks⟩
  | .lexeme token :: rest => ⟨[], (token, (ofPieces rest).lead) :: (ofPieces rest).blocks⟩

def pieces (c : Coverage) : List Piece :=
  c.lead.map .filler ++ c.blocks.flatMap fun b => .lexeme b.1 :: b.2.map .filler

theorem pieces_ofPieces (pieces : List Piece) : (ofPieces pieces).pieces = pieces := by
  induction pieces with
  | nil => rfl
  | cons piece rest ih =>
    cases piece with
    | filler placed => exact congrArg (.filler placed :: ·) ih
    | lexeme token => exact congrArg (.lexeme token :: ·) ih

theorem flatMap_text_pieces (c : Coverage) :
    c.pieces.flatMap Piece.text =
      c.lead.flatMap Placed.text ++
        c.blocks.flatMap fun b => b.1.lexeme.toList ++ b.2.flatMap Placed.text := by
  simp only [pieces, List.flatMap_append, List.flatMap_map, List.flatMap_assoc, List.flatMap_cons]
  rfl

theorem filterMap_token?_pieces (c : Coverage) :
    c.pieces.filterMap Piece.token? = c.blocks.map Prod.fst := by
  obtain ⟨lead, blocks⟩ := c
  have gaps (gap : List Placed) : (gap.map Piece.filler).filterMap Piece.token? = [] := by
    simp [Piece.token?]
  rw [pieces, List.filterMap_append, gaps, List.nil_append]
  induction blocks with
  | nil => rfl
  | cons b blocks ih =>
    have first : (Piece.lexeme b.1).token? = some b.1 := rfl
    rw [List.flatMap_cons, List.filterMap_append, ih, List.filterMap_cons_some first, gaps]
    rfl

theorem filterMap_fault?_pieces (c : Coverage) :
    c.pieces.filterMap Piece.fault? =
      (c.lead ++ c.blocks.flatMap Prod.snd).filterMap Placed.fault? := by
  obtain ⟨lead, blocks⟩ := c
  have gaps (gap : List Placed) :
      (gap.map Piece.filler).filterMap Piece.fault? = gap.filterMap Placed.fault? := by
    rw [List.filterMap_map]
    rfl
  rw [pieces, List.filterMap_append, List.filterMap_append, gaps, List.append_cancel_left_eq]
  induction blocks with
  | nil => rfl
  | cons b blocks ih =>
    rw [List.flatMap_cons, List.flatMap_cons, List.filterMap_append, List.filterMap_append, ih,
      List.filterMap_cons_none rfl, gaps]

/-- The gaps and lexemes make up the source, the tokens are those of a scan, and
the faults are those of the gaps, one for each piece of a gap that has a cause. -/
structure Lossless (c : Coverage) (source : String) : Prop where
  source_eq : source.toList = c.lead.flatMap Placed.text ++
    c.blocks.flatMap fun b => b.1.lexeme.toList ++ b.2.flatMap Placed.text
  tokens_eq : (scan source).tokens =
    c.blocks.map Prod.fst ++ [.endOfInput (1 + source.toList.count '\n')]
  faults_eq : (scan source).faults = (c.lead ++ c.blocks.flatMap Prod.snd).filterMap Placed.fault?
  causes_eq : (scan source).faults.map Fault.cause =
    (c.lead ++ c.blocks.flatMap Prod.snd).filterMap fun p => p.segment.cause?

/-- Every line is counted by the line feeds in front, those of an open string by
all of the source. -/
structure LinesExact (c : Coverage) (source : String) : Prop where
  token : ∀ before t after, c.pieces = before ++ .lexeme t :: after →
    t.line = 1 + (before.flatMap Piece.text).count '\n'
  fault : ∀ before p after f, c.pieces = before ++ .filler p :: after → p.fault? = some f →
    f.line = 1 + match f.cause with
      | .unexpectedCharacter _ => (before.flatMap Piece.text).count '\n'
      | .unterminatedString => source.toList.count '\n'

end Coverage

namespace Placed

theorem piece_text (p : Placed) : p.piece.text = p.text := by
  cases found : p.token? with
  | none => simp [piece, found, Piece.text]
  | some t =>
    rw [p.token?_eq, Option.map_eq_some_iff] at found
    obtain ⟨meaning, means, rfl⟩ := found
    simp [piece, p.token?_eq, means, Piece.text]

theorem piece_token? (p : Placed) : p.piece.token? = p.token? := by
  cases found : p.token? <;> simp [piece, found, Piece.token?]

theorem piece_fault? (p : Placed) : p.piece.fault? = p.fault? := by
  obtain ⟨start, segment⟩ := p
  cases segment <;> rfl

theorem piece_filler {p q : Placed} (same : p.piece = .filler q) : p = q ∧ p.token? = none := by
  cases found : p.token? with
  | none =>
    rw [piece, found] at same
    exact ⟨Piece.filler.inj same, rfl⟩
  | some t =>
    rw [piece, found] at same
    contradiction

theorem piece_lexeme {p : Placed} {t : Token} (same : p.piece = .lexeme t) : p.token? = some t := by
  rw [← p.piece_token?, same]
  rfl

end Placed

/-- The coverage that a scan goes through. -/
def coverage (source : String) : Coverage := .ofPieces ((segments source).map Placed.piece)

theorem pieces_coverage (source : String) :
    (coverage source).pieces = (segments source).map Placed.piece :=
  Coverage.pieces_ofPieces _

theorem flatMap_text_segments (source : String) :
    (segments source).flatMap Placed.text = source.toList :=
  flatMap_text_segmentsFrom .start source.toList

theorem flatMap_text_map_piece (placed : List Placed) :
    (placed.map Placed.piece).flatMap Piece.text = placed.flatMap Placed.text := by
  simp only [List.flatMap_map, Placed.piece_text]

theorem faults_coverage (source : String) :
    (scan source).faults =
      ((coverage source).lead ++ (coverage source).blocks.flatMap Prod.snd).filterMap
        Placed.fault? := by
  rw [← Coverage.filterMap_fault?_pieces, pieces_coverage, List.filterMap_map]
  simp only [Function.comp_def, Placed.piece_fault?]
  rfl

theorem Coverage.lossless (source : String) : (coverage source).Lossless source where
  source_eq := by
    rw [← flatMap_text_pieces, pieces_coverage, flatMap_text_map_piece, flatMap_text_segments]
  tokens_eq := by
    rw [← filterMap_token?_pieces, pieces_coverage, List.filterMap_map]
    simp only [Function.comp_def, Placed.piece_token?]
    rfl
  faults_eq := faults_coverage source
  causes_eq := by
    rw [faults_coverage, List.map_filterMap]
    simp only [Placed.fault?_cause]

/-- A piece of the coverage is a segment of the source, in the same company. -/
theorem coverage_split {source : String} {piece : Piece} {before after : List Piece}
    (split : (coverage source).pieces = before ++ piece :: after) :
    ∃ front p back, segments source = front ++ p :: back ∧ p.piece = piece ∧
      before.flatMap Piece.text = front.flatMap Placed.text ∧
      after = back.map Placed.piece := by
  rw [pieces_coverage, List.map_eq_append_iff] at split
  obtain ⟨front, rest, same, rfl, tail⟩ := split
  obtain ⟨p, back, rfl, rfl, rfl⟩ := List.map_eq_cons_iff.1 tail
  exact ⟨front, p, back, same, rfl, flatMap_text_map_piece front, rfl⟩

theorem not_lexeme_of_isStray {c : Char} (stray : isStray c = true) (meaning : Meaning)
    (rest : List Char) : ¬Lexeme meaning (c :: rest) := by
  intro lexeme
  exact Segment.stuck_unexpected stray _ _ (.lexeme lexeme) (List.prefix_refl _)

/-- What makes no token has one of the forms of a filler. -/
theorem fills_of_segments_split {source : String} {p : Placed} {front back : List Placed}
    (split : segments source = front ++ p :: back) (silent : p.token? = none) :
    Piece.Fills p.segment (back.map Placed.piece) := by
  obtain ⟨wellFormed, ends, -⟩ := segmentsFrom_split split
  obtain ⟨start, segment⟩ := p
  cases segment with
  | symbol | word | number | string => contradiction
  | blank c => exact .blank (isWhitespace_iff.1 wellFormed)
  | comment body =>
    refine .comment wellFormed ?_
    rw [flatMap_text_map_piece]
    cases following : back.flatMap Placed.text with
    | nil => exact .inl rfl
    | cons c rest =>
      have stop : c = '\n' := ends c (by simp [following])
      exact .inr (congrArg some stop)
  | unexpected c => exact .unexpected (not_lexeme_of_isStray wellFormed)
  | unterminated body =>
    cases back with
    | nil => exact .unterminated wellFormed
    | cons q back =>
      have inner : segments source = (front ++ [⟨start, .unterminated body⟩]) ++ q :: back := by
        simpa using split
      have empty := (List.append_eq_nil_iff.1 (List.flatMap_cons ▸ ends)).1
      exact absurd empty (segmentsFrom_split inner).1.text_ne_nil

/-- A scan loses nothing: tokens and gaps make up the source, and each gap is of
blanks, comments and faults, the faults being those found. -/
theorem coverage_lossless (source : String) :
    (coverage source).Lossless source ∧
      ∀ before p after, (coverage source).pieces = before ++ .filler p :: after →
        Piece.Fills p.segment after := by
  constructor
  · exact Coverage.lossless source
  · intro before p after split
    obtain ⟨front, q, back, found, same, -, rfl⟩ := coverage_split split
    obtain ⟨rfl, silent⟩ := Placed.piece_filler same
    exact fills_of_segments_split found silent

theorem line_after_start (text : List Char) :
    (Position.start.after text).line = 1 + text.count '\n' := rfl

theorem Coverage.linesExact (source : String) : (coverage source).LinesExact source where
  token before t after split := by
    obtain ⟨front, p, back, found, same, texts, -⟩ := coverage_split split
    have token := p.token?_eq.symm.trans (Placed.piece_lexeme same)
    obtain ⟨meaning, -, rfl⟩ := Option.map_eq_some_iff.1 token
    rw [texts, (segmentsFrom_split found).2.2, line_after_start]
  fault before p after f split faulty := by
    obtain ⟨front, q, back, found, same, texts, -⟩ := coverage_split split
    obtain ⟨rfl, -⟩ := Placed.piece_filler same
    obtain ⟨-, ends, started⟩ := segmentsFrom_split found
    obtain ⟨start, segment⟩ := q
    cases segment with
    | unexpected c =>
      cases faulty
      rw [texts, started, line_after_start]
    | unterminated body =>
      cases faulty
      have all : source.toList = front.flatMap Placed.text ++ Segment.text (.unterminated body) := by
        rw [← flatMap_text_segments, found, List.flatMap_append, List.flatMap_cons, ends,
          List.append_nil]
        rfl
      rw [Placed.stop, started, ← Position.after_append, line_after_start, all]
      rfl
    | _ => contradiction

/-- Tokens and unexpected characters carry the line where they stand, and an open
string and the end of input the last line of the source. -/
theorem coverage_linesExact (source : String) :
    (coverage source).Lossless source ∧ (coverage source).LinesExact source :=
  ⟨Coverage.lossless source, Coverage.linesExact source⟩

end ScriptLexer
