import ScriptLexer.Numeral
import ScriptLexer.Symbol

/-! Segments: the pieces that a source falls into, in order and without gaps.
Each is a lexeme, a blank, a comment, or a piece that forms no token. The main
statement is that cutting the first segment off loses nothing. Letters and digits are
the ASCII ones, and the blanks are space, tab, carriage return and line feed, which is
the class of `Char.isWhitespace`. -/
namespace ScriptLexer

/-- An ASCII letter or an underscore. -/
def isWordStart (c : Char) : Bool := c.isAlpha || c == '_'

/-- A character that continues a word. -/
def isWordPart (c : Char) : Bool := isWordStart c || c.isDigit

theorem isWordPart_of_isWordStart {c : Char} (start : isWordStart c = true) :
    isWordPart c = true := by
  simp [isWordPart, start]

theorem isWordPart_of_isDigit {c : Char} (digit : c.isDigit = true) : isWordPart c = true := by
  simp [isWordPart, digit]

inductive Segment
  | blank (char : Char)
  /-- Two slashes and the rest of the line, its line feed excluded. -/
  | comment (body : List Char)
  | symbol (symbol : Symbol)
  | word (letters : List Char)
  | number (numeral : Numeral)
  /-- The characters between two double quotes. -/
  | string (body : List Char)
  | unexpected (char : Char)
  /-- A double quote and all that follows it, none of it a double quote. -/
  | unterminated (body : List Char)
  deriving DecidableEq

namespace Segment

def text : Segment → List Char
  | blank c => [c]
  | comment body => '/' :: '/' :: body
  | symbol s => s.spelling
  | word letters => letters
  | number numeral => numeral.text
  | string body => '"' :: (body ++ ['"'])
  | unexpected c => [c]
  | unterminated body => '"' :: body

/-- Reads on after a double quote. -/
def quoted (rest : List Char) : Segment × List Char :=
  let body := rest.takeWhile (· != '"')
  match rest.dropWhile (· != '"') with
  | [] => (unterminated body, [])
  | _ :: left => (string body, left)

/-- Reads on after the two slashes of a comment. -/
def commented (rest : List Char) : Segment × List Char :=
  (comment (rest.takeWhile (· != '\n')), rest.dropWhile (· != '\n'))

/-- The first segment of a source that starts with `first`, and what is left over. -/
def next (first : Char) (rest : List Char) : Segment × List Char :=
  if first.isWhitespace then (blank first, rest)
  else if first = '"' then quoted rest
  else if first.isDigit then
    let cut := Numeral.next (first :: rest)
    (number cut.1, cut.2)
  else if isWordStart first then
    (word (first :: rest.takeWhile isWordPart), rest.dropWhile isWordPart)
  else if first = '/' ∧ rest.head? = some '/' then commented (rest.drop 1)
  else
    match Symbol.ofChar? first with
    | some s =>
      let cut := s.extend rest
      (symbol cut.1, cut.2)
    | none => (unexpected first, rest)

theorem quoted_text (rest : List Char) :
    (quoted rest).1.text ++ (quoted rest).2 = '"' :: rest := by
  have split := List.takeWhile_append_dropWhile (p := (· != '"')) (l := rest)
  unfold quoted
  split
  · rename_i empty
    simpa [text, empty] using split
  · rename_i c left found
    have quote : c = '"' := by
      have refused := List.head?_dropWhile_not (· != '"') rest
      simpa [found] using refused
    subst quote
    simpa [text, found] using split

theorem commented_text (rest : List Char) :
    (commented rest).1.text ++ (commented rest).2 = '/' :: '/' :: rest := by
  simp [commented, text, List.takeWhile_append_dropWhile]

/-- A segment and what is left over make up the source again. -/
theorem next_text (first : Char) (rest : List Char) :
    (next first rest).1.text ++ (next first rest).2 = first :: rest := by
  fun_cases next first rest with
  | case1 => rfl
  | case2 =>
    rename_i quote
    exact quote ▸ quoted_text rest
  | case3 => exact Numeral.next_text (first :: rest)
  | case4 => simp [text, List.takeWhile_append_dropWhile]
  | case5 =>
    rename_i slashes
    obtain ⟨rfl, slash⟩ := slashes
    cases rest with
    | nil => simp at slash
    | cons c tail =>
      obtain rfl : c = '/' := by simpa using slash
      exact commented_text tail
  | case6 =>
    rename_i s found cut
    simp only [text]
    rw [Symbol.extend_spelling, Symbol.spelling_of_ofChar? found]
    rfl
  | case7 => rfl

theorem next_text_ne_nil (first : Char) (rest : List Char) : (next first rest).1.text ≠ [] := by
  fun_cases next first rest with
  | case1 => simp [text]
  | case2 => fun_cases quoted rest <;> simp [text]
  | case3 =>
    rename_i digit cut
    have whole : (Numeral.next (first :: rest)).1.whole ≠ [] := by
      simp [Numeral.next_whole, digit]
    simp only [text, Numeral.text]
    split <;> simp [cut, whole]
  | case4 => simp [text]
  | case5 => simp [commented, text]
  | case6 => exact Symbol.spelling_ne_nil _
  | case7 => simp [text]

theorem next_shorter (first : Char) (rest : List Char) :
    (next first rest).2.length < (first :: rest).length := by
  have lengths := congrArg List.length (next_text first rest)
  have nonempty := List.length_pos_iff.2 (next_text_ne_nil first rest)
  simp only [List.length_append, List.length_cons] at lengths ⊢
  omega

end Segment
end ScriptLexer
