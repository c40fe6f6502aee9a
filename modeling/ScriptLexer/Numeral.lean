import ScriptLexer.Decimal

/-! Number lexemes: digits, and after a point more digits. A point that no digit
follows is left over. -/
namespace ScriptLexer

/-- The digits before and after the point; an empty fraction has no point. -/
structure Numeral where
  whole : List Char
  fraction : List Char
  deriving DecidableEq

namespace Numeral

def text (n : Numeral) : List Char :=
  if n.fraction.isEmpty then n.whole else n.whole ++ '.' :: n.fraction

/-- The number denoted, exactly. -/
def value (n : Numeral) : Decimal :=
  ⟨Nat.ofDigitChars 10 (n.whole ++ n.fraction) 0, -(n.fraction.length : Int)⟩

/-- The longest numeral in front of a text, with what is left over. -/
def next (source : List Char) : Numeral × List Char :=
  let whole := source.takeWhile Char.isDigit
  match source.dropWhile Char.isDigit with
  | [] => (⟨whole, []⟩, [])
  | c :: rest =>
    if c = '.' ∧ rest.takeWhile Char.isDigit ≠ [] then
      (⟨whole, rest.takeWhile Char.isDigit⟩, rest.dropWhile Char.isDigit)
    else (⟨whole, []⟩, c :: rest)

theorem next_text (source : List Char) : (next source).1.text ++ (next source).2 = source := by
  have split := List.takeWhile_append_dropWhile (p := Char.isDigit) (l := source)
  unfold next
  split
  · rename_i rest
    simpa [text, rest] using split
  · rename_i c tail rest
    split
    · rename_i point
      obtain ⟨rfl, digits⟩ := point
      rw [rest] at split
      simpa [text, digits, List.takeWhile_append_dropWhile] using split
    · simpa [text, rest] using split

theorem next_whole (source : List Char) :
    (next source).1.whole = source.takeWhile Char.isDigit := by
  fun_cases next source <;> rfl

end Numeral
end ScriptLexer
