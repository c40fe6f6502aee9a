import ScriptLexer.Decimal

/-! JSON documents and their indented layout: two spaces a level, one item or
field on a line, and a space behind the colon of a field. -/
namespace ScriptLexer

/-- A document. A real number keeps its point or exponent when it is written,
so it is told from a natural one. -/
inductive Json
  | null
  | natural (value : Nat)
  | real (value : Binary64)
  | string (value : String)
  | list (items : List Json)
  | record (fields : List (String × Json))

namespace Json

/-- The document for a number; only finite numbers have a numeral. -/
def ofNumber (x : Binary64) : Json := if x.isFinite then real x else null

/-- The shortest digits, written out for leading digits from `10 ^ -5` to
`10 ^ 15` and with a power of ten beyond. -/
def numeral (x : Binary64) : List Char :=
  let d := Decimal.shortest .even x
  let unsigned := if -5 ≤ d.leading ∧ d.leading ≤ 15 then d.positional else d.scientific
  if x.negative then '-' :: unsigned else unsigned

/-- A character inside quotes. The short escapes and `\\u00` with two lower-case
digits cover the quote, the backslash and everything below the space. -/
def escape (c : Char) : List Char :=
  match c with
  | '"' => ['\\', '"']
  | '\\' => ['\\', '\\']
  | '\x08' => ['\\', 'b']
  | '\x0c' => ['\\', 'f']
  | '\n' => ['\\', 'n']
  | '\r' => ['\\', 'r']
  | '\t' => ['\\', 't']
  | c =>
    if c.toNat < 32 then
      ['\\', 'u', '0', '0', Nat.digitChar (c.toNat / 16), Nat.digitChar (c.toNat % 16)]
    else [c]

def quote (text : String) : List Char := '"' :: text.toList.flatMap escape ++ ['"']

def newLine (level : Nat) : List Char := '\n' :: List.replicate (2 * level) ' '

/-- Brackets around members, each on a line one level deeper. -/
def block (level : Nat) (opening closing : Char) : List (List Char) → List Char
  | [] => [opening, closing]
  | first :: rest =>
    opening :: (newLine (level + 1) ++ first ++
      rest.flatMap (fun member => ',' :: (newLine (level + 1) ++ member)) ++
      newLine level ++ [closing])

def print (level : Nat) : Json → List Char
  | null => ['n', 'u', 'l', 'l']
  | natural value => Nat.toDigits 10 value
  | real value => numeral value
  | string value => quote value
  | list items => block level '[' ']' (items.map fun item => item.print (level + 1))
  | record fields =>
    block level '{' '}' (fields.map fun field =>
      quote field.1 ++ ':' :: ' ' :: field.2.print (level + 1))
termination_by document => sizeOf document
decreasing_by
  · rename_i member
    have := List.sizeOf_lt_of_mem member
    simp only [list.sizeOf_spec]
    omega
  · rename_i member
    have := List.sizeOf_lt_of_mem member
    cases field
    simp only [record.sizeOf_spec, Prod.mk.sizeOf_spec] at this ⊢
    omega

def text (document : Json) : String := String.ofList (document.print 0)

end Json
end ScriptLexer
