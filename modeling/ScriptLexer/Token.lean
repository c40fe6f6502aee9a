import ScriptLexer.Decimal
import ScriptLexer.Keyword
import ScriptLexer.Symbol

/-! Tokens: what a lexeme means, its exact source text and its first line. A meaning
fixes the kind, under the name that listings show, and the value of strings and numbers. -/
namespace ScriptLexer

inductive Kind
  | symbol (symbol : Symbol)
  | identifier
  | string
  | number
  | keyword (keyword : Keyword)
  | endOfInput
  deriving DecidableEq

namespace Kind

def all : List Kind :=
  Symbol.all.map symbol ++ [identifier, string, number] ++ Keyword.all.map keyword ++ [endOfInput]

theorem mem_all (kind : Kind) : kind ∈ all := by
  cases kind <;> simp [all, Symbol.mem_all, Keyword.mem_all]

def name : Kind → String
  | symbol s => s.name
  | identifier => "IDENTIFIER"
  | string => "STRING"
  | number => "NUMBER"
  | keyword k => k.name
  | endOfInput => "EOF"

def isKeyword : Kind → Bool
  | keyword _ => true
  | _ => false

end Kind

/-- The value that a string or number token carries. -/
inductive Literal
  | string (value : String)
  | number (value : Binary64)
  deriving DecidableEq

/-- The text of a number, never in exponent form. A whole number shows every
digit of its value and `.0`; another shows its shortest digits. -/
def Binary64.text (x : Binary64) : String :=
  if x.isNaN then "NaN"
  else
    let unsigned :=
      if x.isInfinite then "inf"
      else if x.isIntegral then String.ofList (Decimal.mk (x.units / Nat.pow 2 1074) 0).positional
      else String.ofList (Decimal.shortest .upper x).positional
    if x.negative then "-" ++ unsigned else unsigned

namespace Literal

def text : Literal → String
  | string value => value
  | number value => value.text

/-- Strings compare as texts and numbers as numbers. -/
def equal : Literal → Literal → Bool
  | string v, string w => v == w
  | number x, number y => x == y
  | _, _ => false

instance : BEq Literal := ⟨equal⟩

end Literal

/-- What a lexeme means. The kind and the literal both follow from it, so no
token is a string or a number without its value. -/
inductive Meaning
  | symbol (symbol : Symbol)
  | identifier
  | literal (value : Literal)
  | keyword (keyword : Keyword)
  | endOfInput
  deriving DecidableEq

namespace Meaning

def kind : Meaning → Kind
  | symbol s => .symbol s
  | identifier => .identifier
  | literal (.string _) => .string
  | literal (.number _) => .number
  | keyword k => .keyword k
  | endOfInput => .endOfInput

def literal? : Meaning → Option Literal
  | literal value => some value
  | _ => none

/-- The meaning that a kind has on its own; strings and numbers have none. -/
def ofKind? : Kind → Option Meaning
  | .symbol s => some (symbol s)
  | .identifier => some identifier
  | .string => none
  | .number => none
  | .keyword k => some (keyword k)
  | .endOfInput => some endOfInput

/-- Whether two tokens mean the same, numbers compared as numbers. -/
def equal (a b : Meaning) : Bool := a.kind == b.kind && a.literal? == b.literal?

instance : BEq Meaning := ⟨equal⟩

theorem kind_of_ofKind? {kind : Kind} {meaning : Meaning} (found : ofKind? kind = some meaning) :
    meaning.kind = kind := by
  cases kind <;> simp_all [ofKind?] <;> subst found <;> rfl

end Meaning

structure Token where
  meaning : Meaning
  lexeme : String
  line : Nat
  deriving DecidableEq

/-- A string or number token was asked for without its value. -/
structure MissingLiteral where
  kind : Kind
  deriving DecidableEq

def MissingLiteral.message (e : MissingLiteral) : String := e.kind.name ++ " tokens carry a literal"

namespace Token

def plain (kind : Kind) (lexeme : String) (line : Nat) : Except MissingLiteral Token :=
  match Meaning.ofKind? kind with
  | some meaning => .ok ⟨meaning, lexeme, line⟩
  | none => .error ⟨kind⟩

def string (lexeme value : String) (line : Nat) : Token := ⟨.literal (.string value), lexeme, line⟩

def number (lexeme : String) (value : Binary64) (line : Nat) : Token :=
  ⟨.literal (.number value), lexeme, line⟩

def endOfInput (line : Nat) : Token := ⟨.endOfInput, "", line⟩

def kind (t : Token) : Kind := t.meaning.kind

def literal? (t : Token) : Option Literal := t.meaning.literal?

/-- The name of the kind, the lexeme and the literal, `null` for no literal. -/
def text (t : Token) : String :=
  t.kind.name ++ " " ++ t.lexeme ++ " " ++ (t.literal?.elim "null" Literal.text)

def equal (a b : Token) : Bool := a.meaning == b.meaning && a.lexeme == b.lexeme && a.line == b.line

instance : BEq Token := ⟨equal⟩

end Token
end ScriptLexer
