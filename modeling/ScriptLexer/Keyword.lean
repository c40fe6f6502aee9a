/-! Reserved words. A word is reserved only if it has exactly the spelling of
the table, in lower case. -/
namespace ScriptLexer

inductive Keyword
  | andWord | classWord | elseWord | falseWord | forWord | funWord | ifWord | nilWord
  | orWord | printWord | returnWord | superWord | thisWord | trueWord | varWord | whileWord
  deriving DecidableEq

namespace Keyword

def all : List Keyword :=
  [andWord, classWord, elseWord, falseWord, forWord, funWord, ifWord, nilWord,
    orWord, printWord, returnWord, superWord, thisWord, trueWord, varWord, whileWord]

theorem mem_all (keyword : Keyword) : keyword ∈ all := by
  cases keyword <;> decide

def spelling : Keyword → String
  | andWord => "and"
  | classWord => "class"
  | elseWord => "else"
  | falseWord => "false"
  | funWord => "fun"
  | forWord => "for"
  | ifWord => "if"
  | nilWord => "nil"
  | orWord => "or"
  | printWord => "print"
  | returnWord => "return"
  | superWord => "super"
  | thisWord => "this"
  | trueWord => "true"
  | varWord => "var"
  | whileWord => "while"

/-- The name under which listings show a reserved word. -/
def name : Keyword → String
  | andWord => "AND"
  | classWord => "CLASS"
  | elseWord => "ELSE"
  | falseWord => "FALSE"
  | funWord => "FUN"
  | forWord => "FOR"
  | ifWord => "IF"
  | nilWord => "NIL"
  | orWord => "OR"
  | printWord => "PRINT"
  | returnWord => "RETURN"
  | superWord => "SUPER"
  | thisWord => "THIS"
  | trueWord => "TRUE"
  | varWord => "VAR"
  | whileWord => "WHILE"

/-- The reserved word that a text spells, if it spells one. -/
def ofSpelling? (text : String) : Option Keyword :=
  all.find? (·.spelling == text)

theorem ofSpelling?_spelling (keyword : Keyword) :
    ofSpelling? keyword.spelling = some keyword := by
  cases keyword <;> decide

theorem ofSpelling?_eq_some_iff {text : String} {keyword : Keyword} :
    ofSpelling? text = some keyword ↔ keyword.spelling = text := by
  refine ⟨fun found => ?_, fun same => same ▸ ofSpelling?_spelling keyword⟩
  simpa using List.find?_some found

/-- Every reserved spelling with the word that it scans to. -/
def table : List (String × Keyword) :=
  [("and", andWord), ("class", classWord), ("else", elseWord), ("false", falseWord),
    ("for", forWord), ("fun", funWord), ("if", ifWord), ("nil", nilWord), ("or", orWord),
    ("print", printWord), ("return", returnWord), ("super", superWord), ("this", thisWord),
    ("true", trueWord), ("var", varWord), ("while", whileWord)]

theorem table_eq : table = all.map fun keyword => (keyword.spelling, keyword) := rfl

/-- The table and the lookup agree. -/
theorem mem_table_iff {text : String} {keyword : Keyword} :
    (text, keyword) ∈ table ↔ ofSpelling? text = some keyword := by
  rw [ofSpelling?_eq_some_iff, table_eq, List.mem_map]
  constructor
  · rintro ⟨listed, -, same⟩
    obtain ⟨spelled, rfl⟩ := Prod.mk.inj same
    exact spelled
  · intro spelled
    exact ⟨keyword, mem_all keyword, Prod.ext spelled rfl⟩

end Keyword
end ScriptLexer
