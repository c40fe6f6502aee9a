/-! Operators and punctuation. Each symbol is one character, or one of four
characters joined with an equals sign. -/
namespace ScriptLexer

inductive Symbol
  | leftParen | rightParen | leftBrace | rightBrace
  | comma | dot | minus | plus | semicolon | slash | star
  | bang | bangEqual | equal | equalEqual
  | greater | greaterEqual | less | lessEqual
  deriving DecidableEq

namespace Symbol

def all : List Symbol :=
  [leftParen, rightParen, leftBrace, rightBrace, comma, dot, minus, plus, semicolon, slash, star,
    bang, bangEqual, equal, equalEqual, greater, greaterEqual, less, lessEqual]

theorem mem_all (symbol : Symbol) : symbol ∈ all := by
  cases symbol <;> decide

def spelling : Symbol → List Char
  | leftParen => ['(']
  | rightParen => [')']
  | leftBrace => ['{']
  | rightBrace => ['}']
  | comma => [',']
  | dot => ['.']
  | minus => ['-']
  | plus => ['+']
  | semicolon => [';']
  | slash => ['/']
  | star => ['*']
  | bang => ['!']
  | bangEqual => ['!', '=']
  | equal => ['=']
  | equalEqual => ['=', '=']
  | greater => ['>']
  | greaterEqual => ['>', '=']
  | less => ['<']
  | lessEqual => ['<', '=']

theorem spelling_ne_nil (symbol : Symbol) : symbol.spelling ≠ [] := by
  cases symbol <;> simp [spelling]

/-- The name under which listings show a symbol. -/
def name : Symbol → String
  | leftParen => "LEFT_PAREN"
  | rightParen => "RIGHT_PAREN"
  | leftBrace => "LEFT_BRACE"
  | rightBrace => "RIGHT_BRACE"
  | comma => "COMMA"
  | dot => "DOT"
  | minus => "MINUS"
  | plus => "PLUS"
  | semicolon => "SEMICOLON"
  | slash => "SLASH"
  | star => "STAR"
  | bang => "BANG"
  | bangEqual => "BANG_EQUAL"
  | equal => "EQUAL"
  | equalEqual => "EQUAL_EQUAL"
  | greater => "GREATER"
  | greaterEqual => "GREATER_EQUAL"
  | less => "LESS"
  | lessEqual => "LESS_EQUAL"

def ofChar? : Char → Option Symbol
  | '(' => some leftParen
  | ')' => some rightParen
  | '{' => some leftBrace
  | '}' => some rightBrace
  | ',' => some comma
  | '.' => some dot
  | '-' => some minus
  | '+' => some plus
  | ';' => some semicolon
  | '/' => some slash
  | '*' => some star
  | '!' => some bang
  | '=' => some equal
  | '>' => some greater
  | '<' => some less
  | _ => none

/-- The symbol spelled by this one and an equals sign. -/
def withEqual? : Symbol → Option Symbol
  | bang => some bangEqual
  | equal => some equalEqual
  | greater => some greaterEqual
  | less => some lessEqual
  | _ => none

/-- The longer symbol if an equals sign follows and makes one, with the characters left over. -/
def extend (symbol : Symbol) : List Char → Symbol × List Char
  | [] => (symbol, [])
  | c :: rest =>
    match symbol.withEqual? with
    | some wide => if c = '=' then (wide, rest) else (symbol, c :: rest)
    | none => (symbol, c :: rest)

theorem spelling_of_ofChar? {c : Char} {symbol : Symbol} (found : ofChar? c = some symbol) :
    symbol.spelling = [c] := by
  unfold ofChar? at found
  split at found <;> simp_all [spelling] <;> subst found <;> rfl

theorem spelling_of_withEqual? {symbol wide : Symbol} (found : symbol.withEqual? = some wide) :
    wide.spelling = symbol.spelling ++ ['='] := by
  cases symbol <;> simp_all [withEqual?] <;> subst found <;> rfl

theorem extend_spelling (symbol : Symbol) (rest : List Char) :
    (symbol.extend rest).1.spelling ++ (symbol.extend rest).2 = symbol.spelling ++ rest := by
  fun_cases extend symbol rest with
  | case1 => rfl
  | case2 rest wide found => simp [spelling_of_withEqual? found]
  | case3 => rfl
  | case4 => rfl

end Symbol
end ScriptLexer
