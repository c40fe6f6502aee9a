import ScriptLexer.Json
import ScriptLexer.Proofs.Json.Number

/-! The JSON grammar, as a relation between a text, what is read in front of it and
the rest. Blanks may stand around every token, strings may use every escape, and
numbers are read exactly. The main statement is that a text is read in one way. -/
namespace ScriptLexer.Json

/-- What a JSON text says, the fields of an object in their order. -/
inductive Value
  | null
  | boolean (value : Bool)
  | number (value : ℚ)
  | string (value : String)
  | array (items : List Value)
  | object (fields : List (String × Value))

def Blanks (text rest : List Char) : Prop :=
  ∃ gap : List Char, (∀ c ∈ gap, c.isWhitespace = true) ∧ gap ++ rest = text

/-- The character that a backslash and a name stand for. -/
def named? : Char → Option Char
  | '"' => some '"'
  | '\\' => some '\\'
  | '/' => some '/'
  | 'b' => some '\x08'
  | 'f' => some '\x0c'
  | 'n' => some '\n'
  | 'r' => some '\r'
  | 't' => some '\t'
  | _ => none

def hexDigit? (c : Char) : Option Nat :=
  if c.isDigit then some (c.toNat - '0'.toNat)
  else if 'a' ≤ c ∧ c ≤ 'f' then some (c.toNat - 'a'.toNat + 10)
  else if 'A' ≤ c ∧ c ≤ 'F' then some (c.toNat - 'A'.toNat + 10)
  else none

/-- The number that hexadecimal digits of either case write. -/
def codeUnit? (digits : List Char) : Option Nat :=
  digits.foldlM (fun unit c => (hexDigit? c).map (16 * unit + ·)) 0

def isHigh (unit : Nat) : Prop := 0xd800 ≤ unit ∧ unit < 0xdc00

def isLow (unit : Nat) : Prop := 0xdc00 ≤ unit ∧ unit < 0xe000

/-- The characters of a string up to its closing quote. A character beyond four
hexadecimal digits is escaped as a pair of code units, a high and a low one. -/
inductive Characters : List Char → List Char → List Char → Prop
  | closed {rest : List Char} : Characters ('"' :: rest) [] rest
  | plain {c : Char} {text chars rest : List Char} (notQuote : c ≠ '"') (notBackslash : c ≠ '\\')
      (noControl : 32 ≤ c.toNat) (more : Characters text chars rest) :
      Characters (c :: text) (c :: chars) rest
  | named {name c : Char} {text chars rest : List Char} (known : named? name = some c)
      (more : Characters text chars rest) : Characters ('\\' :: name :: text) (c :: chars) rest
  | unit {h i j k : Char} {unit : Nat} {text chars rest : List Char}
      (coded : codeUnit? [h, i, j, k] = some unit) (notHigh : ¬isHigh unit) (notLow : ¬isLow unit)
      (more : Characters text chars rest) :
      Characters ('\\' :: 'u' :: h :: i :: j :: k :: text) (Char.ofNat unit :: chars) rest
  | pair {h i j k l m n o : Char} {high low : Nat} {text chars rest : List Char}
      (coded : codeUnit? [h, i, j, k] = some high) (isHigh : isHigh high)
      (joined : codeUnit? [l, m, n, o] = some low) (isLow : isLow low)
      (more : Characters text chars rest) :
      Characters
        ('\\' :: 'u' :: h :: i :: j :: k :: '\\' :: 'u' :: l :: m :: n :: o :: text)
        (Char.ofNat (0x10000 + (high - 0xd800) * 0x400 + (low - 0xdc00)) :: chars) rest

section Members

variable {α : Type} (Member : α → List Char → List Char → Prop) (closing : Char)

/-- Members with commas between them, up to a closing bracket. -/
inductive Members : List α → List Char → List Char → Prop
  | empty {text rest : List Char} (blanks : Blanks text (closing :: rest)) : Members [] text rest
  | last {m : α} {text inner behind rest : List Char} (front : Blanks text inner)
      (member : Member m inner behind) (back : Blanks behind (closing :: rest)) :
      Members [m] text rest
  | cons {m n : α} {ms : List α} {text inner behind next rest : List Char}
      (front : Blanks text inner) (member : Member m inner behind)
      (back : Blanks behind (',' :: next)) (more : Members (n :: ms) next rest) :
      Members (m :: n :: ms) text rest

end Members

/-- A name, a colon and a value, which `Reads` tells. -/
inductive Field (Reads : Value → List Char → List Char → Prop) :
    String × Value → List Char → List Char → Prop
  | mk {name : List Char} {value : Value} {text behind next inner rest : List Char}
      (chars : Characters text name behind) (colon : Blanks behind (':' :: next))
      (front : Blanks next inner) (reads : Reads value inner rest) :
      Field Reads (String.ofList name, value) ('"' :: text) rest

/-- A value in front of a text and the rest of the text. -/
inductive Reads : Value → List Char → List Char → Prop
  | null {rest : List Char} : Reads .null ('n' :: 'u' :: 'l' :: 'l' :: rest) rest
  | boolTrue {rest : List Char} : Reads (.boolean true) ('t' :: 'r' :: 'u' :: 'e' :: rest) rest
  | boolFalse {rest : List Char} :
      Reads (.boolean false) ('f' :: 'a' :: 'l' :: 's' :: 'e' :: rest) rest
  | number {q : ℚ} {digits text rest : List Char} (number : Number digits q)
      (same : digits ++ rest = text) : Reads (.number q) text rest
  | string {content text rest : List Char} (chars : Characters text content rest) :
      Reads (.string (String.ofList content)) ('"' :: text) rest
  | array {items : List Value} {text rest : List Char} (members : Members Reads ']' items text rest) :
      Reads (.array items) ('[' :: text) rest
  | object {fields : List (String × Value)} {text rest : List Char}
      (members : Members (Field Reads) '}' fields text rest) :
      Reads (.object fields) ('{' :: text) rest

/-- A text that is one value and blanks around it. -/
def Document (text : List Char) (value : Value) : Prop :=
  ∃ inner behind, Blanks text inner ∧ Reads value inner behind ∧ Blanks behind []

section Unique

variable {text rest left : List Char}

theorem Blanks.unique (first : Blanks text rest) (second : Blanks text left)
    (stop : ∀ c ∈ rest.head?, c.isWhitespace = false)
    (ends : ∀ c ∈ left.head?, c.isWhitespace = false) : rest = left := by
  obtain ⟨gap, blank, rfl⟩ := first
  obtain ⟨other, blanks, same⟩ := second
  exact (runs_unique blank blanks same.symm stop ends).2

/-- Nothing that continues a number is a blank, so blanks end one. -/
theorem Blanks.stops (blanks : Blanks text rest) (stops : Stops rest) : Stops text := by
  obtain ⟨gap, blank, rfl⟩ := blanks
  cases gap with
  | nil => exact stops
  | cons c gap =>
    intro d found
    obtain rfl : c = d := Option.some.inj found
    have member := isWhitespace_iff.1 (blank c List.mem_cons_self)
    simp only [List.mem_cons, List.not_mem_nil, or_false] at member
    rcases member with rfl | rfl | rfl | rfl <;> decide

theorem Characters.unique {chars others : List Char} (first : Characters text chars rest)
    (second : Characters text others left) : chars = others ∧ rest = left := by
  induction first generalizing others left with
  | closed =>
    cases second with
    | closed => exact ⟨rfl, rfl⟩
    | plain notQuote => contradiction
  | plain notQuote notBackslash noControl more ih =>
    cases second with
    | closed => contradiction
    | plain _ _ _ again =>
      obtain ⟨rfl, rfl⟩ := ih again
      exact ⟨rfl, rfl⟩
    | named | unit | pair => contradiction
  | named known more ih =>
    cases second with
    | plain _ notBackslash => contradiction
    | named also again =>
      obtain ⟨rfl, rfl⟩ := ih again
      obtain rfl := Option.some.inj (known.symm.trans also)
      exact ⟨rfl, rfl⟩
    | unit | pair => contradiction
  | unit coded notHigh notLow more ih =>
    cases second with
    | plain _ notBackslash => contradiction
    | named known => contradiction
    | unit also _ _ again =>
      obtain ⟨rfl, rfl⟩ := ih again
      obtain rfl := Option.some.inj (coded.symm.trans also)
      exact ⟨rfl, rfl⟩
    | pair also high =>
      obtain rfl := Option.some.inj (coded.symm.trans also)
      contradiction
  | pair coded high joined low more ih =>
    cases second with
    | plain _ notBackslash => contradiction
    | named known => contradiction
    | unit also notHigh =>
      obtain rfl := Option.some.inj (coded.symm.trans also)
      contradiction
    | pair also _ next _ again =>
      obtain ⟨rfl, rfl⟩ := ih again
      obtain rfl := Option.some.inj (coded.symm.trans also)
      obtain rfl := Option.some.inj (joined.symm.trans next)
      exact ⟨rfl, rfl⟩

/-- A member starts with a character of its own: no blank, and nothing that stands
between or behind members. -/
def Opens (text : List Char) : Prop :=
  ∃ c tail, text = c :: tail ∧ c.isWhitespace = false ∧ c ∉ [',', ']', '}']

section Members

variable {α : Type} {Member : α → List Char → List Char → Prop} {closing : Char}

/-- What is read in front of a text as a member is read in no other way there. -/
def Settled (Member : α → List Char → List Char → Prop) (m : α) : Prop :=
  ∀ ⦃n : α⦄ ⦃text rest left : List Char⦄, Member m text rest → Member n text left →
    Stops rest → Stops left → m = n ∧ rest = left

theorem Opens.head (opens : Opens text) : ∀ c ∈ text.head?, c.isWhitespace = false := by
  obtain ⟨c, tail, rfl, notBlank, -⟩ := opens
  simpa using notBlank

theorem delimiter_class {d : Char} (known : d ∈ [',', ']', '}']) :
    d.isWhitespace = false ∧ continuesNumber d = false := by
  simp only [List.mem_cons, List.not_mem_nil, or_false] at known
  rcases known with rfl | rfl | rfl <;> decide

/-- Where a member starts, no members end. -/
theorem Opens.not_blanks {inner : List Char} (opens : Opens inner) (front : Blanks text inner)
    (known : closing ∈ [',', ']', '}']) : ¬Blanks text (closing :: rest) := by
  intro blanks
  obtain ⟨notBlank, -⟩ := delimiter_class known
  have same := blanks.unique front (by simpa using notBlank) opens.head
  obtain ⟨c, tail, rfl, -, other⟩ := opens
  obtain ⟨rfl, -⟩ := List.cons.inj same
  exact other known

/-- A member with the blanks around it is read in one way up to its delimiter. -/
theorem Settled.delimited {m n : α} {inner behind next inner' behind' next' : List Char} {d e : Char}
    (settled : Settled Member m)
    (opens : ∀ {m : α} {text rest : List Char}, Member m text rest → Opens text)
    (front : Blanks text inner) (member : Member m inner behind) (back : Blanks behind (d :: next))
    (front' : Blanks text inner') (member' : Member n inner' behind')
    (back' : Blanks behind' (e :: next')) (delimiter : d ∈ [',', ']', '}'])
    (delimiter' : e ∈ [',', ']', '}']) : m = n ∧ d = e ∧ next = next' := by
  obtain ⟨notBlank, notNumber⟩ := delimiter_class delimiter
  obtain ⟨notBlank', notNumber'⟩ := delimiter_class delimiter'
  obtain rfl := front.unique front' (opens member).head (opens member').head
  obtain ⟨rfl, rfl⟩ := settled member member' (back.stops (by simpa [Stops] using notNumber))
    (back'.stops (by simpa [Stops] using notNumber'))
  have same := back.unique back' (by simpa using notBlank) (by simpa using notBlank')
  exact ⟨rfl, List.cons.inj same⟩

theorem Members.unique {ms ns : List α} (known : closing ∈ [']', '}'])
    (opens : ∀ {m : α} {text rest : List Char}, Member m text rest → Opens text)
    (settled : ∀ m ∈ ms, Settled Member m) (first : Members Member closing ms text rest)
    (second : Members Member closing ns text left) : ms = ns ∧ rest = left := by
  have comma : ',' ∈ [',', ']', '}'] := List.mem_cons_self
  have closes : closing ∈ [',', ']', '}'] := List.mem_cons_of_mem _ known
  have differ : ',' ≠ closing := by
    rintro rfl
    contradiction
  induction first generalizing ns left with
  | empty blanks =>
    cases second with
    | empty again =>
      obtain ⟨notBlank, -⟩ := delimiter_class closes
      have same := blanks.unique again (by simpa using notBlank) (by simpa using notBlank)
      exact ⟨rfl, (List.cons.inj same).2⟩
    | last front member => exact absurd blanks ((opens member).not_blanks front closes)
    | cons front member => exact absurd blanks ((opens member).not_blanks front closes)
  | last front member back =>
    have one := settled _ List.mem_cons_self
    cases second with
    | empty blanks => exact absurd blanks ((opens member).not_blanks front closes)
    | last front' member' back' =>
      obtain ⟨rfl, -, rfl⟩ :=
        one.delimited opens front member back front' member' back' closes closes
      exact ⟨rfl, rfl⟩
    | cons front' member' back' =>
      obtain ⟨-, same, -⟩ :=
        one.delimited opens front member back front' member' back' closes comma
      exact absurd same.symm differ
  | cons front member back more ih =>
    have one := settled _ List.mem_cons_self
    cases second with
    | empty blanks => exact absurd blanks ((opens member).not_blanks front closes)
    | last front' member' back' =>
      obtain ⟨-, same, -⟩ :=
        one.delimited opens front member back front' member' back' comma closes
      exact absurd same differ
    | cons front' member' back' again =>
      obtain ⟨rfl, -, rfl⟩ :=
        one.delimited opens front member back front' member' back' comma comma
      obtain ⟨same, rfl⟩ := ih (fun m member => settled m (List.mem_cons_of_mem _ member)) again
      exact ⟨congrArg _ same, rfl⟩

end Members

theorem Reads.opens {value : Value} (reads : Reads value text rest) : Opens text := by
  cases reads with
  | @number q digits text rest number same =>
    obtain ⟨c, tail, rfl⟩ := List.exists_cons_of_ne_nil number.ne_nil
    refine ⟨c, tail ++ rest, same.symm, ?_⟩
    have starts : (c :: tail) ++ rest = c :: (tail ++ rest) := List.cons_append ..
    rcases number.head_append starts with rfl | digit
    · decide
    · constructor
      · by_contra blank
        simp [isDigit_of_isWhitespace (Bool.of_not_eq_false blank)] at digit
      · intro known
        simp only [List.mem_cons, List.not_mem_nil, or_false] at known
        rcases known with rfl | rfl | rfl <;> contradiction
  | _ => exact ⟨_, _, rfl, by decide, by decide⟩

theorem Field.opens {field : String × Value} (read : Field Reads field text rest) : Opens text := by
  cases read
  exact ⟨_, _, rfl, by decide, by decide⟩

theorem Field.settled {field : String × Value} (settled : Settled Reads field.2) :
    Settled (Field Reads) field := by
  intro other text rest left first second stop ends
  cases first with
  | mk chars colon front reads =>
    cases second with
    | mk chars' colon' front' reads' =>
      obtain ⟨rfl, rfl⟩ := chars.unique chars'
      have same := colon.unique colon' (by simp) (by simp)
      obtain ⟨-, rfl⟩ := List.cons.inj same
      obtain rfl := front.unique front' reads.opens.head reads'.opens.head
      obtain ⟨rfl, rfl⟩ := settled reads reads' stop ends
      exact ⟨rfl, rfl⟩

/-- The induction is on the value, since its members are read as it is. -/
theorem Reads.settled (value : Value) : Settled Reads value := by
  intro other text rest left first second stop ends
  match value with
  | .null =>
    cases first with
    | null =>
      cases second with
      | number number same => exact (number.not_literal same rfl).elim
      | null => exact ⟨rfl, rfl⟩
  | .boolean value =>
    cases first with
    | boolTrue | boolFalse =>
      cases second with
      | number number same => exact (number.not_literal same rfl).elim
      | _ => exact ⟨rfl, rfl⟩
  | .number q =>
    cases first with
    | number number same =>
      cases second with
      | number again same' =>
        obtain ⟨rfl, rfl⟩ := number.unique again (same.trans same'.symm) stop ends
        exact ⟨rfl, rfl⟩
      | _ => exact (number.not_literal same rfl).elim
  | .string value =>
    cases first with
    | string chars =>
      cases second with
      | number number same => exact (number.not_literal same rfl).elim
      | string again =>
        obtain ⟨rfl, rfl⟩ := chars.unique again
        exact ⟨rfl, rfl⟩
  | .array items =>
    cases first with
    | array members =>
      cases second with
      | number number same => exact (number.not_literal same rfl).elim
      | array again =>
        obtain ⟨rfl, rfl⟩ :=
          members.unique (by decide) Reads.opens (fun item member => Reads.settled item) again
        exact ⟨rfl, rfl⟩
  | .object fields =>
    cases first with
    | object members =>
      cases second with
      | number number same => exact (number.not_literal same rfl).elim
      | object again =>
        obtain ⟨rfl, rfl⟩ :=
          members.unique (by decide) Field.opens
            (fun field member => Field.settled (Reads.settled field.2)) again
        exact ⟨rfl, rfl⟩
termination_by sizeOf value
decreasing_by
  · have smaller := List.sizeOf_lt_of_mem member
    simp only [Value.array.sizeOf_spec]
    omega
  · have smaller := List.sizeOf_lt_of_mem member
    cases field
    simp only [Value.object.sizeOf_spec, Prod.mk.sizeOf_spec] at smaller ⊢
    omega

/-- No text is two documents. -/
theorem Document.unique {value other : Value} (first : Document text value)
    (second : Document text other) : value = other := by
  obtain ⟨inner, behind, front, reads, back⟩ := first
  obtain ⟨inner', behind', front', reads', back'⟩ := second
  have stops : Stops [] := by simp [Stops]
  obtain rfl := front.unique front' reads.opens.head reads'.opens.head
  exact (Reads.settled value reads reads' (back.stops stops) (back'.stops stops)).1

end Unique

end ScriptLexer.Json
