import ScriptLexer.Proofs.Json.Printing
import ScriptLexer.Proofs.LongestMatch
import ScriptLexer.Rendering

/-! Listings of scanned tokens. Both formats tell the tokens apart: from the text
their contents follow, and from the document their lines too. That rests on what
a scan finds, since the text listing marks no end of a lexeme. -/
namespace ScriptLexer

/-- A token as a scan finds it. -/
inductive Token.Found : Token → Prop
  | lexeme {meaning : Meaning} {text : List Char} {line : Nat} (lexeme : Lexeme meaning text) :
      Found ⟨meaning, String.ofList text, line⟩
  | endOfInput {line : Nat} : Found (.endOfInput line)

theorem found_of_mem_scan {source : String} {t : Token} (member : t ∈ (scan source).tokens) :
    t.Found := by
  rw [scan_eq] at member
  rcases List.mem_append.1 member with inside | last
  · obtain ⟨p, placed, token⟩ := List.mem_filterMap.1 inside
    obtain ⟨before, after, split⟩ := List.mem_iff_append.1 placed
    obtain ⟨meaning, means, rfl⟩ := Option.map_eq_some_iff.1 (p.token?_eq.symm.trans token)
    exact .lexeme (lexeme_iff.2 ⟨p.segment, (segmentsFrom_split split).1, means, rfl⟩)
  · rw [List.mem_singleton.1 last]
    exact .endOfInput

theorem Lexeme.text_ne_nil {meaning : Meaning} {text : List Char} (lexeme : Lexeme meaning text) :
    text ≠ [] :=
  (Removable.lexeme lexeme).text_ne_nil

/-- Found tokens with one lexeme mean the same. -/
theorem Token.Found.meaning_eq {t u : Token} (found : t.Found) (other : u.Found)
    (same : t.lexeme = u.lexeme) : t.meaning = u.meaning := by
  cases found with
  | lexeme lexeme =>
    cases other with
    | lexeme again =>
      obtain rfl := String.ofList_injective same
      exact Option.some.inj ((Removable.lexeme lexeme).unique (.lexeme again))
    | endOfInput => exact absurd (String.ofList_injective same) lexeme.text_ne_nil
  | endOfInput =>
    cases other with
    | lexeme again => exact absurd (String.ofList_injective same).symm again.text_ne_nil
    | endOfInput => rfl

/-! ### The document -/

/-- What a document tells of a literal; a number that is not finite is left out. -/
def Literal.entry : Literal → Json.Value
  | .string value => .string value
  | .number value => if value.isFinite then .number value.printed else .null

/-- What a document tells of a token. -/
def Token.entry (t : Token) : Json.Value :=
  .object [("kind", .string t.kind.name), ("lexeme", .string t.lexeme),
    ("literal", t.literal?.elim .null Literal.entry), ("line", .number t.line)]

theorem Literal.meaning_toJson (literal : Literal) : literal.toJson.meaning = literal.entry := by
  cases literal with
  | string value => rw [toJson, Json.meaning, entry]
  | number value =>
    rw [toJson, Json.ofNumber, entry]
    split <;> rw [Json.meaning]

theorem Token.meaning_toJson (t : Token) : t.toJson.meaning = t.entry := by
  have literal : (t.literal?.elim Json.null Literal.toJson).meaning =
      t.literal?.elim .null Literal.entry := by
    cases t.literal? with
    | none => rw [Option.elim_none, Option.elim_none, Json.meaning]
    | some literal => exact literal.meaning_toJson
  rw [toJson, entry, Json.meaning]
  simp [literal, Json.meaning]

theorem Token.Found.eq_of_entry_eq {t u : Token} (found : t.Found) (other : u.Found)
    (same : t.entry = u.entry) : t = u := by
  simp only [entry, Json.Value.object.injEq, List.cons.injEq, Prod.mk.injEq,
    Json.Value.string.injEq, Json.Value.number.injEq, Nat.cast_inj, true_and, and_true] at same
  obtain ⟨-, lexeme, -, line⟩ := same
  have meaning := found.meaning_eq other lexeme
  cases t
  cases u
  simp only [Token.mk.injEq]
  exact ⟨meaning, lexeme, line⟩

theorem eq_of_map_entry_eq {tokens others : List Token} (found : ∀ t ∈ tokens, t.Found)
    (also : ∀ t ∈ others, t.Found) (same : tokens.map Token.entry = others.map Token.entry) :
    tokens = others := by
  induction tokens generalizing others with
  | nil => exact (List.map_eq_nil_iff.1 same.symm).symm
  | cons t tokens ih =>
    obtain ⟨u, rest, rfl, first, tail⟩ := List.map_eq_cons_iff.1 same.symm
    obtain ⟨one, found⟩ := List.forall_mem_cons.1 found
    obtain ⟨two, also⟩ := List.forall_mem_cons.1 also
    rw [one.eq_of_entry_eq two first.symm, ih found also tail.symm]

/-- The document listing is read as the entries of its tokens and as nothing else. -/
theorem document_listing_iff (tokens : List Token) (value : Json.Value) :
    Json.Document (Format.json.listing tokens).toList value ↔
      value = .array (tokens.map Token.entry) := by
  have said : (Json.list (tokens.map Token.toJson)).meaning = .array (tokens.map Token.entry) := by
    rw [Json.meaning, List.map_map]
    exact congrArg _ (List.map_congr_left fun t _ => t.meaning_toJson)
  rw [← said]
  exact Json.document_text_iff _ _

/-- The document of a scan is read as the entries of its tokens, and two scans share
a document only if they found the same tokens. A number that is not finite is left out
of an entry, but its lexeme is there and has one meaning. -/
theorem jsonListing_faithful (source : String) :
    (∀ value, Json.Document (Format.json.listing (scan source).tokens).toList value ↔
      value = .array ((scan source).tokens.map Token.entry)) ∧
    ∀ other, Format.json.listing (scan source).tokens = Format.json.listing (scan other).tokens ↔
      (scan source).tokens = (scan other).tokens := by
  refine ⟨document_listing_iff _, ?_⟩
  intro other
  constructor
  · intro same
    have document := (document_listing_iff (scan source).tokens _).2 rfl
    rw [same, document_listing_iff, Json.Value.array.injEq] at document
    exact eq_of_map_entry_eq (fun _ => found_of_mem_scan) (fun _ => found_of_mem_scan) document
  · intro same
    rw [same]

/-! ### The lines of text -/

/-- A text that a space ends: it has no space in it, or quotes around. -/
inductive Delimited : List Char → Prop
  | bare {text : List Char} (noSpace : ' ' ∉ text) (noQuote : '"' ∉ text) : Delimited text
  | quoted {body : List Char} (unquoted : '"' ∉ body) : Delimited ('"' :: (body ++ ['"']))

/-- A space behind it ends a text in one place. -/
theorem Delimited.unique {a b rest left : List Char} (first : Delimited a) (second : Delimited b)
    (same : a ++ ' ' :: rest = b ++ ' ' :: left) : a = b ∧ rest = left := by
  -- One text cannot start with a quote while the other has none.
  have mixed {bare body rest left : List Char} (noQuote : '"' ∉ bare)
      (same : bare ++ ' ' :: rest = '"' :: (body ++ ['"']) ++ ' ' :: left) : False := by
    cases bare with
    | nil => simp at same
    | cons c bare =>
      obtain ⟨rfl, -⟩ := List.cons.inj same
      exact noQuote List.mem_cons_self
  cases first with
  | bare noSpace noQuote =>
    cases second with
    | bare noSpace' => exact before_unique noSpace noSpace' same
    | quoted => exact (mixed noQuote same).elim
  | quoted unquoted =>
    cases second with
    | bare _ noQuote => exact (mixed noQuote same.symm).elim
    | quoted unquoted' =>
      simp only [List.cons_append, List.append_assoc, List.nil_append, List.cons.injEq,
        true_and] at same
      obtain ⟨rfl, tails⟩ := before_unique unquoted unquoted' same
      exact ⟨rfl, (List.cons.inj tails).2⟩

theorem delimited_of_parts {text : List Char} (parts : ∀ c ∈ text, isWordPart c = true ∨ c = '.') :
    Delimited text := by
  constructor
  · intro member
    have part := parts ' ' member
    contradiction
  · intro member
    have part := parts '"' member
    contradiction

theorem Lexeme.delimited {meaning : Meaning} {text : List Char} (lexeme : Lexeme meaning text) :
    Delimited text := by
  cases lexeme with
  | symbol s =>
    constructor
    · cases s <;> decide
    · cases s <;> decide
  | keyword k => exact delimited_of_parts fun c member => .inl (k.isWord.part c member)
  | identifier word free => exact delimited_of_parts fun c member => .inl (word.part c member)
  | number wellFormed =>
    exact delimited_of_parts fun c member =>
      (Numeral.mem_text wellFormed member).imp_left isWordPart_of_isDigit
  | string unquoted => exact .quoted unquoted

theorem Token.Found.delimited {t : Token} (found : t.Found) : Delimited t.lexeme.toList := by
  cases found with
  | lexeme lexeme =>
    rw [String.toList_ofList]
    exact lexeme.delimited
  | endOfInput => exact delimited_of_parts (by simp [Token.endOfInput])

theorem Kind.space_not_mem_name (kind : Kind) : ' ' ∉ kind.name.toList := by
  have all : ∀ kind ∈ Kind.all, ' ' ∉ kind.name.toList := by decide
  exact all kind kind.mem_all

theorem Token.text_append (t : Token) (rest : List Char) :
    (t.text ++ "\n").toList ++ rest = t.kind.name.toList ++ ' ' :: (t.lexeme.toList ++
      ' ' :: ((t.literal?.elim "null" Literal.text).toList ++ '\n' :: rest)) := by
  simp [text]

/-- A line of a found token is read in one way. Its literal follows from its lexeme,
so it does not matter what is in the literal. -/
theorem Token.Found.line_unique {t u : Token} (found : t.Found) (other : u.Found)
    {rest left : List Char}
    (same : (t.text ++ "\n").toList ++ rest = (u.text ++ "\n").toList ++ left) :
    t.content = u.content ∧ rest = left := by
  rw [text_append, text_append] at same
  obtain ⟨-, behind⟩ := before_unique t.kind.space_not_mem_name u.kind.space_not_mem_name same
  obtain ⟨lexeme, behind⟩ := found.delimited.unique other.delimited behind
  have lexeme := String.toList_injective lexeme
  have meaning := found.meaning_eq other lexeme
  simp only [literal?, meaning, List.append_cancel_left_eq, List.cons.injEq, true_and] at behind
  exact ⟨by simp [content, kind, literal?, meaning, lexeme], behind⟩

/-- The induction is on the tokens, a line at a time. -/
theorem contents_unique {tokens others : List Token} (found : ∀ t ∈ tokens, t.Found)
    (also : ∀ t ∈ others, t.Found)
    (same : tokens.flatMap (fun t => (t.text ++ "\n").toList) =
      others.flatMap fun t => (t.text ++ "\n").toList) :
    tokens.map Token.content = others.map Token.content := by
  induction tokens generalizing others with
  | nil =>
    cases others with
    | nil => rfl
    | cons u others => simp at same
  | cons t tokens ih =>
    cases others with
    | nil => simp at same
    | cons u others =>
      obtain ⟨one, found⟩ := List.forall_mem_cons.1 found
      obtain ⟨two, also⟩ := List.forall_mem_cons.1 also
      obtain ⟨content, behind⟩ := one.line_unique two same
      rw [List.map_cons, List.map_cons, content, ih found also behind]

theorem toList_textListing (tokens : List Token) :
    (Format.text.listing tokens).toList = tokens.flatMap fun t => (t.text ++ "\n").toList := by
  rw [Format.listing, String.toList_join, List.flatMap_map]

/-- Two scans share a listing just if the tokens that they found say the same. -/
theorem textListing_eq_iff (source other : String) :
    Format.text.listing (scan source).tokens = Format.text.listing (scan other).tokens ↔
      (scan source).tokens.map Token.content = (scan other).tokens.map Token.content := by
  constructor
  · intro same
    have lists := congrArg String.toList same
    rw [toList_textListing, toList_textListing] at lists
    exact contents_unique (fun _ => found_of_mem_scan) (fun _ => found_of_mem_scan) lists
  · intro same
    -- A line says no more than the content of its token.
    have line : (fun t : Token => t.text ++ "\n") =
        (fun c : Content => c.kind.name ++ " " ++ c.lexeme ++ " " ++
          c.literal?.elim "null" Literal.text ++ "\n") ∘ Token.content := rfl
    rw [Format.listing, Format.listing, line, ← List.map_map, ← List.map_map, same]

/-- Tokens that no scan finds can share a listing. -/
example : Format.text.listing [⟨.identifier, "x null\nIDENTIFIER y", 1⟩] =
    Format.text.listing [⟨.identifier, "x", 1⟩, ⟨.identifier, "y", 1⟩] := by
  decide

end ScriptLexer
