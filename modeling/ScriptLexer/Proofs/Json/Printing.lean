import ScriptLexer.Proofs.Json.Grammar
import ScriptLexer.Proofs.Json.Numeral

/-! Printed documents. What is printed is read back as what the document says,
whatever its strings hold and however deep it is nested. -/
namespace ScriptLexer.Json

theorem sizeOf_item_lt {item : Json} {items : List Json} (member : item ∈ items) :
    sizeOf item < sizeOf (list items) := by
  have smaller := List.sizeOf_lt_of_mem member
  simp only [list.sizeOf_spec]
  omega

theorem sizeOf_field_lt {field : String × Json} {fields : List (String × Json)}
    (member : field ∈ fields) : sizeOf field.2 < sizeOf (record fields) := by
  have smaller := List.sizeOf_lt_of_mem member
  cases field
  simp only [record.sizeOf_spec, Prod.mk.sizeOf_spec] at smaller ⊢
  omega

/-- What a document says, numbers as their printed digits tell them. -/
def meaning : Json → Value
  | null => .null
  | natural value => .number value
  | real value => .number value.printed
  | string value => .string value
  | list items => .array (items.map fun item => item.meaning)
  | record fields => .object (fields.map fun field => (field.1, field.2.meaning))
termination_by document => sizeOf document
decreasing_by
  · rename_i member
    exact sizeOf_item_lt member
  · rename_i member
    exact sizeOf_field_lt member

theorem codeUnit?_of_lt {n : Nat} (control : n < 32) :
    codeUnit? ['0', '0', Nat.digitChar (n / 16), Nat.digitChar (n % 16)] = some n := by
  revert n
  decide

/-- An escaped character is read as itself, by its name, its code unit or as it is. -/
theorem characters_escape (c : Char) {text chars rest : List Char}
    (more : Characters text chars rest) : Characters (escape c ++ text) (c :: chars) rest := by
  unfold escape
  split
  case h_8 notQuote notBackslash _ _ _ _ _ =>
    by_cases control : c.toNat < 32
    · rw [if_pos control]
      have notHigh : ¬isHigh c.toNat := by
        rw [isHigh]
        omega
      have notLow : ¬isLow c.toNat := by
        rw [isLow]
        omega
      have known := Characters.unit (codeUnit?_of_lt control) notHigh notLow more
      rwa [Char.ofNat_toNat] at known
    · rw [if_neg control]
      exact .plain notQuote notBackslash (Nat.le_of_not_lt control) more
  all_goals exact .named rfl more

theorem characters_flatMap_escape (chars rest : List Char) :
    Characters (chars.flatMap escape ++ '"' :: rest) chars rest := by
  induction chars with
  | nil => exact .closed
  | cons c chars ih =>
    rw [List.flatMap_cons, List.append_assoc]
    exact characters_escape c ih

theorem quote_append (text : String) (rest : List Char) :
    quote text ++ rest = '"' :: (text.toList.flatMap escape ++ '"' :: rest) := by
  simp [quote]

theorem blanks_newLine (level : Nat) (rest : List Char) : Blanks (newLine level ++ rest) rest := by
  refine ⟨newLine level, ?_, rfl⟩
  intro c member
  rcases List.mem_cons.1 member with rfl | space
  · rfl
  · rw [List.eq_of_mem_replicate space]
    rfl

theorem blanks_refl (rest : List Char) : Blanks rest rest := ⟨[], by simp, rfl⟩

section Members

variable {α β : Type} {Member : β → List Char → List Char → Prop} (level : Nat) (closing : Char)
  (said : α → β) {printed : α → List Char}

/-- The first line has no comma in front, each other one has. -/
theorem members_lines {first : α} {more : List α}
    (reads : ∀ item ∈ first :: more, ∀ rest, Member (said item) (printed item ++ rest) rest)
    (rest : List Char) :
    Members Member closing ((first :: more).map said)
      (newLine (level + 1) ++ (printed first ++
        ((more.map printed).flatMap (fun member => ',' :: (newLine (level + 1) ++ member)) ++
          (newLine level ++ closing :: rest)))) rest := by
  induction more generalizing first with
  | nil =>
    exact .last (blanks_newLine _ _) (reads first List.mem_cons_self _) (blanks_newLine _ _)
  | cons second more ih =>
    have others := ih fun item member => reads item (List.mem_cons_of_mem _ member)
    have line := reads first List.mem_cons_self
    simp only [List.map_cons, List.flatMap_cons, List.cons_append, List.append_assoc] at others ⊢
    exact .cons (blanks_newLine _ _) (line _) (blanks_refl _) others

/-- The lines of a block are its members, in their order. -/
theorem members_block {items : List α}
    (reads : ∀ item ∈ items, ∀ rest, Member (said item) (printed item ++ rest) rest)
    (opening : Char) (rest : List Char) :
    ∃ text, block level opening closing (items.map printed) ++ rest = opening :: text ∧
      Members Member closing (items.map said) text rest := by
  cases items with
  | nil => exact ⟨closing :: rest, rfl, .empty (blanks_refl _)⟩
  | cons first more =>
    refine ⟨_, ?_, members_lines level closing said reads rest⟩
    simp [block]

end Members

theorem reads_field (name : String) {value : Value} {printed : List Char}
    (reads : ∀ rest, Reads value (printed ++ rest) rest) (rest : List Char) :
    Field Reads (name, value) (quote name ++ ':' :: ' ' :: printed ++ rest) rest := by
  have chars := characters_flatMap_escape name.toList (':' :: ' ' :: (printed ++ rest))
  have space : Blanks (' ' :: (printed ++ rest)) (printed ++ rest) := ⟨[' '], by simp, rfl⟩
  have field := Field.mk chars (blanks_refl _) space (reads rest)
  rw [String.ofList_toList, ← quote_append] at field
  rwa [List.append_assoc]

/-- A printed document is read in front of every text, at every level. The recursion
is the one of printing. -/
theorem reads_print (document : Json) (level : Nat) (rest : List Char) :
    Reads document.meaning (document.print level ++ rest) rest := by
  match document with
  | null =>
    rw [meaning, print]
    exact .null
  | natural value =>
    rw [meaning, print]
    exact .number (.positive (unsigned_toDigits value)) rfl
  | real value =>
    rw [meaning, print]
    exact .number (number_numeral value) rfl
  | string value =>
    rw [meaning, print, quote_append]
    have chars := characters_flatMap_escape value.toList rest
    simpa using Reads.string chars
  | list items =>
    rw [meaning, print]
    obtain ⟨text, same, members⟩ := members_block level ']' (fun item => item.meaning)
      (fun item member => reads_print item (level + 1)) '[' rest
    rw [same]
    exact .array members
  | record fields =>
    rw [meaning, print]
    obtain ⟨text, same, members⟩ := members_block level '}'
      (fun field : String × Json => (field.1, field.2.meaning))
      (fun field member => reads_field field.1 (reads_print field.2 (level + 1))) '{' rest
    rw [same]
    exact .object members
termination_by sizeOf document
decreasing_by
  · exact sizeOf_item_lt member
  · exact sizeOf_field_lt member

/-- A printed document is one document and no other, with a line end behind it. -/
theorem document_text_iff (document : Json) (value : Value) :
    Document (document.text ++ "\n").toList value ↔ value = document.meaning := by
  have printed : Document (document.text ++ "\n").toList document.meaning := by
    rw [text, String.toList_append, String.toList_ofList]
    exact ⟨_, _, blanks_refl _, reads_print document 0 _, ['\n'], by simp, rfl⟩
  constructor
  · intro other
    exact other.unique printed
  · rintro rfl
    exact printed

end ScriptLexer.Json
