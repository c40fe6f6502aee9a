import ScriptLexer.Proofs.Lexeme

/-! Writing tokens down with blanks between them. A scan reads the same tokens
back unless two of them touch and run together, and then it does not. -/
namespace ScriptLexer

namespace Kind

/-- Two kinds whose lexemes run together when they touch. -/
inductive Glues : Kind → Kind → Prop
  | word {a b : Kind} (first : a.isWord = true) (second : b.isWord = true ∨ b = .number) : Glues a b
  | number : Glues .number .number
  | equals {s t : Symbol} (first : s ∈ [.bang, .equal, .less, .greater])
      (second : t ∈ [.equal, .equalEqual]) : Glues (.symbol s) (.symbol t)
  | slashes : Glues (.symbol .slash) (.symbol .slash)

theorem glues_word {a b : Kind} (word : a.isWord = true) :
    a.Glues b ↔ b.isWord = true ∨ b = .number := by
  constructor
  · intro glues
    cases glues with
    | word _ second => exact second
    | number | equals | slashes => contradiction
  · exact .word word

theorem glues_number {b : Kind} : Glues .number b ↔ b = .number := by
  constructor
  · intro glues
    cases glues with
    | word => contradiction
    | number => rfl
  · rintro rfl
    exact .number

theorem not_glues_string {b : Kind} : ¬Glues .string b := by
  intro glues
  cases glues
  contradiction

theorem glues_symbol {s : Symbol} {b : Kind} :
    Glues (.symbol s) b ↔
      (s ∈ [.bang, .equal, .less, .greater] ∧
        ∃ t ∈ [Symbol.equal, .equalEqual], b = .symbol t) ∨
      (s = .slash ∧ ∃ t ∈ [Symbol.slash], b = .symbol t) := by
  constructor
  · intro glues
    cases glues with
    | word => contradiction
    | equals first second => exact .inl ⟨first, _, second, rfl⟩
    | slashes => exact .inr ⟨rfl, _, List.mem_singleton_self _, rfl⟩
  · rintro (⟨first, t, second, rfl⟩ | ⟨rfl, t, second, rfl⟩)
    · exact .equals first second
    · cases List.mem_singleton.1 second
      exact .slashes

end Kind

/-- A lexeme that is written down, with the blanks behind it. -/
structure Written where
  meaning : Meaning
  text : List Char
  gap : List Char
  lexeme : Lexeme meaning text
  blank : ∀ c ∈ gap, c ∈ [' ', '\t', '\r', '\n']

namespace Written

def kind (w : Written) : Kind := w.meaning.kind

def textOf (items : List Written) : List Char := items.flatMap fun w => w.text ++ w.gap

/-- The tokens that are meant, when some text stands before them. -/
def tokensBehind (before : List Char) : List Written → List Token
  | [] => []
  | w :: rest =>
    ⟨w.meaning, String.ofList w.text, 1 + before.count '\n'⟩ ::
      tokensBehind (before ++ w.text ++ w.gap) rest

/-- The first lexeme runs together with the next, or with a point and a number. -/
inductive GluesFirst : List Written → Prop
  | pair {a b : Written} {rest : List Written} (touch : a.gap = []) (glues : a.kind.Glues b.kind) :
      GluesFirst (a :: b :: rest)
  | fraction {a b c : Written} {rest : List Written} (touch : a.gap = [] ∧ b.gap = [])
      (whole : a.kind = .number ∧ '.' ∉ a.text) (point : b.kind = .symbol .dot)
      (digits : c.kind = .number) : GluesFirst (a :: b :: c :: rest)

def GlueSite (items : List Written) : Prop := ∃ tail, tail <:+ items ∧ GluesFirst tail

end Written

structure Layout where
  lead : List Char
  items : List Written
  blank : ∀ c ∈ lead, c ∈ [' ', '\t', '\r', '\n']

namespace Layout

def text (layout : Layout) : String := String.ofList (layout.lead ++ Written.textOf layout.items)

def tokens (layout : Layout) : List Token := Written.tokensBehind layout.lead layout.items

end Layout

namespace Written

variable (w : Written) (rest : List Written)

theorem textOf_cons : textOf (w :: rest) = w.text ++ (w.gap ++ textOf rest) := by
  rw [textOf, List.flatMap_cons, List.append_assoc]
  rfl

theorem text_ne_nil : w.text ≠ [] := by
  obtain ⟨segment, wellFormed, -, spelled⟩ := lexeme_iff.1 w.lexeme
  exact spelled ▸ wellFormed.text_ne_nil

/-- What is written behind a lexeme starts with a character of some class, if no
blank is of it, just when a lexeme that starts with one touches. -/
theorem head_behind {P : Char → Prop} {Q : Kind → Prop} (noBlank : ∀ c, c.isWhitespace = true → ¬P c)
    (first : ∀ {meaning c tail}, Lexeme meaning (c :: tail) → (P c ↔ Q meaning.kind)) :
    (∃ c ∈ (w.gap ++ textOf rest).head?, P c) ↔ w.gap = [] ∧ ∃ b ∈ rest.head?, Q b.kind := by
  cases gap : w.gap with
  | cons c gap =>
    have refused : ¬P c := noBlank c (isWhitespace_iff.2 (w.blank c (by simp [gap])))
    simp [refused]
  | nil =>
    cases rest with
    | nil => simp [textOf]
    | cons b rest =>
      obtain ⟨c, tail, text⟩ := List.exists_cons_of_ne_nil b.text_ne_nil
      have starts := first (text ▸ b.lexeme)
      rw [textOf_cons, text]
      simpa [kind] using starts

theorem isWordPart_behind :
    (∃ c ∈ (w.gap ++ textOf rest).head?, isWordPart c = true) ↔
      w.gap = [] ∧ ∃ b ∈ rest.head?, b.kind.isWord = true ∨ b.kind = .number :=
  head_behind w rest (P := fun c => isWordPart c = true)
    (Q := fun k => k.isWord = true ∨ k = .number)
    (fun c blank => by simp [isWordPart_of_isWhitespace blank]) Lexeme.isWordPart_first

theorem isDigit_behind :
    (∃ c ∈ (w.gap ++ textOf rest).head?, c.isDigit = true) ↔
      w.gap = [] ∧ ∃ b ∈ rest.head?, b.kind = .number := by
  refine head_behind w rest (P := fun c => c.isDigit = true) (Q := (· = .number)) ?_
    Lexeme.isDigit_first
  intro c blank digit
  have part := isWordPart_of_isDigit digit
  rw [isWordPart_of_isWhitespace blank] at part
  contradiction

theorem symbol_behind {d : Char} {symbols : List Symbol} (notBlank : d.isWhitespace = false)
    (notPart : isWordPart d = false) (notQuote : d ≠ '"')
    (spells : ∀ {c tail} (s : Symbol), s.spelling = c :: tail → (c = d ↔ s ∈ symbols)) :
    (w.gap ++ textOf rest).head? = some d ↔
      w.gap = [] ∧ ∃ b ∈ rest.head?, ∃ s ∈ symbols, b.kind = .symbol s := by
  have behind := head_behind w rest (P := (· = d))
    (Q := fun k => ∃ s ∈ symbols, k = .symbol s)
    (fun c blank same => by simp [← same, blank] at notBlank)
    fun lexeme => lexeme.eq_first_iff notPart notQuote spells
  rw [← behind]
  simp

theorem equal_behind :
    (w.gap ++ textOf rest).head? = some '=' ↔
      w.gap = [] ∧ ∃ b ∈ rest.head?, ∃ s ∈ [Symbol.equal, .equalEqual], b.kind = .symbol s :=
  symbol_behind w rest (by decide) (by decide) (by decide) fun _ => Symbol.equal_spelling

theorem slash_behind :
    (w.gap ++ textOf rest).head? = some '/' ↔
      w.gap = [] ∧ ∃ b ∈ rest.head?, ∃ s ∈ [Symbol.slash], b.kind = .symbol s :=
  symbol_behind w rest (by decide) (by decide) (by decide) fun _ => Symbol.slash_spelling

theorem dot_behind :
    (w.gap ++ textOf rest).head? = some '.' ↔
      w.gap = [] ∧ ∃ b ∈ rest.head?, ∃ s ∈ [Symbol.dot], b.kind = .symbol s :=
  symbol_behind w rest (by decide) (by decide) (by decide) fun _ => Symbol.dot_spelling

theorem text_eq_spelling {s : Symbol} (kind : w.kind = .symbol s) : w.text = s.spelling := by
  obtain ⟨c, tail, text⟩ := List.exists_cons_of_ne_nil w.text_ne_nil
  have starts := (text ▸ w.lexeme).first
  change w.meaning.kind = .symbol s at kind
  rw [kind] at starts
  rw [text, starts]

theorem fraction_behind :
    (∃ d tail, w.gap ++ textOf rest = '.' :: d :: tail ∧ d.isDigit = true) ↔
      w.gap = [] ∧ ∃ b c more, rest = b :: c :: more ∧ b.gap = [] ∧
        b.kind = .symbol .dot ∧ c.kind = .number := by
  constructor
  · rintro ⟨d, tail, written, digit⟩
    obtain ⟨touch, b, first, s, dot, kind⟩ := (dot_behind w rest).1 (by rw [written]; rfl)
    cases List.mem_singleton.1 dot
    obtain ⟨more, rfl⟩ := List.head?_eq_some_iff.1 first
    rw [touch, List.nil_append, textOf_cons, b.text_eq_spelling kind] at written
    have behind : b.gap ++ textOf more = d :: tail := (List.cons.inj written).2
    obtain ⟨touch', c, second, number⟩ := (isDigit_behind b more).1 ⟨d, by simp [behind], digit⟩
    obtain ⟨more, rfl⟩ := List.head?_eq_some_iff.1 second
    exact ⟨touch, b, c, more, rfl, touch', kind, number⟩
  · rintro ⟨touch, b, c, more, rfl, touch', kind, number⟩
    obtain ⟨d, first, digit⟩ := (isDigit_behind b (c :: more)).2 ⟨touch', c, rfl, number⟩
    obtain ⟨tail, behind⟩ := List.head?_eq_some_iff.1 first
    refine ⟨d, tail, ?_, digit⟩
    rw [touch, List.nil_append, textOf_cons, b.text_eq_spelling kind, behind]
    rfl

theorem gluesFirst_iff :
    GluesFirst (w :: rest) ↔
      (w.gap = [] ∧ ∃ b ∈ rest.head?, w.kind.Glues b.kind) ∨
      ((w.kind = .number ∧ '.' ∉ w.text) ∧ w.gap = [] ∧ ∃ b c more, rest = b :: c :: more ∧
        b.gap = [] ∧ b.kind = .symbol .dot ∧ c.kind = .number) := by
  constructor
  · intro glues
    cases glues with
    | pair touch glues => exact .inl ⟨touch, _, rfl, glues⟩
    | fraction touch whole point digits =>
      exact .inr ⟨whole, touch.1, _, _, _, rfl, touch.2, point, digits⟩
  · rintro (⟨touch, b, first, glues⟩ | ⟨whole, touch, b, c, more, rfl, touch', point, digits⟩)
    · obtain ⟨more, rfl⟩ := List.head?_eq_some_iff.1 first
      exact .pair touch glues
    · exact .fraction ⟨touch, touch'⟩ whole point digits

end Written

theorem Numeral.point_not_mem_iff {n : Numeral} (wellFormed : n.WellFormed) :
    '.' ∉ n.text ↔ n.fraction = [] := by
  have whole : '.' ∉ n.whole := by
    intro member
    exact absurd (wellFormed.whole_digits _ member) (by decide)
  rw [text]
  split
  · rename_i empty
    simp [whole, List.isEmpty_iff.1 empty]
  · rename_i nonempty
    simp_all

namespace Written

variable (w : Written) (rest : List Written) {segment : Segment}

/-- A lexeme can end in front of what is written behind it if and only if it does
not run together with that. -/
theorem ends_iff (wellFormed : segment.WellFormed) (means : segment.meaning? = some w.meaning)
    (spelled : segment.text = w.text) :
    segment.Ends (w.gap ++ textOf rest) ↔ ¬GluesFirst (w :: rest) := by
  rw [gluesFirst_iff, ← fraction_behind]
  cases segment with
  | symbol s =>
    have kind : w.kind = .symbol s := congrArg Meaning.kind (Option.some.inj means).symm
    have pair := equal_behind w rest
    have comment := slash_behind w rest
    simp only [kind, Kind.glues_symbol]
    simp only [Segment.Ends, Symbol.Ends, Symbol.withEqual?_isSome_iff, ne_eq, pair, comment]
    grind
  | word letters =>
    have kind : w.kind.isWord = true := by
      have kind := congrArg Meaning.kind (Option.some.inj means).symm
      rw [Written.kind, kind]
      cases Keyword.ofSpelling? (String.ofList letters) <;> rfl
    have notNumber : w.kind ≠ .number := by
      intro number
      rw [number] at kind
      contradiction
    simp only [Kind.glues_word kind, ← isWordPart_behind, notNumber, false_and, or_false,
      Segment.Ends, not_exists, not_and, Bool.not_eq_true]
  | number numeral =>
    have kind : w.kind = .number := congrArg Meaning.kind (Option.some.inj means).symm
    have point : '.' ∉ w.text ↔ numeral.fraction = [] := by
      rw [← spelled]
      exact Numeral.point_not_mem_iff wellFormed
    simp only [kind, Kind.glues_number, ← isDigit_behind, point, true_and,
      Segment.Ends, Numeral.Ends]
    grind
  | string body =>
    have kind : w.kind = .string := congrArg Meaning.kind (Option.some.inj means).symm
    simp [kind, Kind.not_glues_string, Segment.Ends]
  | blank | comment | unexpected | unterminated => contradiction

end Written

/-- If the first token that is found has the text and the line of the first
lexeme, then that lexeme can end where it does. A comment shows by its line. -/
theorem ends_of_tokensFrom {segment : Segment} {meaning : Meaning} {position : Position}
    {rest : List Char} {t : Token} {tokens : List Token} (wellFormed : segment.WellFormed)
    (means : segment.meaning? = some meaning)
    (found : tokensFrom position (segment.text ++ rest) = t :: tokens)
    (lexeme : t.lexeme = String.ofList segment.text) (line : t.line = position.line) :
    segment.Ends rest := by
  have nonempty : segment.text ++ rest ≠ [] := by simp [wellFormed.text_ne_nil]
  obtain ⟨a, left, shape, ends, same⟩ := exists_first_segment nonempty
  cases meansA : a.meaning? with
  | some other =>
    rw [← same, tokensFrom_lexeme position shape ends meansA] at found
    obtain ⟨rfl, -⟩ := List.cons.inj found
    have texts : a.text = segment.text := String.ofList_injective lexeme
    rw [texts, List.append_cancel_left_eq] at same
    have equal := Segment.append_unique shape a.ends_nil wellFormed segment.ends_nil (by rw [texts])
    rw [← equal.1, ← same]
    exact ends
  | none =>
    -- A segment of one character cannot stand where the lexeme starts, and the
    -- token behind a comment is on a later line.
    rw [← same, tokensFrom_silent position shape ends meansA] at found
    have clash (c : Char) (single : a.text = [c]) (free : ∀ more, a.Ends more) : False := by
      obtain ⟨d, more, text⟩ := List.exists_cons_of_ne_nil wellFormed.text_ne_nil
      rw [single, text] at same
      obtain rfl : c = d := (List.cons.inj same).1
      have equal := Segment.append_unique shape (free more) wellFormed segment.ends_nil
        (by rw [single, text, List.append_nil]; rfl)
      rw [← equal.1, meansA] at means
      contradiction
    cases a with
    | blank c => exact (clash c rfl fun _ => trivial).elim
    | unexpected c => exact (clash c rfl fun _ => trivial).elim
    | unterminated body =>
      cases ends
      simp at found
    | comment body =>
      cases left with
      | nil => simp at found
      | cons c left =>
        obtain rfl : c = '\n' := ends c rfl
        have later : t ∈ tokensFrom (position.after (Segment.comment body).text) (['\n'] ++ left) := by
          rw [List.singleton_append, found]
          exact List.mem_cons_self
        rw [tokensFrom_blanks _ (by simp)] at later
        have bound := line_le_of_mem_tokensFrom _ later
        simp only [Position.after, List.count_singleton_self] at bound
        omega
    | symbol | word | number | string => contradiction

namespace Written

theorem glueSite_cons (w : Written) (rest : List Written) :
    GlueSite (w :: rest) ↔ GluesFirst (w :: rest) ∨ GlueSite rest := by
  constructor
  · rintro ⟨tail, suffix, glues⟩
    rcases List.suffix_cons_iff.1 suffix with rfl | inner
    · exact .inl glues
    · exact .inr ⟨tail, inner, glues⟩
  · rintro (glues | ⟨tail, suffix, glues⟩)
    · exact ⟨w :: rest, List.suffix_refl _, glues⟩
    · exact ⟨tail, suffix.trans (List.suffix_cons w rest), glues⟩

theorem found_iff (before : List Char) (items : List Written) :
    tokensFrom (Position.start.after before) (textOf items) = tokensBehind before items ∧
        faultsFrom (Position.start.after before) (textOf items) = [] ↔
      ¬GlueSite items := by
  induction items generalizing before with
  | nil =>
    have clear : ¬GlueSite [] := by
      rintro ⟨tail, suffix, glues⟩
      cases List.suffix_nil.1 suffix
      cases glues
    simp [textOf, tokensBehind, clear]
  | cons w rest ih =>
    obtain ⟨segment, wellFormed, means, spelled⟩ := lexeme_iff.1 w.lexeme
    have ends_iff := w.ends_iff rest wellFormed means spelled
    rw [glueSite_cons, textOf_cons, ← spelled]
    by_cases ends : segment.Ends (w.gap ++ textOf rest)
    · have sound : segment.cause? = none := by
        cases segment <;> first | rfl | contradiction
      have clear : ¬GluesFirst (w :: rest) := ends_iff.1 ends
      rw [tokensFrom_lexeme _ wellFormed ends means, faultsFrom_sound _ wellFormed ends sound,
        tokensFrom_blanks _ w.blank, faultsFrom_blanks _ w.blank, ← Position.after_append,
        ← Position.after_append, spelled, tokensBehind, List.cons.injEq]
      simp only [clear, false_or, ← ih (before ++ w.text ++ w.gap), List.append_assoc]
      simp [Position.after, Position.start]
    · have glues : GluesFirst (w :: rest) := by
        by_contra clear
        exact ends (ends_iff.2 clear)
      simp only [glues, true_or, not_true_eq_false, iff_false, not_and]
      intro found
      exact absurd (ends_of_tokensFrom wellFormed means found (by rw [spelled]) rfl) ends

end Written

/-- A scan reads back just the tokens that were written down, without a fault, if
and only if no two of them touch and run together. -/
theorem scan_layout_iff (layout : Layout) :
    scan layout.text =
        ⟨layout.tokens ++ [.endOfInput (1 + layout.text.toList.count '\n')], []⟩ ↔
      ¬Written.GlueSite layout.items := by
  rw [← Written.found_iff layout.lead, scan_eq, Scanned.mk.injEq, List.append_cancel_right_eq,
    Layout.text, String.toList_ofList, tokensFrom_blanks _ layout.blank,
    faultsFrom_blanks _ layout.blank]
  rfl

/-- A point between two numbers, with a gap in front of it. -/
def Layout.pointed (gap : List Char) (blank : ∀ c ∈ gap, c ∈ [' ', '\t', '\r', '\n']) : Layout where
  lead := []
  items := [
    ⟨_, _, gap, .number (n := ⟨['1'], []⟩) ⟨by simp, by simp, by simp⟩, blank⟩,
    ⟨_, _, [], .symbol .dot, by simp⟩,
    ⟨_, _, [], .number (n := ⟨['2'], []⟩) ⟨by simp, by simp, by simp⟩, by simp⟩]
  blank := by simp

/-- The point runs together with the numbers if and only if it touches both. -/
theorem Layout.glueSite_pointed_iff {gap : List Char}
    {blank : ∀ c ∈ gap, c ∈ [' ', '\t', '\r', '\n']} :
    Written.GlueSite (pointed gap blank).items ↔ gap = [] := by
  constructor
  · intro site
    rcases (Written.glueSite_cons _ _).1 site with glues | site
    · cases glues with
      | pair touch => exact touch
      | fraction touch => exact touch.1
    rcases (Written.glueSite_cons _ _).1 site with glues | site
    · cases glues with
      | pair _ glues => simpa using Kind.glues_symbol.1 glues
    obtain ⟨tail, suffix, glues⟩ := site
    have short := suffix.length_le
    cases glues <;> simp at short
  · rintro rfl
    exact ⟨_, List.suffix_refl _, .fraction ⟨rfl, rfl⟩ ⟨rfl, by simp [Numeral.text]⟩ rfl rfl⟩

theorem scan_layout_pointed :
    (¬Written.GlueSite (Layout.pointed [' '] (by simp)).items ∧
        scan (Layout.pointed [' '] (by simp)).text =
          ⟨(Layout.pointed [' '] (by simp)).tokens ++
            [.endOfInput (1 + (Layout.pointed [' '] (by simp)).text.toList.count '\n')], []⟩) ∧
      Written.GlueSite (Layout.pointed [] (by simp)).items ∧
        scan (Layout.pointed [] (by simp)).text ≠
          ⟨(Layout.pointed [] (by simp)).tokens ++
            [.endOfInput (1 + (Layout.pointed [] (by simp)).text.toList.count '\n')], []⟩ := by
  have apart : ¬Written.GlueSite (Layout.pointed [' '] (by simp)).items := by
    simp [Layout.glueSite_pointed_iff]
  have glued : Written.GlueSite (Layout.pointed [] (by simp)).items :=
    Layout.glueSite_pointed_iff.2 rfl
  have same := (scan_layout_iff _).2 apart
  have different := mt (scan_layout_iff _).1 (not_not_intro glued)
  exact ⟨⟨apart, same⟩, glued, different⟩

end ScriptLexer
