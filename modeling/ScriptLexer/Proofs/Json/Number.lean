import ScriptLexer.Proofs.Boundary
import Mathlib.Algebra.Field.Rat

/-! The numbers of JSON texts: which texts are numbers, and what number each is.
A number in front of a text that does not continue it is read in one way. -/
namespace ScriptLexer.Json

/-- One or more digits. -/
structure Digits (run : List Char) : Prop where
  ne_nil : run ≠ []
  digit : ∀ c ∈ run, c.isDigit = true

/-- The sign of an exponent. -/
inductive Sign : List Char → ℤ → Prop
  | absent : Sign [] 1
  | plus : Sign ['+'] 1
  | minus : Sign ['-'] (-1)

/-- An exponent, with the power of ten that it stands for. -/
inductive Power : List Char → ℤ → Prop
  | absent : Power [] 0
  | present {mark : Char} {sign run : List Char} {s : ℤ} (known : mark ∈ ['e', 'E'])
      (signed : Sign sign s) (digits : Digits run) :
      Power (mark :: (sign ++ run)) (s * Nat.ofDigitChars 10 run 0)

inductive Fraction : List Char → ℚ → Prop
  | absent : Fraction [] 0
  | present {run : List Char} (digits : Digits run) :
      Fraction ('.' :: run) (Nat.ofDigitChars 10 run 0 / 10 ^ run.length)

/-- A number without a minus sign. The whole part is `0` or starts with another digit. -/
inductive Unsigned : List Char → ℚ → Prop
  | mk {whole fraction power : List Char} {f : ℚ} {p : ℤ} (digits : Digits whole)
      (unpadded : whole = ['0'] ∨ whole.head? ≠ some '0') (fractional : Fraction fraction f)
      (powered : Power power p) :
      Unsigned (whole ++ (fraction ++ power)) ((Nat.ofDigitChars 10 whole 0 + f) * 10 ^ p)

inductive Number : List Char → ℚ → Prop
  | positive {text : List Char} {q : ℚ} (unsigned : Unsigned text q) : Number text q
  | negative {text : List Char} {q : ℚ} (unsigned : Unsigned text q) : Number ('-' :: text) (-q)

/-- Whether a character in the middle of a number may be part of it. -/
def continuesNumber (c : Char) : Bool := c.isDigit || ['.', 'e', 'E'].contains c

/-- A number ends in front of a text that does not continue it. -/
def Stops (rest : List Char) : Prop := ∀ c ∈ rest.head?, continuesNumber c = false

section Unique

variable {a b rest left : List Char}

theorem Digits.head_append (digits : Digits a) : ∀ c ∈ (a ++ rest).head?, c.isDigit = true := by
  obtain ⟨c, tail, rfl⟩ := List.exists_cons_of_ne_nil digits.ne_nil
  intro d found
  obtain rfl : c = d := Option.some.inj found
  exact digits.digit c List.mem_cons_self

theorem Stops.not_digit (stops : Stops rest) : ∀ c ∈ rest.head?, c.isDigit = false := by
  intro c found
  have ended := stops c found
  rw [continuesNumber, Bool.or_eq_false_iff] at ended
  exact ended.1

theorem Sign.unique {s t : ℤ} {run other : List Char} (first : Sign a s) (second : Sign b t)
    (digits : Digits run) (others : Digits other)
    (same : a ++ (run ++ rest) = b ++ (other ++ left)) : s = t ∧ run ++ rest = other ++ left := by
  have noDigit {sign : List Char} {s : ℤ} (signed : Sign sign s) : ∀ c ∈ sign, (!c.isDigit) = true := by
    cases signed <;> simp
  obtain ⟨rfl, tails⟩ := runs_unique (noDigit first) (noDigit second) same
    (by simpa using digits.head_append) (by simpa using others.head_append)
  refine ⟨?_, tails⟩
  cases first <;> cases second <;> rfl

/-- An exponent is left out just if what is there does not continue a number. -/
theorem Power.eq_nil_iff {p : ℤ} (power : Power a p) (stop : Stops rest) :
    a = [] ↔ Stops (a ++ rest) := by
  cases power with
  | absent => simpa using stop
  | @present mark sign run s known signed digits =>
    constructor
    · simp
    · intro ends
      have ended := ends mark rfl
      simp only [List.mem_cons, List.not_mem_nil, or_false] at known
      rcases known with rfl | rfl <;> contradiction

theorem Power.unique {p q : ℤ} (first : Power a p) (second : Power b q)
    (same : a ++ rest = b ++ left) (stop : Stops rest) (ends : Stops left) :
    p = q ∧ rest = left := by
  have absence : a = [] ↔ b = [] := by
    rw [first.eq_nil_iff stop, second.eq_nil_iff ends, same]
  cases first with
  | absent =>
    cases second with
    | absent => exact ⟨rfl, same⟩
    | present => simp at absence
  | present known signed digits =>
    cases second with
    | absent => simp at absence
    | present _ signs others =>
      simp only [List.cons_append, List.append_assoc, List.cons.injEq] at same
      obtain ⟨rfl, same⟩ := signed.unique signs digits others same.2
      obtain ⟨rfl, rfl⟩ :=
        runs_unique digits.digit others.digit same stop.not_digit ends.not_digit
      exact ⟨rfl, rfl⟩

/-- Behind the digits of a number comes no digit, and behind a fraction no point. -/
theorem Power.head_append {p : ℤ} (power : Power a p) (stop : Stops rest) :
    ∀ c ∈ (a ++ rest).head?, c.isDigit = false ∧ c ≠ '.' := by
  cases power with
  | absent =>
    intro c found
    refine ⟨stop.not_digit c found, ?_⟩
    rintro rfl
    have ended := stop _ found
    contradiction
  | present known signed digits =>
    intro c found
    obtain rfl : _ = c := Option.some.inj found
    simp only [List.mem_cons, List.not_mem_nil, or_false] at known
    rcases known with rfl | rfl <;> decide

theorem Fraction.head_append {f : ℚ} (fraction : Fraction a f)
    (stop : ∀ c ∈ rest.head?, c.isDigit = false) :
    ∀ c ∈ (a ++ rest).head?, c.isDigit = false := by
  cases fraction with
  | absent => exact stop
  | present digits =>
    intro c found
    obtain rfl : _ = c := Option.some.inj found
    rfl

theorem Fraction.unique {f g : ℚ} (first : Fraction a f) (second : Fraction b g)
    (same : a ++ rest = b ++ left) (stop : ∀ c ∈ rest.head?, c.isDigit = false ∧ c ≠ '.')
    (ends : ∀ c ∈ left.head?, c.isDigit = false ∧ c ≠ '.') : f = g ∧ rest = left := by
  cases first with
  | absent =>
    cases second with
    | absent => exact ⟨rfl, same⟩
    | present =>
      subst same
      exact absurd rfl (stop _ rfl).2
  | present digits =>
    cases second with
    | absent =>
      subst same
      exact absurd rfl (ends _ rfl).2
    | present others =>
      obtain ⟨rfl, rfl⟩ := runs_unique digits.digit others.digit (List.cons.inj same).2
        (fun c found => (stop c found).1) (fun c found => (ends c found).1)
      exact ⟨rfl, rfl⟩

theorem Unsigned.unique {q r : ℚ} (first : Unsigned a q) (second : Unsigned b r)
    (same : a ++ rest = b ++ left) (stop : Stops rest) (ends : Stops left) :
    q = r ∧ rest = left := by
  cases first with
  | mk digits _ fractional powered =>
    cases second with
    | mk others _ fractional' powered' =>
      have behind := powered.head_append stop
      have behind' := powered'.head_append ends
      simp only [List.append_assoc] at same
      obtain ⟨rfl, parts⟩ := runs_unique digits.digit others.digit same
        (fractional.head_append fun c found => (behind c found).1)
        (fractional'.head_append fun c found => (behind' c found).1)
      obtain ⟨rfl, powers⟩ := fractional.unique fractional' parts behind behind'
      obtain ⟨rfl, rfl⟩ := powered.unique powered' powers stop ends
      exact ⟨rfl, rfl⟩

theorem Unsigned.head_append {q : ℚ} (unsigned : Unsigned a q) (rest : List Char) :
    ∀ c ∈ (a ++ rest).head?, c.isDigit = true := by
  cases unsigned with
  | mk digits =>
    rw [List.append_assoc]
    exact digits.head_append

theorem Number.unique {q r : ℚ} (first : Number a q) (second : Number b r)
    (same : a ++ rest = b ++ left) (stop : Stops rest) (ends : Stops left) :
    q = r ∧ rest = left := by
  have minus : '-'.isDigit = false := rfl
  cases first with
  | positive unsigned =>
    cases second with
    | positive other => exact unsigned.unique other same stop ends
    | negative other =>
      have digit := unsigned.head_append rest '-' (by rw [same]; rfl)
      contradiction
  | negative unsigned =>
    cases second with
    | positive other =>
      have digit := other.head_append left '-' (by rw [← same]; rfl)
      contradiction
    | negative other =>
      obtain ⟨rfl, rfl⟩ := unsigned.unique other (List.cons.inj same).2 stop ends
      exact ⟨rfl, rfl⟩

theorem Number.head_append {digits : List Char} {q : ℚ} {c : Char} {tail : List Char}
    (number : Number digits q) (same : digits ++ rest = c :: tail) : c = '-' ∨ c.isDigit = true := by
  cases number with
  | positive unsigned => exact .inr (unsigned.head_append rest c (by rw [same]; rfl))
  | negative unsigned => exact .inl (List.cons.inj same).1.symm

/-- A text that starts as no number does is read as none. -/
theorem Number.not_literal {digits : List Char} {q : ℚ} {c : Char} {tail : List Char}
    (number : Number digits q) (same : digits ++ rest = c :: tail)
    (other : (c == '-' || c.isDigit) = false) : False := by
  rcases number.head_append same with rfl | digit
  · contradiction
  · simp [digit] at other

theorem Number.ne_nil {digits : List Char} {q : ℚ} (number : Number digits q) : digits ≠ [] := by
  cases number with
  | positive unsigned =>
    cases unsigned with
    | mk digits => simp [digits.ne_nil]
  | negative unsigned => simp

end Unique

end ScriptLexer.Json
