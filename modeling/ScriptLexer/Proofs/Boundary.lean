import ScriptLexer.Segment
import Mathlib.Data.List.TakeWhile

/-! Where lexemes can end. Symbols and numerals have a shape, and the text behind
one either lets it end or would make a longer one of it. -/
namespace ScriptLexer

theorem isWhitespace_iff {c : Char} : c.isWhitespace = true ↔ c ∈ [' ', '\t', '\r', '\n'] := by
  simp [Char.isWhitespace, or_assoc]

theorem isWordPart_of_isWhitespace {c : Char} (blank : c.isWhitespace = true) :
    isWordPart c = false := by
  simp only [isWhitespace_iff, List.mem_cons, List.not_mem_nil, or_false] at blank
  rcases blank with rfl | rfl | rfl | rfl <;> decide

theorem isDigit_of_isWhitespace {c : Char} (blank : c.isWhitespace = true) : c.isDigit = false := by
  have notPart := isWordPart_of_isWhitespace blank
  rw [isWordPart, Bool.or_eq_false_iff] at notPart
  exact notPart.2

theorem isWordStart_of_isDigit {c : Char} (digit : c.isDigit = true) : isWordStart c = false := by
  have upper : 'A'.toNat = 65 := rfl
  have lower : 'a'.toNat = 97 := rfl
  have nine : '9'.toNat = 57 := rfl
  have bounds := Char.isDigit_iff_toNat.1 digit
  by_contra start
  rw [Bool.not_eq_false] at start
  simp only [isWordStart, Bool.or_eq_true, beq_iff_eq] at start
  rcases start with letter | rfl
  · change ((decide ('A'.toNat ≤ c.toNat ∧ c.toNat ≤ 'Z'.toNat)) ||
      (decide ('a'.toNat ≤ c.toNat) && decide (c.toNat ≤ 'z'.toNat))) = true at letter
    simp only [Bool.or_eq_true, Bool.and_eq_true, decide_eq_true_eq] at letter
    omega
  · contradiction

/-- A character that starts no segment but one of its own. -/
def isStray (c : Char) : Bool :=
  !c.isWhitespace && c != '"' && !isWordPart c && (Symbol.ofChar? c).isNone

section Runs

variable {p : Char → Bool} {run rest : List Char}

/-- A run of a character class is taken up to the first character outside it. -/
theorem takeWhile_run (inside : ∀ c ∈ run, p c = true) (stop : ∀ c ∈ rest.head?, p c = false) :
    (run ++ rest).takeWhile p = run := by
  rw [List.takeWhile_append_of_pos inside]
  cases rest with
  | nil => simp
  | cons c rest => simp [stop c rfl]

theorem dropWhile_run (inside : ∀ c ∈ run, p c = true) (stop : ∀ c ∈ rest.head?, p c = false) :
    (run ++ rest).dropWhile p = rest := by
  rw [List.dropWhile_append_of_pos inside]
  cases rest with
  | nil => rfl
  | cons c rest => simp [stop c rfl]

theorem head?_dropWhile_false (source : List Char) :
    ∀ c ∈ (source.dropWhile p).head?, p c = false := by
  intro c found
  have refused := List.head?_dropWhile_not p source
  rw [Option.mem_def] at found
  simpa [found] using refused

theorem not_mem_takeWhile_ne (stop : Char) (source : List Char) :
    stop ∉ source.takeWhile (· != stop) := by
  intro member
  simpa using List.mem_takeWhile_imp member

theorem forall_ne_of_not_mem {stop : Char} (absent : stop ∉ run) :
    ∀ c ∈ run, (c != stop) = true := by
  intro c member
  have different : c ≠ stop := by
    rintro rfl
    exact absent member
  simpa using different

/-- Two runs of a class that are followed from outside it end in the same place. -/
theorem runs_unique {other left : List Char} (inside : ∀ c ∈ run, p c = true)
    (within : ∀ c ∈ other, p c = true) (same : run ++ rest = other ++ left)
    (stop : ∀ c ∈ rest.head?, p c = false) (ends : ∀ c ∈ left.head?, p c = false) :
    run = other ∧ rest = left := by
  have taken := takeWhile_run inside stop
  have dropped := dropWhile_run inside stop
  rw [same, takeWhile_run within ends] at taken
  rw [same, dropWhile_run within ends] at dropped
  exact ⟨taken.symm, dropped.symm⟩

/-- Two texts without a character end in front of it in the same place. -/
theorem before_unique {other left : List Char} {stop : Char} (absent : stop ∉ run)
    (missing : stop ∉ other) (same : run ++ stop :: rest = other ++ stop :: left) :
    run = other ∧ rest = left := by
  obtain ⟨runs, tails⟩ := runs_unique (forall_ne_of_not_mem absent) (forall_ne_of_not_mem missing)
    same (by simp) (by simp)
  exact ⟨runs, (List.cons.inj tails).2⟩

end Runs

namespace Symbol

theorem ofChar?_class {c : Char} {s : Symbol} (found : ofChar? c = some s) :
    c.isWhitespace = false ∧ c ≠ '"' ∧ isWordPart c = false := by
  unfold ofChar? at found
  split at found <;> first | contradiction | decide

theorem isNone_ofChar? (c : Char) :
    (ofChar? c).isNone =
      !(['(', ')', '{', '}', ',', '.', '-', '+', ';', '*', '/', '!', '=', '<', '>'].contains c) := by
  unfold ofChar?
  split <;> simp_all

/-- A symbol is spelled by one character, or by one with an equals sign. -/
theorem spelling_cases (s : Symbol) :
    (∃ c, s.spelling = [c] ∧ ofChar? c = some s) ∨
      ∃ c base, s.spelling = [c, '='] ∧ ofChar? c = some base ∧ base.withEqual? = some s := by
  cases s
  case bangEqual => exact .inr ⟨'!', bang, rfl, rfl, rfl⟩
  case equalEqual => exact .inr ⟨'=', equal, rfl, rfl, rfl⟩
  case greaterEqual => exact .inr ⟨'>', greater, rfl, rfl, rfl⟩
  case lessEqual => exact .inr ⟨'<', less, rfl, rfl, rfl⟩
  all_goals exact .inl ⟨_, rfl, rfl⟩

/-- A symbol can end where no equals sign makes a longer one of it and no second
slash makes a comment. -/
def Ends (s : Symbol) (rest : List Char) : Prop :=
  (s.withEqual?.isSome → rest.head? ≠ some '=') ∧ (s = slash → rest.head? ≠ some '/')

theorem extend_of_ends {s : Symbol} {rest : List Char} (ends : s.Ends rest) :
    s.extend rest = (s, rest) := by
  fun_cases extend s rest with
  | case1 => rfl
  | case2 rest wide found =>
    exact absurd rfl (ends.1 (by simp [found]))
  | case3 => rfl
  | case4 => rfl

theorem withEqual?_wide {base wide : Symbol} (found : base.withEqual? = some wide) :
    wide.withEqual? = none ∧ wide ≠ slash := by
  cases base <;> simp only [withEqual?, reduceCtorEq, Option.some.injEq] at found <;>
    subst found <;> decide

theorem extend_ends {s : Symbol} {rest : List Char} (notComment : s = slash → rest.head? ≠ some '/') :
    (s.extend rest).1.Ends (s.extend rest).2 := by
  fun_cases extend s rest with
  | case1 => exact ⟨by simp, by simp⟩
  | case2 rest wide found =>
    obtain ⟨narrow, notSlash⟩ := withEqual?_wide found
    constructor
    · simp [narrow]
    · intro same
      exact absurd same notSlash
  | case3 c rest wide found other => exact ⟨by simp [other], notComment⟩
  | case4 c rest narrow => exact ⟨by simp [narrow], notComment⟩

end Symbol

namespace Numeral

/-- A numeral has digits, and nothing else but its point. -/
structure WellFormed (n : Numeral) : Prop where
  whole_ne_nil : n.whole ≠ []
  whole_digits : ∀ c ∈ n.whole, c.isDigit = true
  fraction_digits : ∀ c ∈ n.fraction, c.isDigit = true

theorem mem_text {n : Numeral} (wellFormed : n.WellFormed) {c : Char} (member : c ∈ n.text) :
    c.isDigit = true ∨ c = '.' := by
  have whole := wellFormed.whole_digits c
  have fraction := wellFormed.fraction_digits c
  rw [text] at member
  split at member
  · exact .inl (whole member)
  · rcases List.mem_append.1 member with inside | inside
    · exact .inl (whole inside)
    · rcases List.mem_cons.1 inside with point | inside
      · exact .inr point
      · exact .inl (fraction inside)

/-- A numeral can end where no digit follows, nor a point and a digit that would
make a first fraction. -/
def Ends (n : Numeral) (rest : List Char) : Prop :=
  (∀ c ∈ rest.head?, c.isDigit = false) ∧
    (n.fraction = [] → ∀ c tail, rest = '.' :: c :: tail → c.isDigit = false)

theorem next_append {n : Numeral} {rest : List Char} (wellFormed : n.WellFormed)
    (ends : n.Ends rest) : next (n.text ++ rest) = (n, rest) := by
  obtain ⟨whole, fraction⟩ := n
  obtain ⟨-, wholeDigits, fractionDigits⟩ := wellFormed
  obtain ⟨noDigit, noFraction⟩ := ends
  by_cases empty : fraction = []
  · subst empty
    have taken := takeWhile_run wholeDigits noDigit
    have dropped := dropWhile_run wholeDigits noDigit
    simp only [next, text, List.isEmpty_nil, if_true, taken, dropped]
    rcases rest with _ | ⟨c, _ | ⟨d, tail⟩⟩
    · rfl
    · simp
    · by_cases point : c = '.'
      · have refused := noFraction rfl d tail (by rw [point])
        simp [refused]
      · simp [point]
  · have point : ∀ c ∈ ('.' :: (fraction ++ rest)).head?, c.isDigit = false := by simp
    have taken := takeWhile_run wholeDigits point
    have dropped := dropWhile_run wholeDigits point
    have fractionTaken := takeWhile_run fractionDigits noDigit
    have fractionDropped := dropWhile_run fractionDigits noDigit
    simp only [next, text, List.isEmpty_iff, empty, if_false, List.append_assoc, List.cons_append,
      taken, dropped]
    simp [fractionTaken, fractionDropped, empty]

theorem next_wellFormed {first : Char} {rest : List Char} (digit : first.isDigit = true) :
    (next (first :: rest)).1.WellFormed where
  whole_ne_nil := by simp [next_whole, digit]
  whole_digits := by
    rw [next_whole]
    intro c member
    exact List.mem_takeWhile_imp member
  fraction_digits := by
    fun_cases next (first :: rest) with
    | case1 => simp
    | case2 =>
      intro c member
      exact List.mem_takeWhile_imp member
    | case3 => simp

theorem next_ends (source : List Char) : (next source).1.Ends (next source).2 := by
  have stop := head?_dropWhile_false (p := Char.isDigit) source
  fun_cases next source with
  | case1 => exact ⟨by simp, by simp⟩
  | case2 whole c rest found fraction =>
    refine ⟨head?_dropWhile_false rest, ?_⟩
    intro none
    exact absurd none fraction.2
  | case3 whole c rest found other =>
    refine ⟨found ▸ stop, ?_⟩
    intro _ d tail same
    obtain ⟨rfl, rfl⟩ := List.cons.inj same
    by_contra digit
    exact other ⟨rfl, by simp [digit]⟩

end Numeral
end ScriptLexer
