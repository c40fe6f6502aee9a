import ScriptLexer.Proofs.Cursor.Agreement

/-! A cursor asks for a token by its kind only where the kind has a meaning of its own. So
it may fail out of bounds, but never for want of a literal, whatever the source. -/
namespace ScriptLexer
namespace Cursor

/-- Asks for no string or number by its kind. -/
def Phase.Plain : Phase → Prop
  | .token kind => (Meaning.ofKind? kind).isSome = true
  | _ => True

/-- A result or a failure that is no missing literal. -/
def Sound {α : Type} (holds : α → Prop) : Except Failure α → Prop
  | .ok a => holds a
  | .error e => ∀ missing, e ≠ .missingLiteral missing

theorem Sound.bind {α β : Type} {first : α → Prop} {second : β → Prop} {action : Except Failure α}
    {next : α → Except Failure β} (sound : Sound first action)
    (continues : ∀ a, first a → Sound second (next a)) : Sound second (action >>= next) := by
  cases action with
  | ok a => exact continues a sound
  | error e => exact sound

theorem sound_increment (n : Nat) : Sound (fun _ => True) (increment n) := by
  unfold increment
  split
  · trivial
  · exact nofun

section Source

variable (source : List Char) {p : Cursor}

theorem sound_slice (first last : Nat) : Sound (fun _ => True) (slice source first last) := by
  unfold slice
  split
  · trivial
  · exact nofun

theorem sound_lexeme (p : Cursor) : Sound (fun _ => True) (p.lexeme source) := by
  unfold lexeme
  split
  · exact sound_slice source _ _
  · exact nofun

theorem sound_body (p : Cursor) : Sound (fun _ => True) (p.body source) :=
  (sound_increment p.start).bind fun _ _ => sound_slice source _ _

/-- An action that leads to a plain phase, if it does not fail. -/
abbrev Plainly (action : Except Failure Cursor) : Prop := Sound (·.phase.Plain) action

theorem plainly_newLine {next : Phase} (plain : next.Plain) : Plainly (p.newLine next) :=
  (sound_increment p.line).bind fun _ _ => plain

theorem plainly_advance {next : Char → Phase} (plain : ∀ c, (next c).Plain) :
    Plainly (p.advance source next) := by
  unfold advance
  split
  · exact (sound_increment p.current).bind fun _ _ => plain _
  · exact nofun

theorem plainly_accept {expected : Char} {yes no : Phase} (taken : yes.Plain) (left : no.Plain) :
    Plainly (p.accept source expected yes no) := by
  unfold accept
  split
  · exact plainly_advance source fun _ => taken
  · exact left

theorem plainly_skip {inside : Char → Bool} {leave : Except Failure Cursor}
    (plain : p.phase.Plain) (leaves : Plainly leave) : Plainly (p.skip source inside leave) := by
  unfold skip
  split
  · exact plainly_advance source fun _ => plain
  · exact leaves

theorem plainly_extend (s : Symbol) : Plainly (p.extend source s) := by
  unfold extend
  split
  · exact plainly_accept source trivial rfl
  split
  · exact plainly_accept source rfl rfl
  · rfl

theorem plainly_choose (c : Char) : Plainly (p.choose source c) := by
  unfold choose
  split
  · exact plainly_newLine trivial
  iterate 4
    split
    · trivial
  split
  · trivial
  · exact plainly_extend source _

theorem plainly_quoted : Plainly (p.quoted source) := by
  unfold quoted
  split
  · trivial
  · split
    · trivial
    split
    · exact plainly_newLine trivial
    · trivial

theorem plainly_point : Plainly (p.point source) := by
  unfold point
  split
  · refine (sound_increment p.current).bind fun next _ => ?_
    split
    · exact plainly_advance source fun _ => trivial
    · trivial
  · trivial

/-- From a plain phase a step leads to a plain phase, and does not miss a literal. -/
theorem plainly_step (plain : p.phase.Plain) : Plainly (p.step source) := by
  obtain ⟨phase, start, current, startLine, line, tokens, faults⟩ := p
  cases phase with
  | head => exact iteInduction (motive := Plainly) (fun _ => trivial) fun _ => trivial
  | mark | done => trivial
  | first => exact plainly_advance source fun _ => trivial
  | choose c => exact plainly_choose source c
  | comment | fraction | word => exact plainly_skip source trivial trivial
  | string => exact plainly_quoted source
  | stringBody => exact plainly_advance source fun _ => trivial
  | stringEnd =>
    exact iteInduction (motive := Plainly) (fun _ => plainly_advance source fun _ => trivial)
      fun _ => trivial
  | stringToken =>
    refine (sound_body source _).bind fun value _ => ?_
    refine (sound_lexeme source _).bind fun lexeme _ => ?_
    trivial
  | whole => exact plainly_skip source trivial (plainly_point source)
  | numberToken => exact (sound_lexeme source _).bind fun _ _ => trivial
  | wordToken =>
    refine (sound_lexeme source _).bind fun lexeme _ => ?_
    change Option.isSome _ = true
    cases Keyword.ofSpelling? lexeme <;> rfl
  | token kind =>
    obtain ⟨meaning, means⟩ := Option.isSome_iff_exists.1 plain
    refine (sound_lexeme source _).bind fun lexeme _ => ?_
    simp only [Token.plain, means]
    trivial

/-- Every point that is reached is in a plain phase, so no literal is missed there. -/
theorem ne_missingLiteral_of_reaches (reaches : Reaches source {} p) (missing : MissingLiteral) :
    p.step source ≠ .error (.missingLiteral missing) := by
  have plain : p.phase.Plain := by
    induction reaches with
    | refl => trivial
    | tail _ stepped ih =>
      have next := plainly_step source ih
      rwa [stepped.2] at next
  intro missed
  have next := plainly_step source plain
  rw [missed] at next
  exact next missing rfl

end Source
end Cursor
end ScriptLexer
