import ScriptLexer.Cursor

/-! Bounds of a cursor. Each phase relies on what the phases before it looked at, so the
invariant is told by phases: one lemma for each action, one for a step, then the whole run.
Where the next segment can start only moves forward, which bounds the count of segments. -/
namespace ScriptLexer
namespace Cursor

/-- A segment is being taken. -/
def Phase.inside : Phase → Bool
  | .head | .mark | .first | .done => false
  | _ => true

/-- What a phase relies on beyond the bounds of every point. -/
def Ready (length : Nat) (p : Cursor) : Prop :=
  match p.phase with
  | .mark | .first => p.start = p.current ∧ p.current < length
  | .choose _ | .string | .stringEnd => p.line ≤ p.current
  | .stringBody => p.current < length
  | .stringToken => p.start + 1 ≤ p.current - 1
  | .token kind => (Meaning.ofKind? kind).isSome = true
  | _ => True

/-- The bounds of a point in a source of some length. -/
structure Safe (length : Nat) (p : Cursor) : Prop where
  start_le : p.start ≤ p.current
  current_le : p.current ≤ length
  one_le_startLine : 1 ≤ p.startLine
  startLine_le : p.startLine ≤ p.line
  line_le : p.line ≤ 1 + p.current
  inside : p.phase.inside = true → p.start < p.current
  ready : p.Ready length

/-- The least index at which the next segment can start. -/
def frontier (p : Cursor) : Nat := if p.phase.inside then p.start + 1 else p.current

/-- A safe point that is not behind another, and ahead of one that takes a segment. -/
structure Follows (length : Nat) (p q : Cursor) : Prop where
  safe : q.Safe length
  frontier_le : p.frontier ≤ q.frontier
  frontier_lt : p.phase = .first → p.frontier < q.frontier

/-- An action at a point does not fail and leads to a point that follows. -/
def Leads (length : Nat) (p : Cursor) (action : Except Failure Cursor) : Prop :=
  ∃ q, action = .ok q ∧ p.Follows length q

theorem increment_eq {n : Nat} (fits : n + 1 < UInt64.size) : increment n = .ok (n + 1) := by
  rw [increment, if_pos fits]

theorem newLine_eq {p : Cursor} (fits : p.line + 1 < UInt64.size) (next : Phase) :
    p.newLine next = .ok { p with line := p.line + 1, phase := next } := by
  rw [newLine, increment_eq fits]
  rfl

section Source

variable {source : List Char} {p : Cursor}

theorem advance_eq (fits : p.current + 1 < UInt64.size) {c : Char}
    (found : source[p.current]? = some c) (next : Char → Phase) :
    p.advance source next = .ok { p with current := p.current + 1, phase := next c } := by
  rw [advance, found, increment_eq fits]
  rfl

theorem slice_eq {first last : Nat} (ordered : first ≤ last) (within : last ≤ source.length) :
    slice source first last = .ok (String.ofList (source.extract first last)) := by
  rw [slice, if_pos ⟨ordered, within⟩]

theorem lexeme_eq (nonempty : p.start < p.current) (within : p.current ≤ source.length) :
    p.lexeme source = .ok (String.ofList (source.extract p.start p.current)) := by
  rw [lexeme, if_pos nonempty, slice_eq (Nat.le_of_lt nonempty) within]

theorem body_eq (fits : p.start + 1 < UInt64.size) (ordered : p.start + 1 ≤ p.current - 1)
    (within : p.current ≤ source.length) :
    p.body source = .ok (String.ofList (source.extract (p.start + 1) (p.current - 1))) := by
  have bound : p.current - 1 ≤ source.length := by omega
  rw [body, increment_eq fits]
  exact slice_eq ordered bound

/-! ### Actions -/

theorem le_frontier (ahead : p.start < p.current) : p.start + 1 ≤ p.frontier := by
  unfold frontier
  split <;> omega

theorem frontier_outside (outside : p.phase.inside = false) : p.frontier = p.current := by
  rw [frontier, outside]
  rfl

section Inside

variable (safe : p.Safe source.length) (within : p.phase.inside = true)

include safe within

/-- While a segment is taken, its start stays, so that every safe point follows. -/
theorem follows_of_safe {q : Cursor} (next : q.Safe source.length) (same : q.start = p.start)
    (ahead : p.current ≤ q.current) : p.Follows source.length q := by
  have began := safe.inside within
  have least := le_frontier (p := q) (by omega)
  refine ⟨next, ?_, ?_⟩
  · rw [frontier, if_pos within]
    omega
  · intro first
    rw [first] at within
    contradiction

theorem goto_leads {next : Phase} (ready : (p.goto next).Ready source.length) :
    p.Leads source.length (.ok (p.goto next)) := by
  refine ⟨_, rfl, follows_of_safe safe within ?_ rfl (Nat.le_refl _)⟩
  exact { safe with inside := fun _ => safe.inside within, ready := ready }

theorem keep_follows (token : Token) : p.Follows source.length (p.keep token) := by
  refine follows_of_safe safe within ?_ rfl (Nat.le_refl _)
  exact { safe with inside := nofun, ready := trivial }

theorem blame_leads (cause : Cause) : p.Leads source.length (.ok (p.blame cause)) := by
  refine ⟨_, rfl, follows_of_safe safe within ?_ rfl (Nat.le_refl _)⟩
  exact { safe with inside := nofun, ready := trivial }

variable (short : source.length + 1 < UInt64.size)

include short

theorem newLine_leads (below : p.line ≤ p.current) {next : Phase}
    (ready : { p with line := p.line + 1, phase := next : Cursor }.Ready source.length) :
    p.Leads source.length (p.newLine next) := by
  have current := safe.current_le
  refine ⟨_, newLine_eq (by omega) next, follows_of_safe safe within ?_ rfl (Nat.le_refl _)⟩
  exact { safe with
    startLine_le := Nat.le_succ_of_le safe.startLine_le
    line_le := by rw [Nat.add_comm 1]; exact Nat.succ_le_succ below
    inside := fun _ => safe.inside within
    ready := ready }

theorem advance_leads (left : p.current < source.length) {next : Char → Phase}
    (ready : ∀ c,
      { p with current := p.current + 1, phase := next c : Cursor }.Ready source.length) :
    p.Leads source.length (p.advance source next) := by
  have found := List.getElem?_eq_getElem left
  refine ⟨_, advance_eq (by omega) found next,
    follows_of_safe safe within ?_ rfl (Nat.le_succ p.current)⟩
  exact { safe with
    start_le := Nat.le_succ_of_le safe.start_le
    current_le := left
    line_le := Nat.le_succ_of_le safe.line_le
    inside := fun _ => Nat.lt_succ_of_lt (safe.inside within)
    ready := ready _ }

theorem accept_leads {expected : Char} {taken other : Phase}
    (readyTaken : { p with current := p.current + 1, phase := taken : Cursor }.Ready source.length)
    (readyOther : (p.goto other).Ready source.length) :
    p.Leads source.length (p.accept source expected taken other) := by
  unfold accept
  split
  · rename_i found
    obtain ⟨left, -⟩ := List.getElem?_eq_some_iff.1 found
    exact advance_leads safe within short left fun _ => readyTaken
  · exact goto_leads safe within readyOther

theorem skip_leads {inside : Char → Bool} {leave : Except Failure Cursor}
    (ready : { p with current := p.current + 1 : Cursor }.Ready source.length)
    (leaves : p.Leads source.length leave) :
    p.Leads source.length (p.skip source inside leave) := by
  unfold skip
  split
  · rename_i found
    obtain ⟨c, left, -⟩ := (Option.any_eq_true _ _).1 found
    obtain ⟨left, -⟩ := List.getElem?_eq_some_iff.1 left
    exact advance_leads safe within short left fun _ => ready
  · exact leaves

theorem extend_leads (s : Symbol) : p.Leads source.length (p.extend source s) := by
  unfold extend
  split
  · exact accept_leads safe within short trivial rfl
  split
  · exact accept_leads safe within short rfl rfl
  · exact goto_leads safe within rfl

theorem choose_leads (below : p.line ≤ p.current) (c : Char) :
    p.Leads source.length (p.choose source c) := by
  unfold choose
  split
  · exact newLine_leads safe within short below trivial
  split
  · exact goto_leads safe within trivial
  split
  · exact goto_leads safe within below
  split
  · exact goto_leads safe within trivial
  split
  · exact goto_leads safe within trivial
  split
  · exact blame_leads safe within _
  · exact extend_leads safe within short _

theorem quoted_leads (below : p.line ≤ p.current) : p.Leads source.length (p.quoted source) := by
  unfold quoted
  split
  · exact goto_leads safe within below
  · rename_i c found
    obtain ⟨left, -⟩ := List.getElem?_eq_some_iff.1 found
    split
    · exact goto_leads safe within below
    split
    · exact newLine_leads safe within short below left
    · exact goto_leads safe within left

theorem point_leads : p.Leads source.length (p.point source) := by
  unfold point
  split
  · rename_i found
    obtain ⟨left, -⟩ := List.getElem?_eq_some_iff.1 found
    rw [increment_eq (by omega)]
    change p.Leads source.length (ite _ _ _)
    split
    · exact advance_leads safe within short left fun _ => trivial
    · exact goto_leads safe within trivial
  · exact goto_leads safe within trivial

theorem string_end_leads (phase : p.phase = .stringEnd) :
    p.Leads source.length (p.step source) := by
  simp only [step, phase]
  split
  · rename_i left
    have behind := safe.inside within
    have ready : p.start + 1 ≤ p.current + 1 - 1 := by omega
    exact advance_leads safe within short left fun _ => ready
  · exact blame_leads safe within _

theorem string_token_leads (phase : p.phase = .stringToken) :
    p.Leads source.length (p.step source) := by
  have bound := safe.current_le
  have ready := safe.ready
  simp only [Ready, phase] at ready
  simp only [step, phase]
  rw [body_eq (by omega) ready bound, lexeme_eq (safe.inside within) bound]
  exact ⟨_, rfl, keep_follows safe within _⟩

omit short

theorem number_token_leads (phase : p.phase = .numberToken) :
    p.Leads source.length (p.step source) := by
  simp only [step, phase]
  rw [lexeme_eq (safe.inside within) safe.current_le]
  exact ⟨_, rfl, keep_follows safe within _⟩

theorem word_token_leads (phase : p.phase = .wordToken) :
    p.Leads source.length (p.step source) := by
  simp only [step, phase]
  rw [lexeme_eq (safe.inside within) safe.current_le]
  refine goto_leads safe within ?_
  change Option.isSome (Meaning.ofKind? _) = true
  cases Keyword.ofSpelling? _ <;> rfl

theorem token_leads {kind : Kind} (phase : p.phase = .token kind) :
    p.Leads source.length (p.step source) := by
  have ready := safe.ready
  simp only [Ready, phase] at ready
  obtain ⟨meaning, means⟩ := Option.isSome_iff_exists.1 ready
  simp only [step, phase]
  rw [lexeme_eq (safe.inside within) safe.current_le]
  simp only [Token.plain, means]
  exact ⟨_, rfl, keep_follows safe within _⟩

end Inside

section Outside

variable (safe : p.Safe source.length) (outside : p.phase.inside = false)

include safe outside

theorem head_leads (phase : p.phase = .head) : p.Leads source.length (p.step source) := by
  have stays := Nat.le_of_eq (frontier_outside outside)
  simp only [step, phase]
  split
  · rename_i left
    refine ⟨_, rfl, ?_, stays, by simp [phase]⟩
    exact { safe with start_le := Nat.le_refl _, inside := nofun, ready := ⟨rfl, left⟩ }
  · refine ⟨_, rfl, ?_, stays, by simp [phase]⟩
    exact { safe with inside := nofun, ready := trivial }

theorem mark_leads (phase : p.phase = .mark) : p.Leads source.length (p.step source) := by
  have stays := Nat.le_of_eq (frontier_outside outside)
  have ready := safe.ready
  simp only [Ready, phase] at ready
  simp only [step, phase]
  refine ⟨_, rfl, ?_, stays, by simp [phase]⟩
  exact { safe with
    one_le_startLine := Nat.le_trans safe.one_le_startLine safe.startLine_le
    startLine_le := Nat.le_refl _
    inside := nofun
    ready := ready }

theorem first_leads (short : source.length + 1 < UInt64.size) (phase : p.phase = .first) :
    p.Leads source.length (p.step source) := by
  have ready := safe.ready
  simp only [Ready, phase] at ready
  obtain ⟨began, left⟩ := ready
  have ahead : p.frontier < p.start + 1 := by
    rw [frontier_outside outside, began]
    exact Nat.lt_succ_self _
  have below : p.line ≤ p.current + 1 := by
    rw [Nat.add_comm]
    exact safe.line_le
  simp only [step, phase]
  refine ⟨_, advance_eq (by omega) (List.getElem?_eq_getElem left) _, ?_, ?_, fun _ => ahead⟩
  · exact { safe with
      start_le := Nat.le_succ_of_le safe.start_le
      current_le := left
      line_le := Nat.le_succ_of_le safe.line_le
      inside := fun _ => Nat.lt_succ_of_le safe.start_le
      ready := below }
  · exact Nat.le_of_lt ahead

end Outside

/-- At a safe point the next action does not fail, and what follows is safe. -/
theorem step_leads (short : source.length + 1 < UInt64.size) (safe : p.Safe source.length) :
    p.Leads source.length (p.step source) := by
  have ready := safe.ready
  obtain ⟨phase, start, current, startLine, line, tokens, faults⟩ := p
  cases phase with
  | head => exact head_leads safe rfl rfl
  | mark => exact mark_leads safe rfl rfl
  | first => exact first_leads safe rfl short rfl
  | choose c => exact choose_leads safe rfl short ready c
  | comment => exact skip_leads safe rfl short trivial (goto_leads safe rfl trivial)
  | string => exact quoted_leads safe rfl short ready
  | stringBody =>
    have below : line ≤ current + 1 := Nat.add_comm 1 current ▸ safe.line_le
    exact advance_leads safe rfl short ready fun _ => below
  | stringEnd => exact string_end_leads safe rfl short rfl
  | stringToken => exact string_token_leads safe rfl short rfl
  | whole => exact skip_leads safe rfl short trivial (point_leads safe rfl short)
  | fraction => exact skip_leads safe rfl short trivial (goto_leads safe rfl trivial)
  | numberToken => exact number_token_leads safe rfl rfl
  | word => exact skip_leads safe rfl short trivial (goto_leads safe rfl trivial)
  | wordToken => exact word_token_leads safe rfl rfl
  | token kind => exact token_leads safe rfl rfl
  | done => exact ⟨_, rfl, safe, Nat.le_refl _, nofun⟩

theorem follows_of_step (short : source.length + 1 < UInt64.size) (safe : p.Safe source.length)
    {q : Cursor} (next : p.step source = .ok q) : p.Follows source.length q := by
  obtain ⟨r, stepped, follows⟩ := step_leads short safe
  obtain rfl := Except.ok.inj (next.symm.trans stepped)
  exact follows

/-! ### Runs -/

theorem safe_initial (length : Nat) : Safe length {} where
  start_le := Nat.le_refl 0
  current_le := Nat.zero_le length
  one_le_startLine := Nat.le_refl 1
  startLine_le := Nat.le_refl 1
  line_le := Nat.le_refl 1
  inside := nofun
  ready := trivial

namespace Run

variable {points others : List Cursor} {last final : Cursor}

theorem unique (run : Run source p points last) (other : Run source p others final) :
    others = points ∧ final = last := by
  induction run generalizing others with
  | done finished =>
    cases other with
    | done => exact ⟨rfl, rfl⟩
    | step going => contradiction
  | step going next tail ih =>
    cases other with
    | done finished => contradiction
    | step going' next' tail' =>
      obtain rfl := Except.ok.inj (next.symm.trans next')
      obtain ⟨rfl, rfl⟩ := ih tail'
      exact ⟨rfl, rfl⟩

variable (run : Run source p points last) (short : source.length + 1 < UInt64.size)

include run short

/-- What holds of every point on the way, by induction on the steps. -/
theorem forall_safe (safe : p.Safe source.length) :
    ∀ q ∈ points, q.Safe source.length ∧ p.frontier ≤ q.frontier := by
  induction run with
  | done finished => simpa using safe
  | @step p q last points going next tail ih =>
    have follows := follows_of_step short safe next
    refine List.forall_mem_cons.2 ⟨⟨safe, Nat.le_refl _⟩, ?_⟩
    intro r member
    obtain ⟨behind, ahead⟩ := ih follows.safe r member
    exact ⟨behind, Nat.le_trans follows.frontier_le ahead⟩

/-- Between the first character of a segment and a later look for another, the cursor moves. -/
theorem pairwise_lt (safe : p.Safe source.length) :
    points.Pairwise fun q r => q.phase = .first → r.phase = .head → q.current < r.current := by
  induction run with
  | done finished => simp
  | @step p q last points going next tail ih =>
    have follows := follows_of_step short safe next
    refine List.Pairwise.cons ?_ (ih follows.safe)
    intro r member first head
    have outsideP : p.phase.inside = false := by rw [first]; rfl
    have outsideR : r.phase.inside = false := by rw [head]; rfl
    obtain ⟨-, ahead⟩ := tail.forall_safe short follows.safe r member
    rw [← frontier_outside outsideP, ← frontier_outside outsideR]
    exact Nat.lt_of_lt_of_le (follows.frontier_lt first) ahead

/-- Every segment moves the frontier, which stays in the source. -/
theorem countP_first_le (safe : p.Safe source.length) :
    points.countP (·.phase = .first) + p.frontier ≤ source.length := by
  induction run with
  | @done p finished =>
    have outside : p.phase.inside = false := by rw [finished]; rfl
    simpa [finished, frontier_outside outside] using safe.current_le
  | @step p q last points going next tail ih =>
    have follows := follows_of_step short safe next
    have counted := ih follows.safe
    by_cases first : p.phase = .first
    · have ahead := follows.frontier_lt first
      rw [List.countP_cons_of_pos (by simpa using first)]
      omega
    · have ahead := follows.frontier_le
      rw [List.countP_cons_of_neg (by simpa using first)]
      omega

end Run
end Source
end Cursor
end ScriptLexer
