import ScriptLexer.Session

/-! What a sink learns over a session. Scans and direct reports share its state,
and nothing else goes from step to step, so the state at the end is the fold of
all reports, those of a scan being read off the faults that it returned. -/
namespace ScriptLexer
namespace Step

/-- What a step finds, whatever came before it. -/
def found? : Step → Option Scanned
  | scan source => some (ScriptLexer.scan source)
  | report _ => none

/-- The reports of a step that returned `scanned?`. -/
def reports (scanned? : Option Scanned) : Step → List Report
  | scan _ => scanned?.elim [] fun scanned =>
    scanned.faults.map fun fault => ⟨fault.line, fault.message⟩
  | report r => [r]

theorem run_eq {σ : Type u} (sink : σ → Report → σ) (state : σ) (step : Step) :
    step.run sink state = ⟨step.found?, (step.reports step.found?).foldl sink state⟩ := by
  cases step with
  | scan source =>
    rw [run, scanWith_eq, found?, reports, Option.elim_some, List.foldl_map]
    rfl
  | report r => rfl

end Step

namespace Session

section Run

variable {σ : Type u} (sink : σ → Report → σ) (state : σ)

/-- The state behind a first step is where the rest of the session starts. -/
theorem finalState_cons (step : Step) (rest : List Step) :
    finalState sink state (step :: rest) =
      finalState sink (step.run sink state).state rest := by
  rw [finalState, finalState, run, List.getLast?_cons]
  cases (run sink (step.run sink state).state rest).getLast? <;> rfl

theorem map_scanned?_run (steps : List Step) :
    (run sink state steps).map Entry.scanned? = steps.map Step.found? := by
  induction steps generalizing state with
  | nil => rfl
  | cons step rest ih => rw [run, List.map_cons, List.map_cons, ih, Step.run_eq]

theorem finalState_eq (steps : List Step) :
    finalState sink state steps =
      (steps.flatMap fun step => step.reports step.found?).foldl sink state := by
  induction steps generalizing state with
  | nil => rfl
  | cons step rest ih =>
    rw [finalState_cons, ih, List.flatMap_cons, List.foldl_append, Step.run_eq]

theorem zip_run_reports (steps : List Step) :
    ((steps.zip (run sink state steps)).flatMap fun (step, entry) =>
        step.reports entry.scanned?) =
      steps.flatMap fun step => step.reports step.found? := by
  induction steps generalizing state with
  | nil => rfl
  | cons step rest ih =>
    rw [run, List.zip_cons_cons, List.flatMap_cons, List.flatMap_cons, ih, Step.run_eq]

end Run

/-- Each scan of a session returns what it finds alone, and the sink ends with the
fold of all reports: in the order of steps, and within a scan in that of the
faults it returned. -/
theorem run_reports {σ : Type u} (sink : σ → Report → σ) (state : σ) (steps : List Step) :
    (run sink state steps).map Entry.scanned? = steps.map Step.found? ∧
      finalState sink state steps =
        ((steps.zip (run sink state steps)).flatMap fun (step, entry) =>
          step.reports entry.scanned?).foldl sink state := by
  constructor
  · exact map_scanned?_run sink state steps
  · rw [zip_run_reports, finalState_eq]

end Session
end ScriptLexer
