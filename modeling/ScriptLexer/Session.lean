import ScriptLexer.Scan

/-! Sessions: scans and direct reports in turn, all on one sink. Each scan starts
afresh; only the state of the sink goes from step to step. -/
namespace ScriptLexer

inductive Step
  | scan (source : String)
  | report (report : Report)
  deriving DecidableEq

/-- The state of the sink behind a step, with what the step found if it was a scan. -/
structure Entry (σ : Type u) where
  scanned? : Option Scanned
  state : σ

def Step.run {σ : Type u} (sink : σ → Report → σ) (state : σ) : Step → Entry σ
  | scan source =>
    let (scanned, state) := scanWith sink state source
    ⟨some scanned, state⟩
  | report r => ⟨none, sink state r⟩

namespace Session

def run {σ : Type u} (sink : σ → Report → σ) (state : σ) : List Step → List (Entry σ)
  | [] => []
  | step :: rest =>
    let entry := step.run sink state
    entry :: run sink entry.state rest

def finalState {σ : Type u} (sink : σ → Report → σ) (state : σ) (steps : List Step) : σ :=
  ((run sink state steps).getLast?.map Entry.state).getD state

end Session
end ScriptLexer
