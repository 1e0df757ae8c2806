import BraceScript.Program

/-!
# Reports and results

A report is made from the result of evaluating a tree, and a source text that can be parsed is run
as its tree is.
-/

namespace BraceScript

attribute [ext] Report

/-- The report of a result. -/
def Report.ofResult : EStateM.Result Halt Machine Value → Report
  | .ok _ m => { scope := m.scope, output := m.output.toList, polls := m.polls }
  | .error reason m =>
    { scope := m.scope, output := m.output.toList, polls := m.polls
      failure := some (.halt reason) }

theorem execute_eq (settings : Settings) (scope : Scope) (tree : Node) :
    execute settings scope tree =
      .ofResult (Eval.eval settings Eval.depthLimit tree ⟨scope, #[], 0⟩) := by
  unfold execute
  split
  · next same => rw [same]; rfl
  · next same => rw [same]; rfl

/-- A run that halts is an evaluation that does. -/
theorem eval_of_failure {settings : Settings} {scope : Scope} {tree : Node} {reason : Halt}
    (failed : (execute settings scope tree).failure = some (.halt reason)) :
    ∃ m, Eval.eval settings Eval.depthLimit tree ⟨scope, #[], 0⟩ = .error reason m := by
  rw [execute_eq] at failed
  cases outcome : Eval.eval settings Eval.depthLimit tree ⟨scope, #[], 0⟩ with
  | ok v m =>
    rw [outcome] at failed
    cases failed
  | error other m =>
    rw [outcome] at failed
    obtain ⟨⟩ := failed
    exact ⟨m, rfl⟩

/-- A text that can be parsed is run as its tree. -/
theorem run_of_parseSource {source : String} {tree : Node} (parsed : parseSource source = .ok tree)
    (settings : Settings) (scope : Scope) :
    run settings scope source = execute settings scope tree := by
  rw [run, parsed]

/-- A run that halts has parsed its text. -/
theorem execute_of_run {settings : Settings} {scope : Scope} {source : String} {reason : Halt}
    (failed : (run settings scope source).failure = some (.halt reason)) :
    ∃ tree, parseSource source = .ok tree ∧
      (execute settings scope tree).failure = some (.halt reason) := by
  unfold run at failed
  split at failed
  · next failure refused =>
    obtain ⟨⟩ := failed
    unfold parseSource at refused
    split at refused
    · cases refused
    · split at refused <;> cases refused
  · next tree parsed => exact ⟨tree, parsed, failed⟩

end BraceScript
