import BraceScript.Eval
import BraceScript.Grammar
import BraceScript.Scanner

/-!
# Running programs

A source text is scanned, parsed and evaluated, each stage to its end before the next begins, so
that a text that cannot be parsed changes nothing. A report says how a run went: the scope after
it, the values printed, the number of polls of the cancel signal, and what made it fail if it did.
A failed run keeps the bindings it made and the values it printed.

The caller of a run is given its result: the failure, or the output and all bindings that can be
seen. These are collected when the run is over, by asking each frame of the scope from inside the
one before, and what guards the run against deep nesting does not guard this.
-/

namespace BraceScript

/-- Why a run fails. -/
inductive Failure where
  | scan (e : ScanError)
  | parse (e : ParseError)
  | halt (h : Halt)
  deriving DecidableEq, Repr

namespace Failure

/-- What the user is told about a failure. -/
def notice : Failure → Notice
  | scan e => e.notice
  | parse e => e.notice
  | halt h => h.notice

/-- Whether the program had begun to run. -/
def isRuntime : Failure → Bool
  | halt _ => true
  | _ => false

end Failure

/-- How a run went. -/
structure Report where
  scope : Scope
  output : List Value := []
  polls : Nat := 0
  failure : Option Failure := none

/-- What the caller of a run is given: the values printed, and all bindings that can be seen. -/
structure RunResult where
  output : List Value
  bindings : Frame

/-- Why the caller of a run is given no result: the run failed, or its scope has more frames than
    can be asked for their bindings from inside one another. -/
inductive RunError where
  | failure (f : Failure)
  | recursionLimit
  deriving DecidableEq, Repr

/-- What the caller of a run is given, with room for so many frames to be asked from inside one
    another. -/
def Report.result (report : Report) (room : Nat) : Except RunError RunResult :=
  match report.failure with
  | some failure => .error (.failure failure)
  | none =>
    if room < report.scope.length then .error .recursionLimit
    else .ok ⟨report.output, Scope.snapshot report.scope⟩

/-- The lines that a run printed. -/
def Report.lines (report : Report) : List String := report.output.map Value.text

/-- Runs a tree in a scope. -/
def execute (settings : Settings) (scope : Scope) (tree : Node) : Report :=
  match Eval.eval settings Eval.depthLimit tree ⟨scope, #[], 0⟩ with
  | .ok _ m => { scope := m.scope, output := m.output.toList, polls := m.polls }
  | .error h m =>
    { scope := m.scope, output := m.output.toList, polls := m.polls, failure := some (.halt h) }

/-- The value of a tree in a scope, with no run around it: nothing can be printed, blocks share
    the scope and nothing cancels. Gives the scope afterwards too. -/
def evaluate (display : Node → Display) (scope : Scope) (tree : Node) :
    Except Halt Value × Scope :=
  match Eval.eval { recording := false, display } Eval.depthLimit tree ⟨scope, #[], 0⟩ with
  | .ok value m => (.ok value, m.scope)
  | .error h m => (.error h, m.scope)

/-- The tree of a source text. -/
def parseSource (source : String) : Except Failure Node :=
  match scan source with
  | .error e => .error (.scan e)
  | .ok tokens =>
    match parse tokens with
    | .error e => .error (.parse e)
    | .ok tree => .ok tree

/-- Scans, parses and runs a source text in a scope. The caller is given the result of the
    report. -/
def run (settings : Settings) (scope : Scope) (source : String) : Report :=
  match parseSource source with
  | .error failure => { scope, failure := some failure }
  | .ok tree => execute settings scope tree

end BraceScript
