import BraceScript.Flag
import BraceScript.Program

/-!
# Console output

What the command line and the interactive session write, in order: text on the two output
streams, the call trace of the host, whose text is the host's own, and the request to clear the
screen.
-/

namespace BraceScript

/-- One piece of console output. -/
inductive Emission where
  | out (text : String)
  | err (text : String)
  | hostTrace
  | clearScreen
  deriving DecidableEq, Repr

namespace Console

/-- A line on standard output. -/
def outLine (text : String) : Emission := .out (text ++ "\n")

/-- A line on standard error. -/
def errLine (text : String) : Emission := .err (text ++ "\n")

/-- The report of a failure. The host's call trace follows that of a running program if the trace
    setting asks for it. -/
def reportFailure (trace : Option String) (failure : Failure) : List Emission :=
  errLine ("Error: " ++ failure.notice.text) ::
    if failure.isRuntime && Flag.isTraceOn trace then
      [.err "\nPython traceback:\n", .hostTrace]
    else []

/-- The lines that a run printed and, if it failed, the report of its failure. -/
def showReport (trace : Option String) (report : Report) : List Emission :=
  report.lines.map outLine ++
    match report.failure with
    | none => []
    | some failure => reportFailure trace failure

end Console

end BraceScript
