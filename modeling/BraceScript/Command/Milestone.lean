import BraceScript.Program

/-!
# Verbose mode

The stages of scanning, parsing and running that verbose mode writes a line for.
-/

namespace BraceScript.Command

/-- A stage that verbose mode speaks of. -/
inductive Milestone where
  | scanned (characters tokens : Nat)
  | parsed (statements : Nat)
  | executing (statements : Nat) (blockScoped : Bool)
  | aborted (printed : Nat) (notice : Notice)
  | depthReached (printed : Nat)
  deriving DecidableEq, Repr

namespace Milestone

/-- The line for a stage. -/
def line : Milestone → String
  | scanned characters tokens =>
    s!"DEBUG:kestrel.lexer_rd:tokenized {characters} chars into {tokens} tokens"
  | parsed statements => s!"DEBUG:kestrel.parser_rd:parsed {statements} top-level statements"
  | executing statements blockScoped =>
    let mode := if blockScoped then "True" else "False"
    s!"DEBUG:kestrel.runner:executing {statements} statement(s) (scoped={mode})"
  | aborted printed notice =>
    s!"DEBUG:kestrel.evaluator:run aborted after {printed} output value(s): {notice.text}"
  | depthReached printed =>
    "DEBUG:kestrel.evaluator:run aborted: recursion limit reached after " ++
      s!"{printed} output value(s)"

/-- The stages of scanning a source text. -/
def ofScan (source : String) : List Milestone :=
  match scan source with
  | .error _ => []
  | .ok tokens => [scanned source.length tokens.length]

/-- The stages of scanning and parsing a source text. -/
def ofParse (source : String) : List Milestone :=
  ofScan source ++
    match parseSource source with
    | .error _ => []
    | .ok tree => [parsed tree.children.length]

/-- The stages of a run that ended early. -/
def ofHalt (printed : Nat) : Halt → List Milestone
  | .fault cause place => [aborted printed (Halt.fault cause place).notice]
  | .tooDeep => [depthReached printed]
  | .outOfFuel => []

/-- The stages of a run of a source text. -/
def ofRun (blockScoped : Bool) (source : String) (report : Report) : List Milestone :=
  ofParse source ++
    match parseSource source with
    | .error _ => []
    | .ok tree =>
      executing tree.children.length blockScoped ::
        match report.failure with
        | some (.halt h) => ofHalt report.output.length h
        | _ => []

end Milestone

end BraceScript.Command
