import BraceScript.Command.Milestone
import BraceScript.Command.Options
import BraceScript.Console
import BraceScript.Text.Newline

/-!
# The command line

The command reads its arguments, finds the source text, and runs it or shows its tokens or tree.
The source is standard input if no argument names it or the argument is a dash, the contents of a
file if the argument names one, and the argument itself otherwise. The exit status is zero after
success, one after a failure of the program, and two after arguments that make no sense.

The files are known by a lookup, and trees are printed by an outline; both come from outside. An
outline has no text for a tree that is too deep to be printed, and the command then ends as after
any error that it does not expect.
-/

namespace BraceScript.Command

/-- How the command ends: its status and what it has written. -/
structure Exit where
  status : Nat
  emissions : List Emission
  deriving DecidableEq, Repr

/-- The end of a command whose arguments do not lead to a program. -/
def Stop.exit : Stop → Exit
  | help => ⟨0, [Console.outLine usage]⟩
  | missingTimeout => ⟨2, [Console.errLine "--timeout flag requires a value"]⟩
  | invalidTimeout raw => ⟨2, [Console.errLine ("Invalid timeout: " ++ raw)]⟩
  | unexpectedArgument argument =>
    ⟨2, [Console.errLine ("Unexpected argument: " ++ argument ++ "\n" ++ usage)]⟩

/-- Where the source text comes from. -/
inductive Origin where
  | standardInput
  | argument (text : String)
  deriving DecidableEq, Repr

/-- Where the source text comes from. -/
def Options.origin (options : Options) : Origin :=
  match options.source with
  | none => .standardInput
  | some text => if text = "-" then .standardInput else .argument text

/-- A text read from outside, its line ends made uniform. -/
def readText (text : String) : String := String.ofList (Text.uniformNewlines text.toList)

/-- How many polls of the cancel signal a second is taken for. -/
def pollsPerSecond : Float := 1000000

/-- How many polls pass within a time limit in seconds. A limit that is not above zero is over at
    once, and one that no clock reaches is none. -/
def pollsWithin (seconds : Float) : Option Nat :=
  let polls := seconds * pollsPerSecond
  if 0 < polls then
    if polls < 1e18 then some polls.toUInt64.toNat else none
  else some 0

/-- The settings of the run that the arguments ask for. -/
def Options.settings (options : Options) : Settings :=
  { blockScoped := options.blockScoped, cancelAfter := options.timeout.bind pollsWithin }

/-- The lines of verbose mode. -/
def Options.log (options : Options) (milestones : Unit → List Milestone) : List Emission :=
  if options.verbose then (milestones ()).map fun stage => Console.errLine stage.line else []

/-- Shows the tokens of a source text. -/
def showTokens (trace : Option String) (source : String) : Exit :=
  match scan source with
  | .ok tokens => ⟨0, tokens.map fun token => Console.outLine token.display⟩
  | .error e => ⟨1, Console.reportFailure trace (.scan e)⟩

/-- Shows the tree of a source text. -/
def showTree (outline : Node → Option String) (trace : Option String) (source : String) : Exit :=
  match parseSource source with
  | .ok tree =>
    match outline tree with
    | some text => ⟨0, [.out text]⟩
    | none => ⟨1, [.hostTrace]⟩
  | .error failure => ⟨1, Console.reportFailure trace failure⟩

/-- The end of a command that ran a program. -/
def showRun (trace : Option String) (report : Report) : Exit :=
  ⟨if report.failure.isSome then 1 else 0, Console.showReport trace report⟩

/-- Does what the arguments ask for with a source text. -/
def perform (outline : Node → Option String) (options : Options) (trace : Option String)
    (source : String) : Exit :=
  match options.dump with
  | some .tokens =>
    let exit := showTokens trace source
    { exit with emissions := options.log (fun _ => Milestone.ofScan source) ++ exit.emissions }
  | some .tree =>
    let exit := showTree outline trace source
    { exit with emissions := options.log (fun _ => Milestone.ofParse source) ++ exit.emissions }
  | none =>
    let report := run options.settings [[]] source
    let exit := showRun trace report
    let log := options.log fun _ => Milestone.ofRun options.blockScoped source report
    { exit with emissions := log ++ exit.emissions }

/-- The source text that the arguments designate. The lookup gives the text of the file that an
    argument names, if it names one. -/
def loadSource (lookup : String → Option String) (input : String) : Origin → String
  | .standardInput => readText input
  | .argument text =>
    match lookup text with
    | some contents => readText contents
    | none => text

/-- The whole command: how trees are printed, its arguments, the files it sees, standard input and
    the trace setting. -/
def invoke (outline : Node → Option String) (arguments : List String)
    (lookup : String → Option String) (input : String) (trace : Option String) : Exit :=
  match Options.read arguments with
  | .error stop => stop.exit
  | .ok options => perform outline options trace (loadSource lookup input options.origin)

end BraceScript.Command
