import BraceScript.Command

/-!
# The program

Reads the arguments, the files and the environment, and writes what the command says.
-/

namespace BraceScript

/-- Writes one piece of output. -/
def Emission.write : Emission → IO Unit
  | .out text => IO.print text
  | .err text => IO.eprint text
  | .hostTrace => return
  | .clearScreen => IO.print "\x1b[2J\x1b[H"

namespace Command

/-- The text of the file that an argument names, if it names one. -/
def fileText (argument : String) : IO (Option String) := do
  try
    return some (← IO.FS.readFile argument)
  catch _ =>
    return none

/-- Runs the command. Standard input and the files are read only where the arguments designate
    them. -/
def main (outline : Node → Option String) (arguments : List String) : IO UInt32 := do
  let trace ← IO.getEnv "KESTREL_DEBUG_PY_TRACE"
  let (named, input) ←
    match (Options.read arguments).toOption.map Options.origin with
    | some .standardInput => pure (none, ← (← IO.getStdin).readToEnd)
    | some (.argument text) => pure (← fileText text, "")
    | none => pure (none, "")
  let exit := invoke outline arguments (fun _ => named) input trace
  exit.emissions.forM Emission.write
  return exit.status.toUInt32

end Command

end BraceScript
