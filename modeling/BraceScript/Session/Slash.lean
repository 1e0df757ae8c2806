import BraceScript.Text.Blank

/-!
# Slash commands

Lines of the interactive session that start with a slash are commands to the session itself: a
word and, after blanks, an argument.
-/

namespace BraceScript.Session

/-- The commands to a session. -/
inductive Slash where
  | clear
  | environment
  | traceback (argument : String)
  | reset
  | scoping (argument : String)
  | unknown (word : String)
  deriving DecidableEq, Repr

namespace Slash

/-- The words of the commands and what each is for. -/
def catalogue : List (String × String) :=
  [("/clear", "Clear the terminal screen"),
   ("/env", "Show current variable bindings"),
   ("/py-traceback", "Toggle Python traceback on errors"),
   ("/reset", "Reset the REPL environment"),
   ("/scoped", "Toggle block-scoped environments")]

/-- The command that a word and an argument make up. -/
def ofWords (word argument : String) : Slash :=
  if word = "/clear" then clear
  else if word = "/env" then environment
  else if word = "/py-traceback" then traceback argument
  else if word = "/scoped" then scoping argument
  else if word = "/reset" then reset
  else unknown word

/-- The command on a line, if the line is one. -/
def read? (line : String) : Option Slash :=
  match Text.trim line.toList with
  | '/' :: rest =>
    let (word, argument) := Text.splitWord ('/' :: rest)
    some (ofWords (String.ofList word) (String.ofList argument))
  | _ => none

end Slash

end BraceScript.Session
