import BraceScript.Number.Reader

/-!
# Command line options

How the arguments of the command are read: from left to right, and stopping at the first one that
settles the outcome.
-/

namespace BraceScript.Command

/-- What the command shows instead of running the program. -/
inductive Dump where
  | tokens
  | tree
  deriving DecidableEq, Repr

/-- What the arguments ask for. -/
structure Options where
  blockScoped : Bool := false
  verbose : Bool := false
  /-- The time limit in seconds. -/
  timeout : Option Float := none
  dump : Option Dump := none
  /-- The argument that is or names the source. -/
  source : Option String := none

/-- Why the arguments do not lead to a program. -/
inductive Stop where
  | help
  | missingTimeout
  | invalidTimeout (raw : String)
  | unexpectedArgument (argument : String)
  deriving DecidableEq, Repr

/-- The summary of the arguments. -/
def usage : String :=
  "usage: kestrel [--scoped] [--timeout SECONDS] [--tokens | --ast] [--verbose] " ++
    "[FILE | - | SOURCE]"

/-- What follows a given start of a text. -/
def after? (start text : String) : Option String :=
  if start.toList.isPrefixOf text.toList then
    some (String.ofList (text.toList.drop start.length))
  else none

namespace Options

/-- Takes in a time limit. -/
def withTimeout (options : Options) (raw : String) : Except Stop Options :=
  match Number.read? raw with
  | some seconds => .ok { options with timeout := some seconds }
  | none => .error (.invalidTimeout raw)

/-- Takes in an argument that is not an option. -/
def withSource (options : Options) (argument : String) : Except Stop Options :=
  match options.source with
  | none => .ok { options with source := some argument }
  | some _ => .error (.unexpectedArgument argument)

/-- Reads arguments on top of what was read before. Every argument that starts with the name of
    the time limit is one, and the limit is the next argument unless an equals sign follows the
    name. -/
def readFrom (options : Options) : List String → Except Stop Options
  | [] => .ok options
  | argument :: rest =>
    if argument = "--scoped" then readFrom { options with blockScoped := true } rest
    else if argument = "--tokens" then readFrom { options with dump := some .tokens } rest
    else if argument = "--ast" then readFrom { options with dump := some .tree } rest
    else if argument = "--verbose" then readFrom { options with verbose := true } rest
    else if (after? "--timeout" argument).isSome then
      match after? "--timeout=" argument, rest with
      | some raw, rest => do readFrom (← options.withTimeout raw) rest
      | none, raw :: rest => do readFrom (← options.withTimeout raw) rest
      | none, [] => .error .missingTimeout
    else if argument = "-h" || argument = "--help" then .error .help
    else do readFrom (← options.withSource argument) rest

/-- Reads the arguments of the command. -/
def read (arguments : List String) : Except Stop Options := readFrom {} arguments

end Options

end BraceScript.Command
