import BraceScript.Console
import BraceScript.Session.Slash

/-!
# The interactive session

A session keeps its frames, whether blocks are scoped, and the trace setting from one input to
the next. An input is blank, a slash command, or a program that is run in the session's frames;
a program that fails leaves the session as far as it got.
-/

namespace BraceScript

/-- What a session keeps between inputs. -/
structure Session where
  scope : Scope := [[]]
  blockScoped : Bool := false
  trace : Option String := none

namespace Session

/-- What comes from the prompt: a text, perhaps with an interrupt as its run starts, or an
    interrupt at the prompt itself. -/
inductive Input where
  | submit (text : String) (interrupted : Bool)
  | interrupt
  deriving DecidableEq, Repr

/-- The characters that are taken out of every input: those of no width, the no-break space and
    the carriage return. -/
def isInvisible (c : Char) : Bool :=
  c = '\u200b' || c = '\u200c' || c = '\u200d' || c = '\ufeff' || c = '\u00a0' || c = '\r'

/-- An input without its invisible characters. -/
def normalize (text : String) : String :=
  String.ofList (text.toList.filter fun c => !isInvisible c)

/-- What is written when a session starts. -/
def banner : List Emission := [Console.outLine "kestrel repl: Ctrl-D to exit, / for commands"]

/-- What is written when a session ends. -/
def farewell : List Emission := [Console.outLine ""]

/-- The setting that an argument asks for: without an argument, the opposite of the current one;
    nothing if it makes no sense. -/
def toggle? (argument : String) (current : Bool) : Option Bool :=
  if argument = "" then some !current else Flag.read? argument

/-- The word for a setting. -/
def onOff (enabled : Bool) : String := if enabled then "on" else "off"

/-- Carries out a slash command. -/
def obey (session : Session) : Slash → Session × List Emission
  | .clear => (session, [.clearScreen])
  | .environment => (session, session.scope.snapshot.listing.map Console.outLine)
  | .traceback argument =>
    match toggle? argument (Flag.isTraceOn session.trace) with
    | none => (session, [Console.errLine "Usage: /py-traceback [on|off]"])
    | some enabled =>
      ({ session with trace := Flag.traceSetting enabled },
        [Console.outLine ("Python traceback: " ++ onOff enabled)])
  | .scoping argument =>
    match toggle? argument session.blockScoped with
    | none => (session, [Console.errLine "Usage: /scoped [on|off]"])
    | some enabled =>
      ({ session with blockScoped := enabled },
        [Console.outLine ("Block scoping: " ++ onOff enabled)])
  | .reset => ({ session with scope := [[]] }, [Console.outLine "Environment reset."])
  | .unknown word => (session, [Console.errLine ("Unknown command: " ++ word)])

/-- The settings of a run in a session; an interrupt sets the cancel signal at once. -/
def settings (session : Session) (interrupted : Bool) : Settings :=
  { blockScoped := session.blockScoped, cancelAfter := if interrupted then some 0 else none }

/-- Runs a program in the session's frames. -/
def submit (session : Session) (text : String) (interrupted : Bool) : Session × List Emission :=
  let report := run (session.settings interrupted) session.scope text
  ({ session with scope := report.scope }, Console.showReport session.trace report)

/-- Takes one input: gives the session after it and what was written. -/
def step (session : Session) : Input → Session × List Emission
  | .interrupt => (session, [Console.outLine "KeyboardInterrupt"])
  | .submit text interrupted =>
    let text := normalize text
    if text.toList.all Text.isBlank then (session, [])
    else
      match Slash.read? text with
      | some command => session.obey command
      | none => session.submit text interrupted

/-- Takes inputs in order: gives the session after each and what was written. -/
def play (session : Session) : List Input → List (Session × List Emission)
  | [] => []
  | input :: rest =>
    let result := session.step input
    result :: play result.1 rest

end Session

end BraceScript
