import BraceScript.Scanner
import BraceScript.Session.Slash
import BraceScript.Text.Blank

/-!
# Editing at the prompt

How the prompt reacts while a text is typed: whether the text is complete, how far the next line
is indented, what the keys do to the text, and which slash commands complete it.
-/

namespace BraceScript.Prompt

/-- The depth of open brackets after one more token; a closing bracket too many is ignored. -/
def depthAfter (depth : Nat) (token : Token) : Nat :=
  match token.kind with
  | .openParen | .openBrace => depth + 1
  | .closeParen | .closeBrace => depth - 1
  | _ => depth

/-- How many brackets of a text are open; one if a string or a comment is, and minus one if the
    text cannot be scanned. -/
def openDepth (text : String) : Int :=
  match scan text with
  | .ok tokens => (tokens.foldl depthAfter 0 : Nat)
  | .error (.unexpectedCharacter _ _) => -1
  | .error _ => 1

/-- Whether a text is to be continued on the next line. -/
def needsMore (text : String) : Bool := 0 < openDepth text

/-- By how many spaces the line after a text is indented. -/
def indent (text : String) : Nat := 4 * (openDepth text).toNat

/-- The keys with a meaning of their own. -/
inductive Key where
  | enter
  | backspace
  deriving DecidableEq, Repr

/-- What a key does to the text being edited. -/
inductive Edit where
  | insertText
  | submit
  | deleteBefore
  | startCompletion
  deriving DecidableEq, Repr

/-- Whether a text is a slash command, blanks before it aside. -/
def isSlash (text : String) : Bool := (Text.trimLeft text.toList).head? = some '/'

/-- The text after a key is pressed at its end, and what the key did in turn. -/
def press (text : String) : Key → String × List Edit
  | .backspace =>
    let shorter := String.ofList text.toList.dropLast
    if shorter.toList.head? = some '/' then (shorter, [.deleteBefore, .startCompletion])
    else (shorter, [.deleteBefore])
  | .enter =>
    if isSlash text || !needsMore text then (text, [.submit])
    else
      (text ++ "\n" ++ String.ofList (List.replicate (indent text) ' '), [.insertText])

/-- The text after several keys, and all that they did. -/
def pressAll (text : String) : List Key → String × List Edit
  | [] => (text, [])
  | key :: rest =>
    let (text, edits) := press text key
    let (final, more) := pressAll text rest
    (final, edits ++ more)

/-- The slash commands that a text is the start of, with what each is for. -/
def completions (text : String) : List (String × String) :=
  if text.toList.head? = some '/' then
    Session.Slash.catalogue.filter fun entry => text.toList.isPrefixOf entry.1.toList
  else []

end BraceScript.Prompt
