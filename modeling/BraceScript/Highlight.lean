import BraceScript.Scanner

/-!
# Highlighting

How the lines of a text are coloured as it is typed. Each line is scanned by itself: its tokens
and the comments between them are coloured, and a line that cannot be scanned is left plain. The
texts of the fragments of a line make up the line.
-/

namespace BraceScript.Highlight

/-- What the fragments of a line are coloured by. -/
inductive Group where
  | keyword
  | number
  | string
  | comment
  | plain
  deriving DecidableEq, Repr

/-- The style of a group. -/
def Group.style : Group → String
  | keyword => "bold ansicyan"
  | number => "ansimagenta"
  | string => "ansigreen"
  | comment => "italic ansigray"
  | plain => ""

/-- The group of a kind of token. -/
def groupOf : Kind → Group
  | .kwVar | .kwIf | .kwElse | .kwWhile | .kwPrint => .keyword
  | .number => .number
  | .string => .string
  | _ => .plain

/-- A piece of a line in one colour. -/
structure Fragment where
  group : Group
  text : String
  deriving DecidableEq, Repr

/-- The fragments of what stands between two tokens. It is made of blanks and comments, so that
    the first slash starts a comment. -/
def gapFragments (gap : List Char) : List Fragment :=
  let blanks := gap.takeWhile (· ≠ '/')
  let comments := gap.dropWhile (· ≠ '/')
  (if blanks.isEmpty then [] else [⟨.plain, String.ofList blanks⟩]) ++
    if comments.isEmpty then [] else [⟨.comment, String.ofList comments⟩]

/-- The fragments of the tokens of a line, of which `rest` is left from offset `offset` on. -/
def tokenFragments (offset : Nat) (rest : List Char) : List Token → List Fragment
  | [] => gapFragments rest
  | token :: tokens =>
    let gap := token.start.offset.toNat - offset
    let width := token.text.length
    gapFragments (rest.take gap) ++ ⟨groupOf token.kind, token.text⟩ ::
      tokenFragments (offset + gap + width) (rest.drop (gap + width)) tokens

/-- The fragments of a line. -/
def line (text : String) : List Fragment :=
  if text = "" then [⟨.plain, ""⟩]
  else
    match scan text with
    | .error _ => [⟨.plain, text⟩]
    | .ok tokens =>
      tokenFragments 0 text.toList (tokens.filter fun token => token.kind ≠ .endOfInput)

/-- The fragments of each line of a text. -/
def lines (text : String) : List (List Fragment) := (text.splitOn "\n").map line

/-- The fragments of the line past the last one. -/
def pastEnd : List Fragment := [⟨.plain, ""⟩]

end BraceScript.Highlight
