import BraceScript.Text.Blank

/-!
# On and off

Words for on and off, in any case and with blanks around them, and the trace switch: a setting
that is on when it is present at all, unless it is a word for off.
-/

namespace BraceScript.Flag

/-- The words for on. -/
def onWords : List String := ["1", "true", "yes", "on"]

/-- The words for off. -/
def offWords : List String := ["0", "false", "no", "off"]

/-- The meaning of a word, if it is one for on or off. -/
def read? (raw : String) : Option Bool :=
  let word := String.ofList ((Text.trim raw.toList).map Char.toLower)
  if onWords.contains word then some true
  else if offWords.contains word then some false
  else none

/-- Whether a trace setting is on. -/
def isTraceOn : Option String → Bool
  | none => false
  | some raw => read? raw ≠ some false

/-- The trace setting after it has been switched on or off. -/
def traceSetting (enabled : Bool) : Option String := if enabled then some "1" else none

end BraceScript.Flag
