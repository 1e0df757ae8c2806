import BraceScript.Number.Text

/-!
# Values

What expressions evaluate to: numbers, strings and booleans. A statement has the value `unit`,
which no program can hold in a variable or print.
-/

namespace BraceScript

/-- A value. -/
inductive Value where
  | number (x : Float)
  | string (s : String)
  | boolean (b : Bool)
  | unit

/-- The kinds of value. -/
inductive ValueKind where
  | number
  | string
  | boolean
  | unit
  deriving DecidableEq, Repr

/-- The name of a kind of value in error messages. -/
def ValueKind.name : ValueKind → String
  | number => "number"
  | string => "string"
  | boolean => "boolean"
  | unit => "NoneType"

namespace Value

/-- The kind of a value. -/
def kind : Value → ValueKind
  | number _ => .number
  | string _ => .string
  | boolean _ => .boolean
  | unit => .unit

/-- Whether a condition holds. Zero, the empty string and false do not hold; all else does. -/
def isTrue : Value → Bool
  | number x => x != 0
  | string s => s ≠ ""
  | boolean b => b
  | unit => true

/-- The text that printing a value writes. -/
def text : Value → String
  | number x => Number.text x
  | string s => s
  | boolean b => if b then "true" else "false"
  | unit => "None"

/-- The display of a value: its text, a string between double quotes. -/
def display : Value → String
  | string s => "\"" ++ s ++ "\""
  | v => v.text

end Value

end BraceScript
