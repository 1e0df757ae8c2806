import BraceScript.Number.Decimal
import BraceScript.Text.Blank
import BraceScript.Text.DecimalDigit

/-!
# Reading a number

The numerals that the command line and number leaves accept: blanks around, a sign, digits of any
script with single underscores between them, a point before, between or after digits, an exponent,
or one of the words `inf`, `infinity` and `nan` in any case. The value is correctly rounded.
-/

namespace BraceScript.Number

open BraceScript.Text

/-- The blanks allowed around a numeral: all but the four ASCII separators. -/
def isNumeralBlank (c : Char) : Bool :=
  isBlank c && !(0x1c ≤ c.toNat && c.toNat ≤ 0x1f)

/-- The ASCII digit that a decimal digit of any script stands for. -/
def asciiDigit (c : Char) : Char :=
  match decimalDigit? c with
  | some value => value.digitChar
  | none => c

/-- Removes the underscores that stand between two digits and refuses any other; `afterDigit`
    tells whether a digit stands just before the text. -/
def dropSeparators (afterDigit : Bool) : List Char → Option (List Char)
  | [] => some []
  | '_' :: rest =>
    if afterDigit && rest.head?.any Char.isDigit then dropSeparators false rest else none
  | c :: rest => (dropSeparators c.isDigit rest).map (c :: ·)

/-- The value of a list of ASCII digits. -/
def digitsValue (digits : List Char) : Nat :=
  digits.foldl (fun value c => 10 * value + (c.toNat - '0'.toNat)) 0

/-- Takes a sign off the front; `true` is minus. -/
def takeSign : List Char → Bool × List Char
  | '-' :: rest => (true, rest)
  | '+' :: rest => (false, rest)
  | rest => (false, rest)

/-- The exponent that ends a numeral; nothing is the exponent zero. -/
def exponent? : List Char → Option Int
  | [] => some 0
  | c :: rest =>
    let (negative, digits) := takeSign rest
    if (c = 'e' || c = 'E') && !digits.isEmpty && digits.all Char.isDigit then
      some (if negative then -(digitsValue digits : Int) else digitsValue digits)
    else none

/-- Brings an exponent within `bound` of zero. -/
def clampExponent (bound : Nat) (exponent : Int) : Int :=
  max (-(bound : Int)) (min bound exponent)

/-- An unsigned numeral of digits. An exponent so far out that the value is certainly zero or
    infinite is brought nearer, which changes neither. -/
def decimal? (cs : List Char) : Option Decimal := do
  let whole := cs.takeWhile Char.isDigit
  let (fraction, rest) := match cs.dropWhile Char.isDigit with
    | '.' :: after => (after.takeWhile Char.isDigit, after.dropWhile Char.isDigit)
    | after => ([], after)
  let digits := whole ++ fraction
  if digits.isEmpty then none
  else
    let exponent ← exponent? rest
    some ⟨digitsValue digits, clampExponent (1000 + digits.length) exponent - fraction.length⟩

/-- The magnitude word of an unsigned numeral. -/
def magnitude? (cs : List Char) : Option Nat :=
  let lower := cs.map Char.toLower
  if lower = "inf".toList || lower = "infinity".toList then some infiniteWord
  else if lower = "nan".toList then some undefinedWord
  else (decimal? cs).map Decimal.word

/-- The number that a text stands for, if it is a numeral. -/
def read? (s : String) : Option Float := do
  let inner := (s.toList.dropWhile isNumeralBlank).reverse.dropWhile isNumeralBlank
  let plain ← dropSeparators false (inner.reverse.map asciiDigit)
  let (negative, unsigned) := takeSign plain
  let word ← magnitude? unsigned
  some (ofWord negative word)

end BraceScript.Number
