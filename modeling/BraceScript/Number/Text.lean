import BraceScript.Number.Decimal

/-!
# The text of a number

An integral number is written with all its digits and nothing else, so that negative zero is `0`.
Any other finite number is written with the fewest digits that read back as it, positionally if
its leading digit is not too far from the point and with an exponent otherwise.
-/

namespace BraceScript.Number

/-- How a decimal is laid out. -/
structure Layout where
  /-- The least exponent of a leading digit that is written positionally. -/
  least : Int
  /-- The first exponent past those written positionally. -/
  bound : Int
  /-- The least number of digits of a written exponent. -/
  exponentWidth : Nat

/-- Numbers from `0.0001` up to sixteen digits before the point are positional, and an exponent
    has at least two digits. -/
def layout : Layout := ⟨-4, 16, 2⟩

/-- The digits of a decimal without the zeros at their end, and the exponent of the first one. -/
def Decimal.digits (d : Decimal) : List Char × Int :=
  let all := Nat.toDigits 10 d.coefficient
  ((all.reverse.dropWhile (· = '0')).reverse, d.exponent + all.length - 1)

/-- Two parts of a numeral with a point between them; nothing after the point is no point. -/
def withPoint (whole fraction : List Char) : List Char :=
  if fraction.isEmpty then whole else whole ++ '.' :: fraction

/-- Digits whose first one has the given exponent, written around the point. -/
def positional (digits : List Char) (exponent : Int) : List Char :=
  if exponent < 0 then
    withPoint ['0'] (List.replicate (-exponent - 1).toNat '0' ++ digits)
  else
    let width := exponent.toNat + 1
    withPoint (digits.take width ++ List.replicate (width - digits.length) '0')
      (digits.drop width)

/-- Digits whose first one has the given exponent, with the exponent written out. -/
def scientific (width : Nat) (digits : List Char) (exponent : Int) : List Char :=
  let sign := if exponent < 0 then '-' else '+'
  let size := Nat.toDigits 10 exponent.natAbs
  withPoint (digits.take 1) (digits.drop 1) ++
    'e' :: sign :: List.replicate (width - size.length) '0' ++ size

/-- A decimal in a given layout. -/
def Layout.write (style : Layout) (d : Decimal) : List Char :=
  let (digits, exponent) := d.digits
  if style.least ≤ exponent ∧ exponent < style.bound then positional digits exponent
  else scientific style.exponentWidth digits exponent

/-- The text of a finite magnitude. -/
def magnitudeText (word : Nat) : List Char :=
  if units word % unitsPerOne = 0 then Nat.toDigits 10 (units word / unitsPerOne)
  else layout.write (shortest word)

/-- The text of the number with a given sign and magnitude word. -/
def wordText (negative : Bool) (word : Nat) : String :=
  if infiniteWord < word then "nan"
  else
    let sign := if negative && word ≠ 0 then ['-'] else []
    String.ofList (sign ++ if word = infiniteWord then "inf".toList else magnitudeText word)

/-- The text of a number. -/
def text (x : Float) : String := wordText (isNegative x) (magnitude x)

end BraceScript.Number
