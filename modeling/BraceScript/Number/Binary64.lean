/-!
# Binary floating-point words

A number is a sign and a *magnitude word*: the other 63 bits of its 64-bit word, read as a natural
number. Finite magnitudes are measured in units of the least positive number, two to the power
-1074, so that each is a natural number (`units`), and `nearestWord` is the correctly rounded
quotient of two natural numbers: the nearest magnitude, a tie going to the even significand.
-/

namespace BraceScript.Number

/-- A power of two. -/
def twoTo (n : Nat) : Nat := Nat.pow 2 n

/-- A power of ten. -/
def tenTo (n : Nat) : Nat := Nat.pow 10 n

/-- The sign bit of a word. -/
def signBit : Nat := twoTo 63

/-- The bit in front of the 52 bits of a fraction, which is also the step from one exponent to the
    next. -/
def leadingBit : Nat := twoTo 52

/-- The magnitude word of infinity; the words below it are the finite magnitudes in order. -/
def infiniteWord : Nat := 2047 * leadingBit

/-- The magnitude word of an undefined number. -/
def undefinedWord : Nat := infiniteWord + twoTo 51

/-- How many units make one. -/
def unitsPerOne : Nat := twoTo 1074

/-- The significand of a finite magnitude, its leading bit included. -/
def significand (word : Nat) : Nat :=
  if word < leadingBit then word else word % leadingBit + leadingBit

/-- The exponent of two by which the significand is scaled to units. -/
def unitExponent (word : Nat) : Nat := word / leadingBit - 1

/-- A finite magnitude in units. -/
def units (word : Nat) : Nat := significand word * twoTo (unitExponent word)

/-- The quotient of two natural numbers rounded to the nearest, a tie to the even neighbour. -/
def roundQuotient (num den : Nat) : Nat :=
  let quotient := num / den
  let remainder := num % den
  if 2 * remainder < den then quotient
  else if den < 2 * remainder then quotient + 1
  else quotient + quotient % 2

/-- The magnitude word nearest to `num / den`. The significand is rounded to the 53 bits that
    start at the quotient's leading bit, or at the unit for small quotients; a carry out of the
    significand is a carry into the exponent, because the word is their plain sum. -/
def nearestWord (num den : Nat) : Nat :=
  let scaled := num * unitsPerOne
  let shift := (scaled / den).log2 - 52
  min (shift * leadingBit + roundQuotient scaled (den * twoTo shift)) infiniteWord

/-- The number with a given sign and magnitude word. -/
def ofWord (negative : Bool) (word : Nat) : Float :=
  Float.ofBits (UInt64.ofNat (if negative then signBit + word else word))

/-- The magnitude word of a number. -/
def magnitude (x : Float) : Nat := x.toBits.toNat % signBit

/-- Whether the sign bit of a number is set. -/
def isNegative (x : Float) : Bool := signBit ≤ x.toBits.toNat

end BraceScript.Number
