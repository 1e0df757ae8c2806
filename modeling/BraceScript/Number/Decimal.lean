import BraceScript.Number.Binary64

/-!
# Decimal numbers

A decimal is a natural coefficient times a power of ten. `Decimal.word` rounds it to the nearest
magnitude word. `shortest` goes the other way: among the decimals that round to a given word it
picks one with the fewest digits, of those the nearest, and of two equally near the even one.
-/

namespace BraceScript.Number

/-- A coefficient times ten to an exponent. -/
structure Decimal where
  coefficient : Nat
  exponent : Int
  deriving DecidableEq, Repr

/-- The numerator of a decimal written as a quotient. -/
def Decimal.numerator (d : Decimal) : Nat := d.coefficient * tenTo d.exponent.toNat

/-- The denominator of a decimal written as a quotient. -/
def Decimal.denominator (d : Decimal) : Nat := tenTo (-d.exponent).toNat

/-- The magnitude word nearest to a decimal. -/
def Decimal.word (d : Decimal) : Nat := nearestWord d.numerator d.denominator

/-- How many decimal digits a natural number has; zero has one. -/
def digitCount (n : Nat) : Nat := (Nat.toDigits 10 n).length

/-- The exponent of the leading decimal digit of a positive finite magnitude. Every positive
    magnitude has a digit before the 324th place after the point or at it, so that the digits up to
    that place tell. -/
def leadingExponent (word : Nat) : Int :=
  (digitCount (units word * tenTo 324 / unitsPerOne) : Int) - 325

/-- The two decimals of a given exponent around a magnitude, the nearer one first; of two equally
    near ones the even one. -/
def neighbours (word : Nat) (exponent : Int) : List Decimal :=
  let num := units word * tenTo (-exponent).toNat
  let den := unitsPerOne * tenTo exponent.toNat
  let below := num / den
  let above := below + 1
  let order := if roundQuotient num den = below then [below, above] else [above, below]
  order.map fun coefficient => ⟨coefficient, exponent⟩

/-- The decimal with all the digits of a finite magnitude. -/
def exactDecimal (word : Nat) : Decimal := ⟨units word * Nat.pow 5 1074, -1074⟩

/-- The shortest decimal that rounds to a positive finite magnitude. Seventeen digits are always
    enough; the exact decimal stands for the case that never comes. -/
def shortest (word : Nat) : Decimal :=
  let leading := leadingExponent word
  let found := (List.range 17).findSome? fun (n : Nat) =>
    (neighbours word (leading - (n : Int))).find? fun d => d.word = word
  found.getD (exactDecimal word)

end BraceScript.Number
