/-!
# Tables of code points

A character class of the Unicode standard is given as a list of inclusive spans of code points in
increasing order. `Spans.covers` is the membership test; it stops at the first span that starts
past the code point.
-/

namespace BraceScript.Text

/-- Inclusive spans of code points, in increasing order and disjoint. -/
abbrev Spans := List (Nat × Nat)

/-- Whether `code` lies in one of the spans of an increasing table. -/
def Spans.covers : Spans → Nat → Bool
  | [], _ => false
  | (first, last) :: rest, code =>
    if code < first then false else code ≤ last || Spans.covers rest code

/-- The first code point of the span that holds `code`. -/
def Spans.start? : Spans → Nat → Option Nat
  | [], _ => none
  | (first, last) :: rest, code =>
    if code < first then none
    else if code ≤ last then some first
    else Spans.start? rest code

end BraceScript.Text
