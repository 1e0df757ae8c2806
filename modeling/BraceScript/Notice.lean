/-!
# Places and notices

A `Position` is a place in a source text, and `Coordinates` are what is known of one: tokens and
trees made by hand can lack some of them, and can have any integers for the others. A `Notice` is
what the user is told about an error: a message and, once the fault is located, its coordinates.
-/

namespace BraceScript

/-- A place in a source text: the number of characters before it, its line and its column, lines
    and columns counted from one. -/
structure Position where
  offset : Int
  line : Int
  column : Int
  deriving DecidableEq, Repr, Inhabited

namespace Position

/-- The first place of a text. -/
def origin : Position := ⟨0, 1, 1⟩

/-- The place of tokens that were never in a text. -/
def nowhere : Position := ⟨0, 0, 0⟩

/-- The place after one more character. -/
def next (p : Position) (c : Char) : Position :=
  if c = '\n' then ⟨p.offset + 1, p.line + 1, 1⟩ else ⟨p.offset + 1, p.line, p.column + 1⟩

/-- The place after a run of characters. -/
def after (p : Position) (cs : List Char) : Position := cs.foldl next p

end Position

/-- The coordinates of a place, as far as they are known. -/
structure Coordinates where
  offset : Option Int := none
  line : Option Int := none
  column : Option Int := none
  deriving DecidableEq, Repr

namespace Coordinates

/-- The coordinates of a known place. -/
def ofPosition (p : Position) : Coordinates := ⟨some p.offset, some p.line, some p.column⟩

/-- The place that coordinates with a line stand for; the others count as zero if missing. -/
def position? (c : Coordinates) : Option Position :=
  c.line.map fun line => ⟨c.offset.getD 0, line, c.column.getD 0⟩

end Coordinates

/-- A message and, if the fault is located, its coordinates. -/
structure Notice where
  message : String
  place : Option Coordinates := none
  deriving DecidableEq, Repr

namespace Notice

/-- A message at a place, or at none. -/
def atPlace (message : String) (p : Option Position) : Notice :=
  ⟨message, p.map Coordinates.ofPosition⟩

/-- The known coordinates of a notice. -/
def coordinates (n : Notice) : Coordinates := n.place.getD {}

/-- Whether a notice is located. -/
def isLocated (n : Notice) : Bool := n.place.isSome

/-- Locates a notice; the first coordinates given stay. -/
def locate (n : Notice) (place : Coordinates) : Notice :=
  if n.isLocated then n else { n with place := some place }

/-- The text shown to the user: the message, with the line and the column if they are known. -/
def text (n : Notice) : String :=
  match n.coordinates.line, n.coordinates.column with
  | none, _ => n.message
  | some line, none => s!"{n.message} (line {line})"
  | some line, some column => s!"{n.message} at line {line}, col {column}"

end Notice

end BraceScript
