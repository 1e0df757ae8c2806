import BraceScript.Text.Quoted
import BraceScript.Value

/-!
# Frames and scopes

A frame holds the bindings of one block in the order in which its names were first defined. A
scope is a chain of frames, the innermost first: reading and assigning a name go to the nearest
frame that binds it, and a definition goes to the innermost frame.
-/

namespace BraceScript

/-- Bindings of names to values, each name at most once, in the order of first definition. -/
abbrev Frame := List (String × Value)

namespace Frame

/-- The value of a name. -/
def get? (frame : Frame) (name : String) : Option Value := frame.lookup name

/-- Whether a name is bound. -/
def binds (frame : Frame) (name : String) : Bool := (get? frame name).isSome

/-- Binds a name: in its place if it is bound, at the end if it is new. -/
def put : Frame → String → Value → Frame
  | [], name, value => [(name, value)]
  | (other, old) :: rest, name, value =>
    if name == other then (other, value) :: rest else (other, old) :: put rest name value

/-- The first frame with the bindings of the second put over its own. -/
def overlay (outer inner : Frame) : Frame :=
  inner.foldl (fun frame entry => put frame entry.1 entry.2) outer

/-- The bindings in the order of their names. -/
def sorted (frame : Frame) : Frame := frame.mergeSort fun a b => a.1 ≤ b.1

/-- The display of a frame. -/
def display (frame : Frame) : String :=
  let entries := frame.map fun entry => Text.quoted entry.1 ++ ": " ++ entry.2.display
  "Frame(\x7b" ++ ", ".intercalate entries ++ "\x7d)"

/-- A line for each binding in the order of the names. -/
def listing (frame : Frame) : List String :=
  (sorted frame).map fun entry => entry.1 ++ " = " ++ entry.2.display

end Frame

/-- A chain of frames, the innermost first. -/
abbrev Scope := List Frame

namespace Scope

/-- The value of a name in the nearest frame that binds it. -/
def get? : Scope → String → Option Value
  | [], _ => none
  | frame :: outer, name => (Frame.get? frame name).or (get? outer name)

/-- Whether some frame binds a name. -/
def binds (scope : Scope) (name : String) : Bool := scope.any fun frame => Frame.binds frame name

/-- How many frames a search for a name looks at: those up to the nearest frame that binds it, or
    all of them if none does. -/
def reach : Scope → String → Nat
  | [], _ => 0
  | frame :: outer, name => if Frame.binds frame name then 1 else reach outer name + 1

/-- Binds a name in the innermost frame. -/
def define : Scope → String → Value → Scope
  | [], name, value => [[(name, value)]]
  | frame :: outer, name, value => Frame.put frame name value :: outer

/-- Changes a name in the nearest frame that binds it, if there is one. -/
def set? : Scope → String → Value → Option Scope
  | [], _, _ => none
  | frame :: outer, name, value =>
    if Frame.binds frame name then some (Frame.put frame name value :: outer)
    else (set? outer name value).map (frame :: ·)

/-- All visible bindings in one frame, inner bindings over outer ones. -/
def snapshot : Scope → Frame
  | [] => []
  | frame :: outer => Frame.overlay (snapshot outer) frame

end Scope

end BraceScript
