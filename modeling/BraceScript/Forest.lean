import BraceScript.Fault
import BraceScript.Scope

/-!
# Forests of frames

Frames that are made one after another, each inside an earlier one or on its own. Frames share
their parents, so that a change made through one frame can be seen through others.

A frame that has not got a name asks the frame it is inside, from inside its own answer, so that an
operation needs room for as many frames as it comes to. With too little room it is given up.
-/

namespace BraceScript

/-- A frame of a forest: the numbers of the frames it is inside, the nearest first, and its own
    bindings. -/
structure ForestFrame where
  outer : List Nat
  own : Frame

/-- Why an operation on a frame fails: no frame that it comes to has the name, or it comes to more
    frames than can be asked from inside one another. -/
inductive FrameError where
  | undefinedVariable (name : String)
  | recursionLimit
  deriving DecidableEq, Repr

/-- The message of a failed operation. -/
def FrameError.message : FrameError → String
  | undefinedVariable name => (Fault.undefinedVariable name).message
  | recursionLimit => "maximum recursion depth exceeded"

/-- Frames numbered in the order in which they were made. -/
abbrev Forest := Array ForestFrame

namespace Forest

/-- The numbers of a frame and of those it is inside, the nearest first. -/
def path (forest : Forest) (index : Nat) : List Nat :=
  match forest[index]? with
  | some frame => index :: frame.outer
  | none => []

/-- The own bindings of a frame. -/
def own (forest : Forest) (index : Nat) : Frame :=
  match forest[index]? with
  | some frame => frame.own
  | none => []

/-- The chain of frames that a frame sees. -/
def scope (forest : Forest) (index : Nat) : Scope := (path forest index).map (own forest)

/-- Makes a frame, inside another one or on its own. -/
def grow (forest : Forest) (parent : Option Nat) : Forest :=
  forest.push ⟨(parent.map (path forest)).getD [], []⟩

/-- Binds a name in a frame's own bindings. -/
def define (forest : Forest) (index : Nat) (name : String) (value : Value) : Forest :=
  forest.modify index fun frame => { frame with own := frame.own.put name value }

/-- The number of the nearest frame that binds a name. -/
def binder? (forest : Forest) (index : Nat) (name : String) : Option Nat :=
  (path forest index).find? fun i => Frame.binds (own forest i) name

/-- Fails if there is room for fewer frames than an operation comes to. -/
def visit (room frames : Nat) : Except FrameError Unit := do
  if room < frames then throw .recursionLimit

/-- The value of a name as a frame sees it. -/
def get (forest : Forest) (room index : Nat) (name : String) : Except FrameError Value := do
  visit room (Scope.reach (scope forest index) name)
  match Scope.get? (scope forest index) name with
  | some value => return value
  | none => throw (.undefinedVariable name)

/-- Changes a name in the nearest frame that binds it. -/
def set (forest : Forest) (room index : Nat) (name : String) (value : Value) :
    Except FrameError Forest := do
  visit room (Scope.reach (scope forest index) name)
  match binder? forest index name with
  | some i => return define forest i name value
  | none => throw (.undefinedVariable name)

/-- Whether a frame sees a name. -/
def has (forest : Forest) (room index : Nat) (name : String) : Except FrameError Bool := do
  visit room (Scope.reach (scope forest index) name)
  return Scope.binds (scope forest index) name

/-- All bindings that a frame sees; every frame it is inside is asked. -/
def snapshot (forest : Forest) (room index : Nat) : Except FrameError Frame := do
  visit room (scope forest index).length
  return Scope.snapshot (scope forest index)

end Forest

end BraceScript
