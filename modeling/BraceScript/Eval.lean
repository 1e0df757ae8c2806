import BraceScript.Literal
import BraceScript.Node
import BraceScript.Number.Reader
import BraceScript.Operator
import BraceScript.Scope

/-!
# Evaluation

How a tree is run. Expressions give a value; statements change the scope and the output, and give
`unit`. The cancel signal is polled before each statement of a program or block and before each
test of a loop's condition. A fault is reported at the innermost tree around it that has a place.

Evaluation is given room, which is used up by what goes on inside one another, so that a tree
nested too deeply halts instead of exhausting the machine. Entering a tree takes a unit and
choosing its rule another; a list of statements, a print statement and a block take one each, and
the other statements and the operations two. A search for a name takes a unit for each frame it
looks at. A chain of operators is folded in one step, however long it is. Loops are given the
number of rounds that each may take.

How trees are shown is left open. A run needs it for one fault, that of a tree in the place of an
operator, and a tree that was parsed has none there.
-/

namespace BraceScript

/-- How a tree is shown, and the room that it takes to show it. -/
structure Display where
  text : String
  units : Nat

/-- How a run is made. -/
structure Settings where
  /-- Whether each block has a frame of its own. -/
  blockScoped : Bool := false
  /-- How many polls of the cancel signal find it not set; `none` if it never is. -/
  cancelAfter : Option Nat := none
  /-- Whether printed values are collected. -/
  recording : Bool := true
  /-- How many rounds each loop may take. -/
  loopFuel : Nat := 1000000000000000
  /-- How a tree is shown that stands where an operator belongs. -/
  display : Node → Display := fun _ => ⟨"", 0⟩

/-- The state of a run: the frames, the values printed, and how often the cancel signal has been
    polled. -/
structure Machine where
  scope : Scope
  output : Array Value
  polls : Nat

/-- An action of a run. -/
abbrev EvalM := EStateM Halt Machine

namespace Eval

/-! ## Actions -/

/-- Stops with a fault whose place is not known yet. -/
def fail {α : Type} (cause : Fault) : EvalM α := throw (.fault cause none)

/-- The value of an operation, or its fault. -/
def lift {α : Type} : Except Fault α → EvalM α
  | .ok a => return a
  | .error cause => fail cause

/-- Stops if there is less room than a number of units. -/
def demand (units room : Nat) : EvalM Unit := do
  if room < units then throw .tooDeep

/-- Gives the faults of an action that have no place yet the place of a tree; the first place given
    stays. -/
def locating {α : Type} (place : Node → Option Position) (n : Node) (action : EvalM α) : EvalM α :=
  fun m =>
    match action m with
    | .error (.fault cause none) m => .error (.fault cause (place n)) m
    | result => result

/-- Polls the cancel signal, and stops if it is set. -/
def poll (settings : Settings) : EvalM Unit := do
  let m ← get
  set { m with polls := m.polls + 1 }
  match settings.cancelAfter with
  | some count => if count ≤ m.polls then fail .cancelled
  | none => return

/-- The value of a name. -/
def lookup (room : Nat) (name : String) : EvalM Value := do
  let scope := (← get).scope
  demand (Scope.reach scope name) room
  match Scope.get? scope name with
  | some value => return value
  | none => fail (.undefinedVariable name)

/-- Binds a name in the innermost frame. -/
def define (name : String) (value : Value) : EvalM Unit :=
  modify fun m => { m with scope := Scope.define m.scope name value }

/-- Stops unless some frame binds a name. -/
def requireBound (room : Nat) (name : String) : EvalM Unit := do
  let scope := (← get).scope
  demand (Scope.reach scope name) room
  if !Scope.binds scope name then fail (.undefinedVariable name)

/-- Changes a name in the nearest frame that binds it. -/
def assign (room : Nat) (name : String) (value : Value) : EvalM Unit := do
  let m ← get
  demand (Scope.reach m.scope name) room
  match Scope.set? m.scope name value with
  | some scope => set { m with scope }
  | none => fail (.undefinedVariable name)

/-- Adds a value to the output. -/
def record (value : Value) : EvalM Unit :=
  modify fun m => { m with output := m.output.push value }

/-- Runs a block in a frame of its own if the run is scoped; the frame is dropped however the
    block ends. -/
def inBlock (settings : Settings) (action : EvalM Unit) : EvalM Unit :=
  if settings.blockScoped then
    fun m =>
      match action { m with scope := [] :: m.scope } with
      | .ok a m => .ok a { m with scope := m.scope.tail }
      | .error halt m => .error halt { m with scope := m.scope.tail }
  else action

/-- Runs statements in order, with a poll before each. -/
def runAll (settings : Settings) (run : Node → EvalM Value) : List Node → EvalM Unit
  | [] => return
  | n :: rest => do
    poll settings
    discard (run n)
    runAll settings run rest

/-- Runs a loop, with a poll before each test of its condition. -/
def runWhile (settings : Settings) (condition : EvalM Value) (body : EvalM Unit) : Nat → EvalM Unit
  | 0 => throw .outOfFuel
  | rounds + 1 => do
    poll settings
    if (← condition).isTrue then
      body
      runWhile settings condition body rounds

/-- The text of an operator leaf. A tree in its place is shown in the fault. -/
def operatorText (settings : Settings) (room : Nat) : Node → EvalM String
  | .leaf l => return l.text
  | n => do
    demand (settings.display n).units room
    fail (.operatorExpected (settings.display n).text)

/-- Folds a chain of operators to the left: each right operand is run, then its operator is
    applied. A fault of the application is reported at the operator. -/
def foldOperators (settings : Settings) (room : Nat) (run : Node → EvalM Value) :
    Value → List (List Node) → EvalM Value
  | left, [] => return left
  | left, [op, right] :: rest => do
    let value ← run right
    let result ← locating Node.position? op do
      lift (applyBinary (← operatorText settings room op) left value)
    foldOperators settings room run result rest
  | _, _ :: _ => fail (.malformedNode Label.binary.name)

/-- The value of a leaf. Finding the rule for its kind takes a unit, and reading a literal four
    more. -/
def evalLeaf (room : Nat) (l : Leaf) : EvalM Value := do
  demand 1 room
  match l.kind with
  | .token .number =>
    demand 5 room
    match Number.read? l.text with
    | some x => return .number x
    | none => fail (.unreadableNumber l.text)
  | .token .string =>
    demand 5 room
    return .string (Literal.decode l.text)
  | .token .identifier => lookup (room - 1) l.text
  | kind => fail (.unhandledLeaf kind.name l.text)

/-- The name that a statement binds. -/
def targetName (statement : Binding) : Node → EvalM String
  | .leaf l => if l.kind = .token .identifier then return l.text
    else fail (.targetNotIdentifier statement)
  | .branch _ _ => fail (.targetNotIdentifier statement)

/-! ## Trees -/

mutual

/-- The value of a tree; faults inside it without a place get its place. -/
def eval (settings : Settings) : Nat → Node → EvalM Value
  | 0, _ => throw .tooDeep
  | room + 1, n => locating Node.faultPosition? n (step settings room n)

/-- The value of a tree by the rule for its label. -/
def step (settings : Settings) : Nat → Node → EvalM Value
  | 0, _ => throw .tooDeep
  | room + 1, .leaf l => evalLeaf room l
  | room + 1, .branch label children =>
    match label, children with
    | .program, children => do
      statements settings room children
      return .unit
    | .print, value :: _ => do
      print settings room value
      return .unit
    | .expression, value :: _ => do
      discard (eval settings room value)
      return .unit
    | .block, _ => fail (.unknownNode Label.block.name)
    | .other name, _ => fail (.unknownNode name)
    | label, children => compound settings room label children

/-- Runs statements in order. -/
def statements (settings : Settings) : Nat → List Node → EvalM Unit
  | 0, _ => throw .tooDeep
  | room + 1, children => runAll settings (eval settings room) children

/-- Prints the value of a tree. -/
def print (settings : Settings) : Nat → Node → EvalM Unit
  | 0, _ => throw .tooDeep
  | room + 1, n => do
    let value ← eval settings room n
    if settings.recording then record value else fail .printOutsideRun

/-- Runs the statements of a block. -/
def block (settings : Settings) : Nat → Node → EvalM Unit
  | 0, _ => throw .tooDeep
  | room + 1, n => inBlock settings (statements settings room n.children)

/-- The value of a binding statement, of a statement with blocks or of an operation. -/
def compound (settings : Settings) : Nat → Label → List Node → EvalM Value
  | room + 2, label, children =>
    match label, children with
    | .declaration, [target, value] => do
      let name ← targetName .declaration target
      define name (← eval settings room value)
      return .unit
    | .assignment, [target, value] => do
      let name ← targetName .assignment target
      requireBound room name
      let value ← eval settings room value
      assign room name value
      return .unit
    | .conditional, [condition, body] => do
      if (← eval settings room condition).isTrue then
        block settings room body
      return .unit
    | .conditional, [condition, body, alternative] => do
      if (← eval settings room condition).isTrue then
        block settings room body
      else
        block settings room alternative
      return .unit
    | .conditional, _ => fail (.malformedControl .conditional)
    | .loop, [condition, .branch .block body] => do
      runWhile settings (eval settings room condition)
        (block settings room (.branch .block body)) settings.loopFuel
      return .unit
    | .loop, _ => fail (.malformedControl .loop)
    | .binary, left :: rest => do
      let (first, operations) := left.spine [rest]
      foldOperators settings room (eval settings room) (← eval settings room first) operations
    | .unary, [.leaf op, operand] => do
      lift (applyUnary op.text (← eval settings room operand))
    | label, _ => fail (.malformedNode label.name)
  | _, _, _ => throw .tooDeep

end

/-- The room that a run starts with. -/
def depthLimit : Nat := 990

end Eval

end BraceScript
