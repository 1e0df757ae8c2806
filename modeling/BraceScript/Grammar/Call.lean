import BraceScript.Grammar

/-!
# Grammar calls

Every action on a token cursor as a value, so that histories of calls can be run and spoken
about. A call may come at any token and after failures of earlier ones.
-/

namespace BraceScript.Grammar

/-- An action on a token cursor. -/
inductive Call where
  | peek (offset : Int)
  | advance
  | check (kinds : List Kind)
  | accept (kinds : List Kind)
  | expect (kind : Kind)
  | program
  | statements (stop : Kind)
  | statement
  | terminator
  | declaration
  | printStatement
  | conditional
  | loop
  | condition
  | block
  | expression
  | binary (least : Int)
  | unary
  | primary
  deriving DecidableEq, Repr

/-- What a call gives back. -/
inductive Reply where
  | nothing
  | token (t : Token)
  | flag (b : Bool)
  | node (n : Node)
  | nodes (ns : List Node)
  deriving Repr

/-- Why a call fails: a parse error, or a request to look at a place where no token is. -/
inductive CallError where
  | parse (e : ParseError)
  | outOfRange
  deriving DecidableEq, Repr

/-- What the caller is told about a failed call. -/
def CallError.notice : CallError → Notice
  | parse e => e.notice
  | outOfRange => { message := "list index out of range" }

/-- The outcome of an action on a cursor as the outcome of a call. -/
def reply {α : Type} (action : ParseM α) (wrap : α → Reply) (c : Cursor) :
    Except CallError Reply × Cursor :=
  match action c with
  | .ok a c => (.ok (wrap a), c)
  | .error e c => (.error (.parse e), c)

/-- Makes a call and gives its outcome and the cursor after it. No operator is of level zero or
    below, so that a level below zero asks for the same operators as zero. -/
def call (c : Cursor) : Call → Except CallError Reply × Cursor
  | .peek offset =>
    match c.peek? offset with
    | some t => (.ok (.token t), c)
    | none => (.error .outOfRange, c)
  | .advance => reply Grammar.advance .token c
  | .check kinds => reply (Grammar.check kinds) .flag c
  | .accept kinds => reply (Grammar.accept kinds) .flag c
  | .expect kind => reply (Grammar.expect kind) .token c
  | .program => reply Grammar.program .node c
  | .statements stop => reply (Grammar.statements depthLimit stop) .nodes c
  | .statement => reply (Grammar.statement depthLimit) .node c
  | .terminator => reply Grammar.terminator (fun _ => .nothing) c
  | .declaration => reply (Grammar.declaration depthLimit) .node c
  | .printStatement => reply (Grammar.printStatement depthLimit) .node c
  | .conditional => reply (Grammar.conditional depthLimit) .node c
  | .loop => reply (Grammar.loop depthLimit) .node c
  | .condition => reply (Grammar.condition depthLimit) .node c
  | .block => reply (Grammar.block depthLimit) .node c
  | .expression => reply (Grammar.expression depthLimit) .node c
  | .binary least => reply (Grammar.binary depthLimit least.toNat) .node c
  | .unary => reply (Grammar.unary depthLimit) .node c
  | .primary => reply (Grammar.primary depthLimit) .node c

end BraceScript.Grammar
