import BraceScript.Notice
import BraceScript.Value

/-!
# Run-time faults

The reasons why running a program stops. Some of them arise only from trees made by hand.
-/

namespace BraceScript

/-- The two statements that bind a name. -/
inductive Binding where
  | declaration
  | assignment
  deriving DecidableEq, Repr

/-- How error messages speak of a binding statement. -/
def Binding.spelling : Binding → String
  | declaration => "var"
  | assignment => "assignment"

/-- The two statements that have a block. -/
inductive Control where
  | conditional
  | loop
  deriving DecidableEq, Repr

/-- How error messages speak of a statement with a block. -/
def Control.spelling : Control → String
  | conditional => "if"
  | loop => "while"

/-- Why a program stops. -/
inductive Fault where
  | undefinedVariable (name : String)
  | typeMismatch (op : String) (operands : List ValueKind)
  | divisionByZero
  | cancelled
  | unknownNode (label : String)
  | unhandledLeaf (kind text : String)
  | targetNotIdentifier (statement : Binding)
  | malformedControl (statement : Control)
  | unsupportedUnary (op : String)
  | unknownOperator (op : String)
  | operatorExpected (display : String)
  | printOutsideRun
  | malformedNode (label : String)
  | unreadableNumber (text : String)
  deriving DecidableEq, Repr

namespace Fault

/-- The message of a fault. -/
def message : Fault → String
  | undefinedVariable name => "Undefined variable '" ++ name ++ "'"
  | typeMismatch op operands =>
    "Operator '" ++ op ++ "' not supported for " ++
      " and ".intercalate (operands.map ValueKind.name)
  | divisionByZero => "Division by zero"
  | cancelled => "Evaluation cancelled"
  | unknownNode label => "Unknown node: " ++ label
  | unhandledLeaf kind text => "Unhandled token " ++ kind ++ ":" ++ text
  | targetNotIdentifier statement => statement.spelling ++ " target must be an identifier"
  | malformedControl statement => "Malformed " ++ statement.spelling ++ " statement"
  | unsupportedUnary op => "Unsupported unary op " ++ op
  | unknownOperator op => "Unknown operator " ++ op
  | operatorExpected display => "Expected operator token, got " ++ display
  | printOutsideRun => "print used outside of a run"
  | malformedNode label => "Malformed node: " ++ label
  | unreadableNumber text => "Malformed number: " ++ text

end Fault

/-- How running a program comes to an early end: by a fault, whose place may not be known yet; by
    nesting too deeply; or by a loop that has used up the rounds it was given. -/
inductive Halt where
  | fault (cause : Fault) (place : Option Position)
  | tooDeep
  | outOfFuel
  deriving DecidableEq, Repr

/-- What the user is told about an early end. -/
def Halt.notice : Halt → Notice
  | fault cause place => .atPlace cause.message place
  | tooDeep => { message := "Program nested too deeply to evaluate" }
  | outOfFuel => { message := "Loop out of rounds" }

end BraceScript
