import BraceScript.Fault

/-!
# Operators

What the operators do to values. `+` joins texts as soon as one operand is a string; all other
arithmetic is on numbers. Comparisons are between values of one kind, and only equality is
between booleans. The logical operators give a boolean and always have both operands.
-/

namespace BraceScript

/-- The comparisons. -/
inductive Comparison where
  | equal
  | notEqual
  | less
  | lessEqual
  | greater
  | greaterEqual
  deriving DecidableEq, Repr

namespace Comparison

/-- The spelling of a comparison. -/
def text : Comparison → String
  | equal => "=="
  | notEqual => "!="
  | less => "<"
  | lessEqual => "<="
  | greater => ">"
  | greaterEqual => ">="

/-- A comparison of two numbers; nothing but inequality holds of an undefined number. -/
def holdsOfNumbers (c : Comparison) (x y : Float) : Bool :=
  match c with
  | equal => x == y
  | notEqual => x != y
  | less => x < y
  | lessEqual => x ≤ y
  | greater => y < x
  | greaterEqual => y ≤ x

/-- A comparison of two strings, which are in the order of their code points. -/
def holdsOfStrings (c : Comparison) (s t : String) : Bool :=
  match c with
  | equal => s = t
  | notEqual => s ≠ t
  | less => s < t
  | lessEqual => !(t < s : Bool)
  | greater => t < s
  | greaterEqual => !(s < t : Bool)

/-- A comparison of two values. -/
def apply (c : Comparison) (lhs rhs : Value) : Except Fault Bool :=
  match lhs, rhs with
  | .number x, .number y => .ok (c.holdsOfNumbers x y)
  | .string s, .string t => .ok (c.holdsOfStrings s t)
  | .boolean a, .boolean b =>
    match c with
    | equal => .ok (a = b)
    | notEqual => .ok (a ≠ b)
    | _ => .error (.typeMismatch c.text [.boolean, .boolean])
  | lhs, rhs => .error (.typeMismatch c.text [lhs.kind, rhs.kind])

end Comparison

/-- The binary operators. -/
inductive BinaryOp where
  | add
  | subtract
  | multiply
  | divide
  | compare (c : Comparison)
  | and
  | or
  deriving DecidableEq, Repr

namespace BinaryOp

/-- Every binary operator. -/
def all : List BinaryOp :=
  [add, subtract, multiply, divide, compare .equal, compare .notEqual, compare .less,
   compare .lessEqual, compare .greater, compare .greaterEqual, and, or]

/-- The spelling of an operator. -/
def text : BinaryOp → String
  | add => "+"
  | subtract => "-"
  | multiply => "*"
  | divide => "/"
  | compare c => c.text
  | and => "&&"
  | or => "||"

/-- The operator with a given spelling. -/
def ofText? (s : String) : Option BinaryOp := all.find? fun op => op.text = s

/-- The value of two operands under an operation on numbers. -/
def arithmetic (op : BinaryOp) (f : Float → Float → Except Fault Float) (lhs rhs : Value) :
    Except Fault Value :=
  match lhs, rhs with
  | .number x, .number y => .number <$> f x y
  | lhs, rhs => .error (.typeMismatch op.text [lhs.kind, rhs.kind])

/-- The value of an operator on two operands. -/
def apply (op : BinaryOp) (lhs rhs : Value) : Except Fault Value :=
  match op with
  | add =>
    if lhs.kind = .string || rhs.kind = .string then .ok (.string (lhs.text ++ rhs.text))
    else op.arithmetic (fun x y => .ok (x + y)) lhs rhs
  | subtract => op.arithmetic (fun x y => .ok (x - y)) lhs rhs
  | multiply => op.arithmetic (fun x y => .ok (x * y)) lhs rhs
  | divide =>
    op.arithmetic (fun x y => if y == 0 then .error .divisionByZero else .ok (x / y)) lhs rhs
  | compare c => .boolean <$> c.apply lhs rhs
  | and => .ok (.boolean (lhs.isTrue && rhs.isTrue))
  | or => .ok (.boolean (lhs.isTrue || rhs.isTrue))

end BinaryOp

/-- The value of the operator with a given spelling on two operands. -/
def applyBinary (op : String) (lhs rhs : Value) : Except Fault Value :=
  match BinaryOp.ofText? op with
  | some op => op.apply lhs rhs
  | none => .error (.unknownOperator op)

/-- The value of the prefix operator with a given spelling on an operand. -/
def applyUnary (op : String) (operand : Value) : Except Fault Value :=
  if op = "!" then .ok (.boolean (!operand.isTrue))
  else if op = "-" then
    match operand with
    | .number x => .ok (.number (-x))
    | operand => .error (.typeMismatch op [operand.kind])
  else .error (.unsupportedUnary op)

end BraceScript
