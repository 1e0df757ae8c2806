import BraceScript.Proofs.Eval.Frames
import BraceScript.Proofs.Eval.Rounds
import BraceScript.Proofs.Grammar.Shape
import BraceScript.Proofs.Number.Numeral

/-!
# Source programs fail in ordinary ways only

The evaluator has rules for trees made by hand: branches of unknown labels, leaves of any kind and
operators of any spelling. None of these rules is reached by the tree of a source text. Its run
ends, or it stops for one of the ordinary reasons: a name without a value, operands of the wrong
kind, a division by zero, the cancel signal, nesting that is too deep, or a loop that has used up
the rounds it was given, however many these are. All the while names and output hold numbers,
strings and booleans only.

A run that ends without a failure can still leave its caller with an error, which is none of these:
the bindings are collected outside of what guards the run, and a chain of more frames than there is
room for cannot be collected. This is the only other error, and the length of the chain alone
decides on it.
-/

namespace BraceScript

/-! ## Ordinary ends and data -/

/-- The faults that source programs can have. -/
inductive Fault.IsOrdinary : Fault → Prop
  | undefinedVariable (name : String) : IsOrdinary (.undefinedVariable name)
  | typeMismatch (op : String) (operands : List ValueKind) : IsOrdinary (.typeMismatch op operands)
  | divisionByZero : IsOrdinary .divisionByZero
  | cancelled : IsOrdinary .cancelled

/-- The early ends that source programs can have. -/
inductive Halt.IsOrdinary : Halt → Prop
  | fault {cause : Fault} (place : Option Position) :
    cause.IsOrdinary → IsOrdinary (.fault cause place)
  | tooDeep : IsOrdinary .tooDeep
  | outOfFuel : IsOrdinary .outOfFuel

/-- The failures that source texts can have. -/
inductive Failure.IsOrdinary : Failure → Prop
  | unexpectedCharacter (c : Char) (place : Position) :
    IsOrdinary (.scan (.unexpectedCharacter c place))
  | unterminatedString (start : Position) : IsOrdinary (.scan (.unterminatedString start))
  | unterminatedComment (start : Position) : IsOrdinary (.scan (.unterminatedComment start))
  | expected (kind : Kind) (found : Token) : IsOrdinary (.parse (.expected kind found))
  | unexpected (found : Token) (context : Context) :
    IsOrdinary (.parse (.unexpected found context))
  | unexpectedEnd (found : Token) : IsOrdinary (.parse (.unexpectedEnd found))
  | tooDeep (found : Token) : IsOrdinary (.parse (.tooDeep found))
  | halt {reason : Halt} : reason.IsOrdinary → IsOrdinary (.halt reason)

/-- The errors of source texts, of which deep nesting of their own is one. -/
inductive RunError.IsOrdinary : RunError → Prop
  | failure {f : Failure} : f.IsOrdinary → IsOrdinary (.failure f)

/-- Whether a value is a number, a string or a boolean. -/
def Value.IsDatum (v : Value) : Prop := v.kind ∈ [.number, .string, .boolean]

theorem Value.number_isDatum (x : Float) : (Value.number x).IsDatum := by
  simp [IsDatum, kind]

theorem Value.string_isDatum (s : String) : (Value.string s).IsDatum := by
  simp [IsDatum, kind]

theorem Value.boolean_isDatum (b : Bool) : (Value.boolean b).IsDatum := by
  simp [IsDatum, kind]

/-- Every name is bound to a number, a string or a boolean. -/
def Scope.HoldsData (scope : Scope) : Prop := ∀ frame ∈ scope, ∀ entry ∈ frame, entry.2.IsDatum

/-- What the caller of a run is given holds numbers, strings and booleans only. -/
structure RunResult.HoldsData (result : RunResult) : Prop where
  output : ∀ v ∈ result.output, v.IsDatum
  bindings : ∀ entry ∈ result.bindings, entry.2.IsDatum

/-- Names and output hold numbers, strings and booleans only. -/
structure Machine.HoldsData (m : Machine) : Prop where
  scope : Scope.HoldsData m.scope
  output : ∀ v ∈ m.output, v.IsDatum

/-! ## Scopes -/

theorem Frame.put_data {frame : Frame} {name : String} {value : Value}
    (data : ∀ entry ∈ frame, entry.2.IsDatum) (datum : value.IsDatum) :
    ∀ entry ∈ Frame.put frame name value, entry.2.IsDatum := by
  induction frame with
  | nil => simpa [Frame.put] using datum
  | cons first rest ih =>
    obtain ⟨here, others⟩ := List.forall_mem_cons.mp data
    rw [Frame.put]
    split
    · exact List.forall_mem_cons.mpr ⟨datum, others⟩
    · exact List.forall_mem_cons.mpr ⟨here, ih others⟩

theorem Frame.get?_data {frame : Frame} {name : String} {value : Value}
    (data : ∀ entry ∈ frame, entry.2.IsDatum) (found : Frame.get? frame name = some value) :
    value.IsDatum := by
  obtain ⟨before, after, split, -⟩ := List.lookup_eq_some_iff.mp found
  exact data (name, value) (by simp [split])

theorem Frame.overlay_data {outer inner : Frame} (data : ∀ entry ∈ outer, entry.2.IsDatum)
    (data' : ∀ entry ∈ inner, entry.2.IsDatum) :
    ∀ entry ∈ Frame.overlay outer inner, entry.2.IsDatum := by
  induction inner generalizing outer with
  | nil => exact data
  | cons first rest ih =>
    obtain ⟨here, others⟩ := List.forall_mem_cons.mp data'
    exact ih (put_data data here) others

namespace Scope.HoldsData

variable {scope : Scope} {frame : Frame} {name : String} {value : Value}

theorem snapshot (data : HoldsData scope) : ∀ entry ∈ Scope.snapshot scope, entry.2.IsDatum := by
  induction scope with
  | nil => simp [Scope.snapshot]
  | cons frame outer ih =>
    obtain ⟨inner, others⟩ := List.forall_mem_cons.mp data
    exact Frame.overlay_data (ih others) inner

theorem define (data : HoldsData scope) (datum : value.IsDatum) :
    HoldsData (Scope.define scope name value) := by
  cases scope with
  | nil => simpa [Scope.define, HoldsData] using datum
  | cons frame outer =>
    obtain ⟨inner, others⟩ := List.forall_mem_cons.mp data
    exact List.forall_mem_cons.mpr ⟨Frame.put_data inner datum, others⟩

theorem set? {changed : Scope} (data : HoldsData scope) (datum : value.IsDatum)
    (found : Scope.set? scope name value = some changed) : HoldsData changed := by
  induction scope generalizing changed with
  | nil => simp [Scope.set?] at found
  | cons frame outer ih =>
    obtain ⟨inner, others⟩ := List.forall_mem_cons.mp data
    rw [Scope.set?] at found
    split at found
    · obtain ⟨⟩ := found
      exact List.forall_mem_cons.mpr ⟨Frame.put_data inner datum, others⟩
    · obtain ⟨rest, later, rfl⟩ := Option.map_eq_some_iff.mp found
      exact List.forall_mem_cons.mpr ⟨inner, ih others later⟩

theorem get? (data : HoldsData scope) (found : Scope.get? scope name = some value) :
    value.IsDatum := by
  induction scope with
  | nil => simp [Scope.get?] at found
  | cons frame outer ih =>
    obtain ⟨inner, others⟩ := List.forall_mem_cons.mp data
    rw [Scope.get?, Option.or_eq_some_iff] at found
    rcases found with here | ⟨-, later⟩
    · exact Frame.get?_data inner here
    · exact ih others later

end Scope.HoldsData

/-! ## Operators -/

open Lexical Phrase Node

/-- The result of an operation is a number, a string or a boolean, or an ordinary fault. -/
def Ordinarily : Except Fault Value → Prop
  | .ok v => v.IsDatum
  | .error cause => cause.IsOrdinary

theorem arithmetic_ordinarily {op : BinaryOp} {f : Float → Float → Except Fault Float}
    (ordinary : ∀ x y cause, f x y = .error cause → cause.IsOrdinary) (lhs rhs : Value) :
    Ordinarily (op.arithmetic f lhs rhs) := by
  unfold BinaryOp.arithmetic
  split
  · next x y =>
    cases result : f x y with
    | ok z => exact Value.number_isDatum z
    | error cause => exact ordinary x y cause result
  · exact .typeMismatch _ _

theorem comparison_ordinary {c : Comparison} {lhs rhs : Value} {cause : Fault}
    (failed : c.apply lhs rhs = .error cause) : cause.IsOrdinary := by
  unfold Comparison.apply at failed
  split at failed
  · simp at failed
  · simp at failed
  · split at failed
    · simp at failed
    · simp at failed
    · obtain ⟨⟩ := failed
      exact .typeMismatch _ _
  · obtain ⟨⟩ := failed
    exact .typeMismatch _ _

theorem apply_ordinarily (op : BinaryOp) (lhs rhs : Value) : Ordinarily (op.apply lhs rhs) := by
  cases op with
  | add =>
    simp only [BinaryOp.apply]
    split
    · exact Value.string_isDatum _
    · exact arithmetic_ordinarily (by simp) lhs rhs
  | subtract => exact arithmetic_ordinarily (by simp) lhs rhs
  | multiply => exact arithmetic_ordinarily (by simp) lhs rhs
  | divide =>
    refine arithmetic_ordinarily ?_ lhs rhs
    intro x y cause failed
    split at failed
    · obtain ⟨⟩ := failed
      exact .divisionByZero
    · simp at failed
  | compare c =>
    simp only [BinaryOp.apply]
    cases result : c.apply lhs rhs with
    | ok b => exact Value.boolean_isDatum b
    | error cause => exact comparison_ordinary result
  | and => exact Value.boolean_isDatum _
  | or => exact Value.boolean_isDatum _

/-- A lexeme of the kind of an operator is one of its spellings. -/
theorem spelling_of_lexeme {kind : Kind} {text : List Char} (lexeme : Lexeme kind text)
    (isOperator : kind ∈ Kind.operators.map (·.2)) :
    (String.ofList text, kind) ∈ Kind.operators := by
  have keywords : ∀ entry ∈ Kind.keywords, entry.2 ∉ Kind.operators.map (·.2) := by decide
  cases lexeme with
  | plain plain =>
    cases plain with
    | number => exact absurd isOperator (by decide)
    | keyword _ member => exact absurd isOperator (keywords _ member)
    | identifier => exact absurd isOperator (by decide)
    | operator member => exact member
  | string => exact absurd isOperator (by decide)

/-- The spellings of the binary operators of the grammar are those of operations on values. -/
theorem applyBinary_ordinarily {level : Nat} {kind : Kind} {text : String}
    (isOperator : kind ∈ operatorsAt level) (lexeme : Lexeme kind text.toList) (lhs rhs : Value) :
    Ordinarily (applyBinary text lhs rhs) := by
  have known : ∀ entry ∈ Kind.operators, entry.2.level?.isSome →
      (BinaryOp.ofText? entry.1).isSome := by
    decide
  have hasLevel : kind.level?.isSome := by simp [mem_operatorsAt_iff.mp isOperator]
  have listed : kind ∈ Kind.operators.map (·.2) := by
    revert hasLevel
    cases kind <;> decide
  have spelled := spelling_of_lexeme lexeme listed
  rw [String.ofList_toList] at spelled
  obtain ⟨op, found⟩ := Option.isSome_iff_exists.mp (known _ spelled hasLevel)
  rw [applyBinary, found]
  exact apply_ordinarily op lhs rhs

/-- The spellings of the prefix operators of the grammar are those of operations on values. -/
theorem applyUnary_ordinarily {kind : Kind} {text : String} (isOperator : kind ∈ unaryOperators)
    (lexeme : Lexeme kind text.toList) (operand : Value) :
    Ordinarily (applyUnary text operand) := by
  have known : ∀ entry ∈ Kind.operators, entry.2 ∈ unaryOperators →
      entry.1 = "!" ∨ entry.1 = "-" := by
    decide
  have listed : kind ∈ Kind.operators.map (·.2) := by
    revert isOperator
    cases kind <;> decide
  have spelled := spelling_of_lexeme lexeme listed
  rw [String.ofList_toList] at spelled
  unfold applyUnary
  rcases known _ spelled isOperator with rfl | rfl
  · exact Value.boolean_isDatum _
  · rw [if_neg (by decide), if_pos rfl]
    split
    · exact Value.number_isDatum _
    · exact .typeMismatch _ _

/-! ## Actions -/

namespace Eval

variable {α : Type} {settings : Settings} {room : Nat} {name : String} {value : Value}

/-- What follows the left operand of an operation of a source program. -/
inductive IsOperation : List Node → Prop
  | intro {level : Nat} {op right : Node} :
    IsLeaf (operatorsAt level) op → IsExpression right → IsOperation [op, right]

/-- The left spine of an expression is made of expressions and operators. -/
theorem spine_shape {n : Node} (shaped : IsExpression n) {outer : List (List Node)}
    (operations : ∀ o ∈ outer, IsOperation o) :
    IsExpression (n.spine outer).1 ∧ ∀ o ∈ (n.spine outer).2, IsOperation o := by
  induction shaped generalizing outer with
  | atom leaf =>
    obtain ⟨isAtom, lexeme⟩ := leaf
    exact ⟨.atom (.intro isAtom lexeme), operations⟩
  | unary operator operand _ => exact ⟨.unary operator operand, operations⟩
  | binary operator _ right ihl _ =>
    rw [Node.spine]
    exact ihl (List.forall_mem_cons.mpr ⟨.intro operator right, operations⟩)

end Eval

/-! ## Runs -/

open Eval

/-- A run ends or fails in an ordinary way, and all that it printed and bound are numbers, strings
    and booleans. -/
structure Report.IsOrdinary (report : Report) : Prop where
  failure : ∀ failure, report.failure = some failure → failure.IsOrdinary
  output : ∀ v ∈ report.output, v.IsDatum
  scope : Scope.HoldsData report.scope

/-- The caller of an ordinary run is given an ordinary error, or data, or the one other error. -/
theorem Report.IsOrdinary.result {report : Report} (ordinary : report.IsOrdinary) (room : Nat) :
    (∀ e, report.result room = .error e → e.IsOrdinary ∨ e = .recursionLimit) ∧
    (∀ result, report.result room = .ok result → result.HoldsData) ∧
    (report.result room = .error .recursionLimit ↔
      report.failure = none ∧ room < report.scope.length) := by
  unfold Report.result
  cases failed : report.failure with
  | some failure =>
    refine ⟨?_, by simp, by simp⟩
    rintro _ ⟨⟩
    exact .inl (.failure (ordinary.failure failure failed))
  | none =>
    by_cases long : room < report.scope.length
    · simp [long]
    · refine ⟨by simp [long], ?_, by simp [long]⟩
      rintro result done
      obtain rfl : _ = result := by simpa [long] using done
      exact ⟨ordinary.output, ordinary.scope.snapshot⟩

end BraceScript
