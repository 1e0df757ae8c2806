import BraceScript.Proofs.Outcome
import BraceScript.Grammar

/-!
# More room

A rule that is given more room does the same, except where it had refused a program as nested too
deeply: each rule at one room widens itself at less.
-/

namespace BraceScript.Grammar

open Outcome

/-! ## Repetitions -/

theorem statementsUpTo_widens {rule wider : ParseM Node} (stop : Kind)
    (widens : Widens (.tooDeep ·.current) rule wider) (rounds : List Token) :
    Widens (.tooDeep ·.current) (statementsUpTo stop rule rounds)
      (statementsUpTo stop wider rounds) := by
  induction rounds with
  | nil => exact .refl _
  | cons _ rounds ih =>
    refine .bind (.refl _) fun stops => .ite (.refl _) (.bind (.refl _) fun empty => .ite ih ?_)
    exact widens.bind fun first => ih.bind fun rest => .refl _

theorem climb_widens {operand wider : Nat → ParseM Node} (least : Nat)
    (widens : ∀ level, Widens (.tooDeep ·.current) (operand level) (wider level))
    (rounds : List Token) (left : Node) :
    Widens (.tooDeep ·.current) (climb least operand rounds left)
      (climb least wider rounds left) := by
  induction rounds generalizing left with
  | nil => exact .refl _
  | cons _ rounds ih =>
    refine .bind (.refl _) fun token => ?_
    cases token.kind.level? with
    | none => exact .refl _
    | some level =>
      exact .ite (.refl _) (.bind (.refl _) fun op => (widens _).bind fun right => ih _)

/-! ## Rules -/

/-- Each rule with a unit of room more widens itself. -/
structure WidenedRules (room : Nat) : Prop where
  statements : ∀ stop,
    Widens (.tooDeep ·.current) (statements room stop) (statements (room + 1) stop)
  statement : Widens (.tooDeep ·.current) (statement room) (statement (room + 1))
  declaration : Widens (.tooDeep ·.current) (declaration room) (declaration (room + 1))
  printStatement : Widens (.tooDeep ·.current) (printStatement room) (printStatement (room + 1))
  conditional : Widens (.tooDeep ·.current) (conditional room) (conditional (room + 1))
  loop : Widens (.tooDeep ·.current) (loop room) (loop (room + 1))
  condition : Widens (.tooDeep ·.current) (condition room) (condition (room + 1))
  block : Widens (.tooDeep ·.current) (block room) (block (room + 1))
  expression : Widens (.tooDeep ·.current) (expression room) (expression (room + 1))
  binary : ∀ least, Widens (.tooDeep ·.current) (binary room least) (binary (room + 1) least)
  unary : Widens (.tooDeep ·.current) (unary room) (unary (room + 1))
  primary : Widens (.tooDeep ·.current) (primary room) (primary (room + 1))

theorem statement_widens {room : Nat} (rules : WidenedRules room) :
    Widens (.tooDeep ·.current) (statement (room + 1)) (statement (room + 2)) := by
  refine .bind (.refl _) fun token => ?_
  cases token.kind
  case kwVar => exact rules.declaration
  case kwPrint => exact rules.printStatement
  case kwIf => exact rules.conditional
  case kwWhile => exact rules.loop
  case kwElse | closeBrace | closeParen | assign => exact .refl _
  all_goals
    refine .bind (.refl _) fun c => .ite ?_ ?_
    · exact .bind (.refl _) fun _ => .bind (.refl _) fun _ => rules.expression.bind fun _ => .refl _
    · exact rules.expression.bind fun _ => .refl _

theorem widenedRules (room : Nat) : WidenedRules room := by
  induction room with
  | zero => constructor <;> intros <;> exact .stop (fun _ => rfl) _
  | succ room rules =>
    exact {
      statements := fun stop => .bind (.refl _) fun c =>
        statementsUpTo_widens stop rules.statement c.after
      statement := statement_widens rules
      declaration := .bind (.refl _) fun _ => .bind (.refl _) fun _ => .bind (.refl _) fun _ =>
        rules.expression.bind fun _ => .refl _
      printStatement := .bind (.refl _) fun _ => .bind (.refl _) fun _ =>
        rules.expression.bind fun _ => .refl _
      conditional := .bind (.refl _) fun _ => rules.condition.bind fun _ =>
        rules.block.bind fun _ => .bind (.refl _) fun _ =>
          .ite (rules.block.bind fun _ => .refl _) (.refl _)
      loop := .bind (.refl _) fun _ => rules.condition.bind fun _ => rules.block.bind fun _ =>
        .refl _
      condition := .bind (.refl _) fun _ => rules.expression.bind fun _ => .refl _
      block := .bind (.refl _) fun _ => (rules.statements _).bind fun _ => .refl _
      expression := rules.binary 1
      binary := fun least => rules.unary.bind fun left => .bind (.refl _) fun c =>
        climb_widens least rules.binary c.after left
      unary := .bind (.refl _) fun _ => .ite
        (.bind (.refl _) fun _ => rules.unary.bind fun _ => .refl _) rules.primary
      primary := .bind (.refl _) fun _ => .ite (.refl _) (.bind (.refl _) fun _ =>
        .ite (rules.expression.bind fun _ => .refl _) (.refl _)) }

/-- A rule for statements with more room does the same unless it had refused. -/
theorem statements_widens {room more : Nat} (stop : Kind) (enough : room ≤ more) :
    Widens (.tooDeep ·.current) (statements room stop) (statements more stop) := by
  induction enough with
  | refl => exact .refl _
  | step _ ih => exact ih.trans ((widenedRules _).statements stop)

end BraceScript.Grammar
