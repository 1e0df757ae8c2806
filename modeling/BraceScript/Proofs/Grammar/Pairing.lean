import Mathlib.Data.List.Forall2
import BraceScript.Grammar
import BraceScript.Proofs.Node.Leaves
import BraceScript.Proofs.Outcome
import BraceScript.Proofs.Scanner.Lines

/-!
# Parsing the same tokens at other places

The rules of the grammar select by the kinds of tokens, and take their texts and places over without
looking at them. A *pairing* says which tokens of two inputs belong together; they differ in their
places only. Rules that start at tokens that are paired up to the end either read trees that are the
same but for the places, or refuse for the same reason at tokens that are paired.
-/

namespace BraceScript

/-- Tokens that belong together: a map of places takes the first of them to the second. -/
structure Pairing where
  same : Token → Token → Prop
  move : Position → Position
  moved : ∀ {t t'}, same t t' → t' = t.moved move

/-- The same parse error at tokens that are paired. -/
inductive ParseError.Alike (same : Token → Token → Prop) : ParseError → ParseError → Prop
  | expected (kind : Kind) {t t' : Token} :
    same t t' → Alike same (.expected kind t) (.expected kind t')
  | unexpected {t t' : Token} (context : Context) :
    same t t' → Alike same (.unexpected t context) (.unexpected t' context)
  | unexpectedEnd {t t' : Token} : same t t' → Alike same (.unexpectedEnd t) (.unexpectedEnd t')
  | tooDeep {t t' : Token} : same t t' → Alike same (.tooDeep t) (.tooDeep t')

namespace Pairing

variable (π : Pairing)

/-- The tokens from two cursors on are paired. -/
structure Cursors (c c' : Cursor) : Prop where
  current : π.same c.current c'.current
  after : List.Forall₂ π.same c.after c'.after

/-- Trees that are the same but for the places of their leaves, which are moved. -/
def Trees (n n' : Node) : Prop := n' = n.changed (.moving π.move)

/-- Lists of such trees. -/
def Forests (ns ns' : List Node) : Prop := ns' = Node.forestMap (LeafChange.moving π.move).apply ns

variable {π} {c c' : Cursor}

theorem Cursors.next (paired : π.Cursors c c') : π.Cursors c.next c'.next := by
  obtain ⟨before, current, after⟩ := c
  obtain ⟨before', current', after'⟩ := c'
  obtain ⟨here, later⟩ := paired
  cases later with
  | nil => exact ⟨here, .nil⟩
  | cons first rest => exact ⟨first, rest⟩

theorem Cursors.following (paired : π.Cursors c c') : π.same c.following c'.following := by
  obtain ⟨before, current, after⟩ := c
  obtain ⟨before', current', after'⟩ := c'
  obtain ⟨here, later⟩ := paired
  cases later with
  | nil => exact here
  | cons first rest => exact first

theorem kind_eq {t t' : Token} (paired : π.same t t') : t'.kind = t.kind := by
  rw [π.moved paired]
  rfl

theorem trees_ofToken {t t' : Token} (paired : π.same t t') :
    π.Trees (.ofToken t) (.ofToken t') := by
  rw [π.moved paired]
  rfl

end Pairing

namespace Grammar

open Outcome

/-! ## Actions side by side -/

/-- Two actions that ended alike: with values that correspond, at tokens that are paired, or with
    the same error. -/
inductive Paired (π : Pairing) {α : Type} (like : α → α → Prop) :
    EStateM.Result ParseError Cursor α → EStateM.Result ParseError Cursor α → Prop
  | value {a a' : α} {c c' : Cursor} :
    like a a' → π.Cursors c c' → Paired π like (.ok a c) (.ok a' c')
  | error {e e' : ParseError} {c c' : Cursor} :
    e.Alike π.same e' → Paired π like (.error e c) (.error e' c')

/-- Two actions end alike wherever they start at tokens that are paired. -/
def Tracks (π : Pairing) {α : Type} (like : α → α → Prop) (x y : ParseM α) : Prop :=
  ∀ c c', π.Cursors c c' → Paired π like (x c) (y c')

namespace Tracks

variable {π : Pairing} {α β : Type} {like : α → α → Prop} {like' : β → β → Prop} {x y : ParseM α}

theorem value {a a' : α} (corresponds : like a a') : Tracks π like (pure a) (pure a') :=
  fun _ _ paired => .value corresponds paired

theorem refuse {e e' : ParseError} (alike : e.Alike π.same e') :
    Tracks π like (throw e) (throw e') :=
  fun _ _ _ => .error alike

theorem bind {f g : α → ParseM β} (first : Tracks π like x y)
    (second : ∀ a a', like a a' → Tracks π like' (f a) (g a')) :
    Tracks π like' (x >>= f) (y >>= g) := by
  intro c c' paired
  have outcome := first c c' paired
  cases one : x c with
  | ok a mid =>
    rw [one] at outcome
    cases two : y c' with
    | ok a' mid' =>
      rw [two] at outcome
      obtain ⟨corresponds, onward⟩ := outcome
      rw [bind_ok one, bind_ok two]
      exact second a a' corresponds mid mid' onward
    | error e' mid' =>
      rw [two] at outcome
      cases outcome
  | error e mid =>
    rw [one] at outcome
    cases two : y c' with
    | ok a' mid' =>
      rw [two] at outcome
      cases outcome
    | error e' mid' =>
      rw [two] at outcome
      obtain _ | alike := outcome
      rw [bind_error one, bind_error two]
      exact .error alike

theorem discard (tracks : Tracks π like x y) : Tracks π Eq (discard x) (discard y) := by
  rw [discard_eq_bind, discard_eq_bind]
  exact tracks.bind fun _ _ _ => .value rfl

theorem ite {p q : Prop} [Decidable p] [Decidable q] {x' y' : ParseM α} (same : q ↔ p)
    (yes : Tracks π like x y) (no : Tracks π like x' y') :
    Tracks π like (if p then x else x') (if q then y else y') := by
  by_cases holds : p
  · rw [if_pos holds, if_pos (same.mpr holds)]
    exact yes
  · rw [if_neg holds, if_neg (mt same.mp holds)]
    exact no

/-! ## Tokens -/

theorem get : Tracks π π.Cursors get get := fun _ _ paired => .value paired paired

theorem current : Tracks π π.same current current := fun _ _ paired => .value paired.current paired

theorem giveUp {like : α → α → Prop} : Tracks π like giveUp giveUp :=
  current.bind fun _ _ paired => .refuse (.tooDeep paired)

theorem advance : Tracks π π.same advance advance :=
  fun _ _ paired => .value paired.current paired.next

theorem check (kinds : List Kind) : Tracks π Eq (check kinds) (check kinds) :=
  current.bind fun _ _ paired => .value (by rw [π.kind_eq paired])

theorem accept (kinds : List Kind) : Tracks π Eq (accept kinds) (accept kinds) := by
  refine (check kinds).bind ?_
  rintro found _ rfl
  exact .ite Iff.rfl (advance.discard.bind fun _ _ _ => .value rfl) (.value rfl)

theorem expect (kind : Kind) : Tracks π π.same (expect kind) (expect kind) :=
  current.bind fun _ _ paired =>
    .ite (by rw [π.kind_eq paired]) advance (.refuse (.expected kind paired))

theorem terminator : Tracks π Eq terminator terminator :=
  current.bind fun _ _ paired =>
    .ite (by rw [π.kind_eq paired]) (.value rfl) (expect .semicolon).discard

/-! ## Repetitions -/

/-- Only the number of the tokens that the rounds are counted by matters. -/
theorem statementsUpTo (stop : Kind) {rule rule' : ParseM Node} (each : Tracks π π.Trees rule rule')
    {rounds rounds' : List Token} (counts : List.Forall₂ π.same rounds rounds') :
    Tracks π π.Forests (statementsUpTo stop rule rounds) (statementsUpTo stop rule' rounds') := by
  induction counts with
  | nil => exact .value rfl
  | cons _ _ ih =>
    refine (check _).bind ?_
    rintro stops _ rfl
    refine .ite Iff.rfl (.value rfl) ((accept _).bind ?_)
    rintro empty _ rfl
    refine .ite Iff.rfl ih (each.bind ?_)
    rintro first _ rfl
    refine ih.bind ?_
    rintro rest _ rfl
    exact .value rfl

theorem climb (least : Nat) {operand operand' : Nat → ParseM Node}
    (each : ∀ level, Tracks π π.Trees (operand level) (operand' level))
    {rounds rounds' : List Token} (counts : List.Forall₂ π.same rounds rounds') {left left' : Node}
    (start : π.Trees left left') :
    Tracks π π.Trees (climb least operand rounds left) (climb least operand' rounds' left') := by
  induction counts generalizing left left' with
  | nil => exact .value start
  | cons _ _ ih =>
    refine current.bind fun t t' paired => ?_
    rw [π.kind_eq paired]
    cases t.kind.level? with
    | none => exact .value start
    | some level =>
      refine .ite Iff.rfl (.value start) (advance.bind fun op op' sign => ?_)
      refine (each _).bind fun right right' last => ih ?_
      rw [start, π.trees_ofToken sign, last]
      rfl

end Tracks

/-! ## Rules -/

/-- Each rule reads paired tokens alike. -/
structure PairedRules (π : Pairing) (room : Nat) : Prop where
  statements : ∀ stop, Tracks π π.Forests (statements room stop) (statements room stop)
  statement : Tracks π π.Trees (statement room) (statement room)
  declaration : Tracks π π.Trees (declaration room) (declaration room)
  printStatement : Tracks π π.Trees (printStatement room) (printStatement room)
  conditional : Tracks π π.Trees (conditional room) (conditional room)
  loop : Tracks π π.Trees (loop room) (loop room)
  condition : Tracks π π.Trees (condition room) (condition room)
  block : Tracks π π.Trees (block room) (block room)
  expression : Tracks π π.Trees (expression room) (expression room)
  binary : ∀ least, Tracks π π.Trees (binary room least) (binary room least)
  unary : Tracks π π.Trees (unary room) (unary room)
  primary : Tracks π π.Trees (primary room) (primary room)

namespace PairedRules

variable {π : Pairing} {room : Nat}

theorem step_declaration (rules : PairedRules π room) :
    Tracks π π.Trees (Grammar.declaration (room + 1)) (Grammar.declaration (room + 1)) := by
  refine (Tracks.expect _).discard.bind fun _ _ _ => (Tracks.expect _).bind fun t t' name => ?_
  refine (Tracks.expect _).discard.bind fun _ _ _ => rules.expression.bind ?_
  rintro value _ rfl
  refine Tracks.terminator.bind fun _ _ _ => .value ?_
  rw [π.trees_ofToken name]
  rfl

theorem step_print (rules : PairedRules π room) :
    Tracks π π.Trees (Grammar.printStatement (room + 1)) (Grammar.printStatement (room + 1)) := by
  refine (Tracks.expect _).discard.bind fun _ _ _ => (Tracks.expect _).discard.bind fun _ _ _ => ?_
  refine rules.expression.bind ?_
  rintro value _ rfl
  refine (Tracks.expect _).discard.bind fun _ _ _ => Tracks.terminator.bind fun _ _ _ => ?_
  exact .value rfl

theorem step_conditional (rules : PairedRules π room) :
    Tracks π π.Trees (Grammar.conditional (room + 1)) (Grammar.conditional (room + 1)) := by
  refine (Tracks.expect _).discard.bind fun _ _ _ => rules.condition.bind ?_
  rintro test _ rfl
  refine rules.block.bind ?_
  rintro body _ rfl
  refine (Tracks.accept _).bind ?_
  rintro otherwise _ rfl
  refine .ite Iff.rfl (rules.block.bind ?_) (.value rfl)
  rintro alternative _ rfl
  exact .value rfl

theorem step_loop (rules : PairedRules π room) :
    Tracks π π.Trees (Grammar.loop (room + 1)) (Grammar.loop (room + 1)) := by
  refine (Tracks.expect _).discard.bind fun _ _ _ => rules.condition.bind ?_
  rintro test _ rfl
  refine rules.block.bind ?_
  rintro body _ rfl
  exact .value rfl

theorem step_condition (rules : PairedRules π room) :
    Tracks π π.Trees (Grammar.condition (room + 1)) (Grammar.condition (room + 1)) := by
  refine (Tracks.expect _).discard.bind fun _ _ _ => rules.expression.bind fun _ _ test => ?_
  exact (Tracks.expect _).discard.bind fun _ _ _ => .value test

theorem step_block (rules : PairedRules π room) :
    Tracks π π.Trees (Grammar.block (room + 1)) (Grammar.block (room + 1)) := by
  refine (Tracks.expect _).discard.bind fun _ _ _ => (rules.statements _).bind ?_
  rintro body _ rfl
  exact (Tracks.expect _).discard.bind fun _ _ _ => .value rfl

theorem step_unary (rules : PairedRules π room) :
    Tracks π π.Trees (Grammar.unary (room + 1)) (Grammar.unary (room + 1)) := by
  refine Tracks.current.bind fun t t' paired => .ite (by rw [π.kind_eq paired]) ?_ rules.primary
  refine Tracks.advance.bind fun op op' sign => rules.unary.bind ?_
  rintro operand _ rfl
  refine .value ?_
  rw [π.trees_ofToken sign]
  rfl

theorem step_primary (rules : PairedRules π room) :
    Tracks π π.Trees (Grammar.primary (room + 1)) (Grammar.primary (room + 1)) := by
  refine Tracks.current.bind fun t t' paired => .ite (by rw [π.kind_eq paired]) ?_ ?_
  · exact Tracks.advance.bind fun _ _ atom => .value (π.trees_ofToken atom)
  · refine (Tracks.accept _).bind ?_
    rintro opens _ rfl
    refine .ite Iff.rfl ?_ (.ite (by rw [π.kind_eq paired]) ?_ ?_)
    · refine rules.expression.bind fun _ _ inner => ?_
      exact (Tracks.expect _).discard.bind fun _ _ _ => .value inner
    · exact .refuse (.unexpectedEnd paired)
    · exact .refuse (.unexpected .expression paired)

theorem step_statement (rules : PairedRules π room) :
    Tracks π π.Trees (Grammar.statement (room + 1)) (Grammar.statement (room + 1)) := by
  refine Tracks.current.bind fun t t' paired => ?_
  have simple : Tracks π π.Trees
      (do let value ← Grammar.expression room; terminator; return .branch .expression [value])
      (do let value ← Grammar.expression room; terminator; return .branch .expression [value]) := by
    refine rules.expression.bind ?_
    rintro value _ rfl
    exact Tracks.terminator.bind fun _ _ _ => .value rfl
  rw [π.kind_eq paired]
  cases t.kind
  case kwVar => exact rules.declaration
  case kwPrint => exact rules.printStatement
  case kwIf => exact rules.conditional
  case kwWhile => exact rules.loop
  case kwElse => exact .refuse (.unexpected .strayElse paired)
  case closeBrace | closeParen | assign => exact .refuse (.unexpected .statement paired)
  all_goals
    refine Tracks.get.bind fun c c' cursors => .ite (by rw [π.kind_eq cursors.following]) ?_ simple
    refine Tracks.advance.discard.bind fun _ _ _ => Tracks.advance.discard.bind fun _ _ _ => ?_
    refine rules.expression.bind ?_
    rintro value _ rfl
    refine Tracks.terminator.bind fun _ _ _ => .value ?_
    rw [π.trees_ofToken paired]
    rfl

end PairedRules

/-- Every rule reads paired tokens alike: by induction on the room. -/
theorem pairedRules (π : Pairing) (room : Nat) : PairedRules π room := by
  induction room with
  | zero => constructor <;> intros <;> exact .giveUp
  | succ room rules =>
    exact {
      statements := fun stop => Tracks.get.bind fun c c' cursors =>
        .statementsUpTo stop rules.statement cursors.after
      statement := rules.step_statement
      declaration := rules.step_declaration
      printStatement := rules.step_print
      conditional := rules.step_conditional
      loop := rules.step_loop
      condition := rules.step_condition
      block := rules.step_block
      expression := rules.binary 1
      binary := fun least => rules.unary.bind fun left left' start => Tracks.get.bind
        fun c c' cursors => .climb least rules.binary cursors.after start
      unary := rules.step_unary
      primary := rules.step_primary }

theorem program_tracks (π : Pairing) : Tracks π π.Trees program program := by
  refine ((pairedRules π depthLimit).statements .endOfInput).bind ?_
  rintro ns _ rfl
  exact .value rfl

end Grammar

end BraceScript
