import BraceScript.Proofs.Eval.Truncation
import BraceScript.Proofs.Scope

/-!
# What expressions and simple statements change

Expressions change nothing, whether they have a value or fault. So a statement without blocks either
completes, and then changes just what it is for, or leaves everything as it was: a declaration
writes one binding of the innermost frame, an assignment one binding of the nearest frame that has
the name, a print statement adds one value to the output, and an expression that is dropped changes
nothing.
-/

namespace BraceScript

open Node Outcome

namespace Node

/-- Trees of leaves and operations, whatever the texts of the leaves are. -/
inductive IsFormula : Node → Prop
  | leaf (l : Leaf) : IsFormula (.leaf l)
  | unary {op : Leaf} {n : Node} : IsFormula n → IsFormula (.branch .unary [.leaf op, n])
  | binary {op : Leaf} {l r : Node} :
    IsFormula l → IsFormula r → IsFormula (.branch .binary [l, .leaf op, r])

theorem IsExpression.isFormula {n : Node} (shaped : IsExpression n) : IsFormula n := by
  induction shaped with
  | atom leaf =>
    obtain ⟨l, rfl⟩ := leaf.exists_leaf
    exact .leaf l
  | unary operator _ ih =>
    obtain ⟨op, rfl⟩ := operator.exists_leaf
    exact .unary ih
  | binary operator _ _ first second =>
    obtain ⟨op, rfl⟩ := operator.exists_leaf
    exact .binary first second

/-- The left spine of a formula is made of formulas. -/
theorem IsFormula.spine {n : Node} {outer : List (List Node)} (formula : IsFormula n)
    (others : ∀ operation ∈ outer, ∀ part ∈ operation, IsFormula part) :
    IsFormula (n.spine outer).1 ∧
      ∀ operation ∈ (n.spine outer).2, ∀ part ∈ operation, IsFormula part := by
  fun_induction Node.spine n outer with
  | case1 left rest outer ih =>
    obtain _ | _ | ⟨first, second⟩ := formula
    refine ih first (List.forall_mem_cons.mpr ⟨?_, others⟩)
    simp [IsFormula.leaf, second]
  | case2 n outer => exact ⟨formula, others⟩

end Node

namespace Eval

/-! ## Actions that change nothing -/

/-- Giving places to faults does not change the state. -/
theorem final_locating {α : Type} (place : Node → Option Position) (n : Node) (x : EvalM α)
    (m : Machine) : final (locating place n x m) = final (x m) := by
  unfold locating
  cases x m with
  | ok a m' => rfl
  | error reason m' =>
    cases reason with
    | fault cause known => cases known <;> rfl
    | _ => rfl

/-- An action leaves every state as it is, however it ends. -/
def Still {α : Type} (x : EvalM α) : Prop := ∀ m, final (x m) = m

namespace Still

variable {α β : Type} {x : EvalM α}

theorem ending (still : Still x) (m : Machine) :
    (∃ a, x m = .ok a m) ∨ ∃ reason, x m = .error reason m := by
  have same := still m
  cases outcome : x m with
  | ok a m' =>
    rw [outcome] at same
    exact .inl ⟨a, by rw [← show m' = m from same]⟩
  | error reason m' =>
    rw [outcome] at same
    exact .inr ⟨reason, by rw [← show m' = m from same]⟩

theorem value (a : α) : Still (pure a) := fun _ => rfl

theorem halt (reason : Halt) : Still (throw reason : EvalM α) := fun _ => rfl

theorem bind {next : α → EvalM β} (first : Still x) (second : ∀ a, Still (next a)) :
    Still (x >>= next) := by
  intro m
  rcases first.ending m with ⟨a, outcome⟩ | ⟨reason, outcome⟩
  · rw [bind_ok outcome]
    exact second a m
  · rw [bind_error outcome]
    rfl

theorem discard (still : Still x) : Still (Functor.discard x) := by
  rw [discard_eq_bind]
  exact still.bind fun _ => .value ()

theorem lift (outcome : Except Fault α) : Still (Eval.lift outcome) := by
  cases outcome with
  | ok a => exact .value a
  | error cause => exact .halt _

theorem located (still : Still x) (place : Node → Option Position) (n : Node) :
    Still (locating place n x) := by
  intro m
  rw [final_locating, still m]

theorem demand (units room : Nat) : Still (Eval.demand units room) := by
  rw [Eval.demand]
  split
  · exact .halt _
  · exact .value ()

theorem lookup (room : Nat) (name : String) : Still (Eval.lookup room name) := by
  intro m
  rw [lookup_run]
  split
  · rfl
  · cases Scope.get? m.scope name <;> rfl

theorem requireBound (room : Nat) (name : String) : Still (Eval.requireBound room name) := by
  intro m
  rw [requireBound_run]
  split
  · rfl
  · split <;> rfl

theorem evalLeaf (room : Nat) (l : Leaf) : Still (Eval.evalLeaf room l) := by
  refine .bind (.demand 1 room) fun _ => ?_
  split
  · refine .bind (.demand 5 room) fun _ => ?_
    split
    · exact .value _
    · exact .halt _
  · exact .bind (.demand 5 room) fun _ => .value _
  · exact .lookup _ _
  · exact .halt _

theorem operatorText (settings : Settings) (room : Nat) (n : Node) :
    Still (Eval.operatorText settings room n) := by
  cases n with
  | leaf l => exact .value _
  | branch => exact .bind (.demand _ _) fun _ => .halt _

theorem foldOperators {run : Node → EvalM Value} {operations : List (List Node)}
    (settings : Settings) (room : Nat)
    (operands : ∀ operation ∈ operations, ∀ part ∈ operation, Still (run part)) (v : Value) :
    Still (Eval.foldOperators settings room run v operations) := by
  fun_induction Eval.foldOperators settings room run v operations with
  | case1 v => exact .value v
  | case2 v op right rest ih =>
    obtain ⟨first, others⟩ := List.forall_mem_cons.mp operands
    refine .bind (first right (by simp)) fun w => .bind (.located ?_ _ _) fun x => ih x others
    exact .bind (.operatorText settings room op) fun text => .lift _
  | case3 => exact .halt _

end Still

/-- Evaluating a formula changes nothing: by induction on the room, since operands are evaluated
    with less. -/
theorem eval_still (settings : Settings) (room : Nat) {n : Node} (formula : IsFormula n) :
    Still (eval settings room n) := by
  induction room using Nat.strongRecOn generalizing n with
  | ind room ih =>
    match room with
    | 0 => exact .halt _
    | 1 =>
      rw [eval]
      exact .located (.halt _) _ n
    | room + 2 =>
      refine .located ?_ _ n
      cases formula with
      | leaf l => exact .evalLeaf room l
      | unary operand =>
        match room with
        | 0 | 1 => exact .halt _
        | room + 2 => exact .bind (ih room (by omega) operand) fun v => .lift _
      | @binary op l r first second =>
        match room with
        | 0 | 1 => exact .halt _
        | room + 2 =>
          have last : ∀ operation ∈ [[Node.leaf op, r]], ∀ part ∈ operation, IsFormula part := by
            simp [IsFormula.leaf, second]
          obtain ⟨start, operations⟩ := first.spine last
          refine .bind (ih room (by omega) start) fun v => .foldOperators settings room ?_ v
          exact fun o member part inside => ih room (by omega) (operations o member part inside)

/-! ## Simple statements -/

/-- The value of a tree in a state. -/
def Gives (settings : Settings) (m : Machine) (n : Node) (v : Value) : Prop :=
  ∃ room, eval settings room n m = .ok v m

/-- What running a simple statement from a state may come to. One that halts changes nothing. -/
inductive Effect (settings : Settings) (m : Machine) :
    Node → EStateM.Result Halt Machine Value → Prop
  | halted {n : Node} {reason : Halt} : Effect settings m n (.error reason m)
  | declared {l : Leaf} {e : Node} {v : Value} {scope : Scope} :
    Gives settings m e v → Scope.Writes m.scope 0 l.text v scope →
    Effect settings m (.branch .declaration [.leaf l, e]) (.ok .unit { m with scope })
  | assigned {l : Leaf} {e : Node} {v : Value} {depth : Nat} {scope : Scope} :
    Gives settings m e v → Scope.Nearest m.scope l.text depth →
    Scope.Writes m.scope depth l.text v scope →
    Effect settings m (.branch .assignment [.leaf l, e]) (.ok .unit { m with scope })
  | printed {e : Node} {v : Value} :
    Gives settings m e v →
    Effect settings m (.branch .print [e]) (.ok .unit { m with output := m.output.push v })
  | dropped {e : Node} {v : Value} :
    Gives settings m e v → Effect settings m (.branch .expression [e]) (.ok .unit m)

variable {settings : Settings} {room : Nat} {m : Machine} {n e : Node} {l : Leaf}

theorem Effect.located {x : EvalM Value} (effect : Effect settings m n (x m)) :
    Effect settings m n (locating Node.faultPosition? n x m) := by
  unfold locating
  generalize x m = result at effect
  cases effect with
  | @halted _ reason =>
    cases reason with
    | fault cause known => cases known <;> exact .halted
    | _ => exact .halted
  | declared value writes => exact .declared value writes
  | assigned value nearest writes => exact .assigned value nearest writes
  | printed value => exact .printed value
  | dropped value => exact .dropped value

/-- What comes after an action that changes nothing decides, if it comes to that. -/
theorem Effect.sequence {α : Type} {x : EvalM α} {next : α → EvalM Value} (still : Still x)
    (after : ∀ a, x m = .ok a m → Effect settings m n (next a m)) :
    Effect settings m n ((x >>= next) m) := by
  rcases still.ending m with ⟨a, outcome⟩ | ⟨reason, outcome⟩
  · rw [bind_ok outcome]
    exact after a outcome
  · rw [bind_error outcome]
    exact .halted

/-- A name that is required to be bound can be assigned. -/
theorem assign_of_required {name : String} (required : requireBound room name m = .ok () m)
    (v : Value) :
    ∃ scope, Scope.set? m.scope name v = some scope ∧
      assign room name v m = .ok () { m with scope } := by
  rw [requireBound_run] at required
  split at required
  · cases required
  · next enough =>
    split at required
    · next bound =>
      obtain ⟨scope, found⟩ :=
        Option.isSome_iff_exists.mp ((Scope.isSome_set? m.scope name v).trans bound)
      refine ⟨scope, found, ?_⟩
      rw [assign_run, if_neg enough, found]
    · cases required

theorem declaration_effect (formula : IsFormula e) (m : Machine) :
    Effect settings m (.branch .declaration [.leaf l, e])
      (compound settings (room + 2) .declaration [.leaf l, e] m) := by
  by_cases isName : l.kind = .token .identifier
  · rw [compound_declaration _ _ isName]
    refine .sequence (eval_still settings room formula) fun v outcome => ?_
    exact .declared ⟨room, outcome⟩ (Scope.define_writes m.scope l.text v)
  · simp only [compound, targetName, if_neg isName]
    exact .halted

/-- The expression of an assignment leaves the scope alone, so that the name is still bound when its
    value is known. -/
theorem assignment_effect (formula : IsFormula e) (m : Machine) :
    Effect settings m (.branch .assignment [.leaf l, e])
      (compound settings (room + 2) .assignment [.leaf l, e] m) := by
  by_cases isName : l.kind = .token .identifier
  · rw [compound_assignment _ _ isName]
    refine .sequence (.requireBound room l.text) fun _ required => ?_
    refine .sequence (eval_still settings room formula) fun v outcome => ?_
    obtain ⟨scope, found, assigned⟩ := assign_of_required required v
    obtain ⟨depth, nearest, writes⟩ := Scope.set?_writes found
    rw [bind_ok assigned]
    exact .assigned ⟨room, outcome⟩ nearest writes
  · simp only [compound, targetName, if_neg isName]
    exact .halted

theorem print_effect (formula : IsFormula e) (m : Machine) :
    Effect settings m (.branch .print [e]) (step settings (room + 1) (.branch .print [e]) m) := by
  match room with
  | 0 => exact .halted
  | room + 1 =>
    show Effect settings m _ ((Eval.print settings (room + 1) e >>= fun _ => pure .unit) m)
    rw [Eval.print, bind_assoc]
    refine .sequence (eval_still settings room formula) fun v outcome => ?_
    cases settings.recording with
    | true => exact .printed ⟨room, outcome⟩
    | false => exact .halted

theorem expression_effect (formula : IsFormula e) (m : Machine) :
    Effect settings m (.branch .expression [e])
      (step settings (room + 1) (.branch .expression [e]) m) := by
  show Effect settings m _ ((discard (eval settings room e) >>= fun _ => pure .unit) m)
  refine .sequence (eval_still settings room formula).discard fun _ outcome => ?_
  obtain ⟨v, valued⟩ := discard_eq_ok.mp outcome
  exact .dropped ⟨room, valued⟩

/-- The statements without blocks that use the value of a tree. -/
inductive Simple (e : Node) : Node → Prop
  | declaration (l : Leaf) : Simple e (.branch .declaration [.leaf l, e])
  | assignment (l : Leaf) : Simple e (.branch .assignment [.leaf l, e])
  | print : Simple e (.branch .print [e])
  | expression : Simple e (.branch .expression [e])

theorem simple_effect (simple : Simple e n) (formula : IsFormula e) (settings : Settings)
    (room : Nat) (m : Machine) : Effect settings m n (eval settings room n m) := by
  match room with
  | 0 => exact .halted
  | room + 1 =>
    refine .located ?_
    match room with
    | 0 => exact .halted
    | room + 1 =>
      cases simple with
      | print => exact print_effect formula m
      | expression => exact expression_effect formula m
      | declaration l =>
        rw [step_compound _ _ _ (by simp)]
        match room with
        | 0 | 1 => exact .halted
        | room + 2 => exact declaration_effect formula m
      | assignment l =>
        rw [step_compound _ _ _ (by simp)]
        match room with
        | 0 | 1 => exact .halted
        | room + 2 => exact assignment_effect formula m

end Eval

open Eval

/-- Evaluating an expression changes neither bindings nor output nor the number of polls, however it
    ends. So the statements without blocks are atomic: one that halts changes nothing, and one that
    completes does just what `Effect` says. The name of an assignment that was found to be bound can
    still be assigned when the value is known. -/
theorem statements_atomic {e : Node} (formula : e.IsFormula) (settings : Settings) (room : Nat)
    (m : Machine) :
    final (eval settings room e m) = m ∧
    (∀ n, Simple e n → Effect settings m n (eval settings room n m)) ∧
    ∀ name m₁ v m₂, requireBound room name m = .ok () m₁ → eval settings room e m₁ = .ok v m₂ →
      ∃ scope, assign room name v m₂ = .ok () { m₂ with scope } := by
  refine ⟨eval_still settings room formula m, fun n simple => ?_, ?_⟩
  · exact simple_effect simple formula settings room m
  · intro name m₁ v m₂ required valued
    have first := Still.requireBound room name m
    have second := eval_still settings room formula m₁
    rw [required] at first
    rw [valued] at second
    obtain rfl : m₁ = m := first
    obtain rfl : m₂ = m₁ := second
    obtain ⟨scope, -, assigned⟩ := assign_of_required required v
    exact ⟨scope, assigned⟩

/-- An assignment of one name to another that an outer frame binds. -/
theorem statements_atomic_outward :
    let m : Machine := ⟨[[("y", .string "b")], [("x", .string "a")]], #[], 0⟩
    let y := Node.leaf ⟨.token .identifier, "y", {}⟩
    let n := Node.branch .assignment [.leaf ⟨.token .identifier, "x", {}⟩, y]
    eval {} 9 n m = .ok .unit ⟨[[("y", .string "b")], [("x", .string "b")]], #[], 0⟩ ∧
      final (eval {} 9 y m) = m ∧ Effect {} m n (eval {} 9 n m) := by
  intro m y n
  obtain ⟨still, effects, -⟩ := statements_atomic (e := y) (.leaf _) {} 9 m
  exact ⟨rfl, still, effects n (.assignment _)⟩

end BraceScript
