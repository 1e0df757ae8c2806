import BraceScript.Eval
import BraceScript.Proofs.Outcome

/-!
# Relations that evaluation keeps

A relation between the actions of two runs is a *congruence* if it holds of the actions that the
rules of evaluation start from, and if it is kept by the ways in which rules put actions together.
The evaluation of any tree, also of one made by hand, is then related in the two runs. A property
of the actions of one run is such a relation too, which ignores the other run.
-/

namespace BraceScript.Eval

open Outcome

/-- A relation between actions of two runs that the rules of evaluation keep. -/
structure Congruence (left right : Settings) (R : {α : Type} → EvalM α → EvalM α → Prop) :
    Prop where
  recording : right.recording = left.recording
  display : right.display = left.display
  value : ∀ {α : Type} (a : α), R (pure a) (pure a)
  tooDeep : ∀ {α : Type}, R (throw .tooDeep : EvalM α) (throw .tooDeep)
  fault : ∀ {α : Type} (cause : Fault), R (fail cause : EvalM α) (fail cause)
  bind : ∀ {α β : Type} {x y : EvalM α} {f g : α → EvalM β},
    R x y → (∀ a, R (f a) (g a)) → R (x >>= f) (y >>= g)
  located : ∀ {x y : EvalM Value} (place : Node → Option Position) (n : Node),
    R x y → R (locating place n x) (locating place n y)
  poll : R (poll left) (poll right)
  record : ∀ value, R (record value) (record value)
  lookup : ∀ room name, R (lookup room name) (lookup room name)
  define : ∀ name value, R (define name value) (define name value)
  requireBound : ∀ room name, R (requireBound room name) (requireBound room name)
  assign : ∀ room name value, R (assign room name value) (assign room name value)
  inBlock : ∀ {x y : EvalM Unit}, R x y → R (inBlock left x) (inBlock right y)
  loop : ∀ {condition condition' : EvalM Value} {body body' : EvalM Unit},
    R condition condition' → R body body' →
    R (runWhile left condition body left.loopFuel)
      (runWhile right condition' body' right.loopFuel)

namespace Congruence

variable {left right : Settings} {R : {α : Type} → EvalM α → EvalM α → Prop} {room : Nat}

/-! ## Actions -/

theorem ite (_ : Congruence left right R) {α : Type} {p : Prop} [Decidable p]
    {x y x' y' : EvalM α} (yes : R x x') (no : R y y') :
    R (if p then x else y) (if p then x' else y') := by
  split
  · exact yes
  · exact no

theorem discard (κ : Congruence left right R) {α : Type} {x y : EvalM α} (related : R x y) :
    R (Functor.discard x) (Functor.discard y) := by
  rw [discard_eq_bind, discard_eq_bind]
  exact κ.bind related fun _ => κ.value ()

theorem enough (κ : Congruence left right R) (units room : Nat) :
    R (demand units room) (demand units room) :=
  κ.ite κ.tooDeep (κ.value ())

theorem result (κ : Congruence left right R) {α : Type} (outcome : Except Fault α) :
    R (lift outcome) (lift outcome) := by
  cases outcome with
  | ok a => exact κ.value a
  | error cause => exact κ.fault cause

theorem operatorText (κ : Congruence left right R) (room : Nat) (n : Node) :
    R (operatorText left room n) (operatorText right room n) := by
  cases n with
  | leaf l => exact κ.value l.text
  | branch label children =>
    rw [Eval.operatorText, Eval.operatorText, κ.display]
    · exact κ.bind (κ.enough _ _) fun _ => κ.fault _
    all_goals simp

theorem targetName (κ : Congruence left right R) (statement : Binding) (n : Node) :
    R (targetName statement n) (targetName statement n) := by
  cases n with
  | leaf l => exact κ.ite (κ.value l.text) (κ.fault _)
  | branch label children => exact κ.fault _

theorem evalLeaf (κ : Congruence left right R) (room : Nat) (l : Leaf) :
    R (evalLeaf room l) (evalLeaf room l) := by
  refine κ.bind (κ.enough 1 room) fun _ => ?_
  split
  · refine κ.bind (κ.enough 5 room) fun _ => ?_
    split
    · exact κ.value _
    · exact κ.fault _
  · exact κ.bind (κ.enough 5 room) fun _ => κ.value _
  · exact κ.lookup _ _
  · exact κ.fault _

theorem runAll (κ : Congruence left right R) {run run' : Node → EvalM Value}
    (each : ∀ n, R (run n) (run' n)) (ns : List Node) :
    R (runAll left run ns) (runAll right run' ns) := by
  induction ns with
  | nil => exact κ.value ()
  | cons n ns ih => exact κ.bind κ.poll fun _ => κ.bind (κ.discard (each n)) fun _ => ih

theorem foldOperators (κ : Congruence left right R) {run run' : Node → EvalM Value}
    (each : ∀ n, R (run n) (run' n)) (value : Value) (operations : List (List Node)) :
    R (foldOperators left room run value operations)
      (foldOperators right room run' value operations) := by
  fun_induction Eval.foldOperators left room run value operations with
  | case1 value => exact κ.value value
  | case2 value op right rest ih =>
    refine κ.bind (each right) fun operand => κ.bind (κ.located _ _ ?_) ih
    exact κ.bind (κ.operatorText room op) fun text => κ.result _
  | case3 value operation rest other =>
    rw [Eval.foldOperators]
    · exact κ.fault _
    · exact other

/-! ## Rules -/

/-- Each rule for trees is related in the two runs, with some room. -/
structure Rules (left right : Settings) (R : {α : Type} → EvalM α → EvalM α → Prop) (room : Nat) :
    Prop where
  eval : ∀ n, R (eval left room n) (eval right room n)
  step : ∀ n, R (step left room n) (step right room n)
  statements : ∀ ns, R (statements left room ns) (statements right room ns)
  print : ∀ n, R (print left room n) (print right room n)
  block : ∀ n, R (block left room n) (block right room n)
  compound : ∀ label children,
    R (compound left room label children) (compound right room label children)

theorem compound (κ : Congruence left right R) (rules : Rules left right R room) (label : Label)
    (children : List Node) :
    R (compound left (room + 2) label children) (compound right (room + 2) label children) := by
  unfold Eval.compound
  split
  · refine κ.bind (κ.targetName _ _) fun name => κ.bind (rules.eval _) fun v => ?_
    exact κ.bind (κ.define name v) fun _ => κ.value _
  · refine κ.bind (κ.targetName _ _) fun name => κ.bind (κ.requireBound room name) fun _ => ?_
    refine κ.bind (rules.eval _) fun v => ?_
    exact κ.bind (κ.assign room name v) fun _ => κ.value _
  · refine κ.bind (rules.eval _) fun v => κ.ite ?_ (κ.value _)
    exact κ.bind (rules.block _) fun _ => κ.value _
  · refine κ.bind (rules.eval _) fun v => κ.ite ?_ ?_
    · exact κ.bind (rules.block _) fun _ => κ.value _
    · exact κ.bind (rules.block _) fun _ => κ.value _
  · exact κ.fault _
  · exact κ.bind (κ.loop (rules.eval _) (rules.block _)) fun _ => κ.value _
  · exact κ.fault _
  · exact κ.bind (rules.eval _) fun v => κ.foldOperators rules.eval v _
  · exact κ.bind (rules.eval _) fun v => κ.result _
  · exact κ.fault _

theorem step (κ : Congruence left right R) (rules : Rules left right R room) (n : Node) :
    R (step left (room + 1) n) (step right (room + 1) n) := by
  cases n with
  | leaf l => exact κ.evalLeaf room l
  | branch label children =>
    unfold Eval.step
    split
    · exact κ.bind (rules.statements _) fun _ => κ.value _
    · exact κ.bind (rules.print _) fun _ => κ.value _
    · exact κ.bind (κ.discard (rules.eval _)) fun _ => κ.value _
    · exact κ.fault _
    · exact κ.fault _
    · exact rules.compound _ _

theorem print (κ : Congruence left right R) (rules : Rules left right R room) (n : Node) :
    R (print left (room + 1) n) (print right (room + 1) n) := by
  refine κ.bind (rules.eval n) fun v => ?_
  rw [κ.recording]
  exact κ.ite (κ.record v) (κ.fault _)

/-- Rules are related with any room: by induction on the room, of which each rule gives less to the
    rules that it uses. -/
theorem rules (κ : Congruence left right R) (room : Nat) : Rules left right R room := by
  induction room using Nat.strongRecOn with
  | ind room ih =>
    match room with
    | 0 => constructor <;> intros <;> exact κ.tooDeep
    | room + 1 =>
      have inside := ih room (by omega)
      exact {
        eval := fun n => κ.located _ n (inside.step n)
        step := κ.step inside
        statements := κ.runAll inside.eval
        print := κ.print inside
        block := fun n => κ.inBlock (inside.statements _)
        compound := fun label children => by
          cases room with
          | zero => exact κ.tooDeep
          | succ room => exact κ.compound (ih room (by omega)) label children }

end Congruence

end BraceScript.Eval
