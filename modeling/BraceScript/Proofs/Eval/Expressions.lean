import BraceScript.Proofs.Eval.Coupling

/-!
# What expressions evaluate to

`Evaluates` gives the value of an expression in a scope, and `Faults` the reason why it has none,
with the leaf that is to blame: a name without a value, or an operator whose operands have values to
which it does not apply. They say it without room, without states and without the left spine that
the evaluator folds.

The evaluator agrees with them. It does not change the state, and unless the room runs out it gives
the value, or faults for the reason at the place of the leaf.
-/

namespace BraceScript

open Phrase

/-! ## Values and faults -/

namespace Node

/-- The value of an expression in a scope. -/
inductive Evaluates (scope : Scope) : Node → Value → Prop
  | number {l : Leaf} {x : Float} :
    l.kind = .token .number → Number.read? l.text = some x →
    Evaluates scope (.leaf l) (.number x)
  | string {l : Leaf} :
    l.kind = .token .string → Evaluates scope (.leaf l) (.string (Literal.decode l.text))
  | name {l : Leaf} {v : Value} :
    l.kind = .token .identifier → Scope.get? scope l.text = some v → Evaluates scope (.leaf l) v
  | unary {op : Leaf} {n : Node} {v w : Value} :
    Evaluates scope n v → applyUnary op.text v = .ok w →
    Evaluates scope (.branch .unary [.leaf op, n]) w
  | binary {op : Leaf} {l r : Node} {v w x : Value} :
    Evaluates scope l v → Evaluates scope r w → applyBinary op.text v w = .ok x →
    Evaluates scope (.branch .binary [l, .leaf op, r]) x

/-- An expression itself is the reason why it has no value in a scope: it is a name without one, or
    its operands have values but its operator, which is to blame, does not apply to them. -/
inductive Fails (scope : Scope) : Node → Fault → Leaf → Prop
  | name {l : Leaf} :
    l.kind = .token .identifier → Scope.get? scope l.text = none →
    Fails scope (.leaf l) (.undefinedVariable l.text) l
  | unary {op : Leaf} {n : Node} {v : Value} {cause : Fault} :
    Evaluates scope n v → applyUnary op.text v = .error cause →
    Fails scope (.branch .unary [.leaf op, n]) cause op
  | binary {op : Leaf} {l r : Node} {v w : Value} {cause : Fault} :
    Evaluates scope l v → Evaluates scope r w → applyBinary op.text v w = .error cause →
    Fails scope (.branch .binary [l, .leaf op, r]) cause op

/-- Why an expression has no value in a scope, and the leaf that is to blame. Operands are evaluated
    from left to right, and the first that has no value decides. -/
inductive Faults (scope : Scope) : Node → Fault → Leaf → Prop
  | here {n : Node} {cause : Fault} {culprit : Leaf} :
    Fails scope n cause culprit → Faults scope n cause culprit
  | operand {op n : Node} {cause : Fault} {culprit : Leaf} :
    Faults scope n cause culprit → Faults scope (.branch .unary [op, n]) cause culprit
  | left {op l r : Node} {cause : Fault} {culprit : Leaf} :
    Faults scope l cause culprit → Faults scope (.branch .binary [l, op, r]) cause culprit
  | right {op l r : Node} {v : Value} {cause : Fault} {culprit : Leaf} :
    Evaluates scope l v → Faults scope r cause culprit →
    Faults scope (.branch .binary [l, op, r]) cause culprit

variable {scope : Scope} {n : Node} {cause : Fault} {culprit : Leaf}

theorem Faults.mem_leaves (faults : Faults scope n cause culprit) : culprit ∈ n.leaves := by
  induction faults with
  | here fails => cases fails <;> simp [leaves, forestLeaves]
  | operand _ ih | left _ ih | right _ _ ih => simp [leaves, forestLeaves, ih]

end Node

/-! ## Causes -/

/-- The leaves that the faults of expressions are blamed on. -/
inductive Fault.Suits : Fault → Leaf → Prop
  | undefinedVariable {l : Leaf} :
    l.kind = .token .identifier → Suits (.undefinedVariable l.text) l
  | typeMismatch {l : Leaf} (operands : List ValueKind) : Suits (.typeMismatch l.text operands) l
  | divisionByZero {l : Leaf} : l.text = "/" → Suits .divisionByZero l

theorem BinaryOp.arithmetic_error {op : BinaryOp} {f : Float → Float → Except Fault Float}
    {lhs rhs : Value} {cause : Fault} (failed : op.arithmetic f lhs rhs = .error cause) :
    (∃ operands, cause = .typeMismatch op.text operands) ∨ ∃ x y, f x y = .error cause := by
  unfold arithmetic at failed
  split at failed
  · next x y =>
    right
    cases outcome : f x y with
    | ok z =>
      rw [outcome] at failed
      cases failed
    | error reason =>
      rw [outcome] at failed
      cases failed
      exact ⟨x, y, outcome⟩
  · cases failed
    exact .inl ⟨_, rfl⟩

theorem Comparison.apply_error {c : Comparison} {lhs rhs : Value} {cause : Fault}
    (failed : c.apply lhs rhs = .error cause) :
    ∃ operands, cause = .typeMismatch c.text operands := by
  unfold apply at failed
  split at failed
  · cases failed
  · cases failed
  · split at failed
    · cases failed
    · cases failed
    · cases failed
      exact ⟨_, rfl⟩
  · cases failed
    exact ⟨_, rfl⟩

theorem BinaryOp.apply_error {op : BinaryOp} {lhs rhs : Value} {cause : Fault}
    (failed : op.apply lhs rhs = .error cause) :
    (∃ operands, cause = .typeMismatch op.text operands) ∨
      op = .divide ∧ cause = .divisionByZero := by
  have never : ∀ {f : Float → Float → Float},
      op.arithmetic (fun x y => .ok (f x y)) lhs rhs = .error cause →
      ∃ operands, cause = .typeMismatch op.text operands := by
    intro f failed
    rcases arithmetic_error failed with mismatch | ⟨x, y, impossible⟩
    · exact mismatch
    · cases impossible
  cases op with
  | add =>
    simp only [apply] at failed
    split at failed
    · cases failed
    · exact .inl (never failed)
  | subtract => exact .inl (never failed)
  | multiply => exact .inl (never failed)
  | divide =>
    rcases arithmetic_error failed with mismatch | ⟨x, y, zero⟩
    · exact .inl mismatch
    · split at zero
      · cases zero
        exact .inr ⟨rfl, rfl⟩
      · cases zero
  | compare c =>
    left
    cases outcome : c.apply lhs rhs with
    | ok b =>
      rw [apply, outcome] at failed
      cases failed
    | error reason =>
      rw [apply, outcome] at failed
      cases failed
      exact Comparison.apply_error outcome
  | and => cases failed
  | or => cases failed

open Node Lexical Outcome

variable {l : Leaf} {n : Node} {scope : Scope} {cause : Fault} {culprit : Leaf}

/-- A binary operator of a program that does not apply is to blame. -/
theorem suits_of_applyBinary {level : Nat} (operator : IsLeaf (operatorsAt level) (.leaf l))
    {lhs rhs : Value} (failed : applyBinary l.text lhs rhs = .error cause) : cause.Suits l := by
  have ordinary : Ordinarily (applyBinary l.text lhs rhs) := by
    obtain ⟨isOperator, lexeme⟩ := operator
    exact applyBinary_ordinarily isOperator lexeme lhs rhs
  unfold applyBinary at failed ordinary
  split at failed
  · next op found =>
    have spelled := List.find?_some found
    simp only [decide_eq_true_eq] at spelled
    rcases BinaryOp.apply_error failed with ⟨operands, rfl⟩ | ⟨rfl, rfl⟩
    · rw [spelled]
      exact .typeMismatch operands
    · exact .divisionByZero spelled.symm
  · next unknown =>
    rw [unknown] at ordinary
    cases ordinary

theorem suits_of_applyUnary (operator : IsLeaf unaryOperators (.leaf l)) {operand : Value}
    (failed : applyUnary l.text operand = .error cause) : cause.Suits l := by
  have ordinary : Ordinarily (applyUnary l.text operand) := by
    obtain ⟨isOperator, lexeme⟩ := operator
    exact applyUnary_ordinarily isOperator lexeme operand
  rw [failed] at ordinary
  unfold applyUnary at failed
  split at failed
  · cases failed
  · split at failed
    · split at failed
      · cases failed
      · cases failed
        exact .typeMismatch _
    · cases failed
      cases ordinary

theorem Node.Fails.suits (fails : Fails scope n cause culprit) (shaped : IsExpression n) :
    cause.Suits culprit := by
  cases fails with
  | name isName => exact .undefinedVariable isName
  | unary _ failed =>
    cases shaped with
    | atom leaf => cases leaf
    | unary operator _ => exact suits_of_applyUnary operator failed
  | binary _ _ failed =>
    cases shaped with
    | atom leaf => cases leaf
    | binary operator _ _ => exact suits_of_applyBinary operator failed

theorem Node.Faults.suits (faults : Faults scope n cause culprit) (shaped : IsExpression n) :
    cause.Suits culprit := by
  induction faults with
  | here fails => exact fails.suits shaped
  | operand _ ih =>
    cases shaped with
    | atom leaf => cases leaf
    | unary _ operand => exact ih operand
  | left _ ih =>
    cases shaped with
    | atom leaf => cases leaf
    | binary _ first _ => exact ih first
  | right _ _ ih =>
    cases shaped with
    | atom leaf => cases leaf
    | binary _ _ second => exact ih second

/-! ## Operations along the left spine -/

/-- An operand with operations added to its right, the first one innermost. -/
def Node.joined (n : Node) (operations : List (List Node)) : Node :=
  operations.foldl (fun left operation => .branch .binary (left :: operation)) n

theorem Node.joined_spine (n : Node) (outer : List (List Node)) :
    (n.spine outer).1.joined (n.spine outer).2 = n.joined outer := by
  fun_induction spine n outer with
  | case1 left rest outer ih => exact ih
  | case2 n outer => rfl

open Eval in
theorem Node.Faults.joined {operations : List (List Node)}
    (faults : Faults scope n cause culprit) (shaped : ∀ o ∈ operations, IsOperation o) :
    Faults scope (n.joined operations) cause culprit := by
  induction operations generalizing n with
  | nil => exact faults
  | cons operation rest ih =>
    obtain ⟨⟨_, _⟩, others⟩ := List.forall_mem_cons.mp shaped
    exact ih faults.left others

namespace Eval

/-! ## Evaluation -/

/-- A fault that is blamed on a leaf with a place is reported there. -/
def PlacedAt (culprit : Leaf) (place : Option Position) : Prop :=
  culprit.position?.isSome → place = culprit.position?

/-- The results of evaluating an expression from a state. -/
inductive Settles (m : Machine) (n : Node) (placed : Leaf → Option Position → Prop) :
    EStateM.Result Halt Machine Value → Prop
  | value {v : Value} : Evaluates m.scope n v → Settles m n placed (.ok v m)
  | tooDeep : Settles m n placed (.error .tooDeep m)
  | fault {cause : Fault} {place : Option Position} {culprit : Leaf} :
    Faults m.scope n cause culprit → placed culprit place →
    Settles m n placed (.error (.fault cause place) m)

variable {settings : Settings} {room : Nat} {m : Machine}

theorem Settles.mono {placed placed' : Leaf → Option Position → Prop}
    {result : EStateM.Result Halt Machine Value} (settles : Settles m n placed result)
    (weaker : ∀ culprit place, placed culprit place → placed' culprit place) :
    Settles m n placed' result := by
  cases settles with
  | value evaluates => exact .value evaluates
  | tooDeep => exact .tooDeep
  | fault faults placed => exact .fault faults (weaker _ _ placed)

/-- A fault of an expression itself gets the place of its culprit, which is that of the expression;
    a fault from further inside has it already. -/
theorem Settles.located {x : EvalM Value}
    (settles : Settles m n (fun culprit place => PlacedAt culprit place ∨
      place = none ∧ n.faultPosition? = culprit.position?) (x m)) :
    Settles m n PlacedAt (locating Node.faultPosition? n x m) := by
  unfold locating
  generalize x m = result at settles
  cases settles with
  | value evaluates => exact .value evaluates
  | tooDeep => exact .tooDeep
  | @fault cause place culprit faults placed =>
    cases place with
    | none =>
      refine .fault faults fun known => ?_
      rcases placed with inside | ⟨-, here⟩
      · rw [← inside known] at known
        cases known
      · exact here
    | some place =>
      rcases placed with inside | ⟨impossible, -⟩
      · exact .fault faults inside
      · cases impossible

/-- What comes after a demand for room. -/
theorem Settles.demand {units : Nat} {placed : Leaf → Option Position → Prop}
    {next : Unit → EvalM Value} (settles : Settles m n placed (next () m)) :
    Settles m n placed ((Eval.demand units room >>= next) m) := by
  by_cases deep : room < units
  · rw [bind_error (demand_deep deep m)]
    exact .tooDeep
  · rwa [bind_ok (demand_enough deep m)]

theorem lookup_settles (isName : l.kind = .token .identifier) :
    Settles m (.leaf l) (fun culprit place => PlacedAt culprit place ∨
      place = none ∧ (Node.leaf l).faultPosition? = culprit.position?) (lookup room l.text m) := by
  rw [lookup_run]
  split
  · exact .tooDeep
  · cases found : Scope.get? m.scope l.text with
    | some v => exact .value (.name isName found)
    | none => exact .fault (.here (.name isName found)) (.inr ⟨rfl, rfl⟩)

theorem evalLeaf_settles (leaf : IsLeaf atoms (.leaf l)) :
    Settles m (.leaf l) (fun culprit place => PlacedAt culprit place ∨
      place = none ∧ (Node.leaf l).faultPosition? = culprit.position?) (evalLeaf room l m) := by
  obtain ⟨isAtom, lexeme⟩ := leaf
  refine .demand ?_
  simp only [atoms, List.mem_cons, List.not_mem_nil, or_false] at isAtom
  rcases isAtom with rfl | rfl | rfl
  · obtain ⟨x, read⟩ := Option.isSome_iff_exists.mp (Number.read?_isSome lexeme.numeral)
    refine .demand ?_
    rw [read]
    exact .value (.number rfl read)
  · exact .demand (.value (.string rfl))
  · exact lookup_settles rfl

theorem foldOperators_settles
    (operands : ∀ n, IsExpression n → Settles m n PlacedAt (eval settings room n m))
    {operations : List (List Node)} (shaped : ∀ o ∈ operations, IsOperation o) {v : Value}
    (evaluates : Evaluates m.scope n v) :
    Settles m (n.joined operations) PlacedAt
      (foldOperators settings room (eval settings room) v operations m) := by
  induction operations generalizing n v with
  | nil => exact .value evaluates
  | cons operation rest ih =>
    obtain ⟨@⟨level, op, right, operator, shapedRight⟩, others⟩ := List.forall_mem_cons.mp shaped
    show Settles m (Node.joined (.branch .binary [n, op, right]) rest) _ _
    have operand := operands right shapedRight
    rw [foldOperators]
    cases outcome : eval settings room right m with
    | error reason m' =>
      rw [outcome] at operand
      rw [bind_error outcome]
      cases operand with
      | tooDeep => exact .tooDeep
      | fault faults placed => exact .fault (Faults.joined (.right evaluates faults) others) placed
    | ok w m' =>
      rw [outcome] at operand
      rw [bind_ok outcome]
      cases operand with
      | value second =>
        obtain ⟨sign, rfl⟩ := operator.exists_leaf
        cases applied : applyBinary sign.text v w with
        | ok x =>
          have done : locating Node.position? (.leaf sign)
              (operatorText settings room (.leaf sign) >>= fun text =>
                lift (applyBinary text v w)) m =
                .ok x m := by
            rw [operatorText, locating, pure_bind, applied]
            rfl
          rw [bind_ok done]
          exact ih others (.binary evaluates second applied)
        | error cause =>
          have failed : locating Node.position? (.leaf sign)
              (operatorText settings room (.leaf sign) >>= fun text =>
                lift (applyBinary text v w)) m =
                .error (.fault cause sign.position?) m := by
            rw [operatorText, locating, pure_bind, applied]
            rfl
          rw [bind_error failed]
          have fails : Faults m.scope (.branch .binary [n, .leaf sign, right]) cause sign :=
            .here (.binary evaluates second applied)
          exact .fault (fails.joined others) fun _ => rfl

theorem unary_settles {sign : Leaf} (operand : Settles m n PlacedAt (eval settings room n m)) :
    Settles m (.branch .unary [.leaf sign, n]) (fun culprit place => PlacedAt culprit place ∨
      place = none ∧ (branch .unary [.leaf sign, n]).faultPosition? = culprit.position?)
      (compound settings (room + 2) .unary [.leaf sign, n] m) := by
  rw [compound_unary]
  cases outcome : eval settings room n m with
  | error reason m' =>
    rw [outcome] at operand
    rw [bind_error outcome]
    cases operand with
    | tooDeep => exact .tooDeep
    | fault faults placed => exact .fault (.operand faults) (.inl placed)
  | ok v m' =>
    rw [outcome] at operand
    rw [bind_ok outcome]
    cases operand with
    | value evaluates =>
      cases applied : applyUnary sign.text v with
      | ok w => exact .value (.unary evaluates applied)
      | error cause =>
        refine .fault (.here (.unary evaluates applied)) (.inr ⟨rfl, ?_⟩)
        rw [faultPosition?_branch (by simp), position?_eq_head?]
        rfl

theorem binary_settles {level : Nat} {l op r : Node} (operator : IsLeaf (operatorsAt level) op)
    (first : IsExpression l) (second : IsExpression r)
    (operands : ∀ n, IsExpression n → Settles m n PlacedAt (eval settings room n m)) :
    Settles m (.branch .binary [l, op, r]) PlacedAt
      (compound settings (room + 2) .binary [l, op, r] m) := by
  obtain ⟨start, operations⟩ := spine_shape first
    (List.forall_mem_singleton.mpr (IsOperation.intro operator second))
  have whole : (l.spine [[op, r]]).1.joined (l.spine [[op, r]]).2 = .branch .binary [l, op, r] :=
    joined_spine l [[op, r]]
  have settles := operands _ start
  rw [compound_binary, ← whole]
  cases outcome : eval settings room (l.spine [[op, r]]).1 m with
  | error reason m' =>
    rw [outcome] at settles
    rw [bind_error outcome]
    cases settles with
    | tooDeep => exact .tooDeep
    | fault faults placed => exact .fault (faults.joined operations) placed
  | ok v m' =>
    rw [outcome] at settles
    rw [bind_ok outcome]
    cases settles with
    | value evaluates => exact foldOperators_settles operands operations evaluates

/-- Evaluating an expression gives its value, or faults where it has none: by induction on the room,
    since operands are evaluated with less. -/
theorem eval_settles (settings : Settings) (room : Nat) (shaped : IsExpression n) (m : Machine) :
    Settles m n PlacedAt (eval settings room n m) := by
  induction room using Nat.strongRecOn generalizing n with
  | ind room ih =>
    match room with
    | 0 | 1 => exact .tooDeep
    | room + 2 =>
      refine .located ?_
      cases shaped with
      | atom leaf =>
        obtain ⟨l, rfl⟩ := leaf.exists_leaf
        exact evalLeaf_settles leaf
      | unary operator operand =>
        match room with
        | 0 | 1 => exact .tooDeep
        | room + 2 =>
          obtain ⟨sign, rfl⟩ := operator.exists_leaf
          exact unary_settles (ih room (by omega) operand)
      | binary operator first second =>
        match room with
        | 0 | 1 => exact .tooDeep
        | room + 2 =>
          have settles := binary_settles operator first second fun n shaped =>
            ih room (by omega) shaped
          exact settles.mono fun _ _ => .inl

/-- An expression is evaluated in the same way whatever the settings are. -/
theorem eval_settings (left right : Settings) (room : Nat) (shaped : IsExpression n)
    (m : Machine) : eval right room n m = eval left room n m := by
  let same : Reading :=
    { change := .none
      fits := fun _ => True
      excused := fun _ => False
      agree := fun m m' => m' = m
      excused_placed := fun _ _ => id
      lookup := fun l _ _ room => Simulates.refl (lookup room l.text) }
  have outcome := same.evaluates left right room n shaped (fun _ _ => trivial) m m rfl
  rw [changed, show same.change.apply = fun l => l from rfl, mapLeaves_id] at outcome
  exact outcome.eq

end Eval

end BraceScript
