import BraceScript.Proofs.Eval.Actions
import BraceScript.Proofs.Eval.Rounds
import BraceScript.Proofs.Grammar.Leaves

/-!
# Evaluation by plain recursion

The evaluator follows the left spine of an operation in a loop: it runs the operand that the spine
starts with and folds the operators outward, so that the operations inside are never entered as
trees. `Plain.eval` is the evaluator that does not: it runs the two operands of an operation like
any other tree, applies the operator, and has no limit on nesting. A fault has the place of the
innermost tree around it that has one, which for an operation is its operator.

The two do the same, also for trees made by hand, as long as every operand and operator has a place
for its faults: an operand without one would get the place of the operator next to it here, and
that of the outermost operator of the spine there.
-/

namespace BraceScript

/-! ## The reference -/

namespace Eval.Plain

/-- The value of a name. -/
def lookup (name : String) : EvalM Value := do
  match Scope.get? (← get).scope name with
  | some value => return value
  | none => fail (.undefinedVariable name)

/-- Stops unless some frame binds a name. -/
def requireBound (name : String) : EvalM Unit := do
  if !Scope.binds (← get).scope name then fail (.undefinedVariable name)

/-- Changes a name in the nearest frame that binds it. -/
def assign (name : String) (value : Value) : EvalM Unit := do
  let m ← get
  match Scope.set? m.scope name value with
  | some scope => set { m with scope }
  | none => fail (.undefinedVariable name)

/-- The value of a leaf. -/
def evalLeaf (l : Leaf) : EvalM Value :=
  match l.kind with
  | .token .number =>
    match Number.read? l.text with
    | some x => return .number x
    | none => fail (.unreadableNumber l.text)
  | .token .string => return .string (Literal.decode l.text)
  | .token .identifier => lookup l.text
  | kind => fail (.unhandledLeaf kind.name l.text)

/-- The text of an operator leaf. -/
def operatorText (settings : Settings) : Node → EvalM String
  | .leaf l => return l.text
  | n => fail (.operatorExpected (settings.display n).text)

/-- Adds a value to the output of a run. -/
def print (settings : Settings) (value : Value) : EvalM Unit :=
  if settings.recording then record value else fail .printOutsideRun

/-- The value of an operator on the values of its operands. -/
def apply (settings : Settings) (op : Node) (left right : Value) : EvalM Value := do
  lift (applyBinary (← operatorText settings op) left right)

mutual

/-- The value of a tree; faults inside it without a place get its place. -/
def eval (settings : Settings) : Node → EvalM Value
  | .leaf l => locating Node.faultPosition? (.leaf l) (evalLeaf l)
  | .branch label children =>
    locating Node.faultPosition? (.branch label children)
      (match label, children with
      | .program, children => do
        statements settings children
        return .unit
      | .print, value :: _ => do
        print settings (← eval settings value)
        return .unit
      | .expression, value :: _ => do
        discard (eval settings value)
        return .unit
      | .declaration, [target, value] => do
        let name ← targetName .declaration target
        define name (← eval settings value)
        return .unit
      | .assignment, [target, value] => do
        let name ← targetName .assignment target
        requireBound name
        let value ← eval settings value
        assign name value
        return .unit
      | .conditional, [condition, body] => do
        if (← eval settings condition).isTrue then
          block settings body
        return .unit
      | .conditional, [condition, body, alternative] => do
        if (← eval settings condition).isTrue then
          block settings body
        else
          block settings alternative
        return .unit
      | .conditional, _ => fail (.malformedControl .conditional)
      | .loop, [condition, .branch .block body] => do
        runWhile settings (eval settings condition)
          (inBlock settings (statements settings body)) settings.loopFuel
        return .unit
      | .loop, _ => fail (.malformedControl .loop)
      | .binary, [left, op, right] => do
        let left ← eval settings left
        let right ← eval settings right
        apply settings op left right
      | .unary, [.leaf op, operand] => do
        lift (applyUnary op.text (← eval settings operand))
      | .block, _ => fail (.unknownNode Label.block.name)
      | .other name, _ => fail (.unknownNode name)
      | label, _ => fail (.malformedNode label.name))

/-- Runs statements in order, with a poll before each. -/
def statements (settings : Settings) : List Node → EvalM Unit
  | [] => return
  | n :: rest => do
    poll settings
    discard (eval settings n)
    statements settings rest

/-- Runs the statements of a block. -/
def block (settings : Settings) : Node → EvalM Unit
  | .leaf _ => inBlock settings (return)
  | .branch _ body => inBlock settings (statements settings body)

end

end Eval.Plain

/-! ## Trees whose operations have places -/

namespace Node

/-- Every leaf of a tree has a line, and every operation in it is an operator between two operands,
    none of the three without leaves. -/
inductive IsPlaced : Node → Prop
  | leaf {l : Leaf} : l.place.line ≠ none → IsPlaced (.leaf l)
  | operation {l op r : Node} : IsPlaced l → IsPlaced op → IsPlaced r →
    l.leaves ≠ [] → op.leaves ≠ [] → r.leaves ≠ [] → IsPlaced (.branch .binary [l, op, r])
  | branch {label : Label} {ns : List Node} :
    label ≠ .binary → (∀ n ∈ ns, IsPlaced n) → IsPlaced (.branch label ns)

namespace IsPlaced

variable {n : Node} {label : Label} {ns : List Node}

theorem leaf_line (placed : n.IsPlaced) : ∀ l ∈ n.leaves, l.place.line ≠ none := by
  induction placed with
  | leaf line => simpa [leaves] using line
  | operation _ _ _ _ _ _ left middle right =>
    intro l member
    simp only [leaves, forestLeaves, List.append_nil, List.mem_append] at member
    rcases member with member | member | member
    · exact left l member
    · exact middle l member
    · exact right l member
  | branch _ _ ih =>
    intro l member
    obtain ⟨n, inside, member⟩ := mem_leaves_branch.mp member
    exact ih n inside l member

theorem position? (placed : n.IsPlaced) (leafy : n.leaves ≠ []) : n.position?.isSome := by
  obtain ⟨l, first⟩ := exists_firstLeaf? leafy
  have inside : l ∈ n.leaves := by
    rw [firstLeaf?_eq_head?] at first
    exact List.mem_of_mem_head? first
  have line := placed.leaf_line l inside
  rw [Node.position?, first, Option.bind_some, Leaf.position?, Coordinates.position?,
    Option.isSome_map]
  exact Option.isSome_iff_ne_none.mpr line

theorem faultPosition? (placed : n.IsPlaced) (leafy : n.leaves ≠ []) : n.faultPosition?.isSome := by
  cases placed with
  | leaf line => exact (IsPlaced.leaf line).position? leafy
  | operation _ middle _ _ operator _ => exact middle.position? operator
  | branch other parts =>
    rw [faultPosition?_branch other]
    exact (IsPlaced.branch other parts).position? leafy

theorem parts (placed : (Node.branch label ns).IsPlaced) : ∀ n ∈ ns, n.IsPlaced := by
  cases placed with
  | operation left middle right => simpa using ⟨left, middle, right⟩
  | branch _ parts => exact parts

end IsPlaced

end Node

namespace Eval

open Node Outcome

variable {settings : Settings} {room : Nat} {n : Node} {ns : List Node}

/-! ## Actions -/

theorem locating_widens_tooDeep {α : Type} {narrow wide : EvalM α} (place : Node → Option Position)
    (n : Node) (widens : Widens (fun _ => .tooDeep) narrow wide) :
    Widens (fun _ => .tooDeep) (locating place n narrow) (locating place n wide) :=
  locating_widens (fun cause => by simp) widens

/-- What needs some room does what goes without. -/
theorem demand_widens {α : Type} {units room : Nat} {narrow wide : EvalM α}
    (widens : Widens (fun _ => .tooDeep) narrow wide) :
    Widens (fun _ => .tooDeep) (demand units room >>= fun _ => narrow) wide := by
  intro m
  by_cases deep : room < units
  · exact .inr ⟨m, bind_error (demand_deep deep m)⟩
  · rw [bind_ok (demand_enough deep m)]
    exact widens m

theorem lookup_widens (room : Nat) (name : String) :
    Widens (fun _ => .tooDeep) (lookup room name) (Plain.lookup name) :=
  .bind (.refl _) fun _ => demand_widens (.refl _)

theorem requireBound_widens (room : Nat) (name : String) :
    Widens (fun _ => .tooDeep) (requireBound room name) (Plain.requireBound name) :=
  .bind (.refl _) fun _ => demand_widens (.refl _)

theorem assign_widens (room : Nat) (name : String) (value : Value) :
    Widens (fun _ => .tooDeep) (assign room name value) (Plain.assign name value) :=
  .bind (.refl _) fun _ => demand_widens (.refl _)

theorem operatorText_widens (settings : Settings) (room : Nat) (n : Node) :
    Widens (fun _ => .tooDeep) (operatorText settings room n) (Plain.operatorText settings n) := by
  cases n with
  | leaf l => exact .refl _
  | branch label children => exact demand_widens (.refl _)

theorem evalLeaf_widens (room : Nat) (l : Leaf) :
    Widens (fun _ => .tooDeep) (evalLeaf room l) (Plain.evalLeaf l) := by
  refine demand_widens ?_
  unfold Plain.evalLeaf
  generalize l.kind = kind
  cases kind with
  | other name => exact .refl _
  | token kind =>
    cases kind
    case number | string => exact demand_widens (.refl _)
    case identifier => exact lookup_widens _ _
    all_goals exact .refl _

/-! ## Rules -/

/-- Evaluation with some room does what plain recursion does. -/
def Agrees (settings : Settings) (room : Nat) : Prop :=
  ∀ n : Node, n.IsPlaced → Widens (fun _ => .tooDeep) (eval settings room n) (Plain.eval settings n)

theorem runAll_widens (each : Agrees settings room) (placed : ∀ n ∈ ns, n.IsPlaced) :
    Widens (fun _ => .tooDeep) (runAll settings (eval settings room) ns)
      (Plain.statements settings ns) := by
  induction ns with
  | nil => exact .refl _
  | cons n ns ih =>
    obtain ⟨first, others⟩ := List.forall_mem_cons.mp placed
    exact .bind (.refl _) fun _ => (each n first).discard.bind fun _ => ih others

theorem statements_widens (below : ∀ less < room, Agrees settings less)
    (placed : ∀ n ∈ ns, n.IsPlaced) :
    Widens (fun _ => .tooDeep) (statements settings room ns) (Plain.statements settings ns) := by
  match room with
  | 0 => exact .stop (fun _ => rfl) _
  | room + 1 => exact runAll_widens (below room (by omega)) placed

theorem block_widens (below : ∀ less < room, Agrees settings less) (placed : n.IsPlaced) :
    Widens (fun _ => .tooDeep) (block settings room n) (Plain.block settings n) := by
  match room with
  | 0 => exact .stop (fun _ => rfl) _
  | room + 1 =>
    have inside : ∀ less < room, Agrees settings less := fun less small => below less (by omega)
    cases n with
    | leaf l => exact inBlock_widens rfl (statements_widens inside (by simp [children]))
    | branch label body => exact inBlock_widens rfl (statements_widens inside placed.parts)

theorem print_widens (below : ∀ less < room, Agrees settings less) (placed : n.IsPlaced) :
    Widens (fun _ => .tooDeep) (print settings room n)
      (Plain.eval settings n >>= Plain.print settings) := by
  match room with
  | 0 => exact .stop (fun _ => rfl) _
  | room + 1 => exact (below room (by omega) n placed).bind fun _ => .refl _

/-! ## Operations -/

theorem Plain.eval_places (placed : n.faultPosition?.isSome) :
    Places (Plain.eval settings n) := by
  unfold Plain.eval
  split
  · exact locating_places placed
  · exact locating_places placed

/-- By plain recursion an operation runs its operands, whose faults have places, and gives the
    faults of its application the place of its operator. -/
theorem Plain.eval_operation {l op r : Node} (left : l.faultPosition?.isSome)
    (right : r.faultPosition?.isSome) :
    Plain.eval settings (.branch .binary [l, op, r]) =
      Plain.eval settings l >>= fun a => Plain.eval settings r >>= fun b =>
        locating Node.position? op (Plain.apply settings op a b) := by
  rw [Plain.eval, locating_bind (Plain.eval_places left)]
  congr 1
  funext a
  rw [locating_bind (Plain.eval_places right)]
  rfl

theorem apply_widens (settings : Settings) (room : Nat) (op : Node) (a b : Value) :
    Widens (fun _ => .tooDeep)
      (locating Node.position? op do lift (applyBinary (← operatorText settings room op) a b))
      (locating Node.position? op (Plain.apply settings op a b)) :=
  locating_widens_tooDeep _ _ ((operatorText_widens settings room op).bind fun _ => .refl _)

/-- Folding the left spine of a tree does what plain recursion does with the tree and then with what
    is outside of it. The induction is on the spine: what is outside of the left operand of an
    operation is the operator and the right operand, and then what is outside of the operation. -/
theorem spine_widens (each : Agrees settings room) (placed : n.IsPlaced)
    {outer : List (List Node)} {rest : Value → EvalM Value}
    (others : ∀ v,
      Widens (fun _ => .tooDeep) (foldOperators settings room (eval settings room) v outer)
        (rest v)) :
    Widens (fun _ => .tooDeep)
      (eval settings room (n.spine outer).1 >>= fun v =>
        foldOperators settings room (eval settings room) v (n.spine outer).2)
      (Plain.eval settings n >>= rest) := by
  induction placed generalizing outer rest with
  | leaf line => exact (each _ (.leaf line)).bind others
  | @operation l op r left middle right hasLeft _ hasRight ih _ _ =>
    rw [Plain.eval_operation (left.faultPosition? hasLeft) (right.faultPosition? hasRight),
      bind_assoc]
    refine ih fun v => ?_
    rw [bind_assoc]
    exact (each r right).bind fun w => (apply_widens settings room op v w).bind others
  | @branch label ns other parts _ =>
    have ends : (Node.branch label ns).spine outer = (.branch label ns, outer) := by
      rw [spine]
      rintro _ _ same
      exact other (branch.inj same).1
    rw [ends]
    exact (each _ (.branch other parts)).bind others

theorem binary_widens (each : Agrees settings room) {l op r : Node}
    (placed : (Node.branch .binary [l, op, r]).IsPlaced) :
    Widens (fun _ => .tooDeep) (compound settings (room + 2) .binary [l, op, r])
      (Plain.eval settings (.branch .binary [l, op, r])) := by
  cases placed with
  | branch other _ => exact absurd rfl other
  | operation left _ right hasLeft _ hasRight =>
    rw [compound_binary,
      Plain.eval_operation (left.faultPosition? hasLeft) (right.faultPosition? hasRight)]
    refine spine_widens each left fun v => (each r right).bind fun w => ?_
    rw [← bind_pure (locating Node.position? op (Plain.apply settings op v w))]
    exact (apply_widens settings room op v w).bind fun v => .refl (pure v)

/-! ## Trees -/

/-- The rule that a label with a list of children selects, with the place of the tree for its
    faults, does what plain recursion does with the tree. -/
def RuleAgrees (settings : Settings) (room : Nat) (label : Label) (ns : List Node) : Prop :=
  Widens (fun _ => .tooDeep)
    (locating Node.faultPosition? (.branch label ns) (compound settings room label ns))
    (Plain.eval settings (.branch label ns))

theorem declaration_agrees (each : Agrees settings room) (placed : ∀ n ∈ ns, n.IsPlaced) :
    RuleAgrees settings (room + 2) .declaration ns := by
  match ns, placed with
  | [], _ | [_], _ | _ :: _ :: _ :: _, _ => exact .refl _
  | [target, value], placed =>
    refine locating_widens_tooDeep _ _ (.bind (.refl _) fun name => ?_)
    exact (each value (placed value (by simp))).bind fun _ => .refl _

theorem assignment_agrees (each : Agrees settings room) (placed : ∀ n ∈ ns, n.IsPlaced) :
    RuleAgrees settings (room + 2) .assignment ns := by
  match ns, placed with
  | [], _ | [_], _ | _ :: _ :: _ :: _, _ => exact .refl _
  | [target, value], placed =>
    refine locating_widens_tooDeep _ _ (.bind (.refl _) fun name => ?_)
    refine (requireBound_widens room name).bind fun _ => ?_
    refine (each value (placed value (by simp))).bind fun v => ?_
    exact (assign_widens room name v).bind fun _ => .refl _

theorem conditional_agrees (below : ∀ less ≤ room, Agrees settings less)
    (placed : ∀ n ∈ ns, n.IsPlaced) : RuleAgrees settings (room + 2) .conditional ns := by
  have inside : ∀ less < room, Agrees settings less := fun less small => below less (by omega)
  match ns, placed with
  | [], _ | [_], _ | _ :: _ :: _ :: _ :: _, _ => exact .refl _
  | [condition, body], placed =>
    refine locating_widens_tooDeep _ _ ?_
    refine (below room (by omega) condition (placed _ (by simp))).bind fun v => .ite ?_ (.refl _)
    exact (block_widens inside (placed body (by simp))).bind fun _ => .refl _
  | [condition, body, alternative], placed =>
    refine locating_widens_tooDeep _ _ ?_
    refine (below room (by omega) condition (placed _ (by simp))).bind fun v => .ite ?_ ?_
    · exact (block_widens inside (placed body (by simp))).bind fun _ => .refl _
    · exact (block_widens inside (placed alternative (by simp))).bind fun _ => .refl _

theorem loop_agrees (below : ∀ less ≤ room, Agrees settings less) (placed : ∀ n ∈ ns, n.IsPlaced) :
    RuleAgrees settings (room + 2) .loop ns := by
  match ns, placed with
  | [], _ | [_], _ | _ :: .leaf _ :: _, _ => exact .refl _
  | condition :: .branch label body :: rest, placed =>
    cases label
    case block =>
      cases rest with
      | cons _ _ => exact .refl _
      | nil =>
        have inside : ∀ less < room, Agrees settings less := fun less small => below less (by omega)
        refine locating_widens_tooDeep _ _ (Widens.bind ?_ fun _ => .refl _)
        exact runWhile_widens (.refl _) (below room (by omega) condition (placed _ (by simp)))
          (block_widens inside (placed _ (by simp))) (.inl rfl)
    all_goals exact .refl _

theorem unary_agrees (each : Agrees settings room) (placed : ∀ n ∈ ns, n.IsPlaced) :
    RuleAgrees settings (room + 2) .unary ns := by
  match ns, placed with
  | [], _ | .branch _ _ :: _, _ | [.leaf _], _ | .leaf _ :: _ :: _ :: _, _ => exact .refl _
  | [.leaf op, operand], placed =>
    refine locating_widens_tooDeep _ _ ?_
    exact (each operand (placed _ (by simp))).bind fun _ => .refl _

theorem operation_agrees (each : Agrees settings room)
    (placed : (Node.branch .binary ns).IsPlaced) : RuleAgrees settings (room + 2) .binary ns := by
  cases placed with
  | branch other _ => exact absurd rfl other
  | operation left middle right hasLeft hasMiddle hasRight =>
    have whole := IsPlaced.operation left middle right hasLeft hasMiddle hasRight
    have places : Places (Plain.eval settings _) :=
      Plain.eval_places (whole.faultPosition? (by simp [leaves, forestLeaves, hasLeft]))
    rw [RuleAgrees, ← locating_of_places places]
    exact locating_widens_tooDeep _ _ (binary_widens each whole)

theorem compound_agrees {label : Label}
    (compounds : label ∈ [.declaration, .assignment, .conditional, .loop, .binary, .unary])
    (below : ∀ less < room, Agrees settings less) (placed : (Node.branch label ns).IsPlaced) :
    RuleAgrees settings room label ns := by
  match room with
  | 0 | 1 => exact fun m => .inr ⟨m, rfl⟩
  | room + 2 =>
    have inside : ∀ less ≤ room, Agrees settings less := fun less small => below less (by omega)
    have each := inside room (Nat.le_refl _)
    simp only [List.mem_cons, List.not_mem_nil, or_false] at compounds
    rcases compounds with rfl | rfl | rfl | rfl | rfl | rfl
    · exact declaration_agrees each placed.parts
    · exact assignment_agrees each placed.parts
    · exact conditional_agrees inside placed.parts
    · exact loop_agrees inside placed.parts
    · exact operation_agrees each placed
    · exact unary_agrees each placed.parts

theorem childless_agrees {label : Label} (simple : label ∈ [.print, .expression]) :
    RuleAgrees settings room label [] := by
  match room with
  | 0 | 1 => exact fun m => .inr ⟨m, rfl⟩
  | room + 2 =>
    simp only [List.mem_cons, List.not_mem_nil, or_false] at simple
    rcases simple with rfl | rfl
    · exact .refl _
    · exact .refl _

theorem step_agrees {label : Label} (below : ∀ less ≤ room, Agrees settings less)
    (placed : (Node.branch label ns).IsPlaced) :
    Widens (fun _ => .tooDeep)
      (locating Node.faultPosition? (.branch label ns)
        (step settings (room + 1) (.branch label ns)))
      (Plain.eval settings (.branch label ns)) := by
  have inside : ∀ less < room, Agrees settings less := fun less small => below less (by omega)
  cases label
  case program =>
    refine locating_widens_tooDeep _ _ ?_
    exact (statements_widens inside placed.parts).bind fun _ => .refl _
  case print =>
    match ns, placed with
    | [], _ => exact childless_agrees (by simp)
    | value :: _, placed =>
      have shown := (print_widens inside (placed.parts value (by simp))).bind
        fun _ => .refl (pure Value.unit)
      rw [bind_assoc] at shown
      exact locating_widens_tooDeep _ _ shown
  case expression =>
    match ns, placed with
    | [], _ => exact childless_agrees (by simp)
    | value :: _, placed =>
      refine locating_widens_tooDeep _ _ ?_
      have each := below room (Nat.le_refl _)
      exact (each value (placed.parts value (by simp))).discard.bind fun _ => .refl _
  case block | other => exact .refl _
  all_goals exact compound_agrees (by simp) inside placed

/-- Evaluation with any room does what plain recursion does: by induction on the room. -/
theorem eval_agrees (settings : Settings) (room : Nat) : Agrees settings room := by
  induction room using Nat.strongRecOn with
  | ind room ih =>
    intro n placed
    match room, n with
    | 0, _ | 1, _ => exact fun m => .inr ⟨m, rfl⟩
    | room + 2, .leaf l => exact locating_widens_tooDeep _ _ (evalLeaf_widens room l)
    | room + 2, .branch label ns => exact step_agrees (fun less small => ih less (by omega)) placed

end Eval

/-! ## Trees of tokens -/

namespace Phrase

open Node

variable {ts : List Token} {n : Node}

theorem leafOf_isPlaced (t : Token) : (leafOf t).IsPlaced := .leaf (by simp)

theorem Expression.isPlaced {level : Nat} (phrase : Expression level ts n) :
    n.IsPlaced ∧ n.leaves ≠ [] := by
  induction phrase with
  | tighter _ ih => exact ih
  | @binary _ _ _ op _ _ _ _ _ ihl ihr =>
    have written : (leafOf op).leaves ≠ [] := by simp [leafOf, Node.leaves]
    refine ⟨.operation ihl.1 (leafOf_isPlaced op) ihr.1 ihl.2 written ihr.2, ?_⟩
    simp [Node.leaves, forestLeaves, ihl.2]
  | @unary _ op _ _ _ ih =>
    refine ⟨.branch (by simp) (by simp [leafOf_isPlaced op, ih.1]), ?_⟩
    simp [Node.leaves, forestLeaves, ih.2]
  | @atom t _ => exact ⟨leafOf_isPlaced t, by simp [leafOf, Node.leaves]⟩
  | parentheses _ _ _ ih => exact ih

theorem Parenthesized.isPlaced (phrase : Parenthesized ts n) : n.IsPlaced := by
  obtain ⟨_, inside, _⟩ := phrase
  exact inside.isPlaced.1

mutual

theorem Statement.isPlaced : ∀ {atEnd : Bool} {ts : List Token} {n : Node},
    Statement atEnd ts n → n.IsPlaced
  | _, _, _, @Statement.declaration _ _ _ _ name _ _ _ _ _ value _
  | _, _, _, @Statement.assignment _ _ _ name _ _ _ _ value _ =>
    .branch (by simp) (by simp [leafOf_isPlaced name, value.isPlaced.1])
  | _, _, _, .print _ value _ => .branch (by simp) (by simp [value.isPlaced])
  | _, _, _, .conditional _ test body => .branch (by simp) (by simp [test.isPlaced, body.isPlaced])
  | _, _, _, .alternative _ test body _ other =>
    .branch (by simp) (by simp [test.isPlaced, body.isPlaced, other.isPlaced])
  | _, _, _, .loop _ test body => .branch (by simp) (by simp [test.isPlaced, body.isPlaced])
  | _, _, _, .expression value _ => .branch (by simp) (by simp [value.isPlaced.1])

theorem Statements.isPlaced : ∀ {atEnd : Bool} {ts : List Token} {ns : List Node},
    Statements atEnd ts ns → ∀ n ∈ ns, n.IsPlaced
  | _, _, _, .nil => by simp
  | _, _, _, .empty _ rest => rest.isPlaced
  | _, _, _, .cons first rest => List.forall_mem_cons.mpr ⟨first.isPlaced, rest.isPlaced⟩

theorem Block.isPlaced : ∀ {ts : List Token} {n : Node}, Block ts n → n.IsPlaced
  | _, _, .intro _ body _ => .branch (by simp) body.isPlaced

end

theorem Program.isPlaced (phrase : Program ts n) : n.IsPlaced := by
  obtain ⟨statements⟩ := phrase
  exact .branch (by simp) statements.isPlaced

end Phrase

namespace Eval

/-- Evaluating a tree does what plain recursion does, unless it is nested too deeply: it gives the
    same value or the same fault at the same place, and leaves the same scope, output and number of
    polls. This holds of every tree whose operations have places, as those of parsed trees do. -/
theorem eval_eq_plain :
    (∀ (settings : Settings) (room : Nat) (n : Node) (m : Machine), n.IsPlaced →
      (∀ m', eval settings room n m ≠ .error .tooDeep m') →
      eval settings room n m = Plain.eval settings n m) ∧
    (∀ (tokens : List Token) (tree : Node), parse tokens = .ok tree → tree.IsPlaced) := by
  constructor
  · intro settings room n m placed shallow
    rcases eval_agrees settings room n placed m with same | ⟨m', deep⟩
    · exact same.symm
    · exact absurd deep (shallow m')
  · intro tokens tree parsed
    exact (Grammar.program_of_parse parsed).isPlaced

/-- A print statement as an operand inside a chain of operators: the fault is at the inner one. -/
def printInChain : Node :=
  .branch .binary
    [.branch .binary
      [.leaf ⟨.token .number, "1", ⟨some 0, some 1, some 1⟩⟩,
       .leaf ⟨.token .plus, "+", ⟨some 2, some 1, some 3⟩⟩,
       .branch .print [.leaf ⟨.token .string, "\"a\"", ⟨some 4, some 1, some 5⟩⟩]],
     .leaf ⟨.token .minus, "-", ⟨some 8, some 1, some 9⟩⟩,
     .leaf ⟨.token .number, "2", ⟨some 10, some 1, some 11⟩⟩]

theorem eval_eq_plain_printInChain :
    printInChain.IsPlaced ∧
    (∃ m, eval {} depthLimit printInChain ⟨[[]], #[], 0⟩ =
      .error (.fault (.typeMismatch "+" [.number, .unit]) (some ⟨2, 1, 3⟩)) m) ∧
    eval {} depthLimit printInChain ⟨[[]], #[], 0⟩ = Plain.eval {} printInChain ⟨[[]], #[], 0⟩ := by
  have leaf : ∀ (kind : LeafKind) (text : String) (offset line column : Int),
      (Node.leaf ⟨kind, text, ⟨some offset, some line, some column⟩⟩).IsPlaced :=
    fun _ _ _ _ _ => .leaf (by simp)
  have placed : printInChain.IsPlaced := by
    refine .operation (.operation (leaf ..) (leaf ..) (.branch (by simp) ?_) ?_ ?_ ?_) (leaf ..)
      (leaf ..) ?_ ?_ ?_
    · exact List.forall_mem_singleton.mpr (leaf ..)
    all_goals simp [Node.leaves, Node.forestLeaves]
  have failed : (match eval {} depthLimit printInChain ⟨[[]], #[], 0⟩ with
      | .error reason _ => some reason
      | .ok _ _ => none) = some (.fault (.typeMismatch "+" [.number, .unit]) (some ⟨2, 1, 3⟩)) := by
    decide +kernel
  obtain ⟨m, failed⟩ : ∃ m, eval {} depthLimit printInChain ⟨[[]], #[], 0⟩ =
      .error (.fault (.typeMismatch "+" [.number, .unit]) (some ⟨2, 1, 3⟩)) m := by
    revert failed
    cases eval {} depthLimit printInChain ⟨[[]], #[], 0⟩ with
    | ok v m => simp
    | error reason m => simp
  refine ⟨placed, ⟨m, failed⟩, eval_eq_plain.1 _ _ _ _ placed fun m' => ?_⟩
  rw [failed]
  simp

end Eval

end BraceScript
