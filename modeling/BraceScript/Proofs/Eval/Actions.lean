import BraceScript.Proofs.Eval.Ordinary

/-!
# What actions and rules do

Equations that say what an action does from a state, and what a rule is made of for the trees that
programs have. The proofs about runs use them and leave the definitions alone.
-/

namespace BraceScript

open Node Outcome

theorem Node.IsLeaf.exists_leaf {kinds : List Kind} {n : Node} (leaf : IsLeaf kinds n) :
    ∃ l, n = .leaf l := by
  cases leaf
  exact ⟨_, rfl⟩

/-- The target of a binding statement of a program. -/
theorem Node.IsLeaf.identifier {n : Node} (name : IsLeaf [.identifier] n) :
    ∃ l, n = .leaf l ∧ l.kind = .token .identifier := by
  obtain ⟨isName, -⟩ := name
  obtain rfl : _ = Kind.identifier := by simpa using isName
  exact ⟨_, rfl, rfl⟩

/-- A statement prints, drops or otherwise uses the value of an expression: the first two have rules
    of their own, and the others share one. -/
theorem Node.IsStatement.rule {n : Node} (shaped : IsStatement n) :
    (∃ value, IsExpression value ∧ (n = .branch .print [value] ∨ n = .branch .expression [value])) ∨
      ∃ label ns, n = .branch label ns ∧
        label ∈ [.declaration, .assignment, .conditional, .loop] := by
  cases shaped with
  | print value => exact .inl ⟨_, value, .inl rfl⟩
  | expression value => exact .inl ⟨_, value, .inr rfl⟩
  | declaration | assignment | conditional | alternative | loop =>
    exact .inr ⟨_, _, rfl, by simp⟩

namespace Eval

/-! ## Actions -/

/-- A state after one more poll. -/
def polled (m : Machine) : Machine := { m with polls := m.polls + 1 }

/-- Whether the cancel signal is found set at the next poll. -/
def isCancelled (settings : Settings) (m : Machine) : Bool :=
  settings.cancelAfter.any (· ≤ m.polls)

theorem poll_run (settings : Settings) (m : Machine) :
    poll settings m =
      if isCancelled settings m then .error (.fault .cancelled none) (polled m)
      else .ok () (polled m) := by
  have counted : (set { m with polls := m.polls + 1 } : EvalM Unit) m = .ok () (polled m) := rfl
  rw [poll, bind_ok (get_ok m), bind_ok counted, isCancelled]
  cases settings.cancelAfter with
  | none => rfl
  | some count =>
    by_cases reached : count ≤ m.polls
    · simp only [reached, Option.any_some, decide_true, if_true]
      rfl
    · simp only [reached, Option.any_some, decide_false, Bool.false_eq_true, if_false]
      rfl

theorem demand_deep {units room : Nat} (deep : room < units) (m : Machine) :
    demand units room m = .error .tooDeep m := by
  rw [demand, if_pos deep]
  rfl

theorem demand_enough {units room : Nat} (enough : ¬ room < units) (m : Machine) :
    demand units room m = .ok () m := by
  rw [demand, if_neg enough]
  rfl

theorem lookup_run (room : Nat) (name : String) (m : Machine) :
    lookup room name m =
      if room < Scope.reach m.scope name then .error .tooDeep m
      else match Scope.get? m.scope name with
        | some value => .ok value m
        | none => .error (.fault (.undefinedVariable name) none) m := by
  rw [lookup, bind_ok (get_ok m)]
  by_cases deep : room < Scope.reach m.scope name
  · rw [if_pos deep]
    exact bind_error (demand_deep deep m)
  · rw [if_neg deep, bind_ok (demand_enough deep m)]
    cases Scope.get? m.scope name <;> rfl

theorem requireBound_run (room : Nat) (name : String) (m : Machine) :
    requireBound room name m =
      if room < Scope.reach m.scope name then .error .tooDeep m
      else if Scope.binds m.scope name then .ok () m
      else .error (.fault (.undefinedVariable name) none) m := by
  rw [requireBound, bind_ok (get_ok m)]
  by_cases deep : room < Scope.reach m.scope name
  · rw [if_pos deep]
    exact bind_error (demand_deep deep m)
  · rw [if_neg deep, bind_ok (demand_enough deep m)]
    cases Scope.binds m.scope name <;> rfl

theorem assign_run (room : Nat) (name : String) (value : Value) (m : Machine) :
    assign room name value m =
      if room < Scope.reach m.scope name then .error .tooDeep m
      else match Scope.set? m.scope name value with
        | some scope => .ok () { m with scope }
        | none => .error (.fault (.undefinedVariable name) none) m := by
  rw [assign, bind_ok (get_ok m)]
  by_cases deep : room < Scope.reach m.scope name
  · rw [if_pos deep]
    exact bind_error (demand_deep deep m)
  · rw [if_neg deep, bind_ok (demand_enough deep m)]
    cases Scope.set? m.scope name value <;> rfl

theorem define_run (name : String) (value : Value) (m : Machine) :
    define name value m = .ok () { m with scope := Scope.define m.scope name value } := rfl

theorem record_run (value : Value) (m : Machine) :
    record value m = .ok () { m with output := m.output.push value } := rfl

/-- Two lists of statements one after the other. -/
theorem runAll_append (settings : Settings) (run : Node → EvalM Value) (ns ms : List Node) :
    runAll settings run (ns ++ ms) =
      runAll settings run ns >>= fun _ => runAll settings run ms := by
  induction ns with
  | nil => rfl
  | cons n ns ih =>
    rw [List.cons_append, runAll, runAll, ih]
    funext m
    simp only [bind, EStateM.bind]
    cases poll settings m with
    | error reason m => rfl
    | ok _ m =>
      simp only
      cases discard (run n) m <;> rfl

/-! ## Rules -/

/-- The statements that bind names or have blocks. -/
theorem step_compound (settings : Settings) (room : Nat) {label : Label} (ns : List Node)
    (compounds : label ∈ [.declaration, .assignment, .conditional, .loop]) :
    step settings (room + 1) (.branch label ns) = compound settings room label ns := by
  simp only [List.mem_cons, List.not_mem_nil, or_false] at compounds
  rcases compounds with rfl | rfl | rfl | rfl <;> rfl

/-- An operation runs the operand that its left spine starts with, and folds the rest of it. -/
theorem compound_binary (settings : Settings) (room : Nat) (l : Node) (rest : List Node) :
    compound settings (room + 2) .binary (l :: rest) =
      eval settings room (l.spine [rest]).1 >>= fun value =>
        foldOperators settings room (eval settings room) value (l.spine [rest]).2 := rfl

theorem compound_unary (settings : Settings) (room : Nat) (op : Leaf) (n : Node) :
    compound settings (room + 2) .unary [.leaf op, n] =
      eval settings room n >>= fun value => lift (applyUnary op.text value) := rfl

theorem compound_declaration (settings : Settings) (room : Nat) {l : Leaf}
    (isName : l.kind = .token .identifier) (value : Node) :
    compound settings (room + 2) .declaration [.leaf l, value] = (do
      define l.text (← eval settings room value)
      return .unit) := by
  simp only [compound, targetName, if_pos isName]
  rfl

theorem compound_assignment (settings : Settings) (room : Nat) {l : Leaf}
    (isName : l.kind = .token .identifier) (value : Node) :
    compound settings (room + 2) .assignment [.leaf l, value] = (do
      requireBound room l.text
      let value ← eval settings room value
      assign room l.text value
      return .unit) := by
  simp only [compound, targetName, if_pos isName]
  rfl

end Eval

end BraceScript
