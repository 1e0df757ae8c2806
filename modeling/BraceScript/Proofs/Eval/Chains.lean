import BraceScript.Proofs.Eval.Actions
import BraceScript.Proofs.Eval.Ensures
import BraceScript.Proofs.Grammar.Chains
import BraceScript.Proofs.Report
import Mathlib.Data.List.Basic

/-!
# Running chains of operators

The left operands of a chain are folded in a loop, so that only right operands lie within one
another, and they do so at most seven times. In a single frame a search for a name takes one unit of
room. Simple statements with chains are thus run in a room of 39 units, however long the chains are
and however their operations end: no program of them is nested too deeply.
-/

namespace BraceScript

open Node

theorem Scope.reach_single (frame : Frame) (name : String) : Scope.reach [frame] name = 1 := by
  unfold Scope.reach
  split <;> rfl

/-- An operator and a right operand that leans less than a number. -/
inductive Node.LeaningOperation (depth : Nat) : List Node → Prop
  | intro {less : Nat} {op : Leaf} {r : Node} :
    less < depth → Leaning less r → LeaningOperation depth [.leaf op, r]

/-- The left spine of leaning operators starts with a leaf. -/
theorem Node.Leaning.spine {depth : Nat} {n : Node} (leans : Leaning depth n) :
    ∀ {outer : List (List Node)}, (∀ o ∈ outer, LeaningOperation depth o) →
      (∃ l, (n.spine outer).1 = .leaf l) ∧ ∀ o ∈ (n.spine outer).2, LeaningOperation depth o := by
  induction leans with
  | leaf =>
    intro outer outside
    exact ⟨⟨_, rfl⟩, outside⟩
  | operation _ right ihl =>
    intro outer outside
    exact ihl (List.forall_mem_cons.mpr ⟨.intro (Nat.lt_succ_self _) right, outside⟩)

namespace Eval

/-- Run in a single frame, an action does not run out of room and leaves a single frame. -/
def NeverDeep {α : Type} (action : EvalM α) : Prop :=
  Ensures (fun m => ∃ frame, m.scope = [frame]) (· ≠ .tooDeep) action fun _ => True

variable {α β : Type} {settings : Settings} {depth room : Nat} {name : String} {value : Value}
  {n : Node}

/-! ## Actions -/

namespace NeverDeep

theorem pure (a : α) : NeverDeep (Pure.pure a) := Ensures.value trivial

theorem fault (cause : Fault) : NeverDeep (fail cause : EvalM α) := Ensures.fault nofun

theorem bind {action : EvalM α} {next : α → EvalM β} (first : NeverDeep action)
    (second : ∀ a, NeverDeep (next a)) : NeverDeep (action >>= next) :=
  Ensures.bind first fun a _ => second a

theorem located {action : EvalM α} (never : NeverDeep action) (place : Node → Option Position)
    (n : Node) : NeverDeep (locating place n action) :=
  Ensures.located never fun _ _ => nofun

theorem demand {units : Nat} (enough : units ≤ room) : NeverDeep (demand units room) := by
  unfold Eval.demand
  rw [if_neg (Nat.not_lt.mpr enough)]
  exact pure ()

theorem lift (outcome : Except Fault α) : NeverDeep (lift outcome) := by
  cases outcome with
  | ok a => exact pure a
  | error cause => exact fault cause

theorem poll : NeverDeep (poll settings) := by
  apply Ensures.bind .state
  rintro m ⟨frame, single⟩
  apply Ensures.bind (.put ⟨frame, single⟩)
  intro _ _
  split
  · split
    · exact fault _
    · exact pure ()
  · exact pure ()

theorem lookup (enough : 1 ≤ room) : NeverDeep (lookup room name) := by
  apply Ensures.bind .state
  rintro m ⟨frame, single⟩
  refine bind (demand (by rwa [single, Scope.reach_single])) fun _ => ?_
  split
  · exact pure _
  · exact fault _

theorem requireBound (enough : 1 ≤ room) : NeverDeep (requireBound room name) := by
  apply Ensures.bind .state
  rintro m ⟨frame, single⟩
  refine bind (demand (by rwa [single, Scope.reach_single])) fun _ => ?_
  split
  · exact fault _
  · exact pure ()

theorem define : NeverDeep (define name value) := by
  refine Ensures.change ?_
  rintro m ⟨frame, single⟩
  exact ⟨frame.put name value, by rw [single, Scope.define]⟩

theorem assign (enough : 1 ≤ room) : NeverDeep (assign room name value) := by
  apply Ensures.bind .state
  rintro m ⟨frame, single⟩
  refine bind (demand (by rwa [single, Scope.reach_single])) fun _ => ?_
  split
  · next changed found =>
    refine Ensures.put ?_
    rw [single, Scope.set?] at found
    split at found
    · obtain ⟨⟩ := found
      exact ⟨_, rfl⟩
    · cases found
  · exact fault _

theorem record : NeverDeep (record value) :=
  Ensures.change fun _ single => single

theorem runAll {run : Node → EvalM Value} {ns : List Node} (each : ∀ n ∈ ns, NeverDeep (run n)) :
    NeverDeep (runAll settings run ns) := by
  induction ns with
  | nil => exact pure ()
  | cons n ns ih =>
    obtain ⟨first, others⟩ := List.forall_mem_cons.mp each
    exact bind poll fun _ => bind first.discard fun _ => ih others

end NeverDeep

/-! ## Expressions -/

theorem evalLeaf_neverDeep (enough : 5 ≤ room) (l : Leaf) : NeverDeep (evalLeaf room l) := by
  refine .bind (.demand (by omega)) fun _ => ?_
  split
  · refine .bind (.demand enough) fun _ => ?_
    split
    · exact .pure _
    · exact .fault _
  · exact .bind (.demand enough) fun _ => .pure _
  · exact .lookup (by omega)
  · exact .fault _

theorem eval_leaf_neverDeep (enough : 7 ≤ room) (l : Leaf) :
    NeverDeep (eval settings room (.leaf l)) := by
  obtain ⟨less, rfl⟩ : ∃ less, room = less + 2 := ⟨room - 2, by omega⟩
  exact (evalLeaf_neverDeep (by omega) l).located _ _

theorem foldOperators_neverDeep {run : Node → EvalM Value}
    (operands : ∀ less < depth, ∀ r, Leaning less r → NeverDeep (run r))
    {operations : List (List Node)} (lean : ∀ o ∈ operations, LeaningOperation depth o)
    (left : Value) : NeverDeep (foldOperators settings room run left operations) := by
  induction operations generalizing left with
  | nil => exact .pure left
  | cons o operations ih =>
    obtain ⟨⟨smaller, leans⟩, others⟩ := List.forall_mem_cons.mp lean
    refine .bind (operands _ smaller _ leans) fun value => .bind (.located ?_ _ _) (ih others)
    exact .bind (.pure _) fun text => .lift _

/-- Every right operand around another takes four units. -/
theorem eval_leaning_neverDeep (leans : Leaning depth n) (enough : 4 * depth + 7 ≤ room) :
    NeverDeep (eval settings room n) := by
  induction depth using Nat.strongRecOn generalizing n room with
  | ind depth ih =>
    cases leans with
    | leaf => exact eval_leaf_neverDeep (by omega) _
    | @operation depth l r op left right =>
      obtain ⟨less, rfl⟩ : ∃ less, room = less + 4 := ⟨room - 4, by omega⟩
      have outside : ∀ o ∈ [[.leaf op, r]], LeaningOperation (depth + 1) o :=
        List.forall_mem_singleton.mpr (.intro (Nat.lt_succ_self _) right)
      obtain ⟨⟨first, starts⟩, lean⟩ := left.spine outside
      refine NeverDeep.located ?_ _ _
      change NeverDeep (compound settings (less + 2) .binary (l :: [.leaf op, r]))
      rw [compound_binary, starts]
      refine .bind (eval_leaf_neverDeep (by omega) first) fun value => ?_
      exact foldOperators_neverDeep (fun smaller isSmaller r leans =>
        ih smaller isSmaller leans (by omega)) lean value

/-! ## Statements -/

theorem eval_statement_neverDeep (leans : LeaningStatement depth n)
    (enough : 4 * depth + 11 ≤ room) : NeverDeep (eval settings room n) := by
  obtain ⟨less, rfl⟩ : ∃ less, room = less + 4 := ⟨room - 4, by omega⟩
  refine NeverDeep.located ?_ _ _
  cases leans with
  | declaration isName leans =>
    rw [step_compound _ _ _ (by simp), compound_declaration _ _ isName]
    exact .bind (eval_leaning_neverDeep leans (by omega)) fun v => .bind .define fun _ => .pure _
  | assignment isName leans =>
    rw [step_compound _ _ _ (by simp), compound_assignment _ _ isName]
    refine .bind (.requireBound (by omega)) fun _ => ?_
    refine .bind (eval_leaning_neverDeep leans (by omega)) fun v => ?_
    exact .bind (.assign (by omega)) fun _ => .pure _
  | print leans =>
    refine .bind (.bind (eval_leaning_neverDeep leans (by omega)) fun v => ?_) fun _ => .pure _
    split
    · exact .record
    · exact .fault _
  | expression leans =>
    exact .bind (eval_leaning_neverDeep leans (by omega)).discard fun _ => .pure _

theorem eval_program_neverDeep {ns : List Node} (lean : ∀ n ∈ ns, LeaningStatement 7 n) :
    NeverDeep (eval settings depthLimit (.branch .program ns)) := by
  refine NeverDeep.located (.bind (.runAll fun n member => ?_) fun _ => .pure _) _ _
  exact eval_statement_neverDeep (lean n member) (by decide)

end Eval

/-- Programs of declarations, assignments, print and expression statements whose expressions are
    literals and names with any binary operators between them are parsed, and running them in a
    single frame does not end because they are nested too deeply, however many statements and
    operators there are and however the operations end. -/
theorem chains_never_too_deep {tokens : List Token}
    (phrase : Phrase.ChainProgram (Phrase.beforeEnd tokens)) :
    ∃ tree, parse tokens = .ok tree ∧ ∀ settings frame,
      (execute settings [frame] tree).failure ≠ some (.halt .tooDeep) := by
  obtain ⟨ns, parsed, lean⟩ := Grammar.parse_of_chainProgram phrase
  refine ⟨_, parsed, fun settings frame failed => ?_⟩
  obtain ⟨m, outcome⟩ := eval_of_failure failed
  have never : Eval.NeverDeep (Eval.eval settings Eval.depthLimit (.branch .program ns)) :=
    Eval.eval_program_neverDeep lean
  have never := never ⟨[frame], #[], 0⟩ ⟨frame, rfl⟩
  rw [outcome] at never
  exact never.1 rfl

/-- A chain with operators of three levels, the tightest of which fails. -/
theorem chains_never_too_deep_mismatch :
    let source := "var x = 1 - 2 * \"a\" < 3"
    ∃ tokens, scan source = .ok tokens ∧ Phrase.ChainProgram (Phrase.beforeEnd tokens) ∧
      (∃ tree, parse tokens = .ok tree ∧ ∀ settings frame,
        (execute settings [frame] tree).failure ≠ some (.halt .tooDeep)) ∧
      (run {} [[]] source).failure =
        some (.halt (.fault (.typeMismatch "*" [.number, .string]) (some ⟨14, 1, 15⟩))) := by
  intro source
  let operations : List Token :=
    [⟨.number, "1", ⟨8, 1, 9⟩⟩, ⟨.minus, "-", ⟨10, 1, 11⟩⟩, ⟨.number, "2", ⟨12, 1, 13⟩⟩,
     ⟨.star, "*", ⟨14, 1, 15⟩⟩, ⟨.string, "\"a\"", ⟨16, 1, 17⟩⟩, ⟨.less, "<", ⟨20, 1, 21⟩⟩,
     ⟨.number, "3", ⟨22, 1, 23⟩⟩]
  let tokens : List Token :=
    ⟨.kwVar, "var", ⟨0, 1, 1⟩⟩ :: ⟨.identifier, "x", ⟨4, 1, 5⟩⟩ :: ⟨.assign, "=", ⟨6, 1, 7⟩⟩ ::
      (operations ++ [⟨.endOfInput, "", ⟨23, 1, 24⟩⟩])
  have scanned : scan source = .ok tokens := by decide +kernel
  have chain : Phrase.Chain operations :=
    .operator (by decide) (Phrase.mem_operatorsAt_iff.mpr rfl) (.operator (by decide)
      (Phrase.mem_operatorsAt_iff.mpr rfl) (.operator (by decide)
        (Phrase.mem_operatorsAt_iff.mpr rfl) (.operand (by decide))))
  have phrase : Phrase.ChainProgram (Phrase.beforeEnd tokens) :=
    .cons (.declaration rfl rfl rfl chain (.omitted rfl)) .nil
  exact ⟨tokens, scanned, phrase, chains_never_too_deep phrase, by decide +kernel⟩

end BraceScript
