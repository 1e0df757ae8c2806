import BraceScript.Prompt
import BraceScript.Proofs.Grammar.Sequence

/-!
# Brackets in programs

The prompt counts open brackets without telling parentheses from braces, and ignores a closing
bracket too many. Here the count is taken as a walk that such a bracket stops. The tokens of every
phrase are balanced: from any depth the walk over them goes through and comes back to that depth. So
it goes through all that a program begins with, and nothing is ever ignored there.
-/

namespace BraceScript

open Prompt

namespace Kind

/-- Whether a kind is an opening bracket. -/
def isOpening (kind : Kind) : Bool := kind = openParen || kind = openBrace

/-- Whether a kind is a closing bracket. -/
def isClosing (kind : Kind) : Bool := kind = closeParen || kind = closeBrace

/-- Whether a kind is a bracket. -/
def isBracket (kind : Kind) : Bool := kind.isOpening || kind.isClosing

end Kind

namespace Phrase

variable {atEnd : Bool} {level depth final : Nat} {t opening closing : Token}
  {ts us : List Token} {n : Node}

/-! ## The walk -/

/-- The depth after one more token, unless it closes a bracket where none is open. -/
def enter? (depth : Nat) (t : Token) : Option Nat :=
  if t.kind.isClosing && depth = 0 then none else some (depthAfter depth t)

/-- The depth after some tokens, unless a bracket is closed where none is open. -/
def walk? (depth : Nat) (ts : List Token) : Option Nat := ts.foldlM enter? depth

theorem walk?_cons : walk? depth (t :: ts) = (enter? depth t).bind (walk? · ts) := rfl

theorem walk?_append : walk? depth (ts ++ us) = (walk? depth ts).bind (walk? · us) :=
  List.foldlM_append

theorem enter?_opening (opens : t.kind.isOpening = true) :
    enter? depth t = some (depth + 1) := by
  simp only [Kind.isOpening, Bool.or_eq_true, decide_eq_true_eq] at opens
  rcases opens with same | same <;> simp [enter?, Kind.isClosing, depthAfter, same]

theorem enter?_closing (closes : t.kind.isClosing = true) :
    enter? depth t = if depth = 0 then none else some (depth - 1) := by
  simp only [Kind.isClosing, Bool.or_eq_true, decide_eq_true_eq] at closes
  rcases closes with same | same <;> simp [enter?, Kind.isClosing, depthAfter, same]

theorem enter?_other (plain : t.kind.isBracket = false) : enter? depth t = some depth := by
  simp only [Kind.isBracket, Kind.isOpening, Kind.isClosing, Bool.or_eq_false_iff,
    decide_eq_false_iff_not] at plain
  rw [enter?, if_neg (by simp [Kind.isClosing, plain])]
  unfold depthAfter
  split <;> simp_all

/-- One step of a walk adds an opening bracket or takes one away for a closing bracket. -/
theorem enter?_count (entered : enter? depth t = some final) :
    final + [t].countP (·.kind.isClosing) = depth + [t].countP (·.kind.isOpening) := by
  by_cases opens : t.kind.isOpening = true
  · have closes : t.kind.isClosing = false := by
      simp only [Kind.isOpening, Bool.or_eq_true, decide_eq_true_eq] at opens
      rcases opens with same | same <;> rw [same] <;> rfl
    rw [enter?_opening opens] at entered
    obtain ⟨⟩ := entered
    simp [opens, closes]
  by_cases closes : t.kind.isClosing = true
  · rw [enter?_closing closes] at entered
    split at entered
    · cases entered
    · obtain ⟨⟩ := entered
      simp only [List.countP_singleton, opens, closes, if_true, Bool.false_eq_true, if_false]
      omega
  · rw [enter?_other (by simp [Kind.isBracket, opens, closes])] at entered
    obtain ⟨⟩ := entered
    simp [opens, closes]

/-- A walk that goes through is the count of the prompt, and comes to the number of opening brackets
    less that of closing ones. -/
theorem walk?_count (walked : walk? depth ts = some final) :
    ts.foldl depthAfter depth = final ∧
      final + ts.countP (·.kind.isClosing) = depth + ts.countP (·.kind.isOpening) := by
  induction ts generalizing depth with
  | nil =>
    obtain ⟨⟩ := walked
    exact ⟨rfl, rfl⟩
  | cons t ts ih =>
    obtain ⟨mid, entered, rest⟩ := Option.bind_eq_some_iff.mp (walk?_cons.symm.trans walked)
    obtain ⟨folded, counted⟩ := ih rest
    have here := enter?_count entered
    have stepped : depthAfter depth t = mid := by
      unfold enter? at entered
      split at entered
      · cases entered
      · exact Option.some.inj entered
    rw [← List.singleton_append, List.countP_append, List.countP_append]
    refine ⟨by rw [List.foldl_append, List.foldl_cons, stepped]; exact folded, by omega⟩

/-- A walk that goes through a closing bracket comes to it with a bracket open. -/
theorem depth_pos_of_walk? (closes : closing.kind.isClosing = true)
    (walked : walk? depth (ts ++ [closing]) = some final) : 0 < ts.foldl depthAfter depth := by
  obtain ⟨mid, before, last⟩ := Option.bind_eq_some_iff.mp (walk?_append.symm.trans walked)
  rw [walk?_cons, enter?_closing closes] at last
  rw [(walk?_count before).1]
  split at last
  · cases last
  · omega

/-! ## Balanced phrases -/

/-- From any depth, a walk over the tokens goes through and comes back to that depth. -/
def Balanced (ts : List Token) : Prop := ∀ depth, walk? depth ts = some depth

theorem balanced_nil : Balanced [] := fun _ => rfl

theorem Balanced.append (first : Balanced ts) (second : Balanced us) : Balanced (ts ++ us) := by
  intro depth
  rw [walk?_append, first depth]
  exact second depth

theorem balanced_plain {kind : Kind} (same : t.kind = kind) (plain : kind.isBracket = false)
    (rest : Balanced ts) : Balanced (t :: ts) := by
  subst same
  intro depth
  rw [walk?_cons, enter?_other plain]
  exact rest depth

theorem balanced_enclosed (opens : opening.kind.isOpening = true) (inside : Balanced ts)
    (closes : closing.kind.isClosing = true) : Balanced (opening :: (ts ++ [closing])) := by
  intro depth
  rw [walk?_cons, enter?_opening opens, Option.bind_some, walk?_append, inside, Option.bind_some,
    walk?_cons, enter?_closing closes]
  rfl

theorem Expression.balanced (phrase : Expression level ts n) : Balanced ts := by
  induction phrase with
  | tighter _ ih => exact ih
  | @binary _ _ _ op _ _ operator _ _ ihl ihr =>
    have plain : op.kind.isBracket = false := by
      rw [mem_operatorsAt_iff] at operator
      revert operator
      cases op.kind <;> simp [Kind.level?, Kind.isBracket, Kind.isOpening, Kind.isClosing]
    exact ihl.append (balanced_plain rfl plain ihr)
  | @unary _ op _ operator _ ih =>
    have plain : op.kind.isBracket = false := by
      revert operator
      cases op.kind <;> decide
    exact balanced_plain rfl plain ih
  | @atom t atom =>
    have plain : t.kind.isBracket = false := by
      revert atom
      cases t.kind <;> decide
    exact balanced_plain rfl plain balanced_nil
  | parentheses opens _ closes ih =>
    exact balanced_enclosed (by simp [opens, Kind.isOpening]) ih (by simp [closes, Kind.isClosing])

theorem Parenthesized.balanced (phrase : Parenthesized ts n) : Balanced ts := by
  obtain ⟨opens, value, closes⟩ := phrase
  exact (Expression.parentheses opens value closes).balanced

theorem Terminator.balanced (phrase : Terminator atEnd ts) : Balanced ts := by
  cases phrase with
  | semicolon semicolon => exact balanced_plain semicolon rfl balanced_nil
  | omitted => exact balanced_nil

mutual

theorem Statement.balanced : ∀ {atEnd : Bool} {ts : List Token} {n : Node},
    Statement atEnd ts n → Balanced ts
  | _, _, _, .declaration isVar isName isSign value ends =>
    balanced_plain isVar rfl <| balanced_plain isName rfl <| balanced_plain isSign rfl <|
      value.balanced.append ends.balanced
  | _, _, _, .print isPrint value ends =>
    balanced_plain isPrint rfl (value.balanced.append ends.balanced)
  | _, _, _, .conditional isIf test body =>
    balanced_plain isIf rfl (test.balanced.append body.balanced)
  | _, _, _, .alternative isIf test body isElse other =>
    balanced_plain isIf rfl <| test.balanced.append <| body.balanced.append <|
      balanced_plain isElse rfl other.balanced
  | _, _, _, .loop isWhile test body =>
    balanced_plain isWhile rfl (test.balanced.append body.balanced)
  | _, _, _, .assignment isName isSign value ends =>
    balanced_plain isName rfl <| balanced_plain isSign rfl <| value.balanced.append ends.balanced
  | _, _, _, .expression value ends => value.balanced.append ends.balanced

theorem Statements.balanced : ∀ {atEnd : Bool} {ts : List Token} {ns : List Node},
    Statements atEnd ts ns → Balanced ts
  | _, _, _, .nil => balanced_nil
  | _, _, _, .empty semicolon rest => balanced_plain semicolon rfl rest.balanced
  | _, _, _, .cons first rest => first.balanced.append rest.balanced

theorem Block.balanced : ∀ {ts : List Token} {n : Node}, Block ts n → Balanced ts
  | _, _, .intro opens body closes =>
    balanced_enclosed (by simp [opens, Kind.isOpening]) body.balanced
      (by simp [closes, Kind.isClosing])

end

theorem Program.balanced (phrase : Program ts n) : Balanced ts := by
  obtain ⟨list⟩ := phrase
  exact list.balanced

end Phrase

end BraceScript
