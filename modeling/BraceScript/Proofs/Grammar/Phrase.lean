import BraceScript.Grammar

/-!
# The grammar as a relation

Which tokens are a program, an expression or a statement, and which tree they stand for, said
without a cursor, a look ahead or a limit on nesting. Expressions have eight levels: six of binary
operators from the loosest to the tightest, then prefix operators, then numbers, strings,
identifiers and parentheses. An operator of a level takes a phrase of the same level on its left
and one of the next level on its right, so that it associates to the left.

A statement is told whether the input ends after it, because only there can a simple statement do
without its semicolon. Inside a block the closing brace comes first, so that it never can.
-/

namespace BraceScript.Phrase

/-- The binary operators of a level. -/
def operatorsAt : Nat → List Kind
  | 1 => [.or]
  | 2 => [.and]
  | 3 => [.equal, .notEqual]
  | 4 => [.less, .greater, .lessEqual, .greaterEqual]
  | 5 => [.plus, .minus]
  | 6 => [.star, .slash]
  | _ => []

/-- The prefix operators. -/
def unaryOperators : List Kind := [.not, .minus]

/-- The kinds of token that are an expression by themselves. -/
def atoms : List Kind := [.number, .string, .identifier]

/-- The leaf of a token: its kind, its text and all its coordinates. -/
def leafOf (t : Token) : Node :=
  .leaf ⟨.token t.kind, t.text, ⟨some t.start.offset, some t.start.line, some t.start.column⟩⟩

/-- Tokens that are an expression of a level, and its tree. -/
inductive Expression : Nat → List Token → Node → Prop
  | tighter {level : Nat} {ts : List Token} {n : Node} :
    Expression (level + 1) ts n → Expression level ts n
  | binary {level : Nat} {ls rs : List Token} {op : Token} {l r : Node} :
    op.kind ∈ operatorsAt level → Expression level ls l → Expression (level + 1) rs r →
    Expression level (ls ++ op :: rs) (.branch .binary [l, leafOf op, r])
  | unary {ts : List Token} {op : Token} {n : Node} :
    op.kind ∈ unaryOperators → Expression 7 ts n →
    Expression 7 (op :: ts) (.branch .unary [leafOf op, n])
  | atom {t : Token} : t.kind ∈ atoms → Expression 8 [t] (leafOf t)
  | parentheses {ts : List Token} {opening closing : Token} {n : Node} :
    opening.kind = .openParen → Expression 1 ts n → closing.kind = .closeParen →
    Expression 8 (opening :: (ts ++ [closing])) n

/-- An expression between parentheses. -/
inductive Parenthesized : List Token → Node → Prop
  | intro {ts : List Token} {opening closing : Token} {n : Node} :
    opening.kind = .openParen → Expression 1 ts n → closing.kind = .closeParen →
    Parenthesized (opening :: (ts ++ [closing])) n

/-- The end of a simple statement: a semicolon, or nothing if the input ends there. -/
inductive Terminator (atEnd : Bool) : List Token → Prop
  | semicolon {t : Token} : t.kind = .semicolon → Terminator atEnd [t]
  | omitted : atEnd = true → Terminator atEnd []

mutual

/-- Tokens that are a statement, and its tree; the flag tells whether the input ends after them. -/
inductive Statement : Bool → List Token → Node → Prop
  | declaration {atEnd : Bool} {ts last : List Token} {keyword name sign : Token} {value : Node} :
    keyword.kind = .kwVar → name.kind = .identifier → sign.kind = .assign →
    Expression 1 ts value → Terminator atEnd last →
    Statement atEnd (keyword :: name :: sign :: (ts ++ last))
      (.branch .declaration [leafOf name, value])
  | print {atEnd : Bool} {ts last : List Token} {keyword : Token} {value : Node} :
    keyword.kind = .kwPrint → Parenthesized ts value → Terminator atEnd last →
    Statement atEnd (keyword :: (ts ++ last)) (.branch .print [value])
  | conditional {atEnd : Bool} {ts us : List Token} {keyword : Token} {test body : Node} :
    keyword.kind = .kwIf → Parenthesized ts test → Block us body →
    Statement atEnd (keyword :: (ts ++ us)) (.branch .conditional [test, body])
  | alternative {atEnd : Bool} {ts us vs : List Token} {keyword other : Token}
    {test body alternative : Node} :
    keyword.kind = .kwIf → Parenthesized ts test → Block us body →
    other.kind = .kwElse → Block vs alternative →
    Statement atEnd (keyword :: (ts ++ (us ++ other :: vs)))
      (.branch .conditional [test, body, alternative])
  | loop {atEnd : Bool} {ts us : List Token} {keyword : Token} {test body : Node} :
    keyword.kind = .kwWhile → Parenthesized ts test → Block us body →
    Statement atEnd (keyword :: (ts ++ us)) (.branch .loop [test, body])
  | assignment {atEnd : Bool} {ts last : List Token} {name sign : Token} {value : Node} :
    name.kind = .identifier → sign.kind = .assign →
    Expression 1 ts value → Terminator atEnd last →
    Statement atEnd (name :: sign :: (ts ++ last)) (.branch .assignment [leafOf name, value])
  | expression {atEnd : Bool} {ts last : List Token} {value : Node} :
    Expression 1 ts value → Terminator atEnd last →
    Statement atEnd (ts ++ last) (.branch .expression [value])

/-- Tokens that are a list of statements, and their trees. A semicolon alone is an empty statement,
    which has no tree. -/
inductive Statements : Bool → List Token → List Node → Prop
  | nil {atEnd : Bool} : Statements atEnd [] []
  | empty {atEnd : Bool} {ts : List Token} {t : Token} {ns : List Node} :
    t.kind = .semicolon → Statements atEnd ts ns → Statements atEnd (t :: ts) ns
  | cons {atEnd : Bool} {ts us : List Token} {n : Node} {ns : List Node} :
    Statement (atEnd && us.isEmpty) ts n → Statements atEnd us ns →
    Statements atEnd (ts ++ us) (n :: ns)

/-- Tokens that are a block, and its tree. -/
inductive Block : List Token → Node → Prop
  | intro {ts : List Token} {opening closing : Token} {ns : List Node} :
    opening.kind = .openBrace → Statements false ts ns → closing.kind = .closeBrace →
    Block (opening :: (ts ++ [closing])) (.branch .block ns)

end

/-- Tokens that are a program, and its tree. -/
inductive Program : List Token → Node → Prop
  | intro {ts : List Token} {ns : List Node} :
    Statements true ts ns → Program ts (.branch .program ns)

/-- The tokens before the first end of the input. -/
def beforeEnd (ts : List Token) : List Token := ts.takeWhile (·.kind ≠ .endOfInput)

/-! ## The tables of the rules -/

theorem level_range {kind : Kind} {level : Nat} (known : kind.level? = some level) :
    1 ≤ level ∧ level ≤ 6 := by
  have range : kind.level? ≠ some 0 ∧ kind.level?.getD 1 ≤ 6 := by cases kind <;> decide
  rw [known, Option.getD_some] at range
  exact ⟨Nat.one_le_iff_ne_zero.mpr fun zero => range.1 (by rw [zero]), range.2⟩

theorem mem_operatorsAt_iff {kind : Kind} {level : Nat} :
    kind ∈ operatorsAt level ↔ kind.level? = some level := by
  match level with
  | 0 | 1 | 2 | 3 | 4 | 5 | 6 => cases kind <;> decide
  | n + 7 =>
    have outside : kind.level? ≠ some (n + 7) := fun known => by
      have range := level_range known
      omega
    simp [operatorsAt, outside]

theorem mem_unaryOperators_iff {kind : Kind} : kind ∈ unaryOperators ↔ kind.isUnary = true := by
  cases kind <;> decide

theorem mem_atoms_iff {kind : Kind} : kind ∈ atoms ↔ kind.isAtom = true := by
  cases kind <;> decide

/-- A phrase of a tighter level is one of any looser level. -/
theorem Expression.loosen {level least : Nat} {ts : List Token} {n : Node}
    (phrase : Expression level ts n) (below : least ≤ level) : Expression least ts n := by
  induction below with
  | refl => exact phrase
  | step _ ih => exact ih phrase.tighter

/-! ## First tokens -/

/-- The kinds that an expression starts with. -/
def expressionStarts : List Kind := .openParen :: unaryOperators ++ atoms

/-- The kinds that a statement with a tree starts with. -/
def statementStarts : List Kind := [.kwVar, .kwPrint, .kwIf, .kwWhile] ++ expressionStarts

theorem Expression.first {level : Nat} {ts : List Token} {n : Node}
    (phrase : Expression level ts n) : ∃ t rest, ts = t :: rest ∧ t.kind ∈ expressionStarts := by
  induction phrase with
  | tighter _ ih => exact ih
  | binary _ _ _ ihl _ =>
    obtain ⟨t, rest, rfl, starts⟩ := ihl
    exact ⟨t, _, rfl, starts⟩
  | unary unary _ _ => exact ⟨_, _, rfl, by simp [expressionStarts, unary]⟩
  | atom atom => exact ⟨_, _, rfl, by simp [expressionStarts, atom]⟩
  | parentheses opens _ _ _ => exact ⟨_, _, rfl, by simp [expressionStarts, opens]⟩

theorem Statement.first {atEnd : Bool} {ts : List Token} {n : Node}
    (phrase : Statement atEnd ts n) : ∃ t rest, ts = t :: rest ∧ t.kind ∈ statementStarts := by
  cases phrase with
  | declaration keyword | print keyword | conditional keyword | alternative keyword
  | loop keyword => exact ⟨_, _, rfl, by simp [statementStarts, keyword]⟩
  | assignment name => exact ⟨_, _, rfl, by simp [statementStarts, expressionStarts, atoms, name]⟩
  | expression value _ =>
    obtain ⟨t, rest, rfl, starts⟩ := value.first
    exact ⟨t, _, rfl, by simp [statementStarts, starts]⟩

theorem Statements.first {atEnd : Bool} {t : Token} {ts : List Token} {ns : List Node}
    (phrase : Statements atEnd (t :: ts) ns) : t.kind ∈ .semicolon :: statementStarts := by
  generalize whole : t :: ts = us at phrase
  cases phrase with
  | nil => simp at whole
  | empty semicolon _ =>
    obtain ⟨rfl, -⟩ := List.cons.inj whole
    simp [semicolon]
  | cons head _ =>
    obtain ⟨_, rest, rfl, starts⟩ := head.first
    obtain ⟨rfl, -⟩ := List.cons.inj whole
    exact List.mem_cons_of_mem _ starts

end BraceScript.Phrase
