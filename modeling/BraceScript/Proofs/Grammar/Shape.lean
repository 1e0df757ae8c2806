import BraceScript.Program
import BraceScript.Proofs.Grammar.Soundness
import BraceScript.Proofs.Scanner.Segments

/-!
# The shape of program trees

Trees can be made by hand, with any labels, any children and any leaves. The predicates here say
which trees are programs: every branch has the children that the grammar gives it, and every leaf is
of a kind that can stand there and has a text that is a lexeme of this kind. The tree of a source
text is always of this shape.
-/

namespace BraceScript

open Lexical Phrase

namespace Node

/-- A leaf of one of some kinds, whose text is a lexeme of its kind. -/
inductive IsLeaf (kinds : List Kind) : Node → Prop
  | intro {kind : Kind} {text : String} {place : Coordinates} :
    kind ∈ kinds → Lexeme kind text.toList → IsLeaf kinds (.leaf ⟨.token kind, text, place⟩)

/-- The trees of expressions. -/
inductive IsExpression : Node → Prop
  | atom {n : Node} : IsLeaf atoms n → IsExpression n
  | unary {op n : Node} :
    IsLeaf unaryOperators op → IsExpression n → IsExpression (.branch .unary [op, n])
  | binary {level : Nat} {l op r : Node} :
    IsLeaf (operatorsAt level) op → IsExpression l → IsExpression r →
    IsExpression (.branch .binary [l, op, r])

/-- The trees of statements. -/
inductive IsStatement : Node → Prop
  | declaration {name value : Node} :
    IsLeaf [.identifier] name → IsExpression value →
    IsStatement (.branch .declaration [name, value])
  | assignment {name value : Node} :
    IsLeaf [.identifier] name → IsExpression value →
    IsStatement (.branch .assignment [name, value])
  | print {value : Node} : IsExpression value → IsStatement (.branch .print [value])
  | expression {value : Node} : IsExpression value → IsStatement (.branch .expression [value])
  | conditional {test : Node} {body : List Node} :
    IsExpression test → (∀ n ∈ body, IsStatement n) →
    IsStatement (.branch .conditional [test, .branch .block body])
  | alternative {test : Node} {body other : List Node} :
    IsExpression test → (∀ n ∈ body, IsStatement n) → (∀ n ∈ other, IsStatement n) →
    IsStatement (.branch .conditional [test, .branch .block body, .branch .block other])
  | loop {test : Node} {body : List Node} :
    IsExpression test → (∀ n ∈ body, IsStatement n) →
    IsStatement (.branch .loop [test, .branch .block body])

/-- The trees of programs. -/
inductive IsProgram : Node → Prop
  | intro {ns : List Node} : (∀ n ∈ ns, IsStatement n) → IsProgram (.branch .program ns)

/-- A word that is no keyword can stand where a name is declared or assigned. -/
theorem IsLeaf.name {text : String} {place : Coordinates} (word : Word text.toList)
    (isName : Kind.ofWord text = .identifier) :
    IsLeaf [.identifier] (.leaf ⟨.token .identifier, text, place⟩) := by
  have lexeme := plain_of_word word
  rw [String.ofList_toList, isName] at lexeme
  exact .intro List.mem_cons_self (.plain lexeme)

/-- A name is an expression. -/
theorem IsLeaf.isExpression {n : Node} (name : IsLeaf [.identifier] n) : IsExpression n := by
  obtain ⟨member, lexeme⟩ := name
  refine .atom (.intro ?_ lexeme)
  rw [List.mem_singleton.mp member]
  decide

end Node

namespace Phrase

open Node

/-- Every token has a text that is a lexeme of its kind. -/
def Lexed (ts : List Token) : Prop := ∀ t ∈ ts, Lexeme t.kind t.text.toList

variable {t : Token} {ts us : List Token} {n : Node}

theorem lexed_cons_iff : Lexed (t :: ts) ↔ Lexeme t.kind t.text.toList ∧ Lexed ts :=
  List.forall_mem_cons

theorem lexed_append_iff : Lexed (ts ++ us) ↔ Lexed ts ∧ Lexed us :=
  List.forall_mem_append

theorem isLeaf_leafOf {kinds : List Kind} (member : t.kind ∈ kinds)
    (lexeme : Lexeme t.kind t.text.toList) : IsLeaf kinds (leafOf t) :=
  .intro member lexeme

theorem Expression.isExpression {level : Nat} (phrase : Expression level ts n) (lexed : Lexed ts) :
    IsExpression n := by
  induction phrase with
  | tighter _ ih => exact ih lexed
  | binary operator _ _ ihl ihr =>
    obtain ⟨left, rest⟩ := lexed_append_iff.mp lexed
    obtain ⟨sign, right⟩ := lexed_cons_iff.mp rest
    exact .binary (isLeaf_leafOf operator sign) (ihl left) (ihr right)
  | unary operator _ ih =>
    obtain ⟨sign, operand⟩ := lexed_cons_iff.mp lexed
    exact .unary (isLeaf_leafOf operator sign) (ih operand)
  | atom atom => exact .atom (isLeaf_leafOf atom (lexed_cons_iff.mp lexed).1)
  | parentheses _ _ _ ih =>
    exact ih (lexed_append_iff.mp (lexed_cons_iff.mp lexed).2).1

theorem Parenthesized.isExpression (phrase : Parenthesized ts n) (lexed : Lexed ts) :
    IsExpression n := by
  obtain ⟨_, inside, _⟩ := phrase
  exact inside.isExpression (lexed_append_iff.mp (lexed_cons_iff.mp lexed).2).1

mutual

theorem Statement.isStatement : ∀ {atEnd : Bool} {ts : List Token} {n : Node},
    Statement atEnd ts n → Lexed ts → IsStatement n
  | _, _, _, .declaration _ isName _ value _, lexed => by
    simp only [lexed_cons_iff, lexed_append_iff] at lexed
    obtain ⟨_, name, _, inside, _⟩ := lexed
    exact .declaration (isLeaf_leafOf (by simp [isName]) name) (value.isExpression inside)
  | _, _, _, .print _ value _, lexed => by
    simp only [lexed_cons_iff, lexed_append_iff] at lexed
    exact .print (value.isExpression lexed.2.1)
  | _, _, _, .conditional _ test body, lexed => by
    simp only [lexed_cons_iff, lexed_append_iff] at lexed
    obtain ⟨ns, rfl, statements⟩ := body.isStatements lexed.2.2
    exact .conditional (test.isExpression lexed.2.1) statements
  | _, _, _, .alternative _ test body _ other, lexed => by
    simp only [lexed_cons_iff, lexed_append_iff] at lexed
    obtain ⟨_, condition, inside, _, others⟩ := lexed
    obtain ⟨ns, rfl, statements⟩ := body.isStatements inside
    obtain ⟨ms, rfl, alternatives⟩ := other.isStatements others
    exact .alternative (test.isExpression condition) statements alternatives
  | _, _, _, .loop _ test body, lexed => by
    simp only [lexed_cons_iff, lexed_append_iff] at lexed
    obtain ⟨ns, rfl, statements⟩ := body.isStatements lexed.2.2
    exact .loop (test.isExpression lexed.2.1) statements
  | _, _, _, .assignment isName _ value _, lexed => by
    simp only [lexed_cons_iff, lexed_append_iff] at lexed
    obtain ⟨name, _, inside, _⟩ := lexed
    exact .assignment (isLeaf_leafOf (by simp [isName]) name) (value.isExpression inside)
  | _, _, _, .expression value _, lexed =>
    .expression (value.isExpression (lexed_append_iff.mp lexed).1)

theorem Statements.isStatements : ∀ {atEnd : Bool} {ts : List Token} {ns : List Node},
    Statements atEnd ts ns → Lexed ts → ∀ n ∈ ns, IsStatement n
  | _, _, _, .nil, _ => by simp
  | _, _, _, .empty _ rest, lexed => rest.isStatements (lexed_cons_iff.mp lexed).2
  | _, _, _, .cons first rest, lexed => by
    obtain ⟨front, others⟩ := lexed_append_iff.mp lexed
    exact List.forall_mem_cons.mpr ⟨first.isStatement front, rest.isStatements others⟩

theorem Block.isStatements : ∀ {ts : List Token} {n : Node},
    Block ts n → Lexed ts → ∃ ns, n = .branch .block ns ∧ ∀ n ∈ ns, IsStatement n
  | _, _, .intro _ body _, lexed =>
    ⟨_, rfl, body.isStatements (lexed_append_iff.mp (lexed_cons_iff.mp lexed).2).1⟩

end

theorem Program.isProgram (phrase : Program ts n) (lexed : Lexed ts) : IsProgram n := by
  obtain ⟨statements⟩ := phrase
  exact .intro (statements.isStatements lexed)

theorem beforeEnd_append {last : Token} (front : ∀ t ∈ ts, t.kind ≠ .endOfInput)
    (ends : last.kind = .endOfInput) : beforeEnd (ts ++ [last]) = ts := by
  rw [beforeEnd, List.takeWhile_append_of_pos]
  · simp [ends]
  · simpa using front

/-- The tokens of a source text before its end. -/
theorem beforeEnd_of_scan {source : String} {tokens : List Token}
    (scanned : scan source = .ok tokens) :
    ∃ last, tokens = beforeEnd tokens ++ [last] ∧ last.kind = .endOfInput ∧
      Lexed (beforeEnd tokens) := by
  obtain ⟨front, rfl, stand⟩ := (scan_eq_ok_iff.mp scanned).tokens
  rw [beforeEnd_append (fun t member => (stand t member).1.kind_ne_end) rfl]
  exact ⟨_, rfl, rfl, fun t member => (stand t member).1⟩

end Phrase

/-- A source text is parsed by scanning it and parsing its tokens. -/
theorem parseSource_eq_ok {source : String} {tree : Node} :
    parseSource source = .ok tree ↔
      ∃ tokens, scan source = .ok tokens ∧ parse tokens = .ok tree := by
  unfold parseSource
  cases scan source with
  | error e => simp
  | ok tokens =>
    cases accepted : parse tokens with
    | error e => simp [accepted]
    | ok found => simp [accepted]

theorem exists_of_isOk (source : String) (accepted : (parseSource source).isOk = true) :
    ∃ tree, parseSource source = .ok tree := by
  cases outcome : parseSource source with
  | ok tree => exact ⟨tree, rfl⟩
  | error failure =>
    rw [outcome] at accepted
    cases accepted

/-- A source text that can be parsed has a tree of the shape of programs. -/
theorem isProgram_of_parseSource {source : String} {tree : Node}
    (parsed : parseSource source = .ok tree) : tree.IsProgram := by
  obtain ⟨tokens, scanned, accepted⟩ := parseSource_eq_ok.mp parsed
  obtain ⟨-, -, -, lexed⟩ := beforeEnd_of_scan scanned
  exact (Grammar.program_of_parse accepted).isProgram lexed

end BraceScript
