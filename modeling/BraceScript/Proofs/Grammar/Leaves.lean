import BraceScript.Proofs.Grammar.Shape
import BraceScript.Proofs.Node.Leaves

/-!
# Leaves and tokens

The leaves of the tree that some tokens stand for are the leaves of these tokens, each once and in
their order; just the keywords and the punctuation marks have none. So each leaf of the tree of a
source text stands in this text, at the place that it says, and the leaves come one after the other
in it. Expressions and statements have leaves.
-/

namespace BraceScript

open Node

namespace Node

theorem IsExpression.leaves_ne_nil {n : Node} (shaped : IsExpression n) : n.leaves ≠ [] := by
  induction shaped with
  | atom leaf =>
    cases leaf
    simp [leaves]
  | unary _ _ ih => simp [leaves, forestLeaves, ih]
  | binary _ _ _ first => simp [leaves, forestLeaves, first]

theorem IsStatement.leaves_ne_nil {n : Node} (shaped : IsStatement n) : n.leaves ≠ [] := by
  cases shaped with
  | declaration _ value | assignment _ value | print value | expression value
  | conditional value | alternative value | loop value =>
    simp [leaves, forestLeaves, value.leaves_ne_nil]

/-- A fault in a statement is reported where the statement starts. -/
theorem IsStatement.faultPosition? {n : Node} (shaped : IsStatement n) :
    n.faultPosition? = n.position? := by
  cases shaped <;> exact faultPosition?_branch (by simp)

theorem exists_firstLeaf? {n : Node} (leafy : n.leaves ≠ []) : ∃ l, n.firstLeaf? = some l := by
  rw [firstLeaf?_eq_head?]
  exact ⟨_, List.head?_eq_some_head leafy⟩

end Node

namespace Phrase

variable {t : Token} {ts us last : List Token} {n : Node} {atEnd : Bool}

/-- The kinds of token that become leaves: literals, names and operators. -/
def leafKinds : List Kind :=
  [.number, .string, .identifier, .plus, .minus, .star, .slash, .equal, .notEqual, .less,
   .lessEqual, .greater, .greaterEqual, .and, .or, .not]

/-- The kinds of token that only show how a program is put together. -/
def markKinds : List Kind :=
  [.kwVar, .kwIf, .kwElse, .kwWhile, .kwPrint, .assign, .openParen, .closeParen, .openBrace,
   .closeBrace, .semicolon]

/-- The leaves that tokens become. -/
def leavesOf (ts : List Token) : List Leaf := (ts.filter (·.kind ∈ leafKinds)).map .ofToken

theorem not_mem_leafKinds_iff {kind : Kind} (inside : kind ≠ .endOfInput) :
    kind ∉ leafKinds ↔ kind ∈ markKinds := by
  revert inside
  cases kind <;> decide

theorem mem_leafKinds_of_atom {kind : Kind} (atom : kind ∈ atoms) : kind ∈ leafKinds := by
  revert atom
  cases kind <;> decide

theorem mem_leafKinds_of_unary {kind : Kind} (operator : kind ∈ unaryOperators) :
    kind ∈ leafKinds := by
  revert operator
  cases kind <;> decide

theorem mem_leafKinds_of_binary {kind : Kind} {level : Nat} (operator : kind ∈ operatorsAt level) :
    kind ∈ leafKinds := by
  have isLevel := mem_operatorsAt_iff.mp operator
  revert isLevel
  cases kind <;> simp [Kind.level?, leafKinds]

@[simp] theorem leavesOf_nil : leavesOf [] = [] := rfl

@[simp] theorem leavesOf_append (ts us : List Token) :
    leavesOf (ts ++ us) = leavesOf ts ++ leavesOf us := by
  rw [leavesOf, List.filter_append, List.map_append]
  rfl

theorem leavesOf_cons (has : t.kind ∈ leafKinds) :
    leavesOf (t :: ts) = .ofToken t :: leavesOf ts := by
  rw [leavesOf, List.filter_cons_of_pos (by simpa using has)]
  rfl

theorem leavesOf_skip {kind : Kind} (isKind : t.kind = kind) (mark : kind ∈ markKinds) :
    leavesOf (t :: ts) = leavesOf ts := by
  have inside : kind ≠ .endOfInput := by
    rintro rfl
    exact absurd mark (by decide)
  have none : t.kind ∉ leafKinds := isKind ▸ (not_mem_leafKinds_iff inside).mpr mark
  rw [leavesOf, List.filter_cons_of_neg (by simpa using none)]
  rfl

theorem mem_leavesOf {l : Leaf} (member : l ∈ leavesOf ts) : ∃ t ∈ ts, l = .ofToken t := by
  obtain ⟨t, kept, rfl⟩ := List.mem_map.mp member
  exact ⟨t, (List.mem_filter.mp kept).1, rfl⟩

/-- The leaves of a tree after the leaf of a token, under any label. -/
theorem leaves_leafOf (label : Label) (t : Token) (n : Node) :
    (Node.branch label [leafOf t, n]).leaves = .ofToken t :: n.leaves := by
  simp [Node.leaves, forestLeaves, leafOf, Leaf.ofToken, Coordinates.ofPosition]

theorem Expression.leaves {level : Nat} (phrase : Expression level ts n) :
    n.leaves = leavesOf ts := by
  induction phrase with
  | tighter _ ih => exact ih
  | @binary level ls rs op l r operator _ _ ihl ihr =>
    have parts : (Node.branch .binary [l, leafOf op, r]).leaves =
        l.leaves ++ (Node.branch .binary [leafOf op, r]).leaves := rfl
    have kept := mem_leafKinds_of_binary operator
    rw [parts, leaves_leafOf, leavesOf_append, leavesOf_cons kept, ihl, ihr]
  | unary operator _ ih =>
    rw [leaves_leafOf, leavesOf_cons (mem_leafKinds_of_unary operator), ih]
  | atom atom =>
    rw [leavesOf_cons (mem_leafKinds_of_atom atom)]
    rfl
  | parentheses opens _ closes ih =>
    rw [leavesOf_skip opens (by decide), leavesOf_append, leavesOf_skip closes (by decide), ih,
      leavesOf_nil, List.append_nil]

theorem Parenthesized.leaves (phrase : Parenthesized ts n) : n.leaves = leavesOf ts := by
  obtain ⟨opens, inside, closes⟩ := phrase
  exact (Expression.parentheses opens inside closes).leaves

theorem Terminator.leaves (phrase : Terminator atEnd last) : leavesOf last = [] := by
  cases phrase with
  | semicolon isSemicolon => exact leavesOf_skip isSemicolon (by decide)
  | omitted _ => rfl

mutual

theorem Statement.leaves : ∀ {atEnd : Bool} {ts : List Token} {n : Node},
    Statement atEnd ts n → n.leaves = leavesOf ts
  | _, _, _, .declaration isVar isName isSign value ends => by
    rw [leaves_leafOf, leavesOf_skip isVar (by decide), leavesOf_cons (by rw [isName]; decide),
      leavesOf_skip isSign (by decide), leavesOf_append, ends.leaves, value.leaves, List.append_nil]
  | _, _, _, .print isPrint value ends => by
    rw [leavesOf_skip isPrint (by decide), leavesOf_append, ends.leaves, ← value.leaves]
    simp [Node.leaves, forestLeaves]
  | _, _, _, .conditional isIf test body => by
    rw [leavesOf_skip isIf (by decide), leavesOf_append, ← test.leaves, ← body.leaves]
    simp [Node.leaves, forestLeaves]
  | _, _, _, .alternative isIf test body isElse other => by
    rw [leavesOf_skip isIf (by decide), leavesOf_append, leavesOf_append,
      leavesOf_skip isElse (by decide), ← test.leaves, ← body.leaves, ← other.leaves]
    simp [Node.leaves, forestLeaves]
  | _, _, _, .loop isWhile test body => by
    rw [leavesOf_skip isWhile (by decide), leavesOf_append, ← test.leaves, ← body.leaves]
    simp [Node.leaves, forestLeaves]
  | _, _, _, .assignment isName isSign value ends => by
    rw [leaves_leafOf, leavesOf_cons (by rw [isName]; decide), leavesOf_skip isSign (by decide),
      leavesOf_append, ends.leaves, value.leaves, List.append_nil]
  | _, _, _, .expression value ends => by
    rw [leavesOf_append, ends.leaves, ← value.leaves]
    simp [Node.leaves, forestLeaves]

theorem Statements.leaves : ∀ {atEnd : Bool} {ts : List Token} {ns : List Node},
    Statements atEnd ts ns → forestLeaves ns = leavesOf ts
  | _, _, _, .nil => rfl
  | _, _, _, .empty isSemicolon rest => by
    rw [leavesOf_skip isSemicolon (by decide), rest.leaves]
  | _, _, _, .cons first rest => by
    rw [forestLeaves, leavesOf_append, first.leaves, rest.leaves]

theorem Block.leaves : ∀ {ts : List Token} {n : Node}, Block ts n → n.leaves = leavesOf ts
  | _, _, .intro opens body closes => by
    rw [Node.leaves, leavesOf_skip opens (by decide), leavesOf_append,
      leavesOf_skip closes (by decide), body.leaves, leavesOf_nil, List.append_nil]

end

/-- The leaves of a program are those of its tokens, each once and in their order. -/
theorem Program.leaves (phrase : Program ts n) : n.leaves = leavesOf ts := by
  obtain ⟨statements⟩ := phrase
  exact statements.leaves

end Phrase

/-- The leaves of a tree are made of the tokens that it was parsed from. -/
theorem leaves_of_parse {ts : List Token} {tree : Node} (parsed : parse ts = .ok tree) :
    ∀ l ∈ tree.leaves, ∃ t ∈ ts, l = .ofToken t := by
  intro l member
  rw [(Grammar.program_of_parse parsed).leaves] at member
  obtain ⟨t, inside, rfl⟩ := Phrase.mem_leavesOf member
  exact ⟨t, (List.takeWhile_sublist _).subset inside, rfl⟩

/-- The tokens and the tree of a source text that can be parsed. -/
theorem program_of_parseSource {source : String} {tree : Node}
    (parsed : parseSource source = .ok tree) :
    ∃ ts, Lexical.Segmented .origin source.toList
        (ts ++ [⟨.endOfInput, "", Position.origin.after source.toList⟩]) ∧
      Phrase.Program ts tree ∧ ∀ t ∈ ts, Lexical.StandsIn t .origin source.toList := by
  obtain ⟨tokens, scanned, accepted⟩ := parseSource_eq_ok.mp parsed
  have segmented := scan_eq_ok_iff.mp scanned
  obtain ⟨ts, rfl, stand⟩ := segmented.tokens
  have program := Grammar.program_of_parse accepted
  rw [Phrase.beforeEnd_append (fun t member => (stand t member).1.kind_ne_end) rfl] at program
  exact ⟨ts, segmented, program, stand⟩

/-- Every leaf of the tree of a source text is a lexeme that stands in it. -/
theorem leaf_standsIn {source : String} {tree : Node} {l : Leaf}
    (parsed : parseSource source = .ok tree) (member : l ∈ tree.leaves) :
    ∃ t, l = .ofToken t ∧ Lexical.StandsIn t .origin source.toList := by
  obtain ⟨ts, -, program, stand⟩ := program_of_parseSource parsed
  rw [program.leaves] at member
  obtain ⟨t, inside, rfl⟩ := Phrase.mem_leavesOf member
  exact ⟨t, rfl, stand t inside⟩

/-- The leaves of the tree of a source text come one after the other in it. -/
theorem leaves_ordered {source : String} {tree : Node} (parsed : parseSource source = .ok tree) :
    tree.leaves.Pairwise fun l m =>
      ∃ p q, l.position? = some p ∧ m.position? = some q ∧ p.offset < q.offset := by
  obtain ⟨ts, segmented, program, -⟩ := program_of_parseSource parsed
  have ordered : ts.Pairwise fun t u => t.start.offset < u.start.offset :=
    (List.pairwise_append.mp segmented.ordered).1
  rw [program.leaves, Phrase.leavesOf, List.pairwise_map]
  exact (ordered.filter _).imp fun before => ⟨_, _, rfl, rfl, before⟩

/-- Parsing keeps every token that is not a keyword or a punctuation mark: the leaves of the tree
    are these tokens, each once and in their order, with their kinds, texts and places. In the tree
    of a source text each leaf is the slice of the text at its offset, and the offsets increase. -/
theorem leaves_keep_tokens :
    (∀ (tokens : List Token) (tree : Node), parse tokens = .ok tree →
      tree.leaves = ((Phrase.beforeEnd tokens).filter (·.kind ∈ Phrase.leafKinds)).map
        (fun t => ⟨.token t.kind, t.text,
          ⟨some t.start.offset, some t.start.line, some t.start.column⟩⟩) ∧
      ∀ t ∈ Phrase.beforeEnd tokens, t.kind ∉ Phrase.leafKinds ↔ t.kind ∈ Phrase.markKinds) ∧
    (∀ (source : String) (tree : Node), parseSource source = .ok tree →
      (∀ l ∈ tree.leaves, ∃ offset : Nat, l.place.offset = some (offset : Int) ∧
        l.text.toList = (source.toList.drop offset).take l.text.length) ∧
      tree.leaves.Pairwise fun l m =>
        ∃ p q, l.position? = some p ∧ m.position? = some q ∧ p.offset < q.offset) := by
  constructor
  · intro tokens tree parsed
    refine ⟨(Grammar.program_of_parse parsed).leaves, fun t member => ?_⟩
    have inside : t.kind ≠ .endOfInput := by
      simpa using List.all_eq_true.mp List.all_takeWhile t member
    exact Phrase.not_mem_leafKinds_iff inside
  · intro source tree parsed
    refine ⟨fun l member => ?_, leaves_ordered parsed⟩
    obtain ⟨t, rfl, stands⟩ := leaf_standsIn parsed member
    obtain ⟨offset, start, slice⟩ := stands.slice
    exact ⟨offset, congrArg some start, slice⟩

theorem leaves_keep_tokens_difference :
    ∃ tokens tree, scan "var a = -(b - 2);" = .ok tokens ∧ parse tokens = .ok tree ∧
      tree.leaves =
        [⟨.token .identifier, "a", ⟨some 4, some 1, some 5⟩⟩,
         ⟨.token .minus, "-", ⟨some 8, some 1, some 9⟩⟩,
         ⟨.token .identifier, "b", ⟨some 10, some 1, some 11⟩⟩,
         ⟨.token .minus, "-", ⟨some 12, some 1, some 13⟩⟩,
         ⟨.token .number, "2", ⟨some 14, some 1, some 15⟩⟩] ∧
      tree.leaves.Pairwise fun l m =>
        ∃ p q, l.position? = some p ∧ m.position? = some q ∧ p.offset < q.offset := by
  have scans : (scan "var a = -(b - 2);").toOption = some
      [⟨.kwVar, "var", ⟨0, 1, 1⟩⟩, ⟨.identifier, "a", ⟨4, 1, 5⟩⟩, ⟨.assign, "=", ⟨6, 1, 7⟩⟩,
       ⟨.minus, "-", ⟨8, 1, 9⟩⟩, ⟨.openParen, "(", ⟨9, 1, 10⟩⟩, ⟨.identifier, "b", ⟨10, 1, 11⟩⟩,
       ⟨.minus, "-", ⟨12, 1, 13⟩⟩, ⟨.number, "2", ⟨14, 1, 15⟩⟩, ⟨.closeParen, ")", ⟨15, 1, 16⟩⟩,
       ⟨.semicolon, ";", ⟨16, 1, 17⟩⟩, ⟨.endOfInput, "", ⟨17, 1, 18⟩⟩] := by
    decide +kernel
  obtain ⟨tree, parsed⟩ := exists_of_isOk "var a = -(b - 2);" (by decide +kernel)
  obtain ⟨tokens, scanned, accepted⟩ := parseSource_eq_ok.mp parsed
  rw [scanned] at scans
  obtain rfl := Option.some.inj scans
  refine ⟨_, tree, scanned, accepted, ?_, (leaves_keep_tokens.2 _ tree parsed).2⟩
  rw [(leaves_keep_tokens.1 _ tree accepted).1]
  decide

end BraceScript
