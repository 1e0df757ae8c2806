import BraceScript.Proofs.Grammar.Completeness
import BraceScript.Proofs.Grammar.Shape
import BraceScript.Proofs.Scanner.Spaced

/-!
# Printing program trees

The text of a program tree: its words with single spaces between them, a semicolon after each simple
statement, and parentheses around the operands that bind more loosely than their place allows. More
pairs of parentheses can be put around any expression. Scanning such a text and parsing its tokens
gives the tree again, with the coordinates of the new text in its leaves.
-/

namespace BraceScript

namespace Node

mutual

/-- A tree without the coordinates of its leaves. -/
def unplaced : Node → Node
  | leaf l => leaf ⟨l.kind, l.text, {}⟩
  | branch label children => branch label (forestUnplaced children)

/-- Several trees without the coordinates of their leaves. -/
def forestUnplaced : List Node → List Node
  | [] => []
  | n :: rest => unplaced n :: forestUnplaced rest

end

end Node

namespace Printing

open Lexical Phrase Node

/-! ## Words of trees -/

/-- How many pairs of parentheses to put around the expression at a path, beside those that it
    needs. A path gives the index of each child to descend to. -/
abbrev Extra := List Nat → Nat

/-- The pairs of parentheses to put into a child. -/
def Extra.child (extra : Extra) (index : Nat) : Extra := fun path => extra (index :: path)

/-- Words between pairs of parentheses. -/
def enclosed : Nat → List String → List String
  | 0, words => words
  | count + 1, words => "(" :: (enclosed count words ++ [")"])

/-- Words between braces. -/
def braced (words : List String) : List String := "\x7b" :: (words ++ ["\x7d"])

/-- The level of a binary operator. -/
def operatorLevel (op : Leaf) : Nat :=
  match op.kind with
  | .token kind => kind.level?.getD 0
  | .other _ => 0

/-- The words of an expression that stands where one of a level has to stand. An operation of a
    looser level needs parentheses there: the left operand of an operator has to be of its level,
    the right operand of the next level, and the operand of a prefix operator of the level of
    these. -/
def expressionWords : Extra → Nat → Node → List String
  | extra, _, .leaf l => enclosed (extra []) [l.text]
  | extra, _, .branch .unary [.leaf op, n] =>
    enclosed (extra []) (op.text :: expressionWords (extra.child 1) 7 n)
  | extra, least, .branch .binary [l, .leaf op, r] =>
    enclosed (extra [] + if operatorLevel op < least then 1 else 0)
      (expressionWords (extra.child 0) (operatorLevel op) l ++
        op.text :: expressionWords (extra.child 2) (operatorLevel op + 1) r)
  | _, _, _ => []

mutual

/-- The words of a statement. -/
def statementWords : Extra → Node → List String
  | extra, .branch .declaration [.leaf name, value] =>
    "var" :: name.text :: "=" :: (expressionWords (extra.child 1) 1 value ++ [";"])
  | extra, .branch .assignment [.leaf name, value] =>
    name.text :: "=" :: (expressionWords (extra.child 1) 1 value ++ [";"])
  | extra, .branch .print [value] =>
    "print" :: (enclosed 1 (expressionWords (extra.child 0) 1 value) ++ [";"])
  | extra, .branch .expression [value] => expressionWords (extra.child 0) 1 value ++ [";"]
  | extra, .branch .conditional [test, .branch .block body] =>
    "if" :: (enclosed 1 (expressionWords (extra.child 0) 1 test) ++
      braced (statementsWords (extra.child 1) 0 body))
  | extra, .branch .conditional [test, .branch .block body, .branch .block other] =>
    "if" :: (enclosed 1 (expressionWords (extra.child 0) 1 test) ++
      (braced (statementsWords (extra.child 1) 0 body) ++
        "else" :: braced (statementsWords (extra.child 2) 0 other)))
  | extra, .branch .loop [test, .branch .block body] =>
    "while" :: (enclosed 1 (expressionWords (extra.child 0) 1 test) ++
      braced (statementsWords (extra.child 1) 0 body))
  | _, _ => []

/-- The words of statements, the first of which has an index among the children of its branch. -/
def statementsWords : Extra → Nat → List Node → List String
  | _, _, [] => []
  | extra, index, n :: ns =>
    statementWords (extra.child index) n ++ statementsWords extra (index + 1) ns

end

/-- The text of a program: its words with single spaces between them. -/
def programText (extra : Extra) (program : Node) : String :=
  " ".intercalate (statementsWords extra 0 program.children)

/-! ## Words and the tokens they are read as -/

/-- Words are lexemes, and tokens with these texts have a property. -/
structure Reads (P : List Token → Prop) (words : List String) : Prop where
  lexemes : ∀ w ∈ words, ∃ kind, Lexeme kind w.toList
  tokens : ∀ ts, Lexed ts → ts.map (·.text) = words → P ts

/-- A token of a kind and with a text, and then tokens with a property. -/
def Starts (kind : Kind) (text : String) (P : List Token → Prop) (ts : List Token) : Prop :=
  ∃ t us, ts = t :: us ∧ t.kind = kind ∧ t.text = text ∧ P us

/-- Tokens with a property, and then tokens with another one. -/
def Then (P Q : List Token → Prop) (ts : List Token) : Prop :=
  ∃ us vs, ts = us ++ vs ∧ P us ∧ Q vs

/-- Tokens that a rule gives a tree for, the same but for coordinates. -/
def Derives (rule : List Token → Node → Prop) (n : Node) (ts : List Token) : Prop :=
  ∃ found, rule ts found ∧ found.unplaced = n.unplaced

namespace Reads

variable {P Q : List Token → Prop} {words others : List String}

theorem imp (reads : Reads P words) (step : ∀ ts, P ts → Q ts) : Reads Q words :=
  ⟨reads.lexemes, fun ts lexed texts => step ts (reads.tokens ts lexed texts)⟩

theorem nil : Reads (· = []) [] :=
  ⟨by simp, fun ts _ texts => by simpa using texts⟩

theorem append (first : Reads P words) (second : Reads Q others) :
    Reads (Then P Q) (words ++ others) := by
  refine ⟨List.forall_mem_append.mpr ⟨first.lexemes, second.lexemes⟩, ?_⟩
  intro ts lexed texts
  obtain ⟨us, vs, rfl, front, back⟩ := List.map_eq_append_iff.mp texts
  obtain ⟨lexedFront, lexedBack⟩ := lexed_append_iff.mp lexed
  exact ⟨us, vs, rfl, first.tokens us lexedFront front, second.tokens vs lexedBack back⟩

theorem cons {kind : Kind} {w : String} (lexeme : Lexeme kind w.toList) (rest : Reads P words) :
    Reads (Starts kind w P) (w :: words) := by
  refine ⟨List.forall_mem_cons.mpr ⟨⟨kind, lexeme⟩, rest.lexemes⟩, ?_⟩
  intro ts lexed texts
  obtain ⟨t, us, rfl, text, others⟩ := List.map_eq_cons_iff.mp texts
  obtain ⟨found, lexedRest⟩ := lexed_cons_iff.mp lexed
  refine ⟨t, us, rfl, ?_, text, rest.tokens us lexedRest others⟩
  rw [text] at found
  exact found.kind_unique lexeme

end Reads

theorem operator_lexeme (kind : Kind) {w : String} (member : (w, kind) ∈ Kind.operators) :
    Lexeme kind w.toList :=
  .plain (.operator (by simpa using member))

theorem keyword_lexeme (kind : Kind) {w : String} (member : (w, kind) ∈ Kind.keywords) :
    Lexeme kind w.toList := by
  have words : ∀ entry ∈ Kind.keywords, Word entry.1.toList := by
    intro entry member
    simp only [Kind.keywords, List.mem_cons, List.not_mem_nil, or_false] at member
    rcases member with rfl | rfl | rfl | rfl | rfl
    all_goals exact word_of_all rfl rfl
  exact .plain (.keyword (words _ member) (by simpa using member))

@[simp] theorem unplaced_leafOf (t : Token) :
    (leafOf t).unplaced = .leaf ⟨.token t.kind, t.text, {}⟩ := rfl

/-! ## Expressions -/

/-- An expression between parentheses. -/
theorem reads_parenthesized {n : Node} {words : List String}
    (reads : Reads (Derives (Expression 1) n) words) :
    Reads (Derives Parenthesized n) ("(" :: (words ++ [")"])) := by
  have closing : Reads _ [")"] := .cons (operator_lexeme .closeParen (by decide)) .nil
  refine (Reads.cons (operator_lexeme .openParen (by decide)) (reads.append closing)).imp ?_
  rintro _ ⟨opening, _, rfl, opens, -, us, _, rfl, ⟨found, phrase, same⟩, last, _, rfl, closes, -,
    rfl⟩
  exact ⟨found, .intro opens phrase closes, same⟩

/-- Pairs of parentheses make an expression of any level one of the tightest. -/
theorem reads_enclosed (level : Nat) {least count : Nat} {n : Node} {words : List String}
    (reads : Reads (Derives (Expression level) n) words) (inside : 1 ≤ level) (below : least ≤ 8)
    (needed : count = 0 → least ≤ level) :
    Reads (Derives (Expression least) n) (enclosed count words) := by
  induction count generalizing least with
  | zero =>
    refine reads.imp ?_
    rintro ts ⟨found, phrase, same⟩
    exact ⟨found, phrase.loosen (needed rfl), same⟩
  | succ count ih =>
    have inner : Reads (Derives (Expression 1) n) (enclosed count words) :=
      ih (by omega) fun _ => inside
    refine (reads_parenthesized inner).imp ?_
    rintro ts ⟨found, ⟨opens, phrase, closes⟩, same⟩
    exact ⟨found, (phrase.parentheses opens closes).loosen below, same⟩

theorem operatorLevel_eq {level : Nat} {kind : Kind} {text : String} {place : Coordinates}
    (member : kind ∈ operatorsAt level) : operatorLevel ⟨.token kind, text, place⟩ = level := by
  simp [operatorLevel, mem_operatorsAt_iff.mp member]

/-- The words of an expression are read as the expression, whatever parentheses are added. -/
theorem reads_expression {n : Node} (shaped : IsExpression n) (extra : Extra) (least : Nat)
    (below : least ≤ 7) :
    Reads (Derives (Expression least) n) (expressionWords extra least n) := by
  induction shaped generalizing extra least with
  | atom leaf =>
    obtain ⟨isAtom, lexeme⟩ := leaf
    rw [expressionWords]
    refine reads_enclosed 8 ?_ (by omega) (by omega) (by omega)
    refine (Reads.cons lexeme .nil).imp fun ts derives => ?_
    obtain ⟨t, _, rfl, kind, text, rfl⟩ := derives
    exact ⟨leafOf t, .atom (kind ▸ isAtom), by simp [unplaced, kind, text]⟩
  | unary operator _ ih =>
    obtain ⟨isOperator, lexeme⟩ := operator
    rw [expressionWords]
    refine reads_enclosed 7 ?_ (by omega) (by omega) (by omega)
    refine (Reads.cons lexeme (ih (extra.child 1) 7 (Nat.le_refl 7))).imp fun ts derives => ?_
    obtain ⟨t, us, rfl, kind, text, found, phrase, same⟩ := derives
    refine ⟨_, .unary (kind ▸ isOperator) phrase, ?_⟩
    simp [unplaced, forestUnplaced, same, kind, text]
  | @binary level l op r operator _ _ ihl ihr =>
    obtain ⟨isOperator, lexeme⟩ := operator
    obtain ⟨least_le, le_most⟩ := level_range (mem_operatorsAt_iff.mp isOperator)
    rw [expressionWords, operatorLevel_eq isOperator]
    refine reads_enclosed level ?_ least_le (by omega) ?_
    · have left := ihl (extra.child 0) level (by omega)
      have right := ihr (extra.child 2) (level + 1) (by omega)
      refine (left.append (.cons lexeme right)).imp fun ts derives => ?_
      obtain ⟨ls, _, rfl, ⟨l', leftPhrase, leftSame⟩, t, rs, rfl, kind, text, r', rightPhrase,
        rightSame⟩ := derives
      refine ⟨_, .binary (kind ▸ isOperator) leftPhrase rightPhrase, ?_⟩
      simp [unplaced, forestUnplaced, leftSame, rightSame, kind, text]
    · split <;> omega

/-! ## Statements -/

/-- Tokens that are statements wherever they stand, with these trees but for coordinates. -/
def DerivesAll (ns : List Node) (ts : List Token) : Prop :=
  ∃ found, (∀ atEnd, Statements atEnd ts found) ∧ forestUnplaced found = forestUnplaced ns

/-- Tokens that are a statement wherever they stand. -/
def AnyStatement (ts : List Token) (n : Node) : Prop := ∀ atEnd, Statement atEnd ts n

theorem reads_statements {ns : List Node}
    (each : ∀ n ∈ ns, ∀ extra, Reads (Derives AnyStatement n) (statementWords extra n))
    (extra : Extra) (index : Nat) : Reads (DerivesAll ns) (statementsWords extra index ns) := by
  induction ns generalizing index with
  | nil =>
    rw [statementsWords]
    refine Reads.nil.imp fun ts none => ?_
    exact ⟨[], fun atEnd => none ▸ .nil, rfl⟩
  | cons n ns ih =>
    obtain ⟨first, others⟩ := List.forall_mem_cons.mp each
    rw [statementsWords]
    refine ((first _).append (ih others (index + 1))).imp fun ts derives => ?_
    obtain ⟨us, vs, rfl, ⟨n', phrase, same⟩, ns', phrases, sames⟩ := derives
    refine ⟨n' :: ns', fun atEnd => .cons (phrase _) (phrases atEnd), ?_⟩
    rw [forestUnplaced, forestUnplaced, same, sames]

theorem reads_block {ns : List Node} {words : List String} (reads : Reads (DerivesAll ns) words) :
    Reads (Derives Block (.branch .block ns)) (braced words) := by
  have closing : Reads _ ["\x7d"] := .cons (operator_lexeme .closeBrace (by decide)) .nil
  refine (Reads.cons (operator_lexeme .openBrace (by decide)) (reads.append closing)).imp ?_
  rintro _ ⟨opening, _, rfl, opens, -, us, _, rfl, ⟨found, phrases, same⟩, last, _, rfl, closes, -,
    rfl⟩
  exact ⟨_, .intro opens (phrases false) closes, by rw [unplaced, unplaced, same]⟩

/-- The semicolon after a simple statement. -/
theorem reads_semicolon : Reads (fun ts => ∀ atEnd, Terminator atEnd ts) [";"] := by
  refine (Reads.cons (operator_lexeme .semicolon (by decide)) .nil).imp ?_
  rintro _ ⟨t, _, rfl, isSemicolon, -, rfl⟩
  exact fun atEnd => .semicolon isSemicolon

/-- An expression between the parentheses that its statement has around it. -/
theorem reads_condition {n : Node} (shaped : IsExpression n) (extra : Extra) :
    Reads (Derives Parenthesized n) (enclosed 1 (expressionWords extra 1 n)) :=
  reads_parenthesized (reads_expression shaped extra 1 (by omega))

/-- The words of a statement are read as the statement. -/
theorem reads_statement {n : Node} (shaped : IsStatement n) (extra : Extra) :
    Reads (Derives AnyStatement n) (statementWords extra n) := by
  have assign : Lexeme .assign "=".toList := operator_lexeme .assign (by decide)
  induction shaped generalizing extra with
  | declaration name value =>
    obtain ⟨isName, lexeme⟩ := name
    rw [statementWords]
    have read := reads_expression value (extra.child 1) 1 (by omega)
    refine (Reads.cons (keyword_lexeme .kwVar (by decide))
      (.cons lexeme (.cons assign (read.append reads_semicolon)))).imp ?_
    rintro _ ⟨keyword, _, rfl, isVar, -, t, _, rfl, kind, text, sign, _, rfl, isSign, -, us, last,
      rfl, ⟨found, phrase, same⟩, terminated⟩
    refine ⟨_, fun atEnd => .declaration isVar (by simpa [kind] using isName) isSign phrase
      (terminated atEnd), ?_⟩
    simp [unplaced, forestUnplaced, same, kind, text]
  | assignment name value =>
    obtain ⟨isName, lexeme⟩ := name
    rw [statementWords]
    have read := reads_expression value (extra.child 1) 1 (by omega)
    refine (Reads.cons lexeme (.cons assign (read.append reads_semicolon))).imp ?_
    rintro _ ⟨t, _, rfl, kind, text, sign, _, rfl, isSign, -, us, last, rfl,
      ⟨found, phrase, same⟩, terminated⟩
    refine ⟨_, fun atEnd => .assignment (by simpa [kind] using isName) isSign phrase
      (terminated atEnd), ?_⟩
    simp [unplaced, forestUnplaced, same, kind, text]
  | print value =>
    rw [statementWords]
    refine (Reads.cons (keyword_lexeme .kwPrint (by decide))
      ((reads_condition value _).append reads_semicolon)).imp ?_
    rintro _ ⟨keyword, _, rfl, isPrint, -, us, last, rfl, ⟨found, phrase, same⟩, terminated⟩
    refine ⟨_, fun atEnd => .print isPrint phrase (terminated atEnd), ?_⟩
    simp [unplaced, forestUnplaced, same]
  | expression value =>
    rw [statementWords]
    have read := reads_expression value (extra.child 0) 1 (by omega)
    refine (read.append reads_semicolon).imp ?_
    rintro _ ⟨us, last, rfl, ⟨found, phrase, same⟩, terminated⟩
    refine ⟨_, fun atEnd => .expression phrase (terminated atEnd), ?_⟩
    simp [unplaced, forestUnplaced, same]
  | conditional condition _ ih =>
    rw [statementWords]
    have inside := reads_block (reads_statements ih (extra.child 1) 0)
    refine (Reads.cons (keyword_lexeme .kwIf (by decide))
      ((reads_condition condition _).append inside)).imp ?_
    rintro _ ⟨keyword, _, rfl, isIf, -, us, vs, rfl, ⟨test, phrase, same⟩, body, block, sameBody⟩
    refine ⟨_, fun atEnd => .conditional isIf phrase block, ?_⟩
    simp [unplaced, forestUnplaced, same, sameBody]
  | alternative condition _ _ ih ihOther =>
    rw [statementWords]
    have inside := reads_block (reads_statements ih (extra.child 1) 0)
    have others := reads_block (reads_statements ihOther (extra.child 2) 0)
    refine (Reads.cons (keyword_lexeme .kwIf (by decide)) ((reads_condition condition _).append
      (inside.append (.cons (keyword_lexeme .kwElse (by decide)) others)))).imp ?_
    rintro _ ⟨keyword, _, rfl, isIf, -, us, _, rfl, ⟨test, phrase, same⟩, vs, _, rfl,
      ⟨body, block, sameBody⟩, last, ws, rfl, isElse, -, other, otherBlock, sameOther⟩
    refine ⟨_, fun atEnd => .alternative isIf phrase block isElse otherBlock, ?_⟩
    simp [unplaced, forestUnplaced, same, sameBody, sameOther]
  | loop condition _ ih =>
    rw [statementWords]
    have inside := reads_block (reads_statements ih (extra.child 1) 0)
    refine (Reads.cons (keyword_lexeme .kwWhile (by decide))
      ((reads_condition condition _).append inside)).imp ?_
    rintro _ ⟨keyword, _, rfl, isWhile, -, us, vs, rfl, ⟨test, phrase, same⟩, body, block, sameBody⟩
    refine ⟨_, fun atEnd => .loop isWhile phrase block, ?_⟩
    simp [unplaced, forestUnplaced, same, sameBody]

/-! ## Programs -/

/-- Words that are read as tokens with a property are scanned into such tokens. -/
theorem Reads.scan {P : List Token → Prop} {words : List String} (reads : Reads P words) :
    ∃ tokens, scan (" ".intercalate words) = .ok tokens ∧ P (beforeEnd tokens) := by
  obtain ⟨lexemes, rfl, valid⟩ := exists_lexemes reads.lexemes
  have scanned := scan_spaced valid
  obtain ⟨last', whole, -, lexed⟩ := beforeEnd_of_scan scanned
  have same : beforeEnd (spacedTokens .origin lexemes ++ _) = spacedTokens .origin lexemes :=
    (List.append_inj_left' whole rfl).symm
  rw [same] at lexed
  exact ⟨_, scanned, by rw [same]; exact reads.tokens _ lexed (spacedTokens_texts _ _)⟩

/-- The text of a program is parsed to the program again, whatever parentheses are added to it,
    unless it is nested too deeply. -/
theorem parseSource_programText {program : Node} (shaped : program.IsProgram) (extra : Extra) :
    (∃ tree, parseSource (programText extra program) = .ok tree ∧
      tree.unplaced = program.unplaced) ∨
    ∃ found, parseSource (programText extra program) = .error (.parse (.tooDeep found)) := by
  obtain ⟨statements⟩ := shaped
  obtain ⟨tokens, scanned, ns, phrases, same⟩ :=
    (reads_statements (fun n member => reads_statement (statements n member)) extra 0).scan
  rcases Grammar.parse_of_program (.intro (phrases true)) with parsed | ⟨found, tooDeep⟩
  · left
    refine ⟨.branch .program ns, ?_, ?_⟩
    · simp only [parseSource, programText, Node.children, scanned, parsed]
    · rw [unplaced, unplaced, same]
  · right
    exact ⟨found, by simp only [parseSource, programText, Node.children, scanned, tooDeep]⟩

/-- A tree that needs parentheses: the product of a sum and a variable, printed. -/
def sumTimes : Node :=
  .branch .program [.branch .print [.branch .binary
    [.branch .binary [.leaf ⟨.token .number, "1", {}⟩, .leaf ⟨.token .plus, "+", {}⟩,
      .leaf ⟨.token .number, "2.5", {}⟩],
    .leaf ⟨.token .star, "*", {}⟩, .leaf ⟨.token .identifier, "x", {}⟩]]]

example : programText (fun _ => 0) sumTimes = "print ( ( 1 + 2.5 ) * x ) ;" := by decide +kernel

/-- The tree is read back from its text with more parentheses the deeper a part of it is. -/
theorem parseSource_programText_sumTimes :
    sumTimes.IsProgram ∧
    ∃ tree, parseSource (programText List.length sumTimes) = .ok tree ∧
      tree.unplaced = sumTimes.unplaced := by
  have one : Numeral ['1'] := .whole ⟨by simp, List.all_eq_true.mp rfl⟩
  have more : Numeral (['2'] ++ '.' :: ['5']) :=
    .fraction ⟨by simp, List.all_eq_true.mp rfl⟩ ⟨by simp, List.all_eq_true.mp rfl⟩
  have word : Word ['x'] := word_of_all rfl rfl
  have name : Lexeme .identifier ['x'] := .plain (plain_of_word word)
  have plus : IsLeaf (operatorsAt 5) (.leaf ⟨.token .plus, "+", {}⟩) :=
    .intro (by decide) (operator_lexeme .plus (by decide))
  have star : IsLeaf (operatorsAt 6) (.leaf ⟨.token .star, "*", {}⟩) :=
    .intro (by decide) (operator_lexeme .star (by decide))
  have shaped : sumTimes.IsProgram := by
    refine .intro (List.forall_mem_singleton.mpr (.print (.binary star (.binary plus ?_ ?_) ?_)))
    · exact .atom (.intro (by decide) (.plain (.number one)))
    · exact .atom (.intro (by decide) (.plain (.number more)))
    · exact .atom (.intro (by decide) name)
  obtain ⟨_, accepted⟩ :=
    exists_of_isOk (programText List.length sumTimes) (by decide +kernel)
  refine ⟨shaped, (parseSource_programText shaped _).resolve_right ?_⟩
  rintro ⟨_, refused⟩
  cases accepted.symm.trans refused

end Printing

end BraceScript
