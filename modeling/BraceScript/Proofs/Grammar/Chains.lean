import BraceScript.Proofs.Grammar.Completeness

/-!
# Chains of operators

A chain is literals and names with binary operators between them. Its tree leans to the left: the
right operand of an operator has only tighter operators outside its own right operands, so that
right operands lie within one another at most seven times, however long the chain is. The rules
follow the right operands, since the operators of one level are read in a loop. Programs of simple
statements with chains are thus read in a room that does not depend on their length.
-/

namespace BraceScript

namespace Node

/-- Operators whose right operands lie within one another at most a number of times. -/
inductive Leaning : Nat → Node → Prop
  | leaf {depth : Nat} {l : Leaf} : Leaning depth (.leaf l)
  | operation {depth : Nat} {l r : Node} {op : Leaf} :
    Leaning (depth + 1) l → Leaning depth r →
    Leaning (depth + 1) (.branch .binary [l, .leaf op, r])

/-- The trees of simple statements with such operators. -/
inductive LeaningStatement (depth : Nat) : Node → Prop
  | declaration {name : Leaf} {value : Node} :
    name.kind = .token .identifier → Leaning depth value →
    LeaningStatement depth (.branch .declaration [.leaf name, value])
  | assignment {name : Leaf} {value : Node} :
    name.kind = .token .identifier → Leaning depth value →
    LeaningStatement depth (.branch .assignment [.leaf name, value])
  | print {value : Node} : Leaning depth value → LeaningStatement depth (.branch .print [value])
  | expression {value : Node} :
    Leaning depth value → LeaningStatement depth (.branch .expression [value])

theorem Leaning.mono {depth more : Nat} {n : Node} (leans : Leaning depth n)
    (le : depth ≤ more) : Leaning more n := by
  induction leans generalizing more with
  | leaf => exact .leaf
  | operation _ _ ihl ihr =>
    obtain ⟨more, rfl⟩ : ∃ less, more = less + 1 := ⟨more - 1, by omega⟩
    exact .operation (ihl le) (ihr (by omega))

end Node

namespace Phrase

/-! ## Programs of chains -/

/-- Literals and names with binary operators between them, in any order. -/
inductive Chain : List Token → Prop
  | operand {t : Token} : t.kind ∈ atoms → Chain [t]
  | operator {level : Nat} {t op : Token} {ts : List Token} :
    t.kind ∈ atoms → op.kind ∈ operatorsAt level → Chain ts → Chain (t :: op :: ts)

/-- Simple statements whose expressions are chains; the flag tells whether the input ends after
    them. -/
inductive ChainStatement (atEnd : Bool) : List Token → Prop
  | declaration {ts last : List Token} {keyword name sign : Token} :
    keyword.kind = .kwVar → name.kind = .identifier → sign.kind = .assign → Chain ts →
    Terminator atEnd last → ChainStatement atEnd (keyword :: name :: sign :: (ts ++ last))
  | print {ts last : List Token} {keyword opening closing : Token} :
    keyword.kind = .kwPrint → opening.kind = .openParen → Chain ts → closing.kind = .closeParen →
    Terminator atEnd last → ChainStatement atEnd (keyword :: (opening :: (ts ++ [closing]) ++ last))
  | assignment {ts last : List Token} {name sign : Token} :
    name.kind = .identifier → sign.kind = .assign → Chain ts →
    Terminator atEnd last → ChainStatement atEnd (name :: sign :: (ts ++ last))
  | expression {ts last : List Token} :
    Chain ts → Terminator atEnd last → ChainStatement atEnd (ts ++ last)

/-- Programs of such statements, with empty statements anywhere between them. -/
inductive ChainProgram : List Token → Prop
  | nil : ChainProgram []
  | empty {ts : List Token} {t : Token} :
    t.kind = .semicolon → ChainProgram ts → ChainProgram (t :: ts)
  | cons {ts us : List Token} :
    ChainStatement us.isEmpty ts → ChainProgram us → ChainProgram (ts ++ us)

/-! ## Chains as expressions -/

/-- Tokens that are an expression of a level without parentheses and prefix operators, and its
    tree. -/
inductive Chained : Nat → List Token → Node → Prop
  | tighter {level : Nat} {ts : List Token} {n : Node} :
    Chained (level + 1) ts n → Chained level ts n
  | binary {level : Nat} {ls rs : List Token} {op : Token} {l r : Node} :
    op.kind ∈ operatorsAt level → Chained level ls l → Chained (level + 1) rs r →
    Chained level (ls ++ op :: rs) (.branch .binary [l, leafOf op, r])
  | atom {t : Token} : t.kind ∈ atoms → Chained 8 [t] (leafOf t)

variable {level least : Nat} {t op : Token} {ts : List Token} {n : Node}

theorem Chained.expression (phrase : Chained level ts n) : Expression level ts n := by
  induction phrase with
  | tighter _ ih => exact .tighter ih
  | binary operator _ _ ihl ihr => exact .binary operator ihl ihr
  | atom atom => exact .atom atom

theorem Chained.loosen (phrase : Chained level ts n) (below : least ≤ level) :
    Chained least ts n := by
  induction below with
  | refl => exact phrase
  | step _ ih => exact ih phrase.tighter

/-- Right operands have tighter operators, of which there are six levels. -/
theorem Chained.leaning (phrase : Chained level ts n) : n.Leaning (8 - level) := by
  induction phrase with
  | tighter _ ih => exact ih.mono (by omega)
  | @binary level _ _ _ _ _ operator _ _ ihl ihr =>
    have bound := (level_range (mem_operatorsAt_iff.mp operator)).2
    obtain ⟨depth, whole⟩ : ∃ depth, 8 - level = depth + 1 := ⟨7 - level, by omega⟩
    rw [whole] at ihl ⊢
    exact .operation ihl (ihr.mono (by omega))
  | atom => exact .leaf

/-- With an operator before it, a chain of tighter operators is the right operand. -/
theorem Chained.after (phrase : Chained level ts n) (atom : t.kind ∈ atoms)
    (operator : op.kind ∈ operatorsAt least) (tight : least < level) :
    ∃ m, Chained least (t :: op :: ts) m := by
  have bound := (level_range (mem_operatorsAt_iff.mp operator)).2
  have left : Chained least [t] (leafOf t) := (Chained.atom atom).loosen (by omega)
  exact ⟨_, .binary operator left (phrase.loosen tight)⟩

/-- A chain with another operand and an operator before it. Where the operators of the chain are not
    tighter than the new one, this goes on with the left operand of the last of them. -/
theorem Chained.prepend {other : Nat} (phrase : Chained level ts n) (atom : t.kind ∈ atoms)
    (operator : op.kind ∈ operatorsAt other) :
    ∃ m, Chained (min level other) (t :: op :: ts) m := by
  induction phrase with
  | @tighter level ts n _ ih =>
    obtain ⟨m, whole⟩ := ih
    exact ⟨m, whole.loosen (by omega)⟩
  | @binary level ls rs sign l r isSign left right ihl =>
    by_cases tight : other < level
    · rw [Nat.min_eq_right (Nat.le_of_lt tight)]
      exact (Chained.binary isSign left right).after atom operator tight
    · obtain ⟨m, whole⟩ := ihl
      rw [Nat.min_eq_left (Nat.le_of_not_lt tight)] at whole ⊢
      exact ⟨_, .binary isSign whole right⟩
  | atom isAtom =>
    have bound := (level_range (mem_operatorsAt_iff.mp operator)).2
    rw [Nat.min_eq_right (by omega)]
    exact (Chained.atom isAtom).after atom operator (by omega)

theorem Chain.chained (phrase : Chain ts) : ∃ n, Chained 1 ts n := by
  induction phrase with
  | operand atom => exact ⟨_, (Chained.atom atom).loosen (by decide)⟩
  | operator atom operator _ ih =>
    obtain ⟨n, rest⟩ := ih
    have bound := (level_range (mem_operatorsAt_iff.mp operator)).1
    obtain ⟨m, whole⟩ := rest.prepend atom operator
    exact ⟨m, whole.loosen (by omega)⟩

end Phrase

namespace Grammar

open Phrase

variable {level room : Nat} {c c' : Cursor} {ts : List Token} {n : Node} {atEnd : Bool}

/-! ## The room of the rules -/

theorem Settles.const_iff {α : Type} {x : ParseM α} {a : α} :
    Settles (fun _ => x) c a c' ↔ x c = .ok a c' := by
  refine ⟨?_, .const⟩
  rintro ⟨least, done⟩
  exact done least (Nat.le_refl _)

/-- How a chain is read in a room that depends on its level only: where climbing on from its tree
    settles, reading from its start does. -/
theorem chained_settles (phrase : Chained level ts n) :
    ∀ {room : Nat} {c c' : Cursor} {least : Nat} {tree : Node} {last : Cursor},
      10 ≤ room + level → c.Passes ts c' → c'.OperatorBelow (level + 1) → least ≤ level →
      (∀ rounds : List Token, c'.after.length ≤ rounds.length →
        Settles (fun _ => climb least (binary room) rounds n) c' tree last) →
      Settles (fun _ => binary (room + 1) least) c tree last := by
  induction phrase with
  | tighter _ ih =>
    intro room c c' least tree last enough moved below loose climbs
    exact ih (by omega) moved (fun found isLevel => by have := below found isLevel; omega)
      (by omega) climbs
  | @binary level ls rs op l r operator _ _ ihl ihr =>
    intro room c c' least tree last enough moved below loose climbs
    have isLevel := mem_operatorsAt_iff.mp operator
    have bound := (level_range isLevel).2
    obtain ⟨mid, left, moved⟩ := moved.split
    obtain ⟨start, sign, right⟩ := moved.uncons
    have atOperator : mid.OperatorBelow (level + 1) := by
      rw [← (passes_single sign).1] at isLevel
      exact operatorBelow_of_some isLevel (by omega)
    -- The right operand is read with a unit of room less and one level tighter.
    obtain ⟨less, rfl⟩ : ∃ less, room = less + 1 := ⟨room - 1, by omega⟩
    have reads : Settles (fun _ => binary (less + 1) (level + 1)) start r c' :=
      ihr (by omega) right (fun found isFound => by have := below found isFound; omega)
        (Nat.le_refl _) fun rounds _ => .const (climb_stops below rounds)
    exact ihl enough left atOperator loose
      (climb_settles (f := fun _ => less + 1) isLevel loose sign right reads climbs)
  | atom atom =>
    intro room c c' least tree last enough moved _ _ climbs
    obtain ⟨less, rfl⟩ : ∃ less, room = less + 2 := ⟨room - 2, by omega⟩
    have first := unary_settles_of_primary (f := fun _ => less + 1) (isUnary_of_atom atom) moved
      (atom_settles (f := fun _ => less) atom moved)
    exact binary_settles (f := fun _ => less + 2) first climbs

/-- The rule for expressions reads a chain in a room of eleven units. -/
theorem chained_reads (phrase : Chained 1 ts n) (enough : 11 ≤ room) :
    ReadsValue (fun _ => expression room) ts n := by
  intro c c' moved below
  obtain ⟨less, rfl⟩ : ∃ less, room = less + 2 := ⟨room - 2, by omega⟩
  have stops : c'.OperatorBelow 1 := operatorBelow_of_none below
  have reads : Settles (fun _ => binary (less + 1) 1) c n c' :=
    chained_settles phrase (by omega) moved (operatorBelow_of_none below) (Nat.le_refl _)
      fun rounds _ => .const (climb_stops stops rounds)
  exact reads.congr fun _ => rfl

/-- A simple statement with a chain is read in a room of thirteen units. -/
theorem chainStatement_reads (phrase : ChainStatement atEnd ts) :
    ∃ n, n.LeaningStatement 7 ∧ Statement atEnd ts n ∧
      ∀ {room : Nat} {c c' : Cursor}, 13 ≤ room → c.Passes ts c' →
        (atEnd = true → c'.current.kind = .endOfInput) →
        Settles (fun _ => statement room) c n c' := by
  cases phrase with
  | declaration isVar isName isSign chain terminated =>
    obtain ⟨value, chained⟩ := chain.chained
    refine ⟨_, .declaration (by rw [isName]) chained.leaning,
      .declaration isVar isName isSign chained.expression terminated, ?_⟩
    intro room c c' enough moved ends
    obtain ⟨less, rfl⟩ : ∃ less, room = less + 2 := ⟨room - 2, by omega⟩
    exact declaration_settles (f := fun _ => less) isVar isName isSign
      (chained_reads chained (by omega)) terminated moved ends
  | print isPrint opens chain closes terminated =>
    obtain ⟨value, chained⟩ := chain.chained
    refine ⟨_, .print chained.leaning,
      .print isPrint (.intro opens chained.expression closes) terminated, ?_⟩
    intro room c c' enough moved ends
    obtain ⟨less, rfl⟩ : ∃ less, room = less + 2 := ⟨room - 2, by omega⟩
    exact print_settles (f := fun _ => less) isPrint opens (chained_reads chained (by omega)) closes
      terminated moved ends
  | assignment isName isSign chain terminated =>
    obtain ⟨value, chained⟩ := chain.chained
    refine ⟨_, .assignment (by rw [isName]) chained.leaning,
      .assignment isName isSign chained.expression terminated, ?_⟩
    intro room c c' enough moved ends
    obtain ⟨less, rfl⟩ : ∃ less, room = less + 1 := ⟨room - 1, by omega⟩
    exact assignment_settles (f := fun _ => less) isName isSign
      (chained_reads chained (by omega)) terminated moved ends
  | expression chain terminated =>
    obtain ⟨value, chained⟩ := chain.chained
    refine ⟨_, .expression chained.leaning, .expression chained.expression terminated, ?_⟩
    intro room c c' enough moved ends
    obtain ⟨less, rfl⟩ : ∃ less, room = less + 1 := ⟨room - 1, by omega⟩
    exact expressionStatement_settles (f := fun _ => less) chained.expression
      (chained_reads chained (by omega)) terminated moved ends

theorem chainProgram_reads (phrase : ChainProgram ts) :
    ∃ ns, (∀ n ∈ ns, n.LeaningStatement 7) ∧ Statements true ts ns ∧
      ∀ {room : Nat}, 13 ≤ room → ReadsStatements (fun _ => statement room) true ts ns := by
  induction phrase with
  | nil => exact ⟨[], by simp, .nil, fun _ => reads_nil⟩
  | empty semicolon _ ih =>
    obtain ⟨ns, lean, list, reads⟩ := ih
    exact ⟨ns, lean, .empty semicolon list, fun enough => reads_empty semicolon (reads enough)⟩
  | @cons ts us first _ ih =>
    obtain ⟨n, leans, head, read⟩ := chainStatement_reads first
    obtain ⟨ns, lean, list, reads⟩ := ih
    rw [← Bool.true_and us.isEmpty] at head read
    refine ⟨n :: ns, List.forall_mem_cons.mpr ⟨leans, lean⟩, .cons head list, fun enough => ?_⟩
    exact reads_cons head (fun moved ends _ => read enough moved ends) list (reads enough)

/-- Programs of chains are parsed. -/
theorem parse_of_chainProgram {tokens : List Token} (phrase : ChainProgram (beforeEnd tokens)) :
    ∃ ns, parse tokens = .ok (.branch .program ns) ∧ ∀ n ∈ ns, n.LeaningStatement 7 := by
  obtain ⟨ns, lean, -, reads⟩ := chainProgram_reads phrase
  obtain ⟨c', moved, ends⟩ := (Cursor.ofTokens_closed tokens).passes_beforeEnd
  rw [Cursor.ofTokens_tokens, Cursor.beforeEnd_close] at moved
  have enough : 13 ≤ depthLimit - 1 := by decide
  have read := reads enough .endOfInput _ moved (fun _ => ends) ends (.inr rfl) (Nat.le_refl _)
  have done : statements depthLimit .endOfInput (.ofTokens tokens) = .ok ns c' :=
    Settles.const_iff.mp read
  refine ⟨ns, ?_, lean⟩
  unfold parse program
  rw [Outcome.bind_ok done]
  rfl

end Grammar

end BraceScript
