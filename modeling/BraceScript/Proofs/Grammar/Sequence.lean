import BraceScript.Proofs.Grammar.Leaves
import BraceScript.Proofs.Scanner.Lines

/-!
# Programs one after the other

The tokens of a program at other places are the program with its leaves moved there. And the tokens
of two programs one after the other are the statements of both, if the first has no tokens or ends
with a semicolon or a brace: a statement that needs the end of the input after it, since it has no
semicolon, ends with neither.
-/

namespace BraceScript.Phrase

open Node

variable {move : Position → Position} {atEnd other : Bool} {level : Nat} {t : Token}
  {ts us : List Token} {n : Node} {ns ms : List Node}

/-! ## Tokens at other places -/

theorem Expression.moved (phrase : Expression level ts n) (move : Position → Position) :
    Expression level (ts.map (.moved move)) (n.changed (.moving move)) := by
  induction phrase with
  | tighter _ ih => exact .tighter ih
  | binary operator _ _ ihl ihr =>
    rw [List.map_append]
    exact .binary operator ihl ihr
  | unary operator _ ih => exact .unary operator ih
  | atom atom => exact .atom atom
  | parentheses opens _ closes ih =>
    rw [List.map_cons, List.map_append]
    exact .parentheses opens ih closes

theorem Parenthesized.moved (phrase : Parenthesized ts n) (move : Position → Position) :
    Parenthesized (ts.map (.moved move)) (n.changed (.moving move)) := by
  obtain ⟨opens, inside, closes⟩ := phrase
  rw [List.map_cons, List.map_append]
  exact .intro opens (inside.moved move) closes

theorem Terminator.moved (phrase : Terminator atEnd ts) (move : Position → Position) :
    Terminator atEnd (ts.map (.moved move)) := by
  cases phrase with
  | semicolon isSemicolon => exact .semicolon isSemicolon
  | omitted ends => exact .omitted ends

mutual

theorem Statement.moved : ∀ {atEnd : Bool} {ts : List Token} {n : Node},
    Statement atEnd ts n → ∀ move : Position → Position,
    Statement atEnd (ts.map (.moved move)) (n.changed (.moving move))
  | _, _, _, .declaration keyword isName sign value ends, move => by
    simp only [List.map_cons, List.map_append]
    exact .declaration keyword isName sign (value.moved move) (ends.moved move)
  | _, _, _, .print keyword value ends, move => by
    simp only [List.map_cons, List.map_append]
    exact .print keyword (value.moved move) (ends.moved move)
  | _, _, _, .conditional keyword test body, move => by
    simp only [List.map_cons, List.map_append]
    exact .conditional keyword (test.moved move) (body.moved move)
  | _, _, _, .alternative keyword test body otherwise alternative, move => by
    simp only [List.map_cons, List.map_append]
    exact .alternative keyword (test.moved move) (body.moved move) otherwise
      (alternative.moved move)
  | _, _, _, .loop keyword test body, move => by
    simp only [List.map_cons, List.map_append]
    exact .loop keyword (test.moved move) (body.moved move)
  | _, _, _, .assignment isName sign value ends, move => by
    simp only [List.map_cons, List.map_append]
    exact .assignment isName sign (value.moved move) (ends.moved move)
  | _, _, _, .expression value ends, move => by
    rw [List.map_append]
    exact .expression (value.moved move) (ends.moved move)

theorem Statements.moved : ∀ {atEnd : Bool} {ts : List Token} {ns : List Node},
    Statements atEnd ts ns → ∀ move : Position → Position,
    Statements atEnd (ts.map (.moved move)) (forestMap (LeafChange.moving move).apply ns)
  | _, _, _, .nil, _ => .nil
  | _, _, _, .empty semicolon rest, move => .empty semicolon (rest.moved move)
  | _, _, _, .cons first rest, move => by
    rw [List.map_append]
    refine .cons ?_ (rest.moved move)
    rw [List.isEmpty_map]
    exact first.moved move

theorem Block.moved : ∀ {ts : List Token} {n : Node},
    Block ts n → ∀ move : Position → Position,
    Block (ts.map (.moved move)) (n.changed (.moving move))
  | _, _, .intro opens body closes, move => by
    simp only [List.map_cons, List.map_append]
    exact .intro opens (body.moved move) closes

end

/-! ## The ends of statements -/

/-- Some tokens are none, or end with a semicolon or a brace. -/
def Sealed (ts : List Token) : Prop :=
  ∀ t, ts.getLast? = some t → t.kind = .semicolon ∨ t.kind = .closeBrace

/-- The kinds that an expression ends with. -/
def expressionEnds : List Kind := .closeParen :: atoms

/-- Some tokens end as an expression does. -/
def EndsExpression (ts : List Token) : Prop := ∃ t, ts.getLast? = some t ∧ t.kind ∈ expressionEnds

theorem EndsExpression.append (ends : EndsExpression us) (ts : List Token) :
    EndsExpression (ts ++ us) := by
  obtain ⟨t, last, kind⟩ := ends
  exact ⟨t, by rw [List.getLast?_append, last, Option.some_or], kind⟩

theorem Expression.ends (phrase : Expression level ts n) : EndsExpression ts := by
  induction phrase with
  | tighter _ ih => exact ih
  | binary _ _ _ _ ihr => exact (ihr.append [_]).append _
  | unary _ _ ih => exact ih.append [_]
  | atom atom => exact ⟨_, rfl, List.mem_cons_of_mem _ atom⟩
  | @parentheses ts opening closing _ _ _ closes _ =>
    have last : EndsExpression [closing] := ⟨closing, rfl, by simp [expressionEnds, closes]⟩
    exact (last.append ts).append [opening]

theorem Parenthesized.ends (phrase : Parenthesized ts n) : EndsExpression ts := by
  obtain ⟨opens, inside, closes⟩ := phrase
  exact (Expression.parentheses opens inside closes).ends

theorem Sealed.not_endsExpression (whole : Sealed ts) : ¬ EndsExpression ts := by
  rintro ⟨last, isLast, kind⟩
  rcases whole last isLast with same | same
  · simp [same, expressionEnds, atoms] at kind
  · simp [same, expressionEnds, atoms] at kind

/-! ## Statements that do not need the end of the input -/

theorem Terminator.of_false (phrase : Terminator false ts) : Terminator atEnd ts := by
  cases phrase with
  | semicolon semicolon => exact .semicolon semicolon
  | omitted ends => cases ends

theorem Statement.of_false (phrase : Statement false ts n) : Statement atEnd ts n := by
  cases phrase with
  | declaration isVar isName isSign value ends =>
    exact .declaration isVar isName isSign value ends.of_false
  | print isPrint value ends => exact .print isPrint value ends.of_false
  | conditional isIf test body => exact .conditional isIf test body
  | alternative isIf test body isElse other => exact .alternative isIf test body isElse other
  | loop isWhile test body => exact .loop isWhile test body
  | assignment isName isSign value ends => exact .assignment isName isSign value ends.of_false
  | expression value ends => exact .expression value ends.of_false

theorem Statements.append_of_false : ∀ {ts : List Token} {ns : List Node},
    Statements false ts ns → Statements atEnd us ms → Statements atEnd (ts ++ us) (ns ++ ms)
  | _, _, .nil, more => more
  | _, _, .empty semicolon rest, more => .empty semicolon (rest.append_of_false more)
  | _, _, .cons first rest, more => by
    rw [List.append_assoc]
    exact .cons first.of_false (rest.append_of_false more)

theorem Statements.of_false (phrase : Statements false ts ns) : Statements atEnd ts ns := by
  simpa using phrase.append_of_false .nil

theorem Statements.single (phrase : Statement false ts n) : Statements false ts [n] := by
  have list : Statements false (ts ++ []) [n] := .cons phrase .nil
  rwa [List.append_nil] at list

theorem Terminator.ended (phrase : Terminator true ts) : Terminator false ts ∨ ts = [] := by
  cases phrase with
  | semicolon semicolon => exact .inl (.semicolon semicolon)
  | omitted => exact .inr rfl

/-- A statement at the end of the input is one anywhere, or lacks its semicolon. -/
theorem Statement.ended (phrase : Statement true ts n) :
    Statement false ts n ∨
      EndsExpression ts ∧ ∀ t, t.kind = .semicolon → Statement false (ts ++ [t]) n := by
  cases phrase with
  | @declaration _ ts last keyword name sign value isVar isName isSign phrase ends =>
    rcases ends.ended with ends | rfl
    · exact .inl (.declaration isVar isName isSign phrase ends)
    · rw [List.append_nil]
      exact .inr ⟨((phrase.ends.append [sign]).append [name]).append [keyword], fun t semicolon =>
        .declaration isVar isName isSign phrase (.semicolon semicolon)⟩
  | @print _ ts last keyword value isPrint phrase ends =>
    rcases ends.ended with ends | rfl
    · exact .inl (.print isPrint phrase ends)
    · rw [List.append_nil]
      exact .inr ⟨phrase.ends.append [keyword], fun t semicolon =>
        .print isPrint phrase (.semicolon semicolon)⟩
  | conditional isIf test body => exact .inl (.conditional isIf test body)
  | alternative isIf test body isElse other =>
    exact .inl (.alternative isIf test body isElse other)
  | loop isWhile test body => exact .inl (.loop isWhile test body)
  | @assignment _ ts last name sign value isName isSign phrase ends =>
    rcases ends.ended with ends | rfl
    · exact .inl (.assignment isName isSign phrase ends)
    · rw [List.append_nil]
      exact .inr ⟨(phrase.ends.append [sign]).append [name], fun t semicolon =>
        .assignment isName isSign phrase (.semicolon semicolon)⟩
  | expression phrase ends =>
    rcases ends.ended with ends | rfl
    · exact .inl (.expression phrase ends)
    · rw [List.append_nil]
      exact .inr ⟨phrase.ends, fun t semicolon => .expression phrase (.semicolon semicolon)⟩

theorem Statements.eq_nil (phrase : Statements atEnd [] ns) : ns = [] := by
  generalize none : [] = ts at phrase
  cases phrase with
  | nil => rfl
  | empty => cases none
  | cons first _ =>
    obtain ⟨t, rest, rfl, -⟩ := first.first
    cases none

theorem Statements.ended : ∀ {ts : List Token} {ns : List Node}, Statements true ts ns →
    Statements false ts ns ∨
      EndsExpression ts ∧ ∀ t, t.kind = .semicolon → Statements false (ts ++ [t]) ns
  | _, _, .nil => .inl .nil
  | _, _, .empty semicolon rest => by
    rcases rest.ended with rest | ⟨ends, rest⟩
    · exact .inl (.empty semicolon rest)
    · exact .inr ⟨ends.append [_], fun t isSemicolon => .empty semicolon (rest t isSemicolon)⟩
  | _, _, @Statements.cons _ ts us n ns first rest => by
    cases us with
    | nil =>
      obtain rfl := rest.eq_nil
      rw [List.append_nil]
      rcases Statement.ended first with first | ⟨ends, first⟩
      · exact .inl (.single first)
      · exact .inr ⟨ends, fun t semicolon => .single (first t semicolon)⟩
    | cons u us =>
      rcases rest.ended with rest | ⟨ends, rest⟩
      · exact .inl (.cons first rest)
      · refine .inr ⟨ends.append ts, fun t semicolon => ?_⟩
        rw [List.append_assoc]
        exact .cons (by simpa using first) (rest t semicolon)

/-- With a semicolon, statements at the end of the input are statements anywhere. -/
theorem Statements.with_semicolon (phrase : Statements true ts ns) {t : Token}
    (semicolon : t.kind = .semicolon) : Statements false (ts ++ [t]) ns := by
  rcases phrase.ended with list | ⟨-, list⟩
  · simpa using list.append_of_false (.empty semicolon .nil)
  · exact list t semicolon

/-! ## One program after the other -/

/-- Statements before others, if they do not lack a semicolon. -/
theorem Statements.append (front : Statements true ts ns) (whole : Sealed ts)
    (more : Statements atEnd us ms) : Statements atEnd (ts ++ us) (ns ++ ms) := by
  rcases front.ended with front | ⟨ends, -⟩
  · exact front.append_of_false more
  · exact absurd ends whole.not_endsExpression

theorem Program.append (first : Program ts (.branch .program ns)) (whole : Sealed ts)
    (second : Program us (.branch .program ms)) :
    Program (ts ++ us) (.branch .program (ns ++ ms)) := by
  obtain ⟨front⟩ := first
  obtain ⟨back⟩ := second
  exact .intro (front.append whole back)

theorem Program.moved (phrase : Program ts n) (move : Position → Position) :
    Program (ts.map (.moved move)) (n.changed (.moving move)) := by
  obtain ⟨statements⟩ := phrase
  exact .intro (statements.moved move)

end BraceScript.Phrase
