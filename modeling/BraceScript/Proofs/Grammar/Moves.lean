import BraceScript.Proofs.Outcome
import BraceScript.Proofs.Grammar.Phrase

/-!
# Moves of a cursor

A cursor is *closed* when its last token is the end of the input, as every cursor made from tokens
is. `c.Passes ts c'` says that `c'` stands just after the tokens `ts` that `c` has before it, none
of them the end of the input. What the rules take from a cursor and where they leave it is said in
these terms: first for the actions on single tokens, here, and then for each rule.
-/

namespace BraceScript

namespace Cursor

/-- Whether the last token is the end of the input. -/
def Closed (c : Cursor) : Prop :=
  ∃ front last, c.current :: c.after = front ++ [last] ∧ last.kind = .endOfInput

/-- The first cursor moves past some tokens to the second. -/
inductive Passes : Cursor → List Token → Cursor → Prop
  | stay (c : Cursor) : Passes c [] c
  | move {c c' : Cursor} {ts : List Token} :
    c.current.kind ≠ .endOfInput → c.after ≠ [] → Passes c.next ts c' →
    Passes c (c.current :: ts) c'

/-- Whether the input ends at a cursor. -/
def atEnd (c : Cursor) : Bool := c.current.kind = .endOfInput

/-- Every binary operator at the cursor is looser than a level. -/
def OperatorBelow (c : Cursor) (level : Nat) : Prop :=
  ∀ found, c.current.kind.level? = some found → found < level

theorem close_eq (tokens : List Token) :
    ∃ front last, close tokens = front ++ [last] ∧ last.kind = .endOfInput ∧
      (front ++ [last] = tokens ∨ front = tokens) := by
  unfold close
  cases found : tokens.getLast? with
  | none =>
    have none : tokens = [] := by simpa using found
    exact ⟨[], .bareEnd, rfl, rfl, .inr none.symm⟩
  | some last =>
    simp only
    split
    · next ends =>
      obtain ⟨front, rfl⟩ := List.getLast?_eq_some_iff.mp found
      exact ⟨front, last, rfl, ends, .inl rfl⟩
    · exact ⟨tokens, .bareEnd, rfl, rfl, .inr rfl⟩

theorem close_of_end {front : List Token} {last : Token} (ends : last.kind = .endOfInput) :
    close (front ++ [last]) = front ++ [last] := by
  rw [close, List.getLast?_concat]
  exact if_pos ends

theorem ofTokens_tokens (tokens : List Token) :
    (ofTokens tokens).current :: (ofTokens tokens).after = close tokens := by
  obtain ⟨front, last, whole, -, -⟩ := close_eq tokens
  unfold ofTokens
  cases split : close tokens with
  | nil => simp [whole] at split
  | cons first rest => rfl

theorem ofTokens_closed (tokens : List Token) : (ofTokens tokens).Closed := by
  obtain ⟨front, last, whole, ends, -⟩ := close_eq tokens
  exact ⟨front, last, by rw [ofTokens_tokens, whole], ends⟩

/-- A cursor among tokens with the end added is closed, wherever it stands. -/
theorem closed_of_tokens {tokens : List Token} {c : Cursor} (whole : c.tokens = close tokens) :
    c.Closed := by
  obtain ⟨front, last, split, ends, -⟩ := close_eq tokens
  obtain none | ⟨rest, final, tail⟩ := List.eq_nil_or_concat (c.current :: c.after)
  · simp at none
  · rw [List.concat_eq_append] at tail
    rw [split, Cursor.tokens, tail, ← List.append_assoc] at whole
    obtain ⟨rfl⟩ := (List.append_inj' whole rfl).2
    exact ⟨rest, last, tail, ends⟩

/-- The tokens before the first end of the input are the same with the end added. -/
theorem beforeEnd_close (tokens : List Token) :
    Phrase.beforeEnd (close tokens) = Phrase.beforeEnd tokens := by
  obtain ⟨front, last, whole, ends, same | same⟩ := close_eq tokens
  · rw [whole, same]
  · rw [whole, same, Phrase.beforeEnd, Phrase.beforeEnd, List.takeWhile_append]
    split
    · next full =>
      rw [List.IsPrefix.eq_of_length (List.takeWhile_prefix _) full]
      simp [ends]
    · rfl

namespace Closed

variable {c : Cursor}

/-- A closed cursor that is not at the end of the input has tokens after it. -/
theorem after_ne_nil (closed : c.Closed) (inside : c.current.kind ≠ .endOfInput) :
    c.after ≠ [] := by
  obtain ⟨front, last, whole, ends⟩ := closed
  intro none
  rw [none] at whole
  cases front with
  | nil =>
    obtain ⟨rfl, -⟩ := List.cons.inj whole
    exact inside ends
  | cons _ rest => simp at whole

theorem kind_of_after_nil (closed : c.Closed) (none : c.after = []) :
    c.current.kind = .endOfInput := by
  by_cases ends : c.current.kind = .endOfInput
  · exact ends
  · exact absurd none (closed.after_ne_nil ends)

theorem next (closed : c.Closed) : c.next.Closed := by
  obtain ⟨front, last, whole, ends⟩ := closed
  unfold Cursor.next
  cases following : c.after with
  | nil => exact ⟨front, last, by simpa [following] using whole, ends⟩
  | cons t rest =>
    rw [following] at whole
    cases front with
    | nil => simp at whole
    | cons first front =>
      obtain ⟨-, tail⟩ := List.cons.inj whole
      exact ⟨front, last, tail, ends⟩

end Closed

namespace Passes

variable {c mid c' : Cursor} {t : Token} {ts us : List Token}

theorem append (first : c.Passes ts mid) (second : mid.Passes us c') :
    c.Passes (ts ++ us) c' := by
  induction first with
  | stay => exact second
  | move inside follows _ ih => exact .move inside follows (ih second)

theorem cons (first : c.Passes [t] mid) (second : mid.Passes us c') : c.Passes (t :: us) c' :=
  first.append second

theorem split (both : c.Passes (ts ++ us) c') : ∃ mid, c.Passes ts mid ∧ mid.Passes us c' := by
  induction ts generalizing c with
  | nil => exact ⟨c, .stay c, both⟩
  | cons t ts ih =>
    cases both with
    | move inside follows rest =>
      obtain ⟨mid, first, second⟩ := ih rest
      exact ⟨mid, .move inside follows first, second⟩

theorem uncons (moved : c.Passes (t :: us) c') :
    ∃ mid, c.Passes [t] mid ∧ mid.Passes us c' := by
  cases moved with
  | move inside follows rest => exact ⟨c.next, .move inside follows (.stay _), rest⟩

theorem closed (moved : c.Passes ts c') (closed : c.Closed) : c'.Closed := by
  induction moved with
  | stay => exact closed
  | move _ _ _ ih => exact ih closed.next

/-- What is left at a cursor, the tokens passed being put back. -/
theorem tokens_eq (moved : c.Passes ts c') :
    c.current :: c.after = ts ++ c'.current :: c'.after := by
  induction moved with
  | stay => rfl
  | @move c c' ts _ follows _ ih =>
    obtain ⟨t, rest, split⟩ := List.exists_cons_of_ne_nil follows
    rw [List.cons_append, ← ih, Cursor.next, split]

theorem length_after (moved : c.Passes ts c') : c.after.length = ts.length + c'.after.length := by
  have lengths := congrArg List.length moved.tokens_eq
  simp only [List.length_cons, List.length_append] at lengths
  omega

theorem kind_ne_end (moved : c.Passes ts c') : ∀ t ∈ ts, t.kind ≠ .endOfInput := by
  induction moved with
  | stay => simp
  | move inside _ _ ih => simpa using ⟨inside, ih⟩

theorem eq_of_nil (moved : c.Passes [] c') : c' = c := by
  cases moved with
  | stay => rfl

end Passes

/-- The tokens passed up to the end of the input are all those before its first end. -/
theorem Passes.eq_beforeEnd {c c' : Cursor} {ts : List Token} (moved : c.Passes ts c')
    (ends : c'.current.kind = .endOfInput) :
    ts = Phrase.beforeEnd (c.current :: c.after) := by
  rw [moved.tokens_eq, Phrase.beforeEnd, List.takeWhile_append_of_pos]
  · simp [ends]
  · intro t member
    simpa using moved.kind_ne_end t member

/-- A closed cursor can move up to the first end of the input. -/
theorem Closed.passes_beforeEnd {c : Cursor} (closed : c.Closed) :
    ∃ c', c.Passes (Phrase.beforeEnd (c.current :: c.after)) c' ∧
      c'.current.kind = .endOfInput := by
  induction following : c.after generalizing c with
  | nil =>
    have ends := closed.kind_of_after_nil following
    exact ⟨c, by simpa [Phrase.beforeEnd, ends] using .stay c, ends⟩
  | cons t rest ih =>
    by_cases ends : c.current.kind = .endOfInput
    · exact ⟨c, by simpa [Phrase.beforeEnd, ends] using .stay c, ends⟩
    · have moved : c.next.after = rest ∧ c.next.current = t := by simp [Cursor.next, following]
      obtain ⟨c', passed, there⟩ := ih closed.next moved.1
      refine ⟨c', ?_, there⟩
      rw [moved.2] at passed
      simpa [Phrase.beforeEnd, ends] using Passes.move ends (by simp [following]) passed

end Cursor

/-! ## Actions on the current token -/

namespace Grammar

open Outcome

variable {c c' : Cursor} {t : Token} {kind : Kind} {kinds : List Kind}

theorem current_run (c : Cursor) : current c = .ok c.current c := rfl

theorem advance_run (c : Cursor) : advance c = .ok c.current c.next := rfl

theorem check_run (kinds : List Kind) (c : Cursor) :
    check kinds c = .ok (kinds.contains c.current.kind) c := rfl

theorem accept_run (kinds : List Kind) (c : Cursor) :
    accept kinds c =
      if kinds.contains c.current.kind then .ok true c.next else .ok false c := by
  rw [accept, bind_ok (check_run kinds c)]
  split
  · exact bind_ok (discard_ok (advance_run c))
  · rfl

theorem expect_run (kind : Kind) (c : Cursor) :
    expect kind c =
      if c.current.kind = kind then .ok c.current c.next
      else .error (.expected kind c.current) c := by
  rw [expect, bind_ok (current_run c)]
  split <;> rfl

theorem terminator_run (c : Cursor) :
    terminator c =
      if c.current.kind = .endOfInput then .ok () c
      else if c.current.kind = .semicolon then .ok () c.next
      else .error (.expected .semicolon c.current) c := by
  rw [terminator, bind_ok (current_run c)]
  by_cases ends : c.current.kind = .endOfInput
  · rw [if_pos ends, if_pos ends]
    rfl
  · rw [if_neg ends, if_neg ends]
    have taken := expect_run .semicolon c
    split
    · next semicolon =>
      rw [if_pos semicolon] at taken
      exact discard_ok taken
    · next other =>
      rw [if_neg other] at taken
      exact discard_error taken

theorem following_eq (follows : c.after ≠ []) : c.following = c.next.current := by
  obtain ⟨t, rest, split⟩ := List.exists_cons_of_ne_nil follows
  simp [Cursor.following, Cursor.next, split]

/-- What a statement is, by its first token. -/
theorem statement_run (room : Nat) (c : Cursor) :
    statement (room + 1) c =
      if c.current.kind = .kwVar then declaration room c
      else if c.current.kind = .kwPrint then printStatement room c
      else if c.current.kind = .kwIf then conditional room c
      else if c.current.kind = .kwWhile then loop room c
      else if c.current.kind = .kwElse then .error (.unexpected c.current .strayElse) c
      else if c.current.kind ∈ [.closeBrace, .closeParen, .assign] then
        .error (.unexpected c.current .statement) c
      else if c.current.kind = .identifier ∧ c.following.kind = .assign then
        (do
          let value ← expression room
          terminator
          return .branch .assignment [.ofToken c.current, value] : ParseM Node) c.next.next
      else
        (do
          let value ← expression room
          terminator
          return .branch .expression [value] : ParseM Node) c := by
  rw [statement, bind_ok (current_run c)]
  cases kind : c.current.kind
  case identifier =>
    by_cases sign : c.following.kind = .assign
    · rw [if_neg (by decide), if_neg (by decide), if_neg (by decide), if_neg (by decide),
        if_neg (by decide), if_neg (by decide), if_pos ⟨rfl, sign⟩]
      simp only [bind_ok (get_ok _), sign, decide_true, Bool.and_self, if_true]
      rw [bind_ok (discard_ok (advance_run c)), bind_ok (discard_ok (advance_run c.next))]
    · rw [if_neg (by decide), if_neg (by decide), if_neg (by decide), if_neg (by decide),
        if_neg (by decide), if_neg (by decide), if_neg (fun both => sign both.2)]
      simp only [bind_ok (get_ok _), sign, decide_false, Bool.and_false,
        Bool.false_eq_true, if_false]
  all_goals rfl

/-- What follows prefix operators, by the first token. -/
theorem unary_run (room : Nat) (c : Cursor) :
    unary (room + 1) c =
      if c.current.kind.isUnary then
        (do
          let operand ← unary room
          return .branch .unary [.ofToken c.current, operand] : ParseM Node) c.next
      else primary room c := by
  rw [unary, bind_ok (current_run c)]
  split
  · rw [bind_ok (advance_run c)]
  · rfl

/-- What an operand is, by its first token. -/
theorem primary_run (room : Nat) (c : Cursor) :
    primary (room + 1) c =
      if c.current.kind.isAtom then .ok (.ofToken c.current) c.next
      else if c.current.kind = .openParen then
        (do
          let inner ← expression room
          discard (expect .closeParen)
          return inner : ParseM Node) c.next
      else if c.current.kind = .endOfInput then .error (.unexpectedEnd c.current) c
      else .error (.unexpected c.current .expression) c := by
  rw [primary, bind_ok (current_run c)]
  have accepted := accept_run [.openParen] c
  by_cases atom : c.current.kind.isAtom
  · rw [if_pos atom, if_pos atom, bind_ok (advance_run c)]
    rfl
  rw [if_neg atom, if_neg atom]
  by_cases opens : c.current.kind = .openParen
  · rw [if_pos (by simp [opens])] at accepted
    rw [bind_ok accepted, if_pos rfl, if_pos opens]
  · rw [if_neg (by simpa using opens)] at accepted
    rw [bind_ok accepted, if_neg (by simp), if_neg opens]
    split <;> rfl

theorem expect_eq_ok :
    expect kind c = .ok t c' ↔ c.current.kind = kind ∧ c.current = t ∧ c.next = c' := by
  rw [expect_run]
  split <;> simp_all

theorem terminator_eq_ok {u : Unit} :
    terminator c = .ok u c' ↔
      (c.current.kind = .endOfInput ∧ c = c') ∨ (c.current.kind = .semicolon ∧ c.next = c') := by
  rw [terminator_run]
  split
  · simp_all
  · split <;> simp_all

/-! ### What the actions pass -/

theorem passes_next (closed : c.Closed) (inside : c.current.kind ≠ .endOfInput) :
    c.Passes [c.current] c.next :=
  .move inside (closed.after_ne_nil inside) (.stay _)

theorem after_next_lt (closed : c.Closed) (inside : c.current.kind ≠ .endOfInput) :
    c.next.after.length < c.after.length := by
  have length := (passes_next closed inside).length_after
  rw [List.length_singleton] at length
  omega

theorem expect_passes (closed : c.Closed) (inside : kind ≠ .endOfInput)
    (done : expect kind c = .ok t c') : t.kind = kind ∧ c.Passes [t] c' := by
  obtain ⟨same, rfl, rfl⟩ := expect_eq_ok.mp done
  exact ⟨same, passes_next closed (by rw [same]; exact inside)⟩

theorem terminator_passes {u : Unit} (closed : c.Closed) (done : terminator c = .ok u c') :
    ∃ last, c.Passes last c' ∧ Phrase.Terminator c'.atEnd last := by
  obtain ⟨ends, rfl⟩ | ⟨semicolon, rfl⟩ := terminator_eq_ok.mp done
  · exact ⟨[], .stay c, .omitted (by simp [Cursor.atEnd, ends])⟩
  · exact ⟨_, passes_next closed (by simp [semicolon]), .semicolon semicolon⟩

/-! ### What the actions do before given tokens -/

theorem passes_single (moved : c.Passes [t] c') :
    c.current = t ∧ c.next = c' := by
  cases moved with
  | move _ _ rest => exact ⟨rfl, rest.eq_of_nil.symm⟩

end Grammar

end BraceScript
