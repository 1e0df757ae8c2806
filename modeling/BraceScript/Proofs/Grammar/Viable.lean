import Mathlib.Data.List.TakeWhile
import BraceScript.Proofs.Grammar.Braces
import BraceScript.Proofs.Grammar.Lookahead

/-!
# Errors at the first wrong token

Tokens are *viable* if a program begins with them. A rule that fails has passed tokens that are
viable, after all that was passed before it, and with a token of the kind that it expected they
still are: this is said for each rule with the phrase that it reads, of which it is only supposed
that tokens remain viable when a whole phrase is put after them. Since no rule looks further than
the token it fails at, no program begins with that token too.

One expected token can come too soon. A simple statement may leave out its semicolon at the end of
the input, so that a block that ends there is only found to lack its brace; but before the brace
the semicolon is needed.
-/

namespace BraceScript

namespace Phrase

variable {level : Nat} {ts us : List Token}

/-- Some tokens that a program begins with. -/
def Viable (ts : List Token) : Prop := ∃ more tree, Program (ts ++ more) tree

theorem Viable.front (viable : Viable ts) (front : us <+: ts) : Viable us := by
  obtain ⟨rest, rfl⟩ := front
  obtain ⟨more, tree, program⟩ := viable
  exact ⟨rest ++ more, tree, by rwa [List.append_assoc] at program⟩

/-- A token of a kind, for phrases in which the text does not matter. -/
def sample (kind : Kind) : Token := ⟨kind, "", .nowhere⟩

theorem expression_sample (bound : level ≤ 8) :
    Expression level [sample .number] (leafOf (sample .number)) :=
  (Expression.atom (by decide)).loosen bound

theorem parenthesized_sample :
    Parenthesized ([.openParen, .number, .closeParen].map sample) (leafOf (sample .number)) :=
  .intro rfl (expression_sample (by decide)) rfl

theorem block_sample : Block ([.openBrace, .closeBrace].map sample) (.branch .block []) :=
  .intro rfl .nil rfl

/-- In a program, a closing brace comes where it can. -/
theorem Viable.admitsBrace {t : Token} (viable : Viable (ts ++ [t]))
    (closes : t.kind = .closeBrace) : AdmitsBrace ts := by
  obtain ⟨more, tree, program⟩ := viable
  obtain ⟨-, admits, -⟩ := (orderly_append.mp (orderly_append.mp program.orderly).1).2
  exact admits closes

end Phrase

namespace Cursor

variable {c c' : Cursor} {t : Token} {ts rest : List Token}

theorem Passes.index (moved : c.Passes ts c') : c'.index = c.index + ts.length := by
  induction moved with
  | stay => rfl
  | @move c c' ts _ follows _ ih =>
    obtain ⟨t, rest, split⟩ := List.exists_cons_of_ne_nil follows
    rw [ih]
    simp only [Cursor.index, Cursor.next, split, List.length_cons]
    omega

theorem ofTokens_index (tokens : List Token) : (ofTokens tokens).index = 0 := by
  unfold ofTokens
  split <;> rfl

theorem close_front (ts : List Token) (t : Token) (more : List Token) :
    ∃ rest, close (ts ++ [t] ++ more) = ts ++ t :: rest := by
  obtain ⟨front, last, whole, -, same | same⟩ := close_eq (ts ++ [t] ++ more)
  · exact ⟨more, by rw [whole, same]; simp⟩
  · exact ⟨more ++ [last], by rw [whole, same]; simp⟩

/-- A cursor can move past tokens that it has before it and that are not the end of the input. -/
theorem passes_of_tokens (inside : ∀ t ∈ ts, t.kind ≠ .endOfInput)
    (whole : c.current :: c.after = ts ++ t :: rest) :
    ∃ c', c.Passes ts c' ∧ c'.current = t ∧ c'.after = rest := by
  induction ts generalizing c with
  | nil => exact ⟨c, .stay c, List.cons.inj whole⟩
  | cons u ts ih =>
    obtain ⟨rfl, tail⟩ := List.cons.inj whole
    have tail : c.after = ts ++ t :: rest := tail
    obtain ⟨here, later⟩ := List.forall_mem_cons.mp inside
    have follows : c.after ≠ [] := by simp [tail]
    have next : c.next.current :: c.next.after = ts ++ t :: rest := by
      obtain ⟨v, vs, split⟩ := List.exists_cons_of_ne_nil follows
      rw [Cursor.next, split]
      exact split.symm.trans tail
    obtain ⟨c', moved, there⟩ := ih later next
    exact ⟨c', .move here follows moved, there⟩

end Cursor

/-- An error is about a token, and the input ends too early only at its end. -/
inductive ParseError.Blames : ParseError → Token → Prop
  | expected (kind : Kind) (t : Token) : Blames (.expected kind t) t
  | unexpected {t : Token} (context : Context) :
    t.kind ≠ .endOfInput → Blames (.unexpected t context) t
  | unexpectedEnd {t : Token} : t.kind = .endOfInput → Blames (.unexpectedEnd t) t

namespace Grammar

open Outcome Phrase

/-- The tokens before an error are viable. With a token of the kind that was expected they still
    are, but for a closing brace after a statement that lacks its semicolon; and if a brace was
    expected, they are with a semicolon and the brace. -/
structure Awaited (e : ParseError) (ts : List Token) : Prop where
  viable : Viable ts
  expected : ∀ kind found t, e = .expected kind found → t.kind = kind →
    (kind = .closeBrace → AdmitsBrace ts) → Viable (ts ++ [t])
  brace : ∀ found s t, e = .expected .closeBrace found → s.kind = .semicolon →
    t.kind = .closeBrace → Viable (ts ++ [s, t])

theorem Awaited.of_viable {e : ParseError} {ts : List Token} (viable : Viable ts)
    (other : ∀ kind found, e ≠ .expected kind found) : Awaited e ts where
  viable := viable
  expected kind found _ same := absurd same (other kind found)
  brace found _ _ same := absurd same (other _ found)

/-- After some tokens, a rule that fails blames the token that it fails at, and those before that
    token are viable. -/
def FailsAfter {α : Type} (front : List Token) (rule : ParseM α) (c : Cursor) : Prop :=
  c.Closed → ∀ e c', rule c = .error e c' → (∀ found, e ≠ .tooDeep found) →
    ∃ ts, c.Passes ts c' ∧ e.Blames c'.current ∧ Awaited e (front ++ ts)

namespace FailsAfter

variable {α β : Type} {front : List Token} {x y : ParseM α} {f : α → ParseM β} {c : Cursor}

theorem never (done : ∀ e c', x c ≠ .error e c') : FailsAfter front x c :=
  fun _ e c' failed => absurd failed (done e c')

theorem value (a : α) : FailsAfter front (pure a) c := never fun _ _ => by simp [pure, EStateM.pure]

theorem giveUp : FailsAfter front (giveUp : ParseM α) c := by
  intro _ e c' failed enough
  obtain ⟨rfl, -⟩ := EStateM.Result.error.inj failed
  exact absurd rfl (enough c.current)

theorem here {e : ParseError} (failed : x c = .error e c) (blames : e.Blames c.current)
    (awaited : Awaited e front) : FailsAfter front x c := by
  intro _ e' c' failed' _
  obtain ⟨rfl, rfl⟩ := EStateM.Result.error.inj (failed.symm.trans failed')
  exact ⟨[], .stay c, blames, by rwa [List.append_nil]⟩

theorem congr (same : x c = y c) (fails : FailsAfter front y c) : FailsAfter front x c := by
  intro closed e c' failed enough
  rw [same] at failed
  exact fails closed e c' failed enough

/-- A rule that takes a token and then does what another does. -/
theorem step (inside : c.current.kind ≠ .endOfInput) (same : x c = y c.next)
    (fails : FailsAfter (front ++ [c.current]) y c.next) : FailsAfter front x c := by
  intro closed e c' failed enough
  rw [same] at failed
  obtain ⟨ts, moved, blames, awaited⟩ := fails closed.next e c' failed enough
  exact ⟨_, (passes_next closed inside).cons moved, blames, by simpa using awaited⟩

theorem bind {phrase : List Token → α → Cursor → Prop} (gives : Gives x phrase)
    (first : FailsAfter front x c)
    (second : ∀ {ts a mid}, phrase ts a mid → FailsAfter (front ++ ts) (f a) mid) :
    FailsAfter front (x >>= f) c := by
  intro closed e c' failed enough
  have failed : (x >>= f) c = ending (.error e) c' := failed
  rcases bind_eq_ending.mp failed with ⟨a, mid, read, rest⟩ | ⟨e, ⟨⟩, failed⟩
  · obtain ⟨ts, moved, whole⟩ := gives closed read
    obtain ⟨us, onward, blames, awaited⟩ := second whole (moved.closed closed) e c' rest enough
    exact ⟨ts ++ us, moved.append onward, blames, by rwa [List.append_assoc] at awaited⟩
  · exact first closed _ c' failed enough

theorem bind_pure {g : α → β} (fails : FailsAfter front x c) :
    FailsAfter front (x >>= fun a => pure (g a)) c := by
  intro closed e c' failed enough
  have failed : (x >>= fun a => pure (g a)) c = ending (.error e) c' := failed
  rcases bind_eq_ending.mp failed with ⟨_, _, -, ⟨⟩⟩ | ⟨e, ⟨⟩, failed⟩
  exact fails closed _ c' failed enough

/-! ### Tokens -/

theorem expect {kind : Kind} (other : kind ≠ .closeBrace)
    (viable : ∀ t, t.kind = kind → Viable (front ++ [t])) :
    FailsAfter front (expect kind) c := by
  by_cases found : c.current.kind = kind
  · exact .never fun e c' => by rw [expect_run, if_pos found]; simp
  · refine .here (by rw [expect_run, if_neg found]) (.expected kind _) ?_
    refine ⟨(viable (sample kind) rfl).front (by simp), ?_, ?_⟩
    · rintro _ _ t ⟨⟩ same -
      exact viable t same
    · rintro _ _ _ ⟨⟩
      exact absurd rfl other

/-- A rule that starts with a token of a kind. -/
theorem take {kind : Kind} {f : Token → ParseM β} (inside : kind ≠ .endOfInput)
    (other : kind ≠ .closeBrace) (viable : ∀ t, t.kind = kind → Viable (front ++ [t]))
    (rest : ∀ t mid, t.kind = kind → FailsAfter (front ++ [t]) (f t) mid) :
    FailsAfter front (Grammar.expect kind >>= f) c := by
  have gives : Gives (Grammar.expect kind) fun ts t _ => t.kind = kind ∧ ts = [t] := by
    intro c t c' closed done
    obtain ⟨same, moved⟩ := expect_passes closed inside done
    exact ⟨[t], moved, same, rfl⟩
  refine .bind gives (expect other viable) ?_
  rintro _ t mid ⟨same, rfl⟩
  exact rest t mid same

theorem skip {kind : Kind} {f : Unit → ParseM β} (inside : kind ≠ .endOfInput)
    (other : kind ≠ .closeBrace) (viable : ∀ t, t.kind = kind → Viable (front ++ [t]))
    (rest : ∀ t mid, t.kind = kind → FailsAfter (front ++ [t]) (f ()) mid) :
    FailsAfter front (discard (Grammar.expect kind) >>= f) c := by
  rw [discard_eq_bind, bind_assoc]
  simp only [pure_bind]
  exact take inside other viable rest

theorem terminator (viable : ∀ t, t.kind = .semicolon → Viable (front ++ [t])) :
    FailsAfter front terminator c := by
  by_cases ends : c.current.kind = .endOfInput
  · exact .never fun e c' => by rw [terminator_run, if_pos ends]; simp
  · refine .congr (y := discard (Grammar.expect .semicolon)) ?_ ?_
    · rw [Grammar.terminator, bind_ok (current_run c), if_neg ends]
    · rw [discard_eq_bind]
      exact take (by decide) (by decide) viable fun _ _ _ => .value ()

end FailsAfter

/-- Tokens remain viable when a whole phrase is put after them. -/
def Completes {α : Type} (phrase : List Token → α → Prop) (front : List Token) : Prop :=
  ∀ ts a, phrase ts a → Viable (front ++ ts)

/-! ## Expressions -/

/-- How the rules for expressions fail. -/
structure FailingExpressions (room : Nat) : Prop where
  expression : ∀ {front} c, Completes (Expression 1) front → FailsAfter front (expression room) c
  binary : ∀ {front least} c, least ≤ 7 → Completes (Expression least) front →
    FailsAfter front (binary room least) c
  unary : ∀ {front} c, Completes (Expression 7) front → FailsAfter front (unary room) c
  primary : ∀ {front} c, Completes (Expression 8) front → FailsAfter front (primary room) c

section Expressions

variable {room level : Nat} {front : List Token} {c : Cursor}

theorem Completes.sample (completes : Completes (Expression level) front) (bound : level ≤ 8) :
    Viable front :=
  (completes _ _ (expression_sample bound)).front (by simp)

theorem primary_failsAfter (rules : FailingExpressions room) (c : Cursor)
    (completes : Completes (Expression 8) front) : FailsAfter front (primary (room + 1)) c := by
  have viable := completes.sample (by decide)
  by_cases atom : c.current.kind.isAtom = true
  · refine .never fun e c' => ?_
    rw [primary_run, if_pos atom]
    simp
  by_cases opens : c.current.kind = .openParen
  · refine .step (y := do
      let inner ← expression room
      discard (expect .closeParen)
      return inner) (by simp [opens]) ?_ ?_
    · rw [primary_run, if_neg atom, if_pos opens]
    · have enclosed {ts : List Token} {n : Node} (inner : Expression 1 ts n) (closing : Token)
          (closes : closing.kind = .closeParen) :
          Viable (front ++ [c.current] ++ ts ++ [closing]) := by
        simpa using completes _ _ (.parentheses opens inner closes)
      refine .bind (soundRules room).expression (rules.expression c.next fun ts n inner => ?_) ?_
      · exact (enclosed inner (sample .closeParen) rfl).front (by simp)
      · rintro ts n mid ⟨inner, -⟩
        exact .skip (by decide) (by decide) (enclosed inner) fun _ _ _ => .value n
  by_cases ends : c.current.kind = .endOfInput
  · refine .here ?_ (.unexpectedEnd ends) (.of_viable viable (by simp))
    rw [primary_run, if_neg atom, if_neg opens, if_pos ends]
  · refine .here ?_ (.unexpected .expression ends) (.of_viable viable (by simp))
    rw [primary_run, if_neg atom, if_neg opens, if_neg ends]

theorem unary_failsAfter (rules : FailingExpressions room) (c : Cursor)
    (completes : Completes (Expression 7) front) : FailsAfter front (unary (room + 1)) c := by
  by_cases operator : c.current.kind.isUnary = true
  · refine .step (y := do
      let operand ← unary room
      return Node.branch .unary [.ofToken c.current, operand]) (kind_ne_end_of_isUnary operator)
      ?_ ?_
    · rw [unary_run, if_pos operator]
    · refine .bind_pure (rules.unary c.next fun ts n operand => ?_)
      simpa using completes _ _ (.unary (mem_unaryOperators_iff.mpr operator) operand)
  · refine .congr (y := primary room) ?_ (rules.primary c fun ts n phrase => ?_)
    · rw [unary_run, if_neg operator]
    · exact completes ts n phrase.tighter

/-- A climb fails in the right operand of an operator, after the tree that was read so far. -/
theorem climb_failsAfter (rules : FailingExpressions room) {least : Nat} (rounds : List Token)
    {ls : List Token} {left : Node} (phrase : Expression level ls left) (least_le : least ≤ level)
    (below : c.OperatorBelow (level + 1))
    (completes : ∀ ts n, Expression least (ls ++ ts) n → Viable (front ++ ts)) :
    FailsAfter front (climb least (binary room) rounds left) c := by
  induction rounds generalizing front c level ls left with
  | nil => exact .value _
  | cons t rounds ih =>
    by_cases loose : c.OperatorBelow least
    · exact .never fun e c' => by rw [climb_stops loose]; simp
    · obtain ⟨found, isLevel, tight⟩ := exists_operator loose
      have found_le : found ≤ 6 := (level_range isLevel).2
      have operand : Expression found ls left :=
        phrase.loosen (Nat.lt_succ_iff.mp (below found isLevel))
      have joined {rs : List Token} {right : Node} (phrase : Expression (found + 1) rs right) :
          Expression found (ls ++ c.current :: rs)
            (.branch .binary [left, leafOf c.current, right]) :=
        .binary (mem_operatorsAt_iff.mpr isLevel) operand phrase
      refine .step (kind_ne_end_of_level isLevel) (climb_goes isLevel tight t rounds) ?_
      refine .bind ((soundRules room).binary (found + 1) (by omega))
        (rules.binary c.next (by omega) fun rs right phrase => ?_) ?_
      · simpa using completes _ _ ((joined phrase).loosen (by omega))
      · rintro rs right mid ⟨phrase, there⟩
        refine ih (joined phrase) (by omega) there fun ts n whole => ?_
        simpa using completes (c.current :: (rs ++ ts)) n (by simpa using whole)

theorem failingExpressions (room : Nat) : FailingExpressions room := by
  induction room with
  | zero => constructor <;> intros <;> exact .giveUp
  | succ room rules =>
    exact {
      expression := fun c completes => rules.binary c (by decide) completes
      binary := fun {front least} c bound completes => by
        refine .bind (soundRules room).unary (rules.unary c fun ts n phrase => ?_) ?_
        · exact completes ts n (phrase.loosen bound)
        · intro ls left mid phrase
          refine .congr (climbing_run least (binary room) left mid) ?_
          refine climb_failsAfter rules _ phrase bound (operatorBelow_of_le (by decide)) ?_
          intro ts n whole
          simpa using completes _ n whole
      unary := unary_failsAfter rules
      primary := primary_failsAfter rules }

end Expressions

/-! ## Statements -/

section Statements

variable {room : Nat} {front : List Token} {c : Cursor}

/-- The value at the end of a simple statement, and its semicolon. -/
theorem value_failsAfter (room : Nat) (f : Node → Node) (c : Cursor)
    (completes : ∀ ts n t, Expression 1 ts n → t.kind = .semicolon →
      Viable (front ++ (ts ++ [t]))) :
    FailsAfter front (do
      let value ← expression room
      terminator
      return f value) c := by
  refine .bind (soundRules room).expression
    ((failingExpressions room).expression c fun ts n phrase => ?_) ?_
  · exact (completes ts n (sample .semicolon) phrase rfl).front (by simp)
  · rintro ts n mid ⟨phrase, -⟩
    refine .bind_pure (.terminator fun t semicolon => ?_)
    simpa using completes ts n t phrase semicolon

theorem declaration_failsAfter (room : Nat) (c : Cursor)
    (completes : Completes (Statement false) front) : FailsAfter front (declaration room) c := by
  cases room with
  | zero => exact .giveUp
  | succ room =>
    have whole (keyword name sign : Token) (isVar : keyword.kind = .kwVar)
        (isName : name.kind = .identifier) (isSign : sign.kind = .assign) {ts : List Token}
        {n : Node} (value : Expression 1 ts n) (t : Token) (semicolon : t.kind = .semicolon) :
        Viable (front ++ keyword :: name :: sign :: (ts ++ [t])) :=
      completes _ _ (.declaration isVar isName isSign value (.semicolon semicolon))
    have part (keyword name sign : Token) (isVar : keyword.kind = .kwVar)
        (isName : name.kind = .identifier) (isSign : sign.kind = .assign) :=
      whole keyword name sign isVar isName isSign (expression_sample (by decide))
        (sample .semicolon) rfl
    refine .skip (by decide) (by decide) (fun keyword isVar => ?_) fun keyword _ isVar => ?_
    · exact (part keyword (sample .identifier) (sample .assign) isVar rfl rfl).front (by simp)
    refine .take (by decide) (by decide) (fun name isName => ?_) fun name _ isName => ?_
    · exact (part keyword name (sample .assign) isVar isName rfl).front (by simp)
    refine .skip (by decide) (by decide) (fun sign isSign => ?_) fun sign _ isSign => ?_
    · exact (part keyword name sign isVar isName isSign).front (by simp)
    refine value_failsAfter room _ _ fun ts n t value semicolon => ?_
    simpa using whole keyword name sign isVar isName isSign value t semicolon

/-- An expression between parentheses, and what comes after it. -/
theorem enclosed_failsAfter (room : Nat) {f : Node → ParseM Node} (c : Cursor)
    (completes : Completes Parenthesized front)
    (rest : ∀ {ts n mid}, Parenthesized ts n → FailsAfter (front ++ ts) (f n) mid) :
    FailsAfter front (do
      discard (expect .openParen)
      let value ← expression room
      discard (expect .closeParen)
      f value) c := by
  have whole (opening closing : Token) (opens : opening.kind = .openParen) {ts : List Token}
      {n : Node} (value : Expression 1 ts n) (closes : closing.kind = .closeParen) :
      Viable (front ++ opening :: (ts ++ [closing])) :=
    completes _ _ (.intro opens value closes)
  refine .skip (by decide) (by decide) (fun opening opens => ?_) fun opening _ opens => ?_
  · exact (whole opening (sample .closeParen) opens (expression_sample (by decide)) rfl).front
      (by simp)
  refine .bind (soundRules room).expression
    ((failingExpressions room).expression _ fun ts n value => ?_) ?_
  · exact (whole opening (sample .closeParen) opens value rfl).front (by simp)
  rintro ts n _ ⟨value, -⟩
  refine .skip (by decide) (by decide) (fun closing closes => ?_) fun closing _ closes => ?_
  · simpa using whole opening closing opens value closes
  have phrase : Parenthesized (opening :: (ts ++ [closing])) n := .intro opens value closes
  simpa using rest phrase

theorem printStatement_failsAfter (room : Nat) (c : Cursor)
    (completes : Completes (Statement false) front) :
    FailsAfter front (printStatement room) c := by
  cases room with
  | zero => exact .giveUp
  | succ room =>
    have whole (keyword : Token) (isPrint : keyword.kind = .kwPrint) {ts : List Token} {n : Node}
        (value : Parenthesized ts n) (t : Token) (semicolon : t.kind = .semicolon) :
        Viable (front ++ keyword :: (ts ++ [t])) :=
      completes _ _ (.print isPrint value (.semicolon semicolon))
    refine .skip (by decide) (by decide) (fun keyword isPrint => ?_) fun keyword _ isPrint => ?_
    · exact (whole keyword isPrint parenthesized_sample (sample .semicolon) rfl).front (by simp)
    refine enclosed_failsAfter room _ (fun ts n value => ?_) fun {ts n mid} value => ?_
    · exact (whole keyword isPrint value (sample .semicolon) rfl).front (by simp)
    refine .bind_pure (.terminator fun t semicolon => ?_)
    simpa using whole keyword isPrint value t semicolon

theorem condition_failsAfter (room : Nat) (c : Cursor) (completes : Completes Parenthesized front) :
    FailsAfter front (condition room) c := by
  cases room with
  | zero => exact .giveUp
  | succ room => exact enclosed_failsAfter room c completes fun _ => .value _

/-- How the rules for statements fail. -/
structure FailingRules (room : Nat) : Prop where
  statements : ∀ {front} stop c, Completes (Statements false) front →
    FailsAfter front (statements room stop) c
  statement : ∀ {front} c, Completes (Statement false) front → FailsAfter front (statement room) c
  conditional : ∀ {front} c, Completes (Statement false) front →
    FailsAfter front (conditional room) c
  loop : ∀ {front} c, Completes (Statement false) front → FailsAfter front (loop room) c
  block : ∀ {front} c, Completes Block front → FailsAfter front (block room) c

theorem conditional_failsAfter (rules : FailingRules room) (c : Cursor)
    (completes : Completes (Statement false) front) :
    FailsAfter front (conditional (room + 1)) c := by
  have whole (keyword : Token) (isIf : keyword.kind = .kwIf) {ts us : List Token} {test body : Node}
      (condition : Parenthesized ts test) (block : Block us body) :
      Viable (front ++ keyword :: (ts ++ us)) :=
    completes _ _ (.conditional isIf condition block)
  refine .skip (by decide) (by decide) (fun keyword isIf => ?_) fun keyword _ isIf => ?_
  · exact (whole keyword isIf parenthesized_sample block_sample).front (by simp)
  refine .bind (soundRules room).condition
    (condition_failsAfter room _ fun ts test condition => ?_) fun {ts test _} condition => ?_
  · exact (whole keyword isIf condition block_sample).front (by simp)
  refine .bind (soundRules room).block (rules.block _ fun us body block => ?_)
    fun {us body mid} block => ?_
  · simpa using whole keyword isIf condition block
  have accepted := accept_run [.kwElse] mid
  by_cases isElse : mid.current.kind = .kwElse
  · rw [if_pos (by simp [isElse])] at accepted
    refine .step (by simp [isElse]) (bind_ok accepted) ?_
    refine .bind_pure (rules.block _ fun vs alternative other => ?_)
    simpa using completes _ _ (.alternative isIf condition block isElse other)
  · rw [if_neg (by simpa using isElse)] at accepted
    exact .congr (bind_ok accepted) (.value _)

theorem loop_failsAfter (rules : FailingRules room) (c : Cursor)
    (completes : Completes (Statement false) front) : FailsAfter front (loop (room + 1)) c := by
  have whole (keyword : Token) (isWhile : keyword.kind = .kwWhile) {ts us : List Token}
      {test body : Node} (condition : Parenthesized ts test) (block : Block us body) :
      Viable (front ++ keyword :: (ts ++ us)) :=
    completes _ _ (.loop isWhile condition block)
  refine .skip (by decide) (by decide) (fun keyword isWhile => ?_) fun keyword _ isWhile => ?_
  · exact (whole keyword isWhile parenthesized_sample block_sample).front (by simp)
  refine .bind (soundRules room).condition
    (condition_failsAfter room _ fun ts test condition => ?_) fun {ts test _} condition => ?_
  · exact (whole keyword isWhile condition block_sample).front (by simp)
  refine .bind_pure (rules.block _ fun us body block => ?_)
  simpa using whole keyword isWhile condition block

/-- A block that the input ends in. The statements in it may lack a semicolon, which then has to
    come before the brace. -/
theorem brace_failsAfter {opening : Token} {ts : List Token} {ns : List Node} {mid : Cursor}
    (opens : opening.kind = .openBrace) (list : Statements mid.atEnd ts ns)
    (there : mid.current.kind = .closeBrace ∨ mid.current.kind = .endOfInput)
    (completes : Completes Block front) :
    FailsAfter (front ++ [opening] ++ ts) (do
      discard (expect .closeBrace)
      return Node.branch .block ns) mid := by
  have taken := expect_run .closeBrace mid
  by_cases closes : mid.current.kind = .closeBrace
  · rw [if_pos closes] at taken
    exact .never fun e c' => by rw [bind_ok (discard_ok taken)]; simp [pure, EStateM.pure]
  · rw [if_neg closes] at taken
    have atEnd : mid.atEnd = true := by simpa [Cursor.atEnd] using there.resolve_left closes
    rw [atEnd] at list
    have brace (s t : Token) (semicolon : s.kind = .semicolon) (closes : t.kind = .closeBrace) :
        Viable (front ++ [opening] ++ ts ++ [s, t]) := by
      simpa using completes _ _ (.intro opens (list.with_semicolon semicolon) closes)
    refine .here (bind_error (discard_error taken)) (.expected _ _) ⟨?_, ?_, ?_⟩
    · exact (brace (sample .semicolon) (sample .closeBrace) rfl rfl).front (by simp)
    · rintro _ _ t ⟨⟩ closes admits
      rcases list.ended with list | ⟨ends, -⟩
      · simpa using completes _ _ (.intro opens list closes)
      · exact absurd (admits rfl) (not_admitsBrace (ends.append (front ++ [opening])))
    · rintro _ s t ⟨⟩ semicolon closes
      exact brace s t semicolon closes

theorem block_failsAfter (rules : FailingRules room) (c : Cursor)
    (completes : Completes Block front) : FailsAfter front (block (room + 1)) c := by
  have whole (opening : Token) (opens : opening.kind = .openBrace) {ts : List Token}
      {ns : List Node} (list : Statements false ts ns) :
      Viable (front ++ opening :: (ts ++ [sample .closeBrace])) :=
    completes _ _ (.intro opens list rfl)
  refine .skip (by decide) (by decide) (fun opening opens => ?_) fun opening _ opens => ?_
  · exact (whole opening opens .nil).front (by simp)
  refine .bind ((soundRules room).statements _) (rules.statements _ _ fun ts ns list => ?_)
    fun {ts ns mid} found => brace_failsAfter opens found.1 found.2 completes
  exact (whole opening opens list).front (by simp)

theorem statementsUpTo_failsAfter (rules : FailingRules room) (stop : Kind) (rounds : List Token)
    (completes : Completes (Statements false) front) :
    FailsAfter front (statementsUpTo stop (statement room) rounds) c := by
  induction rounds generalizing front c with
  | nil => exact .value _
  | cons t rounds ih =>
    by_cases stops : c.current.kind = stop ∨ c.current.kind = .endOfInput
    · exact .never fun e c' => by rw [statementsUpTo_stops stops]; simp
    by_cases semicolon : c.current.kind = .semicolon
    · refine .step (by simp [semicolon]) (statementsUpTo_empty stops semicolon t rounds) ?_
      refine ih fun ts ns list => ?_
      simpa using completes _ _ (.empty semicolon list)
    refine .congr (statementsUpTo_goes stops semicolon t rounds) ?_
    refine .bind (soundRules room).statement (rules.statement c fun ts n first => ?_)
      fun {ts n mid} first => ?_
    · exact completes _ _ (.single first)
    -- At the end of the input the list is at its end too, and does not fail.
    by_cases ends : mid.current.kind = .endOfInput
    · refine .never fun e c' => ?_
      rw [bind_ok (statementsUpTo_stops (.inr ends) rounds)]
      simp [pure, EStateM.pure]
    · have inside : mid.atEnd = false := by simpa [Cursor.atEnd] using ends
      rw [inside] at first
      refine .bind_pure (ih fun us ns list => ?_)
      simpa using completes _ _ (.cons first list)

theorem assignment_failsAfter (room : Nat) (isName : c.current.kind = .identifier)
    (isSign : c.following.kind = .assign) (completes : Completes (Statement false) front) :
    FailsAfter front (statement (room + 1)) c := by
  intro closed
  have plain : c.current.kind ∉ selectors := by simp [isName, selectors]
  have run := statement_simple_run room plain
  rw [if_pos ⟨isName, isSign⟩] at run
  have first := passes_next closed (by simp [isName])
  rw [following_eq first.after_ne_nil] at isSign
  refine FailsAfter.step (y := do
    discard advance
    let value ← expression room
    terminator
    return .branch .assignment [.ofToken c.current, value]) (by simp [isName]) ?_ ?_ closed
  · rw [run, bind_ok (discard_ok (advance_run _))]
  · refine .step (by simp [isSign]) (bind_ok (discard_ok (advance_run _))) ?_
    refine value_failsAfter room _ _ fun ts n t value semicolon => ?_
    simpa using completes _ _ (.assignment isName isSign value (.semicolon semicolon))

theorem statement_failsAfter (rules : FailingRules room) (c : Cursor)
    (completes : Completes (Statement false) front) :
    FailsAfter front (statement (room + 1)) c := by
  have whole {ts : List Token} {n : Node} (t : Token) (value : Expression 1 ts n)
      (semicolon : t.kind = .semicolon) : Viable (front ++ (ts ++ [t])) :=
    completes _ _ (.expression value (.semicolon semicolon))
  rcases statement_selects room c with ⟨rule, selected, same⟩ | ⟨context, inside, same⟩ | plain
  · refine .congr (same c rfl) ?_
    simp only [List.mem_cons, List.not_mem_nil, or_false] at selected
    rcases selected with rfl | rfl | rfl | rfl
    · exact declaration_failsAfter room c completes
    · exact printStatement_failsAfter room c completes
    · exact rules.conditional c completes
    · exact rules.loop c completes
  · have viable := whole (sample .semicolon) (expression_sample (by decide)) rfl
    exact .here (same c rfl) (.unexpected context inside)
      (.of_viable (viable.front (by simp)) (by simp))
  · by_cases assigns : c.current.kind = .identifier ∧ c.following.kind = .assign
    · exact assignment_failsAfter room assigns.1 assigns.2 completes
    · refine .congr ?_ (value_failsAfter room (fun value => .branch .expression [value]) c
        fun ts n t value semicolon => whole t value semicolon)
      rw [statement_simple_run room plain, if_neg assigns]

theorem failingRules (room : Nat) : FailingRules room := by
  induction room with
  | zero => constructor <;> intros <;> exact .giveUp
  | succ room rules =>
    exact {
      statements := fun stop c completes => .congr (collecting_run stop (statement room) c)
        (statementsUpTo_failsAfter rules stop _ completes)
      statement := statement_failsAfter rules
      conditional := conditional_failsAfter rules
      loop := loop_failsAfter rules
      block := block_failsAfter rules }

theorem program_failsAfter (c : Cursor) : FailsAfter [] program c := by
  refine .bind_pure ((failingRules depthLimit).statements _ c fun ts ns list => ?_)
  exact ⟨[], _, .intro (by simpa using list.of_false)⟩

end Statements

/-! ## Where parsing fails -/

section Programs

variable {tokens : List Token} {ts : List Token} {e : ParseError} {c : Cursor}

/-- The tokens that were passed before parsing failed. -/
theorem program_passes (failed : program (.ofTokens tokens) = .error e c)
    (enough : ∀ found, e ≠ .tooDeep found) :
    ∃ ts, (Cursor.ofTokens tokens).Passes ts c ∧ e.Blames c.current ∧ Awaited e ts := by
  obtain ⟨ts, moved, blames, awaited⟩ :=
    program_failsAfter _ (Cursor.ofTokens_closed tokens) e c failed enough
  exact ⟨ts, moved, blames, awaited⟩

theorem parse_of_ending {o : Except ParseError Node}
    (done : program (.ofTokens tokens) = ending o c) : parse tokens = o := by
  rw [parse, done]
  cases o <;> rfl

theorem parse_of_program_error (failed : program (.ofTokens tokens) = .error e c) :
    parse tokens = .error e := by
  rw [parse, failed]

/-- Parsing ends alike on all tokens that are the same up to the token where it ends and, where it
    gives up at an identifier, in the token after it. -/
theorem parse_alike {o : Except ParseError Node} (done : program (.ofTokens tokens) = ending o c)
    (moved : (Cursor.ofTokens tokens).Passes ts c) {others more : List Token}
    (whole : Cursor.close others = ts ++ c.current :: more)
    (follows : ∀ found, o = .error (.tooDeep found) → c.current.kind = .identifier →
      more.headD c.current = c.following) : parse others = o := by
  obtain ⟨us, moved', again⟩ := program_shortSighted _ (Cursor.ofTokens_closed tokens) o c done
  obtain rfl := moved.unique moved'
  rw [← Cursor.ofTokens_tokens] at whole
  obtain ⟨d, passed, there, rest⟩ := Cursor.passes_of_tokens moved.kind_ne_end whole
  refine parse_of_ending (again _ d (Cursor.ofTokens_closed _) passed ⟨there, ?_⟩)
  intro found deep isName
  rw [Cursor.following, rest, there]
  exact follows found deep isName

/-- Parsing fails alike on all tokens that are the same up to the token where it fails. -/
theorem parse_again (failed : program (.ofTokens tokens) = .error e c)
    (enough : ∀ found, e ≠ .tooDeep found) (moved : (Cursor.ofTokens tokens).Passes ts c)
    {others : List Token} (front : ts ++ [c.current] <+: others) : parse others = .error e := by
  have ended : program (.ofTokens tokens) = ending (.error e) c := failed
  obtain ⟨more, rfl⟩ := front
  obtain ⟨rest, whole⟩ := Cursor.close_front ts c.current more
  refine parse_alike ended moved whole fun found deep => ?_
  exact absurd (Except.error.inj deep) (enough found)

/-- Tokens that are refused for another reason than their depth are no program. -/
theorem not_program_of_refused (refused : parse tokens = .error e)
    (enough : ∀ found, e ≠ .tooDeep found) (tree : Node) : ¬ Program (beforeEnd tokens) tree := by
  intro program
  rcases parse_of_program program with done | ⟨found, deep⟩
  · rw [refused] at done
    cases done
  · rw [refused] at deep
    exact enough found (Except.error.inj deep)

/-- No program begins with the tokens up to the one where parsing fails. -/
theorem not_viable (failed : program (.ofTokens tokens) = .error e c)
    (enough : ∀ found, e ≠ .tooDeep found) (moved : (Cursor.ofTokens tokens).Passes ts c) :
    ¬ Viable (ts ++ [c.current]) := by
  rintro ⟨more, tree, program⟩
  have again := parse_again failed enough moved (List.prefix_append _ more)
  have whole : beforeEnd (ts ++ [c.current] ++ more) = ts ++ [c.current] ++ more :=
    List.takeWhile_eq_self_iff.mpr (by simpa using program.orderly.inside)
  rw [← whole] at program
  exact not_program_of_refused again enough tree program

/-- The tokens before the end of the input, where parsing fails, are no program. -/
theorem not_program (failed : program (.ofTokens tokens) = .error e c)
    (enough : ∀ found, e ≠ .tooDeep found) (moved : (Cursor.ofTokens tokens).Passes ts c)
    (ends : c.current.kind = .endOfInput) (tree : Node) : ¬ Program ts tree := by
  have whole := moved.eq_beforeEnd ends
  rw [Cursor.ofTokens_tokens, Cursor.beforeEnd_close] at whole
  rw [whole]
  exact not_program_of_refused (parse_of_program_error failed) enough tree

/-- Parsing fails at the first wrong token. If it fails for another reason than too deep nesting,
    the error is placed at the token of the cursor, the tokens before that token are viable, and, if
    it is not the end of the input, those up to it are not, and all tokens that begin with them are
    refused with the same error. At the end of the input, the tokens before it are no program. With
    a token of the kind that was expected, the tokens before the error are viable, unless a closing
    brace was expected where a statement lacks its semicolon: then they are with the semicolon and
    the brace, and not with the brace alone. Only the end of the input is unexpected as such. -/
theorem error_at_first_wrong_token {last : Token} (isLast : tokens.getLast? = some last)
    (ends : last.kind = .endOfInput) (failed : program (.ofTokens tokens) = .error e c)
    (enough : ∀ found, e ≠ .tooDeep found) :
    parse tokens = .error e ∧
    tokens[c.index]? = some c.current ∧
    e.notice.place = some (.ofPosition c.current.start) ∧
    Viable (tokens.take c.index) ∧
    (c.current.kind ≠ .endOfInput →
      ¬ Viable (tokens.take (c.index + 1)) ∧
      ∀ others, tokens.take (c.index + 1) <+: others → parse others = .error e) ∧
    (c.current.kind = .endOfInput → ∀ tree, ¬ Program (tokens.take c.index) tree) ∧
    (∀ kind found t, e = .expected kind found → t.kind = kind →
      (Viable (tokens.take c.index ++ [t]) ↔
        (kind = .closeBrace → AdmitsBrace (tokens.take c.index)))) ∧
    (∀ found s t, e = .expected .closeBrace found → s.kind = .semicolon → t.kind = .closeBrace →
      Viable (tokens.take c.index ++ [s, t])) ∧
    (∀ found, e = .unexpectedEnd found → c.current.kind = .endOfInput) := by
  obtain ⟨ts, moved, blames, awaited⟩ := program_passes failed enough
  have index : c.index = ts.length := by
    rw [moved.index, Cursor.ofTokens_index, Nat.zero_add]
  have whole : tokens = ts ++ c.current :: c.after := by
    rw [← moved.tokens_eq, Cursor.ofTokens_tokens]
    obtain ⟨front, rfl⟩ := List.getLast?_eq_some_iff.mp isLast
    exact (Cursor.close_of_end ends).symm
  have before : tokens.take c.index = ts := by rw [whole, index, List.take_left]
  have upTo : tokens.take (c.index + 1) = ts ++ [c.current] := by
    rw [whole, index, List.take_length_add_append]
    rfl
  rw [before, upTo]
  refine ⟨parse_of_program_error failed, ?_, ?_, awaited.viable, fun _ => ⟨?_, ?_⟩,
    not_program failed enough moved, ?_, awaited.brace, ?_⟩
  · rw [whole, index]
    simp
  · cases blames <;> rfl
  · exact not_viable failed enough moved
  · intro others front
    exact parse_again failed enough moved front
  · intro kind found t expected same
    refine ⟨fun viable closes => viable.admitsBrace (same.trans closes), ?_⟩
    exact awaited.expected kind found t expected same
  · rintro _ rfl
    cases blames with
    | unexpectedEnd ends => exact ends

/-- A print statement that is not closed: the semicolon comes where the parenthesis should. -/
theorem error_at_first_wrong_token_unclosed :
    let tokens := [.kwPrint, .openParen, .number, .semicolon, .endOfInput].map sample
    ∃ c, program (.ofTokens tokens) = .error (.expected .closeParen (sample .semicolon)) c ∧
      c.index = 3 ∧ ¬ Viable (tokens.take 4) ∧ Viable (tokens.take 3 ++ [sample .closeParen]) := by
  intro tokens
  have failed : program (.ofTokens tokens) = .error (.expected .closeParen (sample .semicolon))
      ⟨[.number, .openParen, .kwPrint].map sample, sample .semicolon, [sample .endOfInput]⟩ := rfl
  have isLast : tokens.getLast? = some (sample .endOfInput) := rfl
  obtain ⟨-, -, -, -, wrong, -, expected, -⟩ :=
    error_at_first_wrong_token isLast rfl failed (by simp)
  exact ⟨_, failed, rfl, (wrong (by decide)).1,
    (expected _ _ (sample .closeParen) rfl rfl).mpr (by simp)⟩

/-- A brace is expected at the end of an input that ends in a block, but no program begins with
    these tokens and the brace: the statement before it lacks its semicolon. -/
theorem not_viable_unfinished_block :
    let tokens :=
      [.kwIf, .openParen, .number, .closeParen, .openBrace, .identifier, .endOfInput].map sample
    ∃ c, program (.ofTokens tokens) = .error (.expected .closeBrace (sample .endOfInput)) c ∧
      ¬ Viable (tokens.take c.index ++ [sample .closeBrace]) := by
  intro tokens
  refine ⟨⟨(tokens.take 6).reverse, sample .endOfInput, []⟩, rfl, fun viable => ?_⟩
  obtain ⟨last, isLast, admitted⟩ := viable.admitsBrace rfl
  obtain rfl : sample .identifier = last := Option.some.inj isLast
  simp [sample] at admitted

end Programs

end Grammar

end BraceScript
