import BraceScript.Grammar.Call
import BraceScript.Proofs.Grammar.Progress

/-!
# Cursors after any calls

The rules and the actions on single tokens can be called in any order, also after calls that failed.
Whatever is called, the cursor goes *onward*: it stays among the same tokens and does not go back.
An action on a single token can leave an end of the input behind, if it is not the last token, but a
rule never does, and most rules take a token wherever they succeed.

This is why parsing ends on all tokens. No loop needs more rounds than there are tokens, no rule
more room than a multiple of them, and what comes after the first end of the input is never seen.
-/

namespace BraceScript

open Outcome

namespace Cursor

variable {c c' c'' : Cursor} {ts : List Token}

/-- The second cursor is among the same tokens, and not before the first one. -/
structure Onward (c c' : Cursor) : Prop where
  tokens : c'.tokens = c.tokens
  index : c.index ≤ c'.index

theorem Onward.refl (c : Cursor) : c.Onward c := ⟨rfl, Nat.le_refl _⟩

theorem Onward.trans (first : c.Onward c') (second : c'.Onward c'') : c.Onward c'' :=
  ⟨second.tokens.trans first.tokens, Nat.le_trans first.index second.index⟩

theorem onward_next (c : Cursor) : c.Onward c.next := by
  unfold next
  split
  · exact .refl c
  · next token rest split => exact ⟨by simp [tokens, split], Nat.le_succ _⟩

theorem Passes.onward (moved : c.Passes ts c') : c.Onward c' := by
  induction moved with
  | stay => exact .refl _
  | move _ _ _ ih => exact (onward_next _).trans ih

/-- The tokens passed are those from the place of the first cursor to that of the second. -/
theorem Passes.between (moved : c.Passes ts c') :
    (c.tokens.take c'.index).drop c.index = ts := by
  have whole : c.tokens = (c.before.reverse ++ ts) ++ c'.current :: c'.after := by
    rw [Cursor.tokens, moved.tokens_eq, List.append_assoc]
  have front : c'.index = (c.before.reverse ++ ts).length := by
    rw [moved.index, List.length_append, List.length_reverse, Cursor.index]
  have back : c.index = c.before.reverse.length := by rw [List.length_reverse, Cursor.index]
  rw [whole, front, List.take_left, back, List.drop_left]

/-- A cursor is at the token of its place. -/
theorem getElem?_tokens (c : Cursor) : c.tokens[c.index]? = some c.current := by
  simp [tokens, index]

theorem index_lt (c : Cursor) : c.index < c.tokens.length := by
  simp [tokens, index]

theorem tokens_ofTokens (tokens : List Token) : (ofTokens tokens).tokens = close tokens := by
  have none : (ofTokens tokens).before = [] :=
    List.eq_nil_of_length_eq_zero (ofTokens_index tokens)
  rw [Cursor.tokens, none, ofTokens_tokens, List.reverse_nil, List.nil_append]

end Cursor

namespace Phrase

variable {ts : List Token} {n : Node}

theorem Expression.ne_nil {level : Nat} (phrase : Expression level ts n) : ts ≠ [] := by
  obtain ⟨t, rest, rfl, -⟩ := phrase.first
  exact List.cons_ne_nil t rest

theorem Statement.ne_nil {atEnd : Bool} (phrase : Statement atEnd ts n) : ts ≠ [] := by
  obtain ⟨t, rest, rfl, -⟩ := phrase.first
  exact List.cons_ne_nil t rest

end Phrase

namespace Grammar

open Phrase

/-! ## Calls -/

/-- The cursor after calls. -/
def replay (c : Cursor) (calls : List Call) : Cursor :=
  calls.foldl (fun c request => (call c request).2) c

/-- The calls of rules that need a token. -/
def Call.reads : Call → Bool
  | .statement | .declaration | .printStatement | .conditional | .loop | .condition | .block
  | .expression | .binary _ | .unary | .primary => true
  | _ => false

section Calls

variable {α β : Type} {fits : Prop} {rule : ParseM α} {phrase : List Token → α → Cursor → Prop}
  {c c' : Cursor} {request : Call}

theorem exists_ending (rule : ParseM α) (c : Cursor) : ∃ o c', rule c = ending o c' := by
  cases rule c with
  | ok a c' => exact ⟨.ok a, c', rfl⟩
  | error e c' => exact ⟨.error e, c', rfl⟩

theorem reply_of_ending {o : Except ParseError α} (ended : rule c = ending o c')
    (wrap : α → Reply) : reply rule wrap c = ((o.map wrap).mapError .parse, c') := by
  rw [reply, ended]
  cases o <;> rfl

/-- What a call does: the cursor goes onward, and a parse error blames the token that it comes to,
    unless the call had too little room. -/
structure Answers (c : Cursor) (result : Except CallError Reply × Cursor) : Prop where
  onward : c.Onward result.2
  blames : ∀ e, result.1 = .error (.parse e) →
    e.Blames result.2.current ∨ e = .tooDeep result.2.current

theorem Advances.answers (advances : Advances fits rule c) (closed : c.Closed)
    (wrap : α → Reply) : Answers c (reply rule wrap c) := by
  obtain ⟨o, c', ended⟩ := exists_ending rule c
  obtain ⟨⟨ts, moved⟩, blames⟩ := advances closed o c' ended
  rw [reply_of_ending ended]
  refine ⟨moved.onward, fun e failed => ?_⟩
  cases o with
  | ok a => cases failed
  | error e =>
    cases failed
    exact (blames e rfl).imp_right And.left

/-- What an action that takes at most one token does. -/
theorem answers_of_run {a : α} (run : rule c = .ok a c') (onward : c.Onward c')
    (wrap : α → Reply) : Answers c (reply rule wrap c) := by
  rw [reply, run]
  exact ⟨onward, fun _ failed => by cases failed⟩

theorem program_advances (c : Cursor) :
    Advances (4 * c.after.length + 6 ≤ depthLimit) program c :=
  ((advancingRules depthLimit).statements _ c).bind fun _ _ _ => .value _

theorem call_answers (closed : c.Closed) (request : Call) : Answers c (call c request) := by
  have rules := advancingRules depthLimit
  cases request with
  | peek offset =>
    rw [call]
    split <;> exact ⟨.refl c, fun _ failed => by cases failed⟩
  | advance => exact answers_of_run (advance_run c) (Cursor.onward_next c) _
  | check kinds => exact answers_of_run (check_run kinds c) (.refl c) _
  | accept kinds =>
    have run := accept_run kinds c
    split at run
    · exact answers_of_run run (Cursor.onward_next c) _
    · exact answers_of_run run (.refl c) _
  | expect kind =>
    have run := expect_run kind c
    split at run
    · exact answers_of_run run (Cursor.onward_next c) _
    · rw [call, reply, run]
      exact ⟨.refl c, fun _ failed => by cases failed; exact .inl (.expected kind _)⟩
  | program => exact (program_advances c).answers closed _
  | statements stop => exact (rules.statements stop c).answers closed _
  | statement => exact (rules.statement c).answers closed _
  | terminator =>
    have advances : Advances True terminator c := .terminator
    exact advances.answers closed _
  | declaration => exact (rules.declaration c).answers closed _
  | printStatement => exact (rules.printStatement c).answers closed _
  | conditional => exact (rules.conditional c).answers closed _
  | loop => exact (rules.loop c).answers closed _
  | condition => exact (rules.condition c).answers closed _
  | block => exact (rules.block c).answers closed _
  | expression => exact (rules.expression c).answers closed _
  | binary least => exact (rules.binary least.toNat c).answers closed _
  | unary => exact (rules.unary c).answers closed _
  | primary => exact (rules.primary c).answers closed _

/-- A history of calls goes onward. -/
theorem replay_onward {tokens : List Token} (whole : c.tokens = Cursor.close tokens)
    (calls : List Call) : c.Onward (replay c calls) := by
  induction calls generalizing c with
  | nil => exact .refl c
  | cons request calls ih =>
    have first := (call_answers (Cursor.closed_of_tokens whole) request).onward
    exact first.trans (ih (first.tokens.trans whole))

/-! ## Tokens that are taken -/

/-- A rule takes a token wherever it succeeds. -/
def Reads (rule : ParseM α) : Prop :=
  ∀ c a c', c.Closed → rule c = .ok a c' → ∃ ts, c.Passes ts c' ∧ ts ≠ []

theorem Gives.reads (gives : Gives rule phrase)
    (nonempty : ∀ {ts a c'}, phrase ts a c' → ts ≠ []) : Reads rule := by
  intro c a c' closed done
  obtain ⟨ts, moved, whole⟩ := gives closed done
  exact ⟨ts, moved, nonempty whole⟩

/-- The rule for operators takes a token, also with a least level that no operator has. -/
theorem binary_reads (room least : Nat) : Reads (binary room least) := by
  intro c n c' closed done
  cases room with
  | zero => exact (throw_eq_ok.mp done).elim
  | succ room =>
    obtain ⟨left, mid, read, rest⟩ := bind_eq_ok.mp done
    obtain ⟨ts, moved, phrase⟩ := (soundRules room).unary closed read
    obtain ⟨us, onward⟩ := (climbing_shortSighted (shortSightedExpressions room).binary left
      mid).passes (moved.closed closed) rest
    exact ⟨ts ++ us, moved.append onward, List.append_ne_nil_of_left_ne_nil phrase.ne_nil us⟩

/-- What a call has that takes some tokens where it succeeds, and never the end of the input. -/
def Taken (c : Cursor) (result : Except CallError Reply × Cursor) : Prop :=
  ∀ answer, result.1 = .ok answer → c.index < result.2.index ∧
    ∀ t ∈ (c.tokens.take result.2.index).drop c.index, t.kind ≠ .endOfInput

theorem Reads.taken (reads : Reads rule) (closed : c.Closed) (wrap : α → Reply) :
    Taken c (reply rule wrap c) := by
  obtain ⟨o, c', ended⟩ := exists_ending rule c
  rw [reply_of_ending ended]
  intro answer done
  cases o with
  | error e => cases done
  | ok a =>
    obtain ⟨ts, moved, some⟩ := reads c a c' closed ended
    have length := List.length_pos_iff.mpr some
    refine ⟨?_, ?_⟩
    · rw [moved.index]
      omega
    · rw [moved.between]
      exact moved.kind_ne_end

/-- A call that needs a token takes some where it succeeds, and never the end of the input. -/
theorem call_takes (closed : c.Closed) (reads : request.reads) : Taken c (call c request) := by
  have rules := soundRules depthLimit
  cases request with
  | statement => exact (Gives.reads rules.statement Statement.ne_nil).taken closed _
  | declaration => exact (Gives.reads rules.declaration Statement.ne_nil).taken closed _
  | printStatement => exact (Gives.reads rules.printStatement Statement.ne_nil).taken closed _
  | conditional => exact (Gives.reads rules.conditional Statement.ne_nil).taken closed _
  | loop => exact (Gives.reads rules.loop Statement.ne_nil).taken closed _
  | condition =>
    exact (Gives.reads rules.condition fun phrase => by cases phrase; simp).taken closed _
  | block => exact (Gives.reads rules.block fun phrase => by cases phrase; simp).taken closed _
  | expression => exact (Gives.reads rules.expression fun phrase => phrase.1.ne_nil).taken closed _
  | binary least => exact (binary_reads depthLimit least.toNat).taken closed _
  | unary => exact (Gives.reads rules.unary Expression.ne_nil).taken closed _
  | primary => exact (Gives.reads rules.primary Expression.ne_nil).taken closed _
  | _ => cases reads

end Calls

/-! ## Parsing ends -/

section Programs

variable {tokens front rest others : List Token} {last : Token} {c' : Cursor}

/-- Parsing does not go past the first end of the input, and reaches it where it succeeds. -/
theorem program_index {o : Except ParseError Node}
    (ended : program (.ofTokens tokens) = ending o c') :
    c'.index ≤ (beforeEnd tokens).length ∧
      ∀ tree, o = .ok tree → c'.index = (beforeEnd tokens).length := by
  have closed := Cursor.ofTokens_closed tokens
  obtain ⟨⟨ts, moved⟩, -⟩ := program_advances _ closed o c' ended
  have index : c'.index = ts.length := by rw [moved.index, Cursor.ofTokens_index, Nat.zero_add]
  have whole := Cursor.beforeEnd_close tokens
  rw [← Cursor.ofTokens_tokens, moved.tokens_eq, beforeEnd, List.takeWhile_append_of_pos
    (by simpa using moved.kind_ne_end)] at whole
  refine ⟨?_, ?_⟩
  · rw [index, ← whole, List.length_append]
    exact Nat.le_add_right _ _
  · rintro tree rfl
    obtain ⟨ns, mid, read, rest⟩ := bind_eq_ok.mp ended
    obtain ⟨-, rfl⟩ := pure_eq_ok.mp rest
    obtain ⟨-, -, -, stopped⟩ := (soundRules depthLimit).statements _ closed read
    have ends : mid.current.kind = .endOfInput := by simpa using stopped
    simp [index, ← whole, ends]

/-- Where the end of the input comes after some tokens, parsing ends there or before it. -/
theorem passes_front (ends : last.kind = .endOfInput) {ts : List Token}
    (moved : (Cursor.ofTokens (front ++ last :: rest)).Passes ts c') :
    ts ++ [c'.current] <+: front ++ [last] := by
  obtain ⟨more, whole⟩ := Cursor.close_front front last rest
  rw [List.append_assoc, List.singleton_append, ← Cursor.ofTokens_tokens, moved.tokens_eq] at whole
  have shared : ts ++ [c'.current] <+: front ++ last :: more := ⟨c'.after, by simpa using whole⟩
  have given : front ++ [last] <+: front ++ last :: more := ⟨more, by simp⟩
  refine List.prefix_of_prefix_length_le shared given ?_
  by_contra longer
  simp only [List.length_append, List.length_cons, List.length_nil] at longer
  have passed : front ++ [last] <+: ts := by
    refine List.prefix_of_prefix_length_le given ⟨c'.current :: c'.after, whole⟩ ?_
    simp only [List.length_append, List.length_cons, List.length_nil]
    omega
  exact moved.kind_ne_end last (passed.subset (by simp)) ends

/-- What comes after an end of the input makes no difference. -/
theorem parse_after_end (ends : last.kind = .endOfInput) (rest more : List Token) :
    parse (front ++ last :: rest) = parse (front ++ last :: more) := by
  obtain ⟨o, c', ended⟩ := exists_ending program (.ofTokens (front ++ last :: more))
  obtain ⟨⟨ts, moved⟩, -⟩ := program_advances _ (Cursor.ofTokens_closed _) o c' ended
  obtain ⟨between, seen⟩ := passes_front ends moved
  obtain ⟨rest', whole⟩ := Cursor.close_front front last rest
  obtain ⟨more', whole'⟩ := Cursor.close_front front last more
  simp only [List.append_assoc, List.cons_append, List.nil_append] at seen whole whole'
  have after : c'.after = between ++ more' := by
    have same : ts ++ c'.current :: c'.after = ts ++ c'.current :: (between ++ more') := by
      rw [← moved.tokens_eq, Cursor.ofTokens_tokens, whole', List.append_cons, ← seen]
      simp
    simpa using same
  rw [parse_of_ending ended]
  have again : Cursor.close (front ++ last :: rest) = ts ++ c'.current :: (between ++ rest') := by
    rw [whole, List.append_cons, ← seen]
    simp
  refine parse_alike ended moved again fun found deep isName => ?_
  -- An identifier is not the end of the input, so that the token after it is before the end too.
  cases between with
  | nil =>
    have same : c'.current = last := by simpa using congrArg List.getLast? seen
    simp [same, ends] at isName
  | cons t between =>
    rw [Cursor.following, after]
    rfl

end Programs

/-- After any calls a cursor is among the tokens that it was made from, at the token of its place,
    and further calls do not take it back. An error that is not for want of room is placed at the
    token that the cursor comes to, and a call of a rule that needs a token goes on by at least one
    where it succeeds, and never past an end of the input. From there, more rounds than there are
    tokens make no difference to a list of statements or to a climb, and no rule needs more room
    than a multiple of the tokens. Parsing from the first token does not go past the first end of
    the input, which it reaches where it succeeds, and is the same whatever comes after an end. -/
theorem cursor_after_calls (tokens : List Token) (calls later : List Call) (request : Call) :
    let all := Cursor.close tokens
    let c := replay (.ofTokens tokens) calls
    let c' := (call c request).2
    (c.tokens = all ∧ c.index < all.length ∧ all[c.index]? = some c.current) ∧
    c.index ≤ (replay c later).index ∧
    (∀ e, (call c request).1 = .error (.parse e) → (∀ found, e ≠ .tooDeep found) →
      e.notice.place = some (.ofPosition c'.current.start)) ∧
    (request.reads → ∀ answer, (call c request).1 = .ok answer →
      c.index < c'.index ∧ ∀ t ∈ (all.take c'.index).drop c.index, t.kind ≠ .endOfInput) ∧
    (∀ room stop rounds, c.after.length ≤ rounds.length →
      statementsUpTo stop (statement room) rounds c = statements (room + 1) stop c) ∧
    (∀ room least rounds left, c.after.length ≤ rounds.length →
      climb least (binary room) rounds left c = climb least (binary room) c.after left c) ∧
    (∀ room stop found there, 4 * c.after.length + 6 ≤ room →
      statements room stop c ≠ .error (.tooDeep found) there) ∧
    (∀ o there, program (.ofTokens tokens) = ending o there →
      there.index ≤ (beforeEnd tokens).length ∧
        ∀ tree, o = .ok tree → there.index = (beforeEnd tokens).length) ∧
    ∀ last more, last.kind = .endOfInput →
      parse (tokens ++ last :: more) = parse (tokens ++ [last]) := by
  intro all c c'
  have start : (Cursor.ofTokens tokens).tokens = all := Cursor.tokens_ofTokens tokens
  have whole : c.tokens = all := (replay_onward start calls).tokens.trans start
  have closed : c.Closed := Cursor.closed_of_tokens whole
  refine ⟨⟨whole, ?_, ?_⟩, (replay_onward whole later).index, ?_, ?_, ?_, ?_, ?_, ?_, ?_⟩
  · rw [← whole]
    exact c.index_lt
  · rw [← whole]
    exact c.getElem?_tokens
  · intro e failed enough
    cases ((call_answers closed request).blames e failed).resolve_right (enough _) <;> rfl
  · intro reads answer done
    rw [← whole]
    exact call_takes closed reads answer done
  · intro room stop rounds enough
    refine Eq.trans ?_ (collecting_run stop (statement room) c).symm
    exact statementsUpTo_rounds (statement_takes room) closed enough (Nat.le_refl _)
  · intro room least rounds left enough
    exact climb_rounds (shortSightedExpressions room).binary closed enough (Nat.le_refl _)
  · intro room stop found there enough
    exact ((advancingRules room).statements stop c).fits closed enough found there
  · exact fun o there ended => program_index ended
  · exact fun last more ends => parse_after_end ends more []

/-- A statement is read and the end of the input after it is passed, and an expression fails at the
    second end, where nothing else can be read. -/
theorem cursor_after_calls_stray_end :
    let tokens := [.number, .semicolon, .endOfInput, .openParen].map sample
    let c := replay (.ofTokens tokens) [.statement, .advance, .expression]
    c = ⟨tokens.reverse, .bareEnd, []⟩ ∧ c.tokens = Cursor.close tokens ∧
      (call c .primary).1 = .error (.parse (.unexpectedEnd .bareEnd)) ∧
      (ParseError.unexpectedEnd .bareEnd).notice.place = some (.ofPosition .nowhere) ∧
      0 < (call (.ofTokens tokens) .statement).2.index ∧
      statements 22 .endOfInput (.ofTokens tokens) = statementsUpTo .endOfInput (statement 21)
        (tokens ++ tokens) (.ofTokens tokens) ∧
      parse (tokens.take 2 ++ sample .endOfInput :: [sample .openParen]) =
        parse (tokens.take 2 ++ [sample .endOfInput]) := by
  intro tokens c
  have there : replay (.ofTokens tokens) [.statement, .advance, .expression] =
      ⟨tokens.reverse, .bareEnd, []⟩ := by decide +kernel
  have failed : (call c .primary).1 = .error (.parse (.unexpectedEnd .bareEnd)) := by
    rw [show c = _ from there]
    rfl
  obtain ⟨⟨whole, -⟩, -, placed, -⟩ :=
    cursor_after_calls tokens [.statement, .advance, .expression] [] .primary
  obtain ⟨-, -, -, taken, loops, -⟩ := cursor_after_calls tokens [] [] .statement
  obtain ⟨-, -, -, -, -, -, -, -, after⟩ := cursor_after_calls (tokens.take 2) [] [] .program
  have place := placed _ failed (by simp)
  rw [there] at place
  refine ⟨there, whole, failed, place, ?_, ?_, after _ _ rfl⟩
  · exact (taken rfl (.node _) rfl).1
  · exact (loops 21 .endOfInput (tokens ++ tokens) (by decide)).symm

end Grammar

end BraceScript
