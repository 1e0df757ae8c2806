import BraceScript.Proofs.Grammar.Moves

/-!
# What the rules read

Every rule that succeeds on a closed cursor has passed tokens that are a phrase of the grammar, and
gives the tree of that phrase. The rules call one another with less room, so that the induction is
on the room: `SoundRules room` is what is known of all rules at once, and there is a lemma for each
rule that takes it from one room to the next. The two repetitions are inductions on their rounds.
-/

namespace BraceScript.Grammar

open Outcome Phrase

variable {room : Nat} {c c' : Cursor}

/-- What a rule with a tree promises: where it succeeds it has passed tokens that, with the tree and
    the cursor after them, are as `phrase` says. -/
def Gives {α : Type} (rule : ParseM α) (phrase : List Token → α → Cursor → Prop) : Prop :=
  ∀ {c a c'}, c.Closed → rule c = .ok a c' → ∃ ts, c.Passes ts c' ∧ phrase ts a c'

/-- The promises of all the rules at a room. -/
structure SoundRules (room : Nat) : Prop where
  statements : ∀ stop, Gives (statements room stop) fun ts ns c' =>
    Statements c'.atEnd ts ns ∧ (c'.current.kind = stop ∨ c'.current.kind = .endOfInput)
  statement : Gives (statement room) fun ts n c' => Statement c'.atEnd ts n
  declaration : Gives (declaration room) fun ts n c' => Statement c'.atEnd ts n
  printStatement : Gives (printStatement room) fun ts n c' => Statement c'.atEnd ts n
  conditional : Gives (conditional room) fun ts n c' => Statement c'.atEnd ts n
  loop : Gives (loop room) fun ts n c' => Statement c'.atEnd ts n
  condition : Gives (condition room) fun ts n _ => Parenthesized ts n
  block : Gives (block room) fun ts n _ => Block ts n
  expression : Gives (expression room) fun ts n c' => Expression 1 ts n ∧ c'.OperatorBelow 1
  binary : ∀ least, least ≤ 7 →
    Gives (binary room least) fun ts n c' => Expression least ts n ∧ c'.OperatorBelow least
  unary : Gives (unary room) fun ts n _ => Expression 7 ts n
  primary : Gives (primary room) fun ts n _ => Expression 8 ts n

/-! ## Operators at a cursor -/

theorem operatorBelow_of_none {level : Nat} (none : c.current.kind.level? = none) :
    c.OperatorBelow level := by
  intro found isFound
  simp [none] at isFound

theorem operatorBelow_of_some {found level : Nat} (isLevel : c.current.kind.level? = some found)
    (below : found < level) : c.OperatorBelow level := by
  intro other isOther
  rw [isLevel] at isOther
  obtain ⟨rfl⟩ := isOther
  exact below

theorem kind_ne_end_of_level {kind : Kind} {level : Nat} (isLevel : kind.level? = some level) :
    kind ≠ .endOfInput := by
  rintro rfl
  simp [Kind.level?] at isLevel

theorem kind_ne_end_of_isUnary {kind : Kind} (operator : kind.isUnary = true) :
    kind ≠ .endOfInput := by
  rintro rfl
  simp [Kind.isUnary] at operator

theorem kind_ne_end_of_isAtom {kind : Kind} (atom : kind.isAtom = true) : kind ≠ .endOfInput := by
  rintro rfl
  simp [Kind.isAtom] at atom

/-- An operator that a climb takes. -/
theorem exists_operator {least : Nat} (loose : ¬ c.OperatorBelow least) :
    ∃ level, c.current.kind.level? = some level ∧ ¬ level < least := by
  simpa [Cursor.OperatorBelow] using loose

theorem operatorBelow_of_le {level : Nat} (bound : 7 ≤ level) : c.OperatorBelow level := by
  intro found isFound
  have range := level_range isFound
  omega

/-! ## Repetitions -/

theorem atEnd_false_of_passes {t : Token} {ts : List Token} (moved : c.Passes (t :: ts) c') :
    c.atEnd = false := by
  cases moved with
  | move inside => simpa [Cursor.atEnd] using inside

/-- The flag of the first statement of a list, by the cursor after it and the one after the list. -/
theorem atEnd_of_passes {us : List Token} (moved : c.Passes us c') :
    (c'.atEnd && us.isEmpty) = c.atEnd := by
  cases us with
  | nil => simp [moved.eq_of_nil]
  | cons t us => simp [atEnd_false_of_passes moved]

theorem statementsUpTo_sound {stop : Kind} {rule : ParseM Node}
    (sound : Gives rule fun ts n c' => Statement c'.atEnd ts n) (rounds : List Token)
    {c : Cursor} {ns : List Node} {c' : Cursor} (closed : c.Closed)
    (enough : c.after.length ≤ rounds.length)
    (done : statementsUpTo stop rule rounds c = .ok ns c') :
    ∃ ts, c.Passes ts c' ∧ Statements c'.atEnd ts ns ∧
      (c'.current.kind = stop ∨ c'.current.kind = .endOfInput) := by
  induction rounds generalizing c ns with
  | nil =>
    have none : c.after = [] := by simpa using enough
    obtain ⟨rfl, rfl⟩ := pure_eq_ok.mp done
    exact ⟨[], .stay c, .nil, .inr (closed.kind_of_after_nil none)⟩
  | cons _ rounds ih =>
    rw [statementsUpTo, bind_ok (check_run _ c)] at done
    by_cases stops : c.current.kind = stop ∨ c.current.kind = .endOfInput
    · rw [if_pos (by simpa using stops)] at done
      obtain ⟨rfl, rfl⟩ := pure_eq_ok.mp done
      exact ⟨[], .stay c, .nil, stops⟩
    · rw [if_neg (by simpa using stops)] at done
      have inside : c.current.kind ≠ .endOfInput := fun ends => stops (.inr ends)
      have step := passes_next closed inside
      have shorter := step.length_after
      simp only [List.length_cons, List.length_nil] at shorter enough
      have accepted := accept_run [.semicolon] c
      by_cases semicolon : c.current.kind = .semicolon
      · rw [if_pos (by simp [semicolon])] at accepted
        rw [bind_ok accepted, if_pos rfl] at done
        obtain ⟨ts, passed, phrase, there⟩ := ih closed.next (by omega) done
        exact ⟨_, step.cons passed, .empty semicolon phrase, there⟩
      · rw [if_neg (by simp [semicolon])] at accepted
        rw [bind_ok accepted, if_neg (by simp)] at done
        simp only [bind_eq_ok, pure_eq_ok] at done
        obtain ⟨n, mid, first, ns, _, rest, rfl, rfl⟩ := done
        obtain ⟨ts, passed, phrase⟩ := sound closed first
        obtain ⟨t, ts, rfl, -⟩ := phrase.first
        have shorter := passed.length_after
        rw [List.length_cons] at shorter
        obtain ⟨us, moved, list, there⟩ := ih (passed.closed closed) (by omega) rest
        rw [← atEnd_of_passes moved] at phrase
        exact ⟨_, passed.append moved, .cons phrase list, there⟩

/-- Folding operators to the left. The tree read so far is of a level at least as loose as that of
    the operator at the cursor, which makes it a left operand of that operator. -/
theorem climb_sound {least : Nat} {operand : Nat → ParseM Node}
    (sound : ∀ level, level ≤ 7 → Gives (operand level) fun ts n c' =>
      Expression level ts n ∧ c'.OperatorBelow level)
    (rounds : List Token) {c : Cursor} {n : Node} {c' : Cursor} {level : Nat} {left : Node}
    {ls : List Token} (closed : c.Closed) (enough : c.after.length ≤ rounds.length)
    (phrase : Expression level ls left) (least_le : least ≤ level)
    (below : c.OperatorBelow (level + 1)) (done : climb least operand rounds left c = .ok n c') :
    ∃ ts, c.Passes ts c' ∧ Expression least (ls ++ ts) n ∧ c'.OperatorBelow least := by
  induction rounds generalizing c level left ls with
  | nil =>
    have none : c.after = [] := by simpa using enough
    have ends := closed.kind_of_after_nil none
    obtain ⟨rfl, rfl⟩ := pure_eq_ok.mp done
    exact ⟨[], .stay c, by simpa using phrase.loosen least_le,
      operatorBelow_of_none (by simp [ends, Kind.level?])⟩
  | cons _ rounds ih =>
    rw [climb, bind_ok (current_run c)] at done
    cases isLevel : c.current.kind.level? with
    | none =>
      rw [isLevel] at done
      obtain ⟨rfl, rfl⟩ := pure_eq_ok.mp done
      exact ⟨[], .stay c, by simpa using phrase.loosen least_le, operatorBelow_of_none isLevel⟩
    | some found =>
      simp only [isLevel] at done
      by_cases looser : found < least
      · rw [if_pos looser] at done
        obtain ⟨rfl, rfl⟩ := pure_eq_ok.mp done
        exact ⟨[], .stay c, by simpa using phrase.loosen least_le,
          operatorBelow_of_some isLevel looser⟩
      · rw [if_neg looser, bind_ok (advance_run c)] at done
        simp only [bind_eq_ok] at done
        obtain ⟨right, mid, second, rest⟩ := done
        have operator : c.current.kind ∈ operatorsAt found := mem_operatorsAt_iff.mpr isLevel
        have found_le : found ≤ 6 := (level_range isLevel).2
        have step := passes_next closed (kind_ne_end_of_level isLevel)
        obtain ⟨rs, passed, operandPhrase, operandBelow⟩ :=
          sound (found + 1) (by omega) closed.next second
        have shorter := (step.cons passed).length_after
        simp only [List.length_cons] at shorter enough
        -- `found` is not tighter than what was read before it, and not looser than `least`.
        have joined : Expression found (ls ++ c.current :: rs)
            (.branch .binary [left, leafOf c.current, right]) :=
          .binary operator (phrase.loosen (Nat.lt_succ_iff.mp (below found isLevel))) operandPhrase
        obtain ⟨ts, moved, whole, there⟩ :=
          ih (passed.closed closed.next) (by omega) joined (by omega) operandBelow rest
        refine ⟨c.current :: (rs ++ ts), step.cons (passed.append moved), ?_, there⟩
        simpa using whole

/-! ## Rules -/

theorem primary_sound (sound : SoundRules room) :
    Gives (primary (room + 1)) fun ts n _ => Expression 8 ts n := by
  intro c n c' closed done
  rw [primary_run] at done
  split at done
  · next atom =>
    obtain ⟨rfl, rfl⟩ := EStateM.Result.ok.inj done
    exact ⟨_, passes_next closed (kind_ne_end_of_isAtom atom), .atom (mem_atoms_iff.mpr atom)⟩
  split at done
  · next opens =>
    simp only [bind_eq_ok, discard_eq_ok, pure_eq_ok] at done
    obtain ⟨inner, mid, read, _, _, ⟨closing, taken⟩, rfl, rfl⟩ := done
    obtain ⟨ts, passed, phrase, -⟩ := sound.expression closed.next read
    obtain ⟨closes, last⟩ := expect_passes (passed.closed closed.next) (by decide) taken
    have first := passes_next closed (by simp [opens])
    exact ⟨_, first.cons (passed.append last), .parentheses opens phrase closes⟩
  split at done <;> cases done

theorem unary_sound (sound : SoundRules room) :
    Gives (unary (room + 1)) fun ts n _ => Expression 7 ts n := by
  intro c n c' closed done
  rw [unary_run] at done
  split at done
  · next operator =>
    simp only [bind_eq_ok, pure_eq_ok] at done
    obtain ⟨operand, _, read, rfl, rfl⟩ := done
    obtain ⟨ts, passed, phrase⟩ := sound.unary closed.next read
    exact ⟨_, (passes_next closed (kind_ne_end_of_isUnary operator)).append passed,
      .unary (mem_unaryOperators_iff.mpr operator) phrase⟩
  · obtain ⟨ts, passed, phrase⟩ := sound.primary closed done
    exact ⟨ts, passed, phrase.tighter⟩

theorem binary_sound (sound : SoundRules room) (least : Nat) (bound : least ≤ 7) :
    Gives (binary (room + 1) least) fun ts n c' =>
      Expression least ts n ∧ c'.OperatorBelow least := by
  intro c n c' closed done
  simp only [binary, bind_eq_ok, get_eq_ok] at done
  obtain ⟨left, mid, read, _, _, ⟨rfl, rfl⟩, climbed⟩ := done
  obtain ⟨ls, passed, phrase⟩ := sound.unary closed read
  obtain ⟨ts, moved, whole, there⟩ :=
    climb_sound sound.binary mid.after (passed.closed closed) (Nat.le_refl _) phrase bound
      (operatorBelow_of_le (by decide)) climbed
  exact ⟨_, passed.append moved, whole, there⟩

theorem expression_sound (sound : SoundRules room) :
    Gives (expression (room + 1)) fun ts n c' => Expression 1 ts n ∧ c'.OperatorBelow 1 :=
  fun closed done => sound.binary 1 (by decide) closed done

theorem condition_sound (sound : SoundRules room) :
    Gives (condition (room + 1)) fun ts n _ => Parenthesized ts n := by
  intro c n c' closed done
  simp only [condition, bind_eq_ok, discard_eq_ok, pure_eq_ok] at done
  obtain ⟨_, _, ⟨opening, opened⟩, test, _, read, _, _, ⟨closing, taken⟩, rfl, rfl⟩ := done
  obtain ⟨opens, first⟩ := expect_passes closed (by decide) opened
  obtain ⟨ts, passed, phrase, -⟩ := sound.expression (first.closed closed) read
  obtain ⟨closes, last⟩ := expect_passes (passed.closed (first.closed closed)) (by decide) taken
  exact ⟨_, first.cons (passed.append last), .intro opens phrase closes⟩

theorem block_sound (sound : SoundRules room) :
    Gives (block (room + 1)) fun ts n _ => Block ts n := by
  intro c n c' closed done
  simp only [block, bind_eq_ok, discard_eq_ok, pure_eq_ok] at done
  obtain ⟨_, _, ⟨opening, opened⟩, ns, mid, read, _, _, ⟨closing, taken⟩, rfl, rfl⟩ := done
  obtain ⟨opens, first⟩ := expect_passes closed (by decide) opened
  obtain ⟨ts, passed, phrase, -⟩ := sound.statements .closeBrace (first.closed closed) read
  obtain ⟨closes, last⟩ := expect_passes (passed.closed (first.closed closed)) (by decide) taken
  rw [atEnd_false_of_passes last] at phrase
  exact ⟨_, first.cons (passed.append last), .intro opens phrase closes⟩

theorem declaration_sound (sound : SoundRules room) :
    Gives (declaration (room + 1)) fun ts n c' => Statement c'.atEnd ts n := by
  intro c n c' closed done
  simp only [declaration, bind_eq_ok, discard_eq_ok, pure_eq_ok] at done
  obtain ⟨_, _, ⟨keyword, first⟩, name, _, second, _, _, ⟨sign, third⟩, value, _, read, _, _, ended,
    rfl, rfl⟩ := done
  obtain ⟨isVar, first⟩ := expect_passes closed (by decide) first
  have closed := first.closed closed
  obtain ⟨isName, second⟩ := expect_passes closed (by decide) second
  have closed := second.closed closed
  obtain ⟨isSign, third⟩ := expect_passes closed (by decide) third
  have closed := third.closed closed
  obtain ⟨ts, passed, phrase, -⟩ := sound.expression closed read
  obtain ⟨last, moved, terminated⟩ := terminator_passes (passed.closed closed) ended
  exact ⟨_, first.cons (second.cons (third.cons (passed.append moved))),
    .declaration isVar isName isSign phrase terminated⟩

theorem printStatement_sound (sound : SoundRules room) :
    Gives (printStatement (room + 1)) fun ts n c' => Statement c'.atEnd ts n := by
  intro c n c' closed done
  simp only [printStatement, bind_eq_ok, discard_eq_ok, pure_eq_ok] at done
  obtain ⟨_, _, ⟨keyword, first⟩, _, _, ⟨opening, second⟩, value, _, read, _, _, ⟨closing, third⟩,
    _, _, ended, rfl, rfl⟩ := done
  obtain ⟨isPrint, first⟩ := expect_passes closed (by decide) first
  have closed := first.closed closed
  obtain ⟨opens, second⟩ := expect_passes closed (by decide) second
  have closed := second.closed closed
  obtain ⟨ts, passed, phrase, -⟩ := sound.expression closed read
  have closed := passed.closed closed
  obtain ⟨closes, third⟩ := expect_passes closed (by decide) third
  obtain ⟨last, moved, terminated⟩ := terminator_passes (third.closed closed) ended
  exact ⟨_, first.cons ((second.cons (passed.append third)).append moved),
    .print isPrint (.intro opens phrase closes) terminated⟩

theorem conditional_sound (sound : SoundRules room) :
    Gives (conditional (room + 1)) fun ts n c' => Statement c'.atEnd ts n := by
  intro c n c' closed done
  simp only [conditional, bind_eq_ok, discard_eq_ok] at done
  obtain ⟨_, _, ⟨keyword, first⟩, test, _, tested, body, mid, read, found, _, accepted, done⟩ :=
    done
  obtain ⟨isIf, first⟩ := expect_passes closed (by decide) first
  have closed := first.closed closed
  obtain ⟨ts, passed, condition⟩ := sound.condition closed tested
  have closed := passed.closed closed
  obtain ⟨us, moved, bodyPhrase⟩ := sound.block closed read
  have closed := moved.closed closed
  rw [accept_run] at accepted
  by_cases other : mid.current.kind = .kwElse
  · rw [if_pos (by simp [other])] at accepted
    obtain ⟨rfl, rfl⟩ := EStateM.Result.ok.inj accepted
    simp only [if_pos, bind_eq_ok, pure_eq_ok] at done
    obtain ⟨alternative, _, read, rfl, rfl⟩ := done
    have step := passes_next closed (by simp [other])
    obtain ⟨vs, last, alternativePhrase⟩ := sound.block closed.next read
    exact ⟨_, first.cons (passed.append (moved.append (step.cons last))),
      .alternative isIf condition bodyPhrase other alternativePhrase⟩
  · rw [if_neg (by simp [other])] at accepted
    obtain ⟨rfl, rfl⟩ := EStateM.Result.ok.inj accepted
    obtain ⟨rfl, rfl⟩ := pure_eq_ok.mp done
    exact ⟨_, first.cons (passed.append moved), .conditional isIf condition bodyPhrase⟩

theorem loop_sound (sound : SoundRules room) :
    Gives (loop (room + 1)) fun ts n c' => Statement c'.atEnd ts n := by
  intro c n c' closed done
  simp only [loop, bind_eq_ok, discard_eq_ok, pure_eq_ok] at done
  obtain ⟨_, _, ⟨keyword, first⟩, test, _, tested, body, _, read, rfl, rfl⟩ := done
  obtain ⟨isWhile, first⟩ := expect_passes closed (by decide) first
  have closed := first.closed closed
  obtain ⟨ts, passed, condition⟩ := sound.condition closed tested
  obtain ⟨us, moved, bodyPhrase⟩ := sound.block (passed.closed closed) read
  exact ⟨_, first.cons (passed.append moved), .loop isWhile condition bodyPhrase⟩

theorem statement_sound (sound : SoundRules room) :
    Gives (statement (room + 1)) fun ts n c' => Statement c'.atEnd ts n := by
  intro c n c' closed done
  rw [statement_run] at done
  split at done
  · exact sound.declaration closed done
  split at done
  · exact sound.printStatement closed done
  split at done
  · exact sound.conditional closed done
  split at done
  · exact sound.loop closed done
  split at done
  · simp at done
  split at done
  · simp at done
  split at done
  · next assigns =>
    obtain ⟨isName, isSign⟩ := assigns
    have first := passes_next closed (by simp [isName])
    have closed := closed.next
    rw [following_eq (by cases first; assumption)] at isSign
    have second := passes_next closed (by simp [isSign])
    simp only [bind_eq_ok, pure_eq_ok] at done
    obtain ⟨value, _, read, _, _, ended, rfl, rfl⟩ := done
    obtain ⟨ts, passed, phrase, -⟩ := sound.expression closed.next read
    obtain ⟨last, moved, terminated⟩ := terminator_passes (passed.closed closed.next) ended
    exact ⟨_, first.cons (second.cons (passed.append moved)),
      .assignment isName isSign phrase terminated⟩
  · simp only [bind_eq_ok, pure_eq_ok] at done
    obtain ⟨value, _, read, _, _, ended, rfl, rfl⟩ := done
    obtain ⟨ts, passed, phrase, -⟩ := sound.expression closed read
    obtain ⟨last, moved, terminated⟩ := terminator_passes (passed.closed closed) ended
    exact ⟨_, passed.append moved, .expression phrase terminated⟩

theorem statements_sound (sound : SoundRules room) (stop : Kind) :
    Gives (statements (room + 1) stop) fun ts ns c' =>
      Statements c'.atEnd ts ns ∧ (c'.current.kind = stop ∨ c'.current.kind = .endOfInput) := by
  intro c ns c' closed done
  rw [statements, bind_eq_ok] at done
  obtain ⟨_, _, got, read⟩ := done
  obtain ⟨rfl, rfl⟩ := get_eq_ok.mp got
  exact statementsUpTo_sound sound.statement _ closed (Nat.le_refl _) read

/-- Every rule keeps its promise, whatever room it is given. -/
theorem soundRules (room : Nat) : SoundRules room := by
  induction room with
  | zero =>
    constructor <;> intros <;> intro c a c' _ done <;> exact (throw_eq_ok.mp done).elim
  | succ room sound =>
    exact {
      statements := statements_sound sound
      statement := statement_sound sound
      declaration := declaration_sound sound
      printStatement := printStatement_sound sound
      conditional := conditional_sound sound
      loop := loop_sound sound
      condition := condition_sound sound
      block := block_sound sound
      expression := expression_sound sound
      binary := binary_sound sound
      unary := unary_sound sound
      primary := primary_sound sound }

/-- The tree of a parse is one that the tokens before the end of the input stand for. -/
theorem program_of_parse {tokens : List Token} {tree : Node} (done : parse tokens = .ok tree) :
    Program (beforeEnd tokens) tree := by
  unfold parse program at done
  split at done
  · next found there read =>
    obtain ⟨rfl⟩ := done
    simp only [bind_eq_ok, pure_eq_ok] at read
    obtain ⟨ns, c', read, rfl, rfl⟩ := read
    have closed := Cursor.ofTokens_closed tokens
    obtain ⟨ts, passed, phrase, there⟩ := (soundRules depthLimit).statements _ closed read
    have ends : c'.current.kind = .endOfInput := by simpa using there
    have whole := passed.eq_beforeEnd ends
    rw [Cursor.ofTokens_tokens, Cursor.beforeEnd_close] at whole
    have atEnd : c'.atEnd = true := by simp [Cursor.atEnd, ends]
    rw [atEnd, whole] at phrase
    exact .intro phrase
  · simp at done

end BraceScript.Grammar
