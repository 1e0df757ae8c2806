import BraceScript.Proofs.Grammar.Completeness

/-!
# How far the rules look

A rule looks no further than the token at which it ends: from any cursor that has the same tokens
up to that one, it ends with the same value or the same error. The one exception is a rule that
gives up at an identifier, since then the statement that starts with it has looked at the token
after it and the expression in it has not: there the token after it must be the same too.

The two repetitions count their rounds by the tokens that are left, which are others from another
cursor. More rounds than tokens make no difference, so that they can be compared all the same.
-/

namespace BraceScript

/-- Cursors that pass the same tokens to the same token start at the same token. -/
theorem Cursor.Passes.current_eq {c c' d d' : Cursor} {ts : List Token} (moved : c.Passes ts c')
    (passed : d.Passes ts d') (there : d'.current = c'.current) : d.current = c.current := by
  cases ts with
  | nil => rw [← moved.eq_of_nil, ← passed.eq_of_nil, there]
  | cons t ts =>
    obtain ⟨_, first, -⟩ := moved.uncons
    obtain ⟨_, first', -⟩ := passed.uncons
    rw [(Grammar.passes_single first).1, (Grammar.passes_single first').1]

theorem Cursor.Passes.after_ne_nil {c c' : Cursor} {t : Token} {ts : List Token}
    (moved : c.Passes (t :: ts) c') : c.after ≠ [] := by
  intro none
  have length := moved.length_after
  rw [none, List.length_nil, List.length_cons] at length
  omega

/-- The tokens between two cursors are determined. -/
theorem Cursor.Passes.unique {c c' : Cursor} {ts us : List Token} (moved : c.Passes ts c')
    (passed : c.Passes us c') : ts = us :=
  List.append_cancel_right (moved.tokens_eq.symm.trans passed.tokens_eq)

namespace Grammar

open Outcome Phrase

/-- Another cursor shows what a rule has seen that ends at a cursor: the same token, and if the rule
    gave up at an identifier, the same token after it. -/
structure Shows {α : Type} (o : Except ParseError α) (c d : Cursor) : Prop where
  current : d.current = c.current
  following : ∀ found, o = .error (.tooDeep found) → c.current.kind = .identifier →
    d.following = c.following

theorem Shows.of_ok {α : Type} {a : α} {c d : Cursor} (same : d.current = c.current) :
    Shows (.ok a : Except ParseError α) c d :=
  ⟨same, fun _ deep => by cases deep⟩

theorem Shows.error {α β : Type} {e : ParseError} {c d : Cursor}
    (shows : Shows (.error e : Except ParseError β) c d) :
    Shows (.error e : Except ParseError α) c d :=
  ⟨shows.current, fun found deep => shows.following found (by cases deep; rfl)⟩

/-- From a closed cursor, a rule looks no further than the token at which it ends. -/
def ShortSighted {α : Type} (rule : ParseM α) (c : Cursor) : Prop :=
  c.Closed → ∀ o c', rule c = ending o c' →
    ∃ ts, c.Passes ts c' ∧ ∀ d d', d.Closed → d.Passes ts d' → Shows o c' d' → rule d = ending o d'

namespace ShortSighted

variable {α β : Type} {x y : ParseM α} {f : α → ParseM β} {c c' : Cursor} {a : α}

/-- An action that ends where it starts, as it does at every cursor with that token. -/
theorem here {o : Except ParseError α} (same : ∀ d, d.current = c.current → x d = ending o d) :
    ShortSighted x c := by
  intro _ o' c' done
  rw [same c rfl] at done
  have ended : o = o' ∧ c = c' := by cases o <;> cases o' <;> simp_all [ending]
  obtain ⟨rfl, rfl⟩ := ended
  refine ⟨[], .stay c, fun d d' _ passed shows => ?_⟩
  obtain rfl := passed.eq_of_nil
  exact same d' shows.current

/-- An action that takes a token, as it does at every cursor with that token. -/
theorem step (inside : c.current.kind ≠ .endOfInput)
    (same : ∀ d, d.current = c.current → x d = .ok a d.next) : ShortSighted x c := by
  intro closed o c' done
  rw [same c rfl] at done
  have ended : .ok a = o ∧ c.next = c' := by cases o <;> simp_all [ending]
  obtain ⟨rfl, rfl⟩ := ended
  refine ⟨[c.current], passes_next closed inside, fun d d' _ passed _ => ?_⟩
  obtain ⟨token, rfl⟩ := passes_single passed
  exact same d token

theorem value (a : α) : ShortSighted (pure a) c := .here (o := .ok a) fun _ _ => rfl

theorem giveUp : ShortSighted (giveUp : ParseM α) c :=
  .here (o := .error (.tooDeep c.current)) fun d same => by rw [← same]; rfl

/-- A rule passes tokens where it succeeds. -/
theorem passes (sees : ShortSighted x c) (closed : c.Closed) (done : x c = .ok a c') :
    ∃ ts, c.Passes ts c' := by
  obtain ⟨ts, moved, -⟩ := sees closed (.ok a) c' done
  exact ⟨ts, moved⟩

/-- A rule that does what another does, at every closed cursor with the same token. -/
theorem congr (same : ∀ d, d.Closed → d.current = c.current → x d = y d)
    (sees : ShortSighted y c) : ShortSighted x c := by
  intro closed o c' done
  rw [same c closed rfl] at done
  obtain ⟨ts, moved, again⟩ := sees closed o c' done
  refine ⟨ts, moved, fun d d' closed passed shows => ?_⟩
  rw [same d closed (moved.current_eq passed shows.current)]
  exact again d d' closed passed shows

theorem bind (first : ShortSighted x c)
    (second : ∀ {a mid}, x c = .ok a mid → ShortSighted (f a) mid) :
    ShortSighted (x >>= f) c := by
  intro closed o c' done
  rcases bind_eq_ending.mp done with ⟨a, mid, read, rest⟩ | ⟨e, rfl, failed⟩
  · obtain ⟨ts, moved, again⟩ := first closed (.ok a) mid read
    obtain ⟨us, onward, later⟩ := second read (moved.closed closed) o c' rest
    refine ⟨ts ++ us, moved.append onward, fun d d' closed passed shows => ?_⟩
    obtain ⟨mid', front, back⟩ := passed.split
    rw [bind_ok (again d mid' closed front (.of_ok (onward.current_eq back shows.current)))]
    exact later mid' d' (front.closed closed) back shows
  · obtain ⟨ts, moved, again⟩ := first closed (.error e) c' failed
    exact ⟨ts, moved, fun d d' closed passed shows =>
      bind_error (again d d' closed passed shows.error)⟩

theorem discard (sees : ShortSighted x c) : ShortSighted (discard x) c := by
  rw [discard_eq_bind]
  exact sees.bind fun _ => .value ()

/-! ## Tokens -/

theorem expect {kind : Kind} (inside : kind ≠ .endOfInput) : ShortSighted (expect kind) c := by
  by_cases found : c.current.kind = kind
  · refine .step (a := c.current) (by rwa [found]) fun d same => ?_
    rw [expect_run, same, if_pos found]
  · refine .here (o := .error (.expected kind c.current)) fun d same => ?_
    rw [expect_run, same, if_neg found]
    rfl

theorem accept {kind : Kind} (inside : kind ≠ .endOfInput) : ShortSighted (accept [kind]) c := by
  by_cases found : c.current.kind = kind
  · refine .step (a := true) (by rwa [found]) fun d same => ?_
    rw [accept_run, same, if_pos (by simp [found])]
  · refine .here (o := .ok false) fun d same => ?_
    rw [accept_run, same, if_neg (by simpa using found)]
    rfl

theorem terminator : ShortSighted terminator c := by
  by_cases ends : c.current.kind = .endOfInput
  · refine .here (o := .ok ()) fun d same => ?_
    rw [terminator_run, same, if_pos ends]
    rfl
  · by_cases semicolon : c.current.kind = .semicolon
    · refine .step (a := ()) ends fun d same => ?_
      rw [terminator_run, same, if_neg ends, if_pos semicolon]
    · refine .here (o := .error (.expected .semicolon c.current)) fun d same => ?_
      rw [terminator_run, same, if_neg ends, if_neg semicolon]
      rfl

end ShortSighted

/-! ## Repetitions -/

section Repetitions

variable {stop : Kind} {rule : ParseM Node} {least : Nat} {operand : Nat → ParseM Node}
  {c : Cursor} {rounds : List Token} {left : Node}

/-- The action that a rule for operators ends with, the rounds counted where it starts. -/
abbrev climbing (least : Nat) (operand : Nat → ParseM Node) (left : Node) : ParseM Node := do
  climb least operand (← get).after left

theorem climb_goes {level : Nat} (isLevel : c.current.kind.level? = some level)
    (tight : ¬ level < least) (t : Token) (rounds : List Token) :
    climb least operand (t :: rounds) left c =
      (do
        let right ← operand (level + 1)
        climb least operand rounds (.branch .binary [left, .ofToken c.current, right])
        : ParseM Node) c.next := by
  rw [climb, bind_ok (current_run c), isLevel]
  simp only
  rw [if_neg tight, bind_ok (advance_run c)]

/-- More rounds than there are tokens make no difference to a climb. -/
theorem climb_rounds (sees : ∀ level c, ShortSighted (operand level) c) (closed : c.Closed)
    {rounds' : List Token} (enough : c.after.length ≤ rounds.length)
    (enough' : c.after.length ≤ rounds'.length) :
    climb least operand rounds left c = climb least operand rounds' left c := by
  induction rounds generalizing c left rounds' with
  | nil =>
    have ends := closed.kind_of_after_nil (by simpa using enough)
    have loose : c.OperatorBelow least := operatorBelow_of_none (by simp [ends, Kind.level?])
    rw [climb_stops loose, climb_stops loose]
  | cons t rounds ih =>
    by_cases loose : c.OperatorBelow least
    · rw [climb_stops loose, climb_stops loose]
    · obtain ⟨level, isLevel, tight⟩ := exists_operator loose
      have shorter := after_next_lt closed (kind_ne_end_of_level isLevel)
      cases rounds' with
      | nil =>
        simp only [List.length_nil] at enough'
        omega
      | cons t' rounds' =>
        rw [climb_goes isLevel tight, climb_goes isLevel tight]
        cases read : operand (level + 1) c.next with
        | error e mid => rw [bind_error read, bind_error read]
        | ok right mid =>
          obtain ⟨ts, moved⟩ := (sees _ _).passes closed.next read
          have longer := moved.length_after
          simp only [List.length_cons] at enough enough'
          rw [bind_ok read, bind_ok read]
          exact ih (moved.closed closed.next) (by omega) (by omega)

theorem climbing_run (least : Nat) (operand : Nat → ParseM Node) (left : Node) (c : Cursor) :
    climbing least operand left c = climb least operand c.after left c := bind_ok (get_ok c)

/-- A climb past an operator goes on to climb from the joined tree. -/
theorem climbing_goes (sees : ∀ level c, ShortSighted (operand level) c) (closed : c.Closed)
    {level : Nat} (isLevel : c.current.kind.level? = some level) (tight : ¬ level < least) :
    climbing least operand left c =
      (do
        let op ← advance
        let right ← operand (level + 1)
        climbing least operand (.branch .binary [left, .ofToken op, right]) : ParseM Node) c := by
  have inside := kind_ne_end_of_level isLevel
  have shorter := after_next_lt closed inside
  obtain ⟨t, rounds, rest⟩ := List.exists_cons_of_ne_nil (closed.after_ne_nil inside)
  rw [climbing_run, rest, climb_goes isLevel tight, bind_ok (advance_run c)]
  cases read : operand (level + 1) c.next with
  | error e mid => rw [bind_error read, bind_error read]
  | ok right mid =>
    obtain ⟨ts, moved⟩ := (sees _ _).passes closed.next read
    have longer := moved.length_after
    rw [rest, List.length_cons] at shorter
    rw [bind_ok read, bind_ok read, climbing_run]
    exact climb_rounds sees (moved.closed closed.next) (by omega) (Nat.le_refl _)

theorem climbing_shortSighted (sees : ∀ level c, ShortSighted (operand level) c) (left : Node)
    (c : Cursor) : ShortSighted (climbing least operand left) c := by
  -- Every operator that is taken leaves fewer tokens after the cursor.
  induction tokens : c.after.length using Nat.strongRecOn generalizing c left with
  | ind count ih =>
    intro closed
    by_cases loose : c.OperatorBelow least
    · refine ShortSighted.here (o := .ok left) (fun d same => ?_) closed
      rw [climbing_run]
      exact climb_stops (by rwa [Cursor.OperatorBelow, same]) _
    · obtain ⟨level, isLevel, tight⟩ := exists_operator loose
      have inside := kind_ne_end_of_level isLevel
      have shorter := after_next_lt closed inside
      refine ShortSighted.congr
        (fun d closed same => climbing_goes sees closed (by rwa [same]) tight) ?_ closed
      refine .bind (.step (a := c.current) inside fun d same => by rw [advance_run, same]) ?_
      rintro _ _ ⟨⟩
      refine (sees _ _).bind fun {right mid} read => ?_
      obtain ⟨ts, moved⟩ := (sees _ _).passes closed.next read
      have longer := moved.length_after
      exact ih mid.after.length (by omega) _ mid rfl

/-- The action that the rule for statements consists of, the rounds counted where it starts. -/
abbrev collecting (stop : Kind) (rule : ParseM Node) : ParseM (List Node) := do
  statementsUpTo stop rule (← get).after

theorem collecting_run (stop : Kind) (rule : ParseM Node) (c : Cursor) :
    collecting stop rule c = statementsUpTo stop rule c.after c := bind_ok (get_ok c)

theorem statementsUpTo_empty (goes : ¬ (c.current.kind = stop ∨ c.current.kind = .endOfInput))
    (semicolon : c.current.kind = .semicolon) (t : Token) (rounds : List Token) :
    statementsUpTo stop rule (t :: rounds) c = statementsUpTo stop rule rounds c.next := by
  have accepted := accept_run [.semicolon] c
  rw [if_pos (by simp [semicolon])] at accepted
  rw [statementsUpTo, bind_ok (check_run _ c), if_neg (by simpa using goes),
    bind_ok accepted, if_pos rfl]

theorem statementsUpTo_goes (goes : ¬ (c.current.kind = stop ∨ c.current.kind = .endOfInput))
    (other : c.current.kind ≠ .semicolon) (t : Token) (rounds : List Token) :
    statementsUpTo stop rule (t :: rounds) c =
      (do
        let first ← rule
        let rest ← statementsUpTo stop rule rounds
        return first :: rest : ParseM (List Node)) c := by
  have accepted := accept_run [.semicolon] c
  rw [if_neg (by simpa using other)] at accepted
  rw [statementsUpTo, bind_ok (check_run _ c), if_neg (by simpa using goes),
    bind_ok accepted, if_neg (by simp)]

/-- A rule that takes at least one token where it succeeds. -/
def Takes (rule : ParseM Node) : Prop :=
  ∀ {c n c'}, c.Closed → rule c = .ok n c' → c'.Closed ∧ c'.after.length < c.after.length

/-- More rounds than there are tokens make no difference to a list of statements. -/
theorem statementsUpTo_rounds (takes : Takes rule) (closed : c.Closed) {rounds' : List Token}
    (enough : c.after.length ≤ rounds.length) (enough' : c.after.length ≤ rounds'.length) :
    statementsUpTo stop rule rounds c = statementsUpTo stop rule rounds' c := by
  induction rounds generalizing c rounds' with
  | nil =>
    have ends := closed.kind_of_after_nil (by simpa using enough)
    rw [statementsUpTo_stops (.inr ends), statementsUpTo_stops (.inr ends)]
  | cons t rounds ih =>
    by_cases stops : c.current.kind = stop ∨ c.current.kind = .endOfInput
    · rw [statementsUpTo_stops stops, statementsUpTo_stops stops]
    · have shorter := after_next_lt closed fun ends => stops (.inr ends)
      cases rounds' with
      | nil =>
        simp only [List.length_nil] at enough'
        omega
      | cons t' rounds' =>
        simp only [List.length_cons] at enough enough'
        by_cases semicolon : c.current.kind = .semicolon
        · rw [statementsUpTo_empty stops semicolon, statementsUpTo_empty stops semicolon]
          exact ih closed.next (by omega) (by omega)
        · rw [statementsUpTo_goes stops semicolon, statementsUpTo_goes stops semicolon]
          cases read : rule c with
          | error e mid => rw [bind_error read, bind_error read]
          | ok n mid =>
            obtain ⟨closed, fewer⟩ := takes closed read
            have same : statementsUpTo stop rule rounds mid =
                statementsUpTo stop rule rounds' mid := ih closed (by omega) (by omega)
            rw [bind_ok read, bind_ok read]
            simp only [bind, EStateM.bind, same]

/-- A semicolon alone is passed over. -/
theorem collecting_empty (takes : Takes rule) (closed : c.Closed)
    (goes : ¬ (c.current.kind = stop ∨ c.current.kind = .endOfInput))
    (semicolon : c.current.kind = .semicolon) :
    collecting stop rule c = (do discard advance; collecting stop rule : ParseM _) c := by
  have inside : c.current.kind ≠ .endOfInput := fun ends => goes (.inr ends)
  have shorter := after_next_lt closed inside
  obtain ⟨t, rounds, rest⟩ := List.exists_cons_of_ne_nil (closed.after_ne_nil inside)
  rw [rest, List.length_cons] at shorter
  rw [collecting_run, rest, statementsUpTo_empty goes semicolon,
    bind_ok (discard_ok (advance_run c)), collecting_run]
  exact statementsUpTo_rounds takes closed.next (by omega) (Nat.le_refl _)

/-- A statement is read, and then those after it. -/
theorem collecting_goes (takes : Takes rule) (closed : c.Closed)
    (goes : ¬ (c.current.kind = stop ∨ c.current.kind = .endOfInput))
    (other : c.current.kind ≠ .semicolon) :
    collecting stop rule c =
      (do
        let first ← rule
        let rest ← collecting stop rule
        return first :: rest : ParseM _) c := by
  have inside : c.current.kind ≠ .endOfInput := fun ends => goes (.inr ends)
  obtain ⟨t, rounds, rest⟩ := List.exists_cons_of_ne_nil (closed.after_ne_nil inside)
  rw [collecting_run, rest, statementsUpTo_goes goes other]
  cases read : rule c with
  | error e mid => rw [bind_error read, bind_error read]
  | ok n mid =>
    obtain ⟨closed, fewer⟩ := takes closed read
    rw [rest, List.length_cons] at fewer
    have same : statementsUpTo stop rule rounds mid = collecting stop rule mid := by
      rw [collecting_run]
      exact statementsUpTo_rounds takes closed (by omega) (Nat.le_refl _)
    rw [bind_ok read, bind_ok read]
    simp only [bind, EStateM.bind, same]

theorem collecting_shortSighted (takes : Takes rule) (sees : ∀ c, ShortSighted rule c)
    (stop : Kind) (c : Cursor) : ShortSighted (collecting stop rule) c := by
  induction tokens : c.after.length using Nat.strongRecOn generalizing c with
  | ind count ih =>
    intro closed
    by_cases stops : c.current.kind = stop ∨ c.current.kind = .endOfInput
    · refine ShortSighted.here (o := .ok []) (fun d same => ?_) closed
      rw [collecting_run]
      exact statementsUpTo_stops (by rwa [same]) _
    · have inside : c.current.kind ≠ .endOfInput := fun ends => stops (.inr ends)
      by_cases semicolon : c.current.kind = .semicolon
      · have shorter := after_next_lt closed inside
        refine ShortSighted.congr (fun d closed same =>
          collecting_empty takes closed (by rwa [same]) (by rwa [same])) ?_ closed
        refine .bind (.step (a := ()) inside fun d _ => discard_ok (advance_run d)) ?_
        rintro _ _ ⟨⟩
        exact ih c.next.after.length (by omega) c.next rfl
      · refine ShortSighted.congr (fun d closed same =>
          collecting_goes takes closed (by rwa [same]) (by rwa [same])) ?_ closed
        refine (sees c).bind fun {n mid} read => ?_
        have fewer := (takes closed read).2
        exact (ih mid.after.length (by omega) mid rfl).bind fun _ => .value _

end Repetitions

/-! ## Expressions -/

/-- The rules for expressions look no further than the token at which they end. -/
structure ShortSightedExpressions (room : Nat) : Prop where
  expression : ∀ c, ShortSighted (expression room) c
  binary : ∀ least c, ShortSighted (binary room least) c
  unary : ∀ c, ShortSighted (unary room) c
  primary : ∀ c, ShortSighted (primary room) c

section Expressions

variable {room : Nat} {c : Cursor}

theorem primary_shortSighted (rules : ShortSightedExpressions room) (c : Cursor) :
    ShortSighted (primary (room + 1)) c := by
  by_cases atom : c.current.kind.isAtom = true
  · refine .step (a := .ofToken c.current) (kind_ne_end_of_isAtom atom) fun d same => ?_
    rw [primary_run, same, if_pos atom]
  by_cases opens : c.current.kind = .openParen
  · have rest : ShortSighted (do
        discard advance
        let inner ← expression room
        discard (expect .closeParen)
        return inner) c := by
      refine .bind (.step (a := ()) (by simp [opens]) fun d _ => discard_ok (advance_run d)) ?_
      intro _ mid _
      exact (rules.expression mid).bind fun _ => (ShortSighted.expect (by decide)).discard.bind
        fun _ => .value _
    refine .congr (fun d _ same => ?_) rest
    rw [primary_run, same, if_neg atom, if_pos opens, bind_ok (discard_ok (advance_run d))]
  by_cases ends : c.current.kind = .endOfInput
  · refine .here (o := .error (.unexpectedEnd c.current)) fun d same => ?_
    rw [primary_run, same, if_neg atom, if_neg opens, if_pos ends]
    rfl
  · refine .here (o := .error (.unexpected c.current .expression)) fun d same => ?_
    rw [primary_run, same, if_neg atom, if_neg opens, if_neg ends]
    rfl

theorem unary_shortSighted (rules : ShortSightedExpressions room) (c : Cursor) :
    ShortSighted (unary (room + 1)) c := by
  by_cases operator : c.current.kind.isUnary = true
  · have inside := kind_ne_end_of_isUnary operator
    have rest : ShortSighted (do
        let op ← advance
        let operand ← unary room
        return Node.branch .unary [.ofToken op, operand]) c := by
      refine .bind (.step (a := c.current) inside fun d same => by rw [advance_run, same]) ?_
      intro _ mid _
      exact (rules.unary mid).bind fun _ => .value _
    refine .congr (fun d _ same => ?_) rest
    rw [unary_run, bind_ok (advance_run d), same, if_pos operator]
  · refine .congr (fun d _ same => ?_) (rules.primary c)
    rw [unary_run, same, if_neg operator]

theorem shortSightedExpressions (room : Nat) : ShortSightedExpressions room := by
  induction room with
  | zero => constructor <;> intros <;> exact .giveUp
  | succ room rules =>
    exact {
      expression := rules.binary 1
      binary := fun least c => (rules.unary c).bind fun _ =>
        climbing_shortSighted rules.binary _ _
      unary := unary_shortSighted rules
      primary := primary_shortSighted rules }

theorem expression_shortSighted (room : Nat) (c : Cursor) : ShortSighted (expression room) c :=
  (shortSightedExpressions room).expression c

/-- A prefix operator or an operand: an atom is taken, if there is room. -/
theorem unary_atom (room : Nat) (atom : c.current.kind.isAtom = true) :
    unary room c = .error (.tooDeep c.current) c ∨
      unary room c = .ok (.ofToken c.current) c.next := by
  have notUnary : ¬ (c.current.kind.isUnary = true) := by
    simp [isUnary_of_atom (mem_atoms_iff.mpr atom)]
  match room with
  | 0 => exact .inl rfl
  | 1 =>
    left
    rw [unary_run, if_neg notUnary]
    rfl
  | room + 2 =>
    right
    rw [unary_run, if_neg notUnary, primary_run, if_pos atom]

/-- An expression that starts with an atom takes it, or gives up where it is. -/
theorem expression_takes_atom (closed : c.Closed) (atom : c.current.kind.isAtom = true)
    {o : Except ParseError Node} {c' : Cursor} (done : expression room c = ending o c') :
    (∃ ts, c.Passes (c.current :: ts) c') ∨ (o = .error (.tooDeep c.current) ∧ c' = c) := by
  have inside := kind_ne_end_of_isAtom atom
  have here (deep : expression room c = .error (.tooDeep c.current) c) :
      o = .error (.tooDeep c.current) ∧ c' = c := by
    rw [deep] at done
    cases o with
    | ok n => cases done
    | error e =>
      obtain ⟨rfl, rfl⟩ := EStateM.Result.error.inj done
      exact ⟨rfl, rfl⟩
  obtain _ | _ | room := room
  · exact .inr (here rfl)
  · exact .inr (here rfl)
  · rcases unary_atom room atom with refused | taken
    · refine .inr (here ?_)
      rw [expression, binary, bind_error refused]
    · rw [expression, binary, bind_ok taken] at done
      obtain ⟨ts, moved, -⟩ := climbing_shortSighted (shortSightedExpressions room).binary _ _
        closed.next o c' done
      exact .inl ⟨ts, (passes_next closed inside).cons moved⟩

end Expressions

/-! ## Statements -/

section Statements

variable {room : Nat} {c : Cursor}

/-- The value at the end of a simple statement, and the end itself. -/
theorem value_shortSighted (room : Nat) (f : Node → Node) (c : Cursor) :
    ShortSighted (do
      let value ← expression room
      terminator
      return f value) c :=
  (expression_shortSighted room c).bind fun _ => ShortSighted.terminator.bind fun _ => .value _

theorem value_takes_atom {f : Node → Node} {o : Except ParseError Node} {c' : Cursor}
    (closed : c.Closed) (atom : c.current.kind.isAtom = true)
    (done : (do
      let value ← expression room
      terminator
      return f value : ParseM Node) c = ending o c') :
    (∃ ts, c.Passes (c.current :: ts) c') ∨ (o = .error (.tooDeep c.current) ∧ c' = c) := by
  rcases bind_eq_ending.mp done with ⟨value, mid, read, rest⟩ | ⟨e, rfl, failed⟩
  · obtain ⟨ts, moved⟩ | ⟨⟨⟩, -⟩ := expression_takes_atom closed atom (o := .ok value) read
    obtain ⟨us, onward, -⟩ := (ShortSighted.terminator.bind fun _ => .value (f value))
      (moved.closed closed) o c' rest
    exact .inl ⟨ts ++ us, moved.append onward⟩
  · refine (expression_takes_atom closed atom (o := .error e) failed).imp_right ?_
    rintro ⟨⟨⟩, rfl⟩
    exact ⟨rfl, rfl⟩

theorem declaration_shortSighted (room : Nat) (c : Cursor) : ShortSighted (declaration room) c := by
  cases room with
  | zero => exact .giveUp
  | succ room =>
    refine (ShortSighted.expect (by decide)).discard.bind fun _ => ?_
    refine (ShortSighted.expect (by decide)).bind fun _ => ?_
    refine (ShortSighted.expect (by decide)).discard.bind fun _ => ?_
    exact value_shortSighted room _ _

theorem printStatement_shortSighted (room : Nat) (c : Cursor) :
    ShortSighted (printStatement room) c := by
  cases room with
  | zero => exact .giveUp
  | succ room =>
    refine (ShortSighted.expect (by decide)).discard.bind fun _ => ?_
    refine (ShortSighted.expect (by decide)).discard.bind fun _ => ?_
    refine (expression_shortSighted room _).bind fun _ => ?_
    refine (ShortSighted.expect (by decide)).discard.bind fun _ => ?_
    exact ShortSighted.terminator.bind fun _ => .value _

theorem condition_shortSighted (room : Nat) (c : Cursor) : ShortSighted (condition room) c := by
  cases room with
  | zero => exact .giveUp
  | succ room =>
    refine (ShortSighted.expect (by decide)).discard.bind fun _ => ?_
    refine (expression_shortSighted room _).bind fun _ => ?_
    exact (ShortSighted.expect (by decide)).discard.bind fun _ => .value _

/-- The rules for statements look no further than the token at which they end. -/
structure ShortSightedRules (room : Nat) : Prop where
  statements : ∀ stop c, ShortSighted (statements room stop) c
  statement : ∀ c, ShortSighted (statement room) c
  conditional : ∀ c, ShortSighted (conditional room) c
  loop : ∀ c, ShortSighted (loop room) c
  block : ∀ c, ShortSighted (block room) c

theorem block_shortSighted (rules : ShortSightedRules room) (c : Cursor) :
    ShortSighted (block (room + 1)) c := by
  refine (ShortSighted.expect (by decide)).discard.bind fun _ => ?_
  refine (rules.statements _ _).bind fun _ => ?_
  exact (ShortSighted.expect (by decide)).discard.bind fun _ => .value _

theorem conditional_shortSighted (rules : ShortSightedRules room) (c : Cursor) :
    ShortSighted (conditional (room + 1)) c := by
  refine (ShortSighted.expect (by decide)).discard.bind fun _ => ?_
  refine (condition_shortSighted room _).bind fun _ => (rules.block _).bind fun _ => ?_
  refine (ShortSighted.accept (by decide)).bind fun {found _} _ => ?_
  cases found with
  | true => exact (rules.block _).bind fun _ => .value _
  | false => exact .value _

theorem loop_shortSighted (rules : ShortSightedRules room) (c : Cursor) :
    ShortSighted (loop (room + 1)) c := by
  refine (ShortSighted.expect (by decide)).discard.bind fun _ => ?_
  exact (condition_shortSighted room _).bind fun _ => (rules.block _).bind fun _ => .value _

/-- A cursor after an identifier is at the same token as another one, if the tokens that follow up
    to some token are the same. -/
theorem following_eq_of_passes {c c' d d' : Cursor} {t : Token} {ts : List Token}
    (moved : c.Passes (t :: ts) c') (passed : d.Passes (t :: ts) d')
    (there : d'.current = c'.current) : d.following = c.following := by
  obtain ⟨mid, first, rest⟩ := moved.uncons
  obtain ⟨mid', first', rest'⟩ := passed.uncons
  rw [following_eq moved.after_ne_nil, following_eq passed.after_ne_nil,
    (passes_single first).2, (passes_single first').2]
  exact rest.current_eq rest' there

/-- The kinds that select a production of their own, or none. -/
def selectors : List Kind :=
  [.kwVar, .kwPrint, .kwIf, .kwWhile, .kwElse, .closeBrace, .closeParen, .assign]

/-- The first token selects the production, or is refused, or starts a simple statement. -/
theorem statement_selects (room : Nat) (c : Cursor) :
    (∃ rule ∈ [declaration room, printStatement room, conditional room, loop room],
      ∀ d, d.current = c.current → statement (room + 1) d = rule d) ∨
    (∃ context, c.current.kind ≠ .endOfInput ∧ ∀ d, d.current = c.current →
      statement (room + 1) d = .error (.unexpected c.current context) d) ∨
    c.current.kind ∉ selectors := by
  by_cases isVar : c.current.kind = .kwVar
  · refine .inl ⟨declaration room, by simp, fun d same => ?_⟩
    rw [statement_run, same, if_pos isVar]
  by_cases isPrint : c.current.kind = .kwPrint
  · refine .inl ⟨printStatement room, by simp, fun d same => ?_⟩
    rw [statement_run, same, if_neg isVar, if_pos isPrint]
  by_cases isIf : c.current.kind = .kwIf
  · refine .inl ⟨conditional room, by simp, fun d same => ?_⟩
    rw [statement_run, same, if_neg isVar, if_neg isPrint, if_pos isIf]
  by_cases isWhile : c.current.kind = .kwWhile
  · refine .inl ⟨loop room, by simp, fun d same => ?_⟩
    rw [statement_run, same, if_neg isVar, if_neg isPrint, if_neg isIf, if_pos isWhile]
  by_cases isElse : c.current.kind = .kwElse
  · refine .inr (.inl ⟨.strayElse, by simp [isElse], fun d same => ?_⟩)
    rw [statement_run, same, if_neg isVar, if_neg isPrint, if_neg isIf, if_neg isWhile,
      if_pos isElse]
  by_cases stray : c.current.kind ∈ [.closeBrace, .closeParen, .assign]
  · refine .inr (.inl ⟨.statement, fun ends => by simp [ends] at stray, fun d same => ?_⟩)
    rw [statement_run, same, if_neg isVar, if_neg isPrint, if_neg isIf, if_neg isWhile,
      if_neg isElse, if_pos stray]
  · simp only [List.mem_cons, List.not_mem_nil, or_false, not_or] at stray
    exact .inr (.inr (by simp [selectors, isVar, isPrint, isIf, isWhile, isElse, stray]))

theorem statement_simple_run (room : Nat) (plain : c.current.kind ∉ selectors) :
    statement (room + 1) c =
      if c.current.kind = .identifier ∧ c.following.kind = .assign then
        (do
          let value ← expression room
          terminator
          return .branch .assignment [.ofToken c.current, value] : ParseM Node) c.next.next
      else
        (do
          let value ← expression room
          terminator
          return .branch .expression [value] : ParseM Node) c := by
  simp only [selectors, List.mem_cons, List.not_mem_nil, or_false, not_or] at plain
  rw [statement_run, if_neg plain.1, if_neg plain.2.1, if_neg plain.2.2.1, if_neg plain.2.2.2.1,
    if_neg plain.2.2.2.2.1, if_neg (by simpa using plain.2.2.2.2.2)]

theorem assignment_shortSighted (isName : c.current.kind = .identifier)
    (isSign : c.following.kind = .assign) : ShortSighted (statement (room + 1)) c := by
  intro closed o c' done
  have plain : c.current.kind ∉ selectors := by simp [isName, selectors]
  have first := passes_next closed (by simp [isName])
  rw [statement_simple_run room plain, if_pos ⟨isName, isSign⟩] at done
  rw [following_eq first.after_ne_nil] at isSign
  have second := passes_next closed.next (by simp [isSign])
  obtain ⟨ts, moved, again⟩ :=
    value_shortSighted room _ c.next.next closed.next.next o c' done
  refine ⟨_, first.cons (second.cons moved), fun d d' closed passed shows => ?_⟩
  obtain ⟨mid, one, passed⟩ := passed.uncons
  have follows := one.after_ne_nil
  obtain ⟨name, rfl⟩ := passes_single one
  obtain ⟨mid, two, passed⟩ := passed.uncons
  obtain ⟨sign, rfl⟩ := passes_single two
  rw [statement_simple_run room (by rwa [name]), name,
    if_pos ⟨isName, by rw [following_eq follows, sign, isSign]⟩]
  exact again _ d' closed.next.next passed shows

/-- The sign of an assignment would be seen before the expression, which takes the identifier and so
    ends at the token that was looked at, or after it, unless it gives up at the identifier. -/
theorem simple_shortSighted (plain : c.current.kind ∉ selectors)
    (noSign : ¬ (c.current.kind = .identifier ∧ c.following.kind = .assign)) :
    ShortSighted (statement (room + 1)) c := by
  by_cases isName : c.current.kind = .identifier
  · intro closed o c' done
    rw [statement_simple_run room plain, if_neg noSign] at done
    obtain ⟨ts, moved, again⟩ := value_shortSighted room _ c closed o c' done
    refine ⟨ts, moved, fun d d' closed' passed shows => ?_⟩
    have same := moved.current_eq passed shows.current
    have follows : d.following = c.following := by
      rcases value_takes_atom closed (by simp [isName, Kind.isAtom]) done with
        ⟨us, taken⟩ | ⟨rfl, rfl⟩
      · obtain rfl := moved.unique taken
        exact following_eq_of_passes moved passed shows.current
      · obtain rfl := moved.unique (.stay _)
        obtain rfl := passed.eq_of_nil
        exact shows.following _ rfl isName
    rw [statement_simple_run room (by rwa [same]), if_neg (by rwa [same, follows])]
    exact again d d' closed' passed shows
  · refine .congr (fun d _ same => ?_)
      (value_shortSighted room (fun value => .branch .expression [value]) c)
    rw [statement_simple_run room (by rwa [same]), if_neg (by simp [same, isName])]

theorem statement_shortSighted (rules : ShortSightedRules room) (c : Cursor) :
    ShortSighted (statement (room + 1)) c := by
  rcases statement_selects room c with ⟨rule, selected, same⟩ | ⟨context, -, same⟩ | plain
  · refine .congr (fun d _ => same d) ?_
    simp only [List.mem_cons, List.not_mem_nil, or_false] at selected
    rcases selected with rfl | rfl | rfl | rfl
    · exact declaration_shortSighted room c
    · exact printStatement_shortSighted room c
    · exact rules.conditional c
    · exact rules.loop c
  · exact .here (o := .error (.unexpected c.current context)) same
  · by_cases assigns : c.current.kind = .identifier ∧ c.following.kind = .assign
    · exact assignment_shortSighted assigns.1 assigns.2
    · exact simple_shortSighted plain assigns

theorem statement_takes (room : Nat) : Takes (statement room) := by
  intro c n c' closed done
  obtain ⟨ts, moved, phrase⟩ := (soundRules room).statement closed done
  obtain ⟨t, ts, rfl, -⟩ := phrase.first
  have shorter := moved.length_after
  rw [List.length_cons] at shorter
  exact ⟨moved.closed closed, by omega⟩

theorem shortSightedRules (room : Nat) : ShortSightedRules room := by
  induction room with
  | zero => constructor <;> intros <;> exact .giveUp
  | succ room rules =>
    exact {
      statements := collecting_shortSighted (statement_takes room) rules.statement
      statement := statement_shortSighted rules
      conditional := conditional_shortSighted rules
      loop := loop_shortSighted rules
      block := block_shortSighted rules }

theorem program_shortSighted (c : Cursor) : ShortSighted program c :=
  ((shortSightedRules depthLimit).statements _ c).bind fun _ => .value _

end Statements

end Grammar

end BraceScript
