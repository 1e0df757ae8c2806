import BraceScript.Proofs.Grammar.Viable

/-!
# How the rules go on

From a closed cursor a rule only passes tokens that are not the end of the input, whether it
succeeds or fails, and what it blames when it fails is the token that it has come to. It can also
give up for want of room. But the only ways back from a rule to one before it, parentheses, prefix
operators and braces, take a token, so that a room of four times the tokens and a few more is always
enough: `Advances fits` says all this of a rule that does not give up if `fits` holds.
-/

namespace BraceScript.Grammar

open Outcome Phrase

/-- A rule passes tokens, and fails at the token it comes to or, unless `fits` holds, gives up. -/
def Advances {α : Type} (fits : Prop) (rule : ParseM α) (c : Cursor) : Prop :=
  c.Closed → ∀ o c', rule c = ending o c' →
    (∃ ts, c.Passes ts c') ∧
      ∀ e, o = .error e → e.Blames c'.current ∨ (e = .tooDeep c'.current ∧ ¬ fits)

namespace Advances

variable {α β : Type} {fits : Prop} {x y : ParseM α} {f : α → ParseM β} {c : Cursor}

/-! ## Sequences -/

/-- An action that stays where it is. -/
theorem here {o : Except ParseError α} (done : x c = ending o c)
    (blames : ∀ e, o = .error e → e.Blames c.current ∨ (e = .tooDeep c.current ∧ ¬ fits)) :
    Advances fits x c := by
  intro _ o' c' done'
  obtain ⟨rfl, rfl⟩ : o = o' ∧ c = c' := by
    rw [done] at done'
    cases o <;> cases o' <;> simp_all [ending]
  exact ⟨⟨[], .stay c⟩, blames⟩

theorem value (a : α) : Advances fits (pure a) c :=
  .here (o := .ok a) rfl fun _ same => by cases same

theorem refuse {e : ParseError} (blames : e.Blames c.current) :
    Advances fits (throw e : ParseM α) c :=
  .here (o := .error e) rfl fun _ same => by cases same; exact .inl blames

theorem giveUp (unfit : ¬ fits) : Advances fits (giveUp : ParseM α) c :=
  .here (o := .error (.tooDeep c.current)) rfl fun _ same => by
    cases same
    exact .inr ⟨rfl, unfit⟩

theorem mono {more : Prop} (enough : more → fits) (advances : Advances fits x c) :
    Advances more x c := by
  intro closed o c' done
  obtain ⟨moved, blames⟩ := advances closed o c' done
  refine ⟨moved, fun e failed => (blames e failed).imp_right ?_⟩
  exact And.imp_right fun unfit fit => unfit (enough fit)

theorem congr (same : x c = y c) (advances : Advances fits y c) : Advances fits x c := by
  intro closed o c' done
  rw [same] at done
  exact advances closed o c' done

/-- An action that takes a token and then does what another does. -/
theorem step (inside : c.current.kind ≠ .endOfInput) (same : x c = y c.next)
    (advances : c.next.after.length < c.after.length → Advances fits y c.next) :
    Advances fits x c := by
  intro closed o c' done
  rw [same] at done
  obtain ⟨⟨ts, moved⟩, blames⟩ := advances (after_next_lt closed inside) closed.next o c' done
  exact ⟨⟨_, (passes_next closed inside).cons moved⟩, blames⟩

theorem bind (first : Advances fits x c)
    (second : ∀ a mid, mid.after.length ≤ c.after.length → Advances fits (f a) mid) :
    Advances fits (x >>= f) c := by
  intro closed o c' done
  rcases bind_eq_ending.mp done with ⟨a, mid, read, rest⟩ | ⟨e, rfl, failed⟩
  · obtain ⟨⟨ts, moved⟩, -⟩ := first closed (.ok a) mid read
    have length := moved.length_after
    obtain ⟨⟨us, onward⟩, blames⟩ := second a mid (by omega) (moved.closed closed) o c' rest
    exact ⟨⟨_, moved.append onward⟩, blames⟩
  · obtain ⟨moved, blames⟩ := first closed (.error e) c' failed
    refine ⟨moved, fun _ same => ?_⟩
    obtain ⟨rfl⟩ := same
    exact blames e rfl

theorem map (g : α → β) (advances : Advances fits x c) : Advances fits (g <$> x) c := by
  rw [map_eq_pure_bind]
  exact advances.bind fun _ _ _ => .value _

theorem discard (advances : Advances fits x c) : Advances fits (discard x) c := by
  rw [discard_eq_bind]
  exact advances.bind fun _ _ _ => .value ()

/-! ## Tokens -/

theorem expect {kind : Kind} (inside : kind ≠ .endOfInput) : Advances fits (expect kind) c := by
  by_cases found : c.current.kind = kind
  · refine .step (y := pure c.current) (by rwa [found]) ?_ fun _ => .value _
    rw [expect_run, if_pos found]
    rfl
  · refine .congr (y := throw (.expected kind c.current)) ?_ (.refuse (.expected kind _))
    rw [expect_run, if_neg found]
    rfl

/-- A rule that starts with a token of a kind goes on from fewer tokens. -/
theorem take {kind : Kind} {f : Token → ParseM β} (inside : kind ≠ .endOfInput)
    (rest : ∀ t mid, mid.after.length < c.after.length → Advances fits (f t) mid) :
    Advances fits (Grammar.expect kind >>= f) c := by
  by_cases found : c.current.kind = kind
  · refine .step (y := f c.current) (by rwa [found]) ?_ (rest _ _)
    rw [bind_ok ((expect_run kind c).trans (if_pos found))]
  · refine .congr (y := throw (.expected kind c.current)) ?_ (.refuse (.expected kind _))
    rw [bind_error ((expect_run kind c).trans (if_neg found))]
    rfl

theorem skip {kind : Kind} {f : Unit → ParseM β} (inside : kind ≠ .endOfInput)
    (rest : ∀ mid, mid.after.length < c.after.length → Advances fits (f ()) mid) :
    Advances fits (Functor.discard (Grammar.expect kind) >>= f) c := by
  rw [discard_eq_bind, bind_assoc]
  simp only [pure_bind]
  exact take inside fun _ mid => rest mid

theorem accept {kind : Kind} (inside : kind ≠ .endOfInput) :
    Advances fits (accept [kind]) c := by
  by_cases found : c.current.kind = kind
  · refine .step (y := pure true) (by rwa [found]) ?_ fun _ => .value _
    rw [accept_run, if_pos (by simp [found])]
    rfl
  · refine .congr (y := pure false) ?_ (.value _)
    rw [accept_run, if_neg (by simpa using found)]
    rfl

theorem terminator : Advances fits terminator c := by
  by_cases ends : c.current.kind = .endOfInput
  · refine .congr (y := pure ()) ?_ (.value _)
    rw [terminator_run, if_pos ends]
    rfl
  · refine .congr (y := Functor.discard (Grammar.expect .semicolon)) ?_
      (Advances.expect (by decide)).discard
    rw [Grammar.terminator, bind_ok (current_run c), if_neg ends]

end Advances

/-! ## Repetitions -/

section Repetitions

variable {fits : Prop} {c : Cursor}

theorem statementsUpTo_advances (stop : Kind) {rule : ParseM Node} (rounds : List Token)
    (each : ∀ mid, mid.after.length ≤ c.after.length → Advances fits rule mid) :
    Advances fits (statementsUpTo stop rule rounds) c := by
  induction rounds generalizing c with
  | nil => exact .value _
  | cons t rounds ih =>
    by_cases stops : c.current.kind = stop ∨ c.current.kind = .endOfInput
    · exact .congr (y := pure []) (statementsUpTo_stops stops _) (.value _)
    have inside : c.current.kind ≠ .endOfInput := fun ends => stops (.inr ends)
    by_cases semicolon : c.current.kind = .semicolon
    · refine .step inside (statementsUpTo_empty stops semicolon t rounds) fun shorter => ?_
      exact ih fun mid less => each mid (by omega)
    · refine .congr (statementsUpTo_goes stops semicolon t rounds) ?_
      refine (each c (Nat.le_refl _)).bind fun first mid fewer => ?_
      exact (ih fun later less => each later (by omega)).bind fun _ _ _ => .value _

/-- A climb goes on where its right operands do, which have fewer tokens. -/
theorem climb_advances (least : Nat) {operand : Nat → ParseM Node} (rounds : List Token)
    (left : Node)
    (each : ∀ level mid, mid.after.length < c.after.length → Advances fits (operand level) mid) :
    Advances fits (climb least operand rounds left) c := by
  induction rounds generalizing c left with
  | nil => exact .value _
  | cons t rounds ih =>
    by_cases loose : c.OperatorBelow least
    · exact .congr (y := pure left) (climb_stops loose _) (.value _)
    · obtain ⟨level, isLevel, tight⟩ := exists_operator loose
      refine .step (kind_ne_end_of_level isLevel) (climb_goes isLevel tight t rounds) ?_
      intro shorter
      refine (each _ _ shorter).bind fun right mid fewer => ih _ fun level later less => ?_
      exact each level later (by omega)

end Repetitions

/-! ## Rules -/

/-- How all the rules go on, and the room that each of them needs. -/
structure AdvancingRules (room : Nat) : Prop where
  statements : ∀ stop c, Advances (4 * c.after.length + 6 ≤ room) (statements room stop) c
  statement : ∀ c, Advances (4 * c.after.length + 5 ≤ room) (statement room) c
  declaration : ∀ c, Advances (4 * c.after.length + 4 ≤ room) (declaration room) c
  printStatement : ∀ c, Advances (4 * c.after.length + 4 ≤ room) (printStatement room) c
  conditional : ∀ c, Advances (4 * c.after.length + 4 ≤ room) (conditional room) c
  loop : ∀ c, Advances (4 * c.after.length + 4 ≤ room) (loop room) c
  condition : ∀ c, Advances (4 * c.after.length + 4 ≤ room) (condition room) c
  block : ∀ c, Advances (4 * c.after.length + 4 ≤ room) (block room) c
  expression : ∀ c, Advances (4 * c.after.length + 4 ≤ room) (expression room) c
  binary : ∀ least c, Advances (4 * c.after.length + 3 ≤ room) (binary room least) c
  unary : ∀ c, Advances (4 * c.after.length + 2 ≤ room) (unary room) c
  primary : ∀ c, Advances (4 * c.after.length + 1 ≤ room) (primary room) c

section Rules

variable {room : Nat}

theorem primary_advances (rules : AdvancingRules room) (c : Cursor) :
    Advances (4 * c.after.length + 1 ≤ room + 1) (primary (room + 1)) c := by
  have run := primary_run room c
  split at run
  · next atom =>
    exact .step (y := pure (.ofToken c.current)) (kind_ne_end_of_isAtom atom) run fun _ => .value _
  split at run
  · next opens =>
    refine .step (by simp [opens]) run fun shorter => ?_
    refine ((rules.expression _).mono (by omega)).bind fun inner mid _ => ?_
    exact .skip (by decide) fun _ _ => .value _
  split at run
  · next ends => exact .congr (y := throw (.unexpectedEnd _)) run (.refuse (.unexpectedEnd ends))
  · next inside =>
    exact .congr (y := throw (.unexpected _ _)) run (.refuse (.unexpected _ inside))

theorem unary_advances (rules : AdvancingRules room) (c : Cursor) :
    Advances (4 * c.after.length + 2 ≤ room + 1) (unary (room + 1)) c := by
  have run := unary_run room c
  split at run
  · next operator =>
    refine .step (kind_ne_end_of_isUnary operator) run fun shorter => ?_
    exact ((rules.unary _).mono (by omega)).bind fun _ _ _ => .value _
  · exact .congr run ((rules.primary c).mono (by omega))

theorem binary_advances (rules : AdvancingRules room) (least : Nat) (c : Cursor) :
    Advances (4 * c.after.length + 3 ≤ room + 1) (binary (room + 1) least) c := by
  refine ((rules.unary c).mono (by omega)).bind fun left mid fewer => ?_
  refine .congr (climbing_run least (binary room) left mid) ?_
  exact climb_advances least _ _ fun level later less => (rules.binary _ _).mono (by omega)

/-- The value at the end of a simple statement, and the end itself. -/
theorem value_advances {fits : Prop} (rules : AdvancingRules room) (f : Node → Node) (c : Cursor)
    (enough : fits → 4 * c.after.length + 4 ≤ room) :
    Advances fits (do
      let value ← expression room
      terminator
      return f value) c :=
  ((rules.expression c).mono enough).bind fun _ _ _ =>
    Advances.terminator.bind fun _ _ _ => .value _

theorem declaration_advances (rules : AdvancingRules room) (c : Cursor) :
    Advances (4 * c.after.length + 4 ≤ room + 1) (declaration (room + 1)) c := by
  refine .skip (by decide) fun _ _ => ?_
  refine .take (by decide) fun _ _ _ => ?_
  refine .skip (by decide) fun _ _ => ?_
  exact value_advances rules _ _ (by omega)

theorem printStatement_advances (rules : AdvancingRules room) (c : Cursor) :
    Advances (4 * c.after.length + 4 ≤ room + 1) (printStatement (room + 1)) c := by
  refine .skip (by decide) fun _ _ => ?_
  refine .skip (by decide) fun _ _ => ?_
  refine ((rules.expression _).mono (by omega)).bind fun _ _ _ => ?_
  refine .skip (by decide) fun _ _ => ?_
  exact Advances.terminator.bind fun _ _ _ => .value _

theorem condition_advances (rules : AdvancingRules room) (c : Cursor) :
    Advances (4 * c.after.length + 4 ≤ room + 1) (condition (room + 1)) c := by
  refine .skip (by decide) fun _ _ => ?_
  refine ((rules.expression _).mono (by omega)).bind fun _ _ _ => ?_
  exact .skip (by decide) fun _ _ => .value _

theorem block_advances (rules : AdvancingRules room) (c : Cursor) :
    Advances (4 * c.after.length + 4 ≤ room + 1) (block (room + 1)) c := by
  refine .skip (by decide) fun _ _ => ?_
  refine ((rules.statements _ _).mono (by omega)).bind fun _ _ _ => ?_
  exact .skip (by decide) fun _ _ => .value _

theorem conditional_advances (rules : AdvancingRules room) (c : Cursor) :
    Advances (4 * c.after.length + 4 ≤ room + 1) (conditional (room + 1)) c := by
  refine .skip (by decide) fun _ _ => ?_
  refine ((rules.condition _).mono (by omega)).bind fun _ _ _ => ?_
  refine ((rules.block _).mono (by omega)).bind fun _ _ _ => ?_
  refine (Advances.accept (by decide)).bind fun found _ _ => ?_
  cases found with
  | true => exact ((rules.block _).mono (by omega)).bind fun _ _ _ => .value _
  | false => exact .value _

theorem loop_advances (rules : AdvancingRules room) (c : Cursor) :
    Advances (4 * c.after.length + 4 ≤ room + 1) (loop (room + 1)) c := by
  refine .skip (by decide) fun _ _ => ?_
  refine ((rules.condition _).mono (by omega)).bind fun _ _ _ => ?_
  exact ((rules.block _).mono (by omega)).bind fun _ _ _ => .value _

theorem statement_advances (rules : AdvancingRules room) (c : Cursor) :
    Advances (4 * c.after.length + 5 ≤ room + 1) (statement (room + 1)) c := by
  rcases statement_selects room c with ⟨rule, selected, same⟩ | ⟨context, inside, same⟩ | plain
  · refine .congr (same c rfl) ?_
    simp only [List.mem_cons, List.not_mem_nil, or_false] at selected
    rcases selected with rfl | rfl | rfl | rfl
    · exact (rules.declaration c).mono (by omega)
    · exact (rules.printStatement c).mono (by omega)
    · exact (rules.conditional c).mono (by omega)
    · exact (rules.loop c).mono (by omega)
  · exact .congr (y := throw (.unexpected _ context)) (same c rfl) (.refuse (.unexpected _ inside))
  · have run := statement_simple_run room plain
    split at run
    · next assigns =>
      intro closed
      obtain ⟨isName, isSign⟩ := assigns
      have first := passes_next closed (by simp [isName])
      rw [following_eq first.after_ne_nil] at isSign
      refine Advances.step (y := do
        discard advance
        let value ← expression room
        terminator
        return .branch .assignment [.ofToken c.current, value]) (by simp [isName]) ?_ ?_ closed
      · rw [run, bind_ok (discard_ok (advance_run _))]
      · intro shorter
        refine .step (by simp [isSign]) (bind_ok (discard_ok (advance_run _))) fun fewer => ?_
        exact value_advances rules _ _ (by omega)
    · exact .congr run (value_advances rules _ _ (by omega))

/-- All the rules go on, whatever room they are given: they call one another with less. -/
theorem advancingRules (room : Nat) : AdvancingRules room := by
  induction room with
  | zero => constructor <;> intros <;> exact .giveUp (by omega)
  | succ room rules =>
    exact {
      statements := fun stop c => .congr (collecting_run stop (statement room) c) <|
        statementsUpTo_advances stop _ fun mid fewer => (rules.statement mid).mono (by omega)
      statement := statement_advances rules
      declaration := declaration_advances rules
      printStatement := printStatement_advances rules
      conditional := conditional_advances rules
      loop := loop_advances rules
      condition := condition_advances rules
      block := block_advances rules
      expression := fun c => (rules.binary 1 c).mono (by omega)
      binary := binary_advances rules
      unary := unary_advances rules
      primary := primary_advances rules }

/-- A rule that has room enough does not give up. -/
theorem Advances.fits {α : Type} {fits : Prop} {rule : ParseM α} {c : Cursor}
    (advances : Advances fits rule c) (closed : c.Closed) (fit : fits) (found : Token)
    (c' : Cursor) : rule c ≠ .error (.tooDeep found) c' := by
  intro deep
  obtain blames | ⟨-, unfit⟩ := (advances closed (.error (.tooDeep found)) c' deep).2 _ rfl
  · cases blames
  · exact unfit fit

end Rules

end BraceScript.Grammar
