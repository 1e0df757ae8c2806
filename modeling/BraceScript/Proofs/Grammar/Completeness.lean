import BraceScript.Proofs.Grammar.Room
import BraceScript.Proofs.Grammar.Soundness

/-!
# Phrases are read

A rule *settles* on a tree when, given room enough, it reads the tree and stops just after its
phrase. Every phrase of the grammar is settled on by its rule, provided that what comes after it
cannot be taken for a part of it: an operator after an expression, an `else` after a conditional.

The rule for operators reads an operand and then climbs, so that the tree of a phrase is known only
in the middle of a climb. The statement for expressions therefore speaks of the rest of the climb:
where climbing on from the tree of a phrase settles, reading from the start of the phrase does.

Lemmas about rules that are given the room `f room` hold of all the rooms from some room on, with
`f` the identity, as well as of one fixed room, with `f` constant.
-/

namespace BraceScript.Grammar

open Outcome Phrase

/-- Given room enough, a rule reads `a` at the first cursor and stops at the second. -/
def Settles {α : Type} (rule : Nat → ParseM α) (c : Cursor) (a : α) (c' : Cursor) : Prop :=
  ∃ least, ∀ room, least ≤ room → rule room c = .ok a c'

namespace Settles

variable {α β : Type} {rule other : Nat → ParseM α} {c mid c' : Cursor} {a : α} {b : β}

theorem const {x : ParseM α} (done : x c = .ok a c') : Settles (fun _ => x) c a c' :=
  ⟨0, fun _ _ => done⟩

theorem done (a : α) (c : Cursor) : Settles (fun _ => pure a) c a c := const rfl

theorem bind {f : Nat → α → ParseM β} (first : Settles rule c a mid)
    (second : Settles (fun room => f room a) mid b c') :
    Settles (fun room => rule room >>= f room) c b c' := by
  obtain ⟨least, read⟩ := first
  obtain ⟨least', read'⟩ := second
  exact ⟨max least least', fun room enough =>
    (bind_ok (read room (by omega))).trans (read' room (by omega))⟩

theorem bind_done (b : β) (first : Settles rule c a c') :
    Settles (fun room => rule room >>= fun _ => pure b) c b c' :=
  first.bind (done b c')

theorem bind_pure {f : α → β} (first : Settles rule c a c') :
    Settles (fun room => rule room >>= fun a => pure (f a)) c (f a) c' :=
  first.bind (done _ _)

/-- A rule settles where what it does next settles. -/
theorem congr (settles : Settles other mid a c') (step : ∀ room, rule room c = other room mid) :
    Settles rule c a c' := by
  obtain ⟨least, read⟩ := settles
  exact ⟨least, fun room enough => (step room).trans (read room enough)⟩

/-- A rule settles where what it does next with a unit of room less settles. -/
theorem enter (settles : Settles other mid a c')
    (step : ∀ room, rule (room + 1) c = other room mid) : Settles rule c a c' := by
  obtain ⟨least, read⟩ := settles
  refine ⟨least + 1, fun room enough => ?_⟩
  obtain ⟨room, rfl⟩ : ∃ smaller, room = smaller + 1 := ⟨room - 1, by omega⟩
  rw [step]
  exact read room (by omega)

/-- A rule settles where it does with a unit of room more. -/
theorem shift (settles : Settles (fun room => rule (room + 1)) c a c') : Settles rule c a c' :=
  settles.enter fun _ => rfl

/-- What two runs of a rule settle on is the same. -/
theorem unique {a' : α} {c'' : Cursor} (first : Settles rule c a c')
    (second : Settles rule c a' c'') : a = a' := by
  obtain ⟨least, read⟩ := first
  obtain ⟨least', read'⟩ := second
  have same := (read (max least least') (by omega)).symm.trans (read' _ (by omega))
  exact (EStateM.Result.ok.inj same).1

end Settles

variable {c c' : Cursor} {t : Token} {ts : List Token} {n : Node} {atEnd : Bool} {f : Nat → Nat}

/-! ## Single tokens -/

theorem expect_settles {kind : Kind} (moved : c.Passes [t] c') (same : t.kind = kind) :
    expect kind c = .ok t c' := by
  obtain ⟨rfl, rfl⟩ := passes_single moved
  rw [expect_run, if_pos same]

theorem discard_expect_settles {kind : Kind} (moved : c.Passes [t] c') (same : t.kind = kind) :
    Settles (fun _ => discard (expect kind)) c () c' :=
  .const (discard_ok (expect_settles moved same))

theorem terminator_settles {last : List Token} (phrase : Terminator atEnd last)
    (moved : c.Passes last c') (ends : atEnd = true → c'.current.kind = .endOfInput) :
    terminator c = .ok () c' ∧ c.current.kind.level? = none := by
  cases phrase with
  | semicolon semicolon =>
    obtain ⟨rfl, rfl⟩ := passes_single moved
    simp [terminator_run, semicolon, Kind.level?]
  | omitted flag =>
    obtain rfl := moved.eq_of_nil
    simp [terminator_run, ends flag, Kind.level?]

theorem level_of_passes (moved : c.Passes [t] c') (isLevel : t.kind.level? = none) :
    c.current.kind.level? = none := by
  rw [(passes_single moved).1]
  exact isLevel

/-! ## Expressions -/

/-- How the rules read a phrase that is an expression of a level. -/
structure ReadsExpression (level : Nat) (ts : List Token) (n : Node) : Prop where
  primary : 8 ≤ level → ∀ {c c'}, c.Passes ts c' → Settles primary c n c'
  unary : 7 ≤ level → ∀ {c c'}, c.Passes ts c' → Settles unary c n c'
  binary : ∀ {c c' least tree last}, c.Passes ts c' → c'.OperatorBelow (level + 1) →
    least ≤ level →
    (∀ rounds : List Token, c'.after.length ≤ rounds.length →
      Settles (fun room => climb least (binary room) rounds n) c' tree last) →
    Settles (fun room => binary room least) c tree last

/-- Climbing goes no further where the next operator is too loose. -/
theorem climb_stops {least : Nat} {operand : Nat → ParseM Node} (below : c.OperatorBelow least)
    (rounds : List Token) : climb least operand rounds n c = .ok n c := by
  cases rounds with
  | nil => rfl
  | cons _ rounds =>
    rw [climb, bind_ok (current_run c)]
    cases isLevel : c.current.kind.level? with
    | none => rfl
    | some found =>
      simp only [if_pos (below found isLevel)]
      rfl

/-- The rule for operators settles where climbing on from its first operand does. -/
theorem binary_settles {least : Nat} {tree : Node} {last : Cursor}
    (first : Settles (fun room => unary (f room)) c n c')
    (climbs : ∀ rounds : List Token, c'.after.length ≤ rounds.length →
      Settles (fun room => climb least (binary (f room)) rounds n) c' tree last) :
    Settles (fun room => binary (f room + 1) least) c tree last := by
  have rest : Settles (fun room => unary (f room) >>= fun left => do
      climb least (binary (f room)) (← get).after left) c tree last :=
    first.bind ((Settles.const (get_ok _)).bind (climbs _ (Nat.le_refl _)))
  exact rest.congr fun _ => rfl

/-- One step of a climb: an operator that is tight enough, with its right operand. -/
theorem climb_settles {least found : Nat} {op : Token} {rs : List Token} {mid last : Cursor}
    {left right tree : Node} (isLevel : op.kind.level? = some found) (tight : least ≤ found)
    (operator : c.Passes [op] mid) (moved : mid.Passes rs c')
    (reads : Settles (fun room => binary (f room) (found + 1)) mid right c')
    (climbs : ∀ rounds : List Token, c'.after.length ≤ rounds.length →
      Settles (fun room => climb least (binary (f room)) rounds
        (.branch .binary [left, leafOf op, right])) c' tree last)
    (rounds : List Token) (enough : c.after.length ≤ rounds.length) :
    Settles (fun room => climb least (binary (f room)) rounds left) c tree last := by
  have shorter := (operator.append moved).length_after
  obtain ⟨rfl, rfl⟩ := passes_single operator
  cases rounds with
  | nil =>
    simp only [List.length_append, List.length_cons, List.length_nil] at shorter enough
    omega
  | cons _ rounds =>
    simp only [List.length_append, List.length_cons, List.length_nil] at shorter enough
    have rest : Settles (fun room => binary (f room) (found + 1) >>= fun right =>
        climb least (binary (f room)) rounds (.branch .binary [left, leafOf c.current, right]))
        c.next tree last := reads.bind (climbs rounds (by omega))
    refine rest.congr fun room => ?_
    simp only [climb, bind_ok (current_run c), isLevel, if_neg (Nat.not_lt.mpr tight),
      bind_ok (advance_run c)]
    rfl

/-- A prefix operator and its operand. -/
theorem unary_settles {op : Token} (operator : op.kind ∈ unaryOperators)
    (reads : ∀ {c c'}, c.Passes ts c' → Settles unary c n c') (moved : c.Passes (op :: ts) c') :
    Settles unary c (.branch .unary [leafOf op, n]) c' := by
  obtain ⟨mid, first, moved⟩ := moved.uncons
  obtain ⟨rfl, rfl⟩ := passes_single first
  have rest : Settles (fun room => unary room >>= fun operand =>
      pure (Node.branch .unary [leafOf c.current, operand])) c.next _ c' :=
    (reads moved).bind_pure
  refine rest.enter fun room => ?_
  rw [unary_run, if_pos (mem_unaryOperators_iff.mp operator)]
  rfl

theorem unary_settles_of_primary (notUnary : t.kind.isUnary = false)
    (moved : c.Passes (t :: ts) c') (reads : Settles (fun room => primary (f room)) c n c') :
    Settles (fun room => unary (f room + 1)) c n c' := by
  refine reads.congr fun room => ?_
  obtain ⟨mid, first, -⟩ := moved.uncons
  obtain ⟨rfl, -⟩ := passes_single first
  rw [unary_run, if_neg (by simp [notUnary])]

theorem isUnary_of_atom (atom : t.kind ∈ atoms) : t.kind.isUnary = false := by
  revert atom
  cases t.kind <;> decide

theorem atom_settles (atom : t.kind ∈ atoms) (moved : c.Passes [t] c') :
    Settles (fun room => primary (f room + 1)) c (leafOf t) c' := by
  obtain ⟨rfl, rfl⟩ := passes_single moved
  have rest : Settles (fun _ => pure (leafOf c.current)) c.next (leafOf c.current) c.next :=
    .done _ _
  refine rest.congr fun room => ?_
  rw [primary_run, if_pos (mem_atoms_iff.mp atom)]
  rfl

theorem parentheses_settle {opening closing : Token} (opens : opening.kind = .openParen)
    (closes : closing.kind = .closeParen)
    (reads : ∀ {c c'}, c.Passes ts c' → c'.OperatorBelow 1 → Settles expression c n c')
    (moved : c.Passes (opening :: (ts ++ [closing])) c') : Settles primary c n c' := by
  obtain ⟨mid, first, moved⟩ := moved.uncons
  obtain ⟨rfl, rfl⟩ := passes_single first
  obtain ⟨mid, inner, last⟩ := moved.split
  have noLevel := level_of_passes last (by simp [closes, Kind.level?])
  have rest : Settles (fun room => do
      let inner ← expression room
      discard (expect .closeParen)
      return inner) c.next n c' :=
    (reads inner (operatorBelow_of_none noLevel)).bind
      ((discard_expect_settles last closes).bind_done n)
  refine rest.enter fun room => ?_
  rw [primary_run, if_neg (by simp [opens, Kind.isAtom]), if_pos opens]

theorem ReadsExpression.expression {level : Nat} (reads : ReadsExpression level ts n)
    (bound : 1 ≤ level) (moved : c.Passes ts c') (below : c'.OperatorBelow 1) :
    Settles Grammar.expression c n c' := by
  have rest : Settles (fun room => Grammar.binary room 1) c n c' :=
    reads.binary moved (fun found isLevel => by have := below found isLevel; omega) bound
      fun rounds _ => ⟨0, fun _ _ => climb_stops below rounds⟩
  exact rest.enter fun _ => rfl

theorem ReadsExpression.of_primary (notUnary : t.kind.isUnary = false)
    (reads : ∀ {c c'}, c.Passes (t :: ts) c' → Settles Grammar.primary c n c') :
    ReadsExpression 8 (t :: ts) n where
  primary _ := reads
  unary _ _ _ moved := (unary_settles_of_primary notUnary moved (reads moved)).shift
  binary moved _ _ climbs :=
    (binary_settles (unary_settles_of_primary notUnary moved (reads moved)).shift climbs).shift

/-- Every expression is read by the rules for its level and all looser ones. -/
theorem reads_expression {level : Nat} (phrase : Expression level ts n) :
    ReadsExpression level ts n := by
  induction phrase with
  | tighter _ ih =>
    refine ⟨fun deep => ih.primary (by omega), fun deep => ih.unary (by omega), ?_⟩
    intro c c' least tree last moved below loose climbs
    exact ih.binary moved (fun found isLevel => by have := below found isLevel; omega) (by omega)
      climbs
  | @binary level ls rs op l r operator _ _ ihl ihr =>
    have isLevel := mem_operatorsAt_iff.mp operator
    have bound := (level_range isLevel).2
    refine ⟨by omega, by omega, ?_⟩
    intro c c' least tree last moved below loose climbs
    obtain ⟨mid, left, moved⟩ := moved.split
    obtain ⟨start, operator, right⟩ := moved.uncons
    have atOperator : mid.OperatorBelow (level + 1) := by
      rw [← (passes_single operator).1] at isLevel
      exact operatorBelow_of_some isLevel (by omega)
    -- The right operand ends where the climb of its own level stops.
    have reads : Settles (fun room => Grammar.binary room (level + 1)) start r c' :=
      ihr.binary right (fun found isFound => by have := below found isFound; omega) (by omega)
        fun rounds _ => ⟨0, fun _ _ => climb_stops below rounds⟩
    exact ihl.binary left atOperator loose
      (climb_settles isLevel loose operator right reads climbs)
  | unary operator _ ih =>
    refine ⟨by omega, fun _ _ _ moved => unary_settles operator (ih.unary (by decide)) moved, ?_⟩
    intro c c' least tree last moved _ _ climbs
    exact (binary_settles (unary_settles operator (ih.unary (by decide)) moved) climbs).shift
  | atom atom =>
    exact .of_primary (isUnary_of_atom atom) fun moved => (atom_settles atom moved).shift
  | parentheses opens _ closes ih =>
    exact .of_primary (by simp [opens, Kind.isUnary])
      (parentheses_settle opens closes fun moved below => ih.expression (by decide) moved below)

/-- How a rule reads tokens that no operator follows. -/
abbrev ReadsValue (rule : Nat → ParseM Node) (ts : List Token) (n : Node) : Prop :=
  ∀ {c c' : Cursor}, c.Passes ts c' → c'.current.kind.level? = none → Settles rule c n c'

theorem expression_settles (phrase : Expression 1 ts n) : ReadsValue expression ts n :=
  fun moved below =>
    (reads_expression phrase).expression (Nat.le_refl 1) moved (operatorBelow_of_none below)

/-! ## Statements -/

theorem condition_settles (phrase : Parenthesized ts n) (moved : c.Passes ts c') :
    Settles condition c n c' := by
  obtain ⟨opens, value, closes⟩ := phrase
  obtain ⟨mid, first, moved⟩ := moved.uncons
  obtain ⟨mid, inner, last⟩ := moved.split
  have read := expression_settles value inner (level_of_passes last (by simp [closes, Kind.level?]))
  exact Settles.enter ((discard_expect_settles first opens).bind (read.bind
    ((discard_expect_settles last closes).bind_done n))) fun _ => rfl

/-- The first token of a statement selects the rule that reads it. -/
theorem selected_settles {rule : Nat → ParseM Node} {keyword : Token}
    (moved : c.Passes (keyword :: ts) c') (reads : Settles (fun room => rule (f room)) c n c')
    (selects : ∀ room, c.current.kind = keyword.kind → statement (room + 1) c = rule room c) :
    Settles (fun room => statement (f room + 1)) c n c' := by
  obtain ⟨_, first, -⟩ := moved.uncons
  exact reads.congr fun room => selects (f room) (by rw [(passes_single first).1])

/-- An expression and the end of the statement that it is the last part of. -/
theorem value_settles {last : List Token} {rule : Nat → ParseM Node} {g : Node → Node}
    (reads : ReadsValue rule ts n) (terminated : Terminator atEnd last)
    (moved : c.Passes (ts ++ last) c') (ends : atEnd = true → c'.current.kind = .endOfInput) :
    Settles (fun room => do
      let value ← rule room
      terminator
      return g value) c (g n) c' := by
  obtain ⟨mid, inner, moved⟩ := moved.split
  obtain ⟨terminated, isLevel⟩ := terminator_settles terminated moved ends
  exact (reads inner isLevel).bind ((Settles.const terminated).bind_done _)

theorem declaration_settles {last : List Token} {keyword name sign : Token}
    (isVar : keyword.kind = .kwVar) (isName : name.kind = .identifier)
    (isSign : sign.kind = .assign) (reads : ReadsValue (fun room => expression (f room)) ts n)
    (terminated : Terminator atEnd last)
    (moved : c.Passes (keyword :: name :: sign :: (ts ++ last)) c')
    (ends : atEnd = true → c'.current.kind = .endOfInput) :
    Settles (fun room => statement (f room + 2)) c (.branch .declaration [leafOf name, n]) c' := by
  have selects : ∀ room, c.current.kind = keyword.kind →
      statement (room + 1) c = declaration room c :=
    fun room kind => by simp [statement_run, kind, isVar]
  refine selected_settles (f := fun room => f room + 1) moved ?_ selects
  obtain ⟨_, first, moved⟩ := moved.uncons
  obtain ⟨_, second, moved⟩ := moved.uncons
  obtain ⟨_, third, moved⟩ := moved.uncons
  have rest := value_settles (g := fun value => .branch .declaration [leafOf name, value]) reads
    terminated moved ends
  exact Settles.congr ((discard_expect_settles first isVar).bind
    ((Settles.const (expect_settles second isName)).bind
      ((discard_expect_settles third isSign).bind rest))) fun _ => rfl

theorem print_settles {last : List Token} {keyword opening closing : Token}
    (isPrint : keyword.kind = .kwPrint) (opens : opening.kind = .openParen)
    (reads : ReadsValue (fun room => expression (f room)) ts n)
    (closes : closing.kind = .closeParen) (terminated : Terminator atEnd last)
    (moved : c.Passes (keyword :: (opening :: (ts ++ [closing]) ++ last)) c')
    (ends : atEnd = true → c'.current.kind = .endOfInput) :
    Settles (fun room => statement (f room + 2)) c (.branch .print [n]) c' := by
  have selects : ∀ room, c.current.kind = keyword.kind →
      statement (room + 1) c = printStatement room c :=
    fun room kind => by simp [statement_run, kind, isPrint]
  refine selected_settles (f := fun room => f room + 1) moved ?_ selects
  obtain ⟨_, first, moved⟩ := moved.uncons
  obtain ⟨_, inner, moved⟩ := moved.split
  obtain ⟨_, second, inner⟩ := inner.uncons
  obtain ⟨_, inner, third⟩ := inner.split
  have noLevel := level_of_passes third (by simp [closes, Kind.level?])
  obtain ⟨ended, -⟩ := terminator_settles terminated moved ends
  exact Settles.congr ((discard_expect_settles first isPrint).bind
    ((discard_expect_settles second opens).bind ((reads inner noLevel).bind
      ((discard_expect_settles third closes).bind ((Settles.const ended).bind_done _)))))
    fun _ => rfl

theorem assignment_settles {last : List Token} {name sign : Token}
    (isName : name.kind = .identifier) (isSign : sign.kind = .assign)
    (reads : ReadsValue (fun room => expression (f room)) ts n)
    (terminated : Terminator atEnd last) (moved : c.Passes (name :: sign :: (ts ++ last)) c')
    (ends : atEnd = true → c'.current.kind = .endOfInput) :
    Settles (fun room => statement (f room + 1)) c (.branch .assignment [leafOf name, n]) c' := by
  obtain ⟨_, first, moved⟩ := moved.uncons
  obtain ⟨_, second, moved⟩ := moved.uncons
  have follows : c.after ≠ [] := by cases first; assumption
  obtain ⟨rfl, rfl⟩ := passes_single first
  obtain ⟨rfl, rfl⟩ := passes_single second
  have rest := value_settles (g := fun value => .branch .assignment [leafOf c.current, value])
    reads terminated moved ends
  refine rest.congr fun room => ?_
  rw [statement_run]
  simp only [isName, following_eq follows, isSign, reduceCtorEq, if_false, List.mem_cons,
    List.not_mem_nil, or_self, and_self, if_true]
  rfl

theorem kind_ne_assign {level : Nat} (phrase : Expression level ts n) :
    ∀ t ∈ ts, t.kind ≠ .assign := by
  induction phrase with
  | tighter _ ih => exact ih
  | binary operator _ _ ihl ihr =>
    intro t member sign
    rcases List.mem_append.mp member with inLeft | inRest
    · exact ihl t inLeft sign
    rcases List.mem_cons.mp inRest with rfl | inRight
    · have isLevel := mem_operatorsAt_iff.mp operator
      simp [sign, Kind.level?] at isLevel
    · exact ihr t inRight sign
  | unary operator _ ih =>
    intro t member sign
    rcases List.mem_cons.mp member with rfl | inRest
    · simp [sign, unaryOperators] at operator
    · exact ih t inRest sign
  | atom atom =>
    intro t member sign
    obtain rfl := List.mem_singleton.mp member
    simp [sign, atoms] at atom
  | parentheses opens _ closes ih =>
    intro t member sign
    simp only [List.mem_cons, List.mem_append, List.not_mem_nil, or_false] at member
    rcases member with rfl | inside | rfl
    · simp [opens] at sign
    · exact ih t inside sign
    · simp [closes] at sign

/-- The second token of an expression statement is not the sign of an assignment. -/
theorem following_ne_assign {last : List Token} (phrase : Expression 1 ts n)
    (terminated : Terminator atEnd last) (moved : c.Passes (ts ++ last) c')
    (ends : atEnd = true → c'.current.kind = .endOfInput) : c.following.kind ≠ .assign := by
  obtain ⟨mid, inner, moved⟩ := moved.split
  obtain ⟨t, rest, rfl, -⟩ := phrase.first
  obtain ⟨_, first, inner⟩ := inner.uncons
  have follows : c.after ≠ [] := by cases first; assumption
  obtain ⟨rfl, rfl⟩ := passes_single first
  rw [following_eq follows]
  cases rest with
  | nil =>
    obtain rfl := inner.eq_of_nil
    have ended := (terminator_settles terminated moved ends).1
    intro sign
    simp [terminator_run, sign] at ended
  | cons u rest =>
    obtain ⟨_, second, -⟩ := inner.uncons
    rw [(passes_single second).1]
    exact kind_ne_assign phrase u (by simp)

theorem expressionStatement_settles {last : List Token} (phrase : Expression 1 ts n)
    (reads : ReadsValue (fun room => expression (f room)) ts n)
    (terminated : Terminator atEnd last) (moved : c.Passes (ts ++ last) c')
    (ends : atEnd = true → c'.current.kind = .endOfInput) :
    Settles (fun room => statement (f room + 1)) c (.branch .expression [n]) c' := by
  have rest := value_settles (g := fun value => .branch .expression [value])
    reads terminated moved ends
  have follows := following_ne_assign phrase terminated moved ends
  obtain ⟨t, ts, rfl, starts⟩ := phrase.first
  obtain ⟨_, first, -⟩ := moved.uncons
  obtain ⟨rfl, -⟩ := passes_single first
  refine rest.congr fun room => ?_
  rw [statement_run]
  generalize c.current.kind = kind at starts
  simp only [expressionStarts, unaryOperators, atoms, List.cons_append, List.nil_append,
    List.mem_cons, List.not_mem_nil, or_false] at starts
  rcases starts with rfl | rfl | rfl | rfl | rfl | rfl <;> simp [follows]

/-- How the rule for blocks reads a phrase. -/
abbrev ReadsBlock (ts : List Token) (n : Node) : Prop :=
  ∀ {c c' : Cursor}, c.Passes ts c' → Settles block c n c'

variable {us : List Token} {keyword : Token} {body : Node}

theorem conditional_settles (isIf : keyword.kind = .kwIf) (test : Parenthesized ts n)
    (reads : ReadsBlock us body) (moved : c.Passes (keyword :: (ts ++ us)) c')
    (noElse : c'.current.kind ≠ .kwElse) :
    Settles conditional c (.branch .conditional [n, body]) c' := by
  obtain ⟨_, first, moved⟩ := moved.uncons
  obtain ⟨_, tested, moved⟩ := moved.split
  have accepted := accept_run [.kwElse] c'
  rw [if_neg (by simpa using noElse)] at accepted
  have rest : Settles (fun room => do
      if ← accept [.kwElse] then
        let alternative ← block room
        return .branch .conditional [n, body, alternative]
      else
        return .branch .conditional [n, body]) c' (Node.branch .conditional [n, body]) c' :=
    (Settles.const accepted).bind (.done _ _)
  exact Settles.enter ((discard_expect_settles first isIf).bind
    ((condition_settles test tested).bind ((reads moved).bind rest))) fun _ => rfl

theorem alternative_settles {vs : List Token} {other : Token} {alternative : Node}
    (isIf : keyword.kind = .kwIf) (test : Parenthesized ts n) (reads : ReadsBlock us body)
    (isElse : other.kind = .kwElse) (readsOther : ReadsBlock vs alternative)
    (moved : c.Passes (keyword :: (ts ++ (us ++ other :: vs))) c') :
    Settles conditional c (.branch .conditional [n, body, alternative]) c' := by
  obtain ⟨_, first, moved⟩ := moved.uncons
  obtain ⟨_, tested, moved⟩ := moved.split
  obtain ⟨mid, inner, moved⟩ := moved.split
  obtain ⟨_, second, moved⟩ := moved.uncons
  obtain ⟨rfl, rfl⟩ := passes_single second
  have accepted := accept_run [.kwElse] mid
  rw [if_pos (by simp [isElse])] at accepted
  exact Settles.enter ((discard_expect_settles first isIf).bind
    ((condition_settles test tested).bind
      ((reads inner).bind ((Settles.const accepted).bind (readsOther moved).bind_pure))))
    fun _ => rfl

theorem loop_settles (isWhile : keyword.kind = .kwWhile) (test : Parenthesized ts n)
    (reads : ReadsBlock us body) (moved : c.Passes (keyword :: (ts ++ us)) c') :
    Settles loop c (.branch .loop [n, body]) c' := by
  obtain ⟨_, first, moved⟩ := moved.uncons
  obtain ⟨_, tested, moved⟩ := moved.split
  exact Settles.enter ((discard_expect_settles first isWhile).bind
    ((condition_settles test tested).bind (reads moved).bind_pure)) fun _ => rfl

/-- How a rule for statements reads a list of them: up to the brace that closes its block, or to the
    end. -/
abbrev ReadsStatements (rule : Nat → ParseM Node) (atEnd : Bool) (ts : List Token)
    (ns : List Node) : Prop :=
  ∀ {c c' : Cursor} (stop : Kind) (rounds : List Token), c.Passes ts c' →
    (atEnd = true → c'.current.kind = .endOfInput) →
    c'.current.kind = stop → stop = .closeBrace ∨ stop = .endOfInput →
    c.after.length ≤ rounds.length →
    Settles (fun room => statementsUpTo stop (rule room) rounds) c ns c'

variable {ns : List Node} {rule : Nat → ParseM Node}

theorem block_settles {opening closing : Token} (opens : opening.kind = .openBrace)
    (reads : ReadsStatements statement false ts ns) (closes : closing.kind = .closeBrace) :
    ReadsBlock (opening :: (ts ++ [closing])) (.branch .block ns) := by
  intro c c' moved
  obtain ⟨_, first, moved⟩ := moved.uncons
  obtain ⟨mid, inner, last⟩ := moved.split
  have there : mid.current.kind = .closeBrace := by rw [(passes_single last).1, closes]
  have list := reads .closeBrace _ inner (by simp) there (.inl rfl) (Nat.le_refl _)
  have read : Settles (fun room => statements room .closeBrace) _ ns mid :=
    list.enter fun _ => rfl
  exact Settles.enter ((discard_expect_settles first opens).bind
    (read.bind ((discard_expect_settles last closes).bind_done _))) fun _ => rfl

theorem statementsUpTo_stops {stop : Kind} {rule : ParseM Node}
    (stops : c.current.kind = stop ∨ c.current.kind = .endOfInput) (rounds : List Token) :
    statementsUpTo stop rule rounds c = .ok [] c := by
  cases rounds with
  | nil => rfl
  | cons _ rounds =>
    rw [statementsUpTo, bind_ok (check_run _ c), if_pos (by simpa using stops)]
    rfl

theorem reads_nil : ReadsStatements rule atEnd [] [] := by
  intro c c' stop rounds moved _ there _ _
  obtain rfl := moved.eq_of_nil
  exact ⟨0, fun _ _ => statementsUpTo_stops (.inl there) rounds⟩

theorem reads_empty (semicolon : t.kind = .semicolon) (reads : ReadsStatements rule atEnd ts ns) :
    ReadsStatements rule atEnd (t :: ts) ns := by
  intro c c' stop rounds moved ends there stops enough
  have shorter := moved.length_after
  obtain ⟨_, first, moved⟩ := moved.uncons
  have shorter' := moved.length_after
  obtain ⟨rfl, rfl⟩ := passes_single first
  cases rounds with
  | nil =>
    simp only [List.length_cons, List.length_nil] at shorter enough
    omega
  | cons _ rounds =>
    simp only [List.length_cons] at shorter enough
    have list := reads stop rounds moved ends there stops (by omega)
    refine list.congr fun room => ?_
    have accepted := accept_run [.semicolon] c
    rw [if_pos (by simp [semicolon])] at accepted
    have goes : ¬([stop, .endOfInput].contains c.current.kind = true) := by
      rcases stops with rfl | rfl <;> simp [semicolon]
    rw [statementsUpTo, bind_ok (check_run _ c), if_neg goes, bind_ok accepted, if_pos rfl]

theorem reads_cons (phrase : Statement (atEnd && us.isEmpty) ts n)
    (first : ∀ {c c' : Cursor}, c.Passes ts c' →
      ((atEnd && us.isEmpty) = true → c'.current.kind = .endOfInput) →
      c'.current.kind ≠ .kwElse → Settles rule c n c')
    (list : Statements atEnd us ns) (reads : ReadsStatements rule atEnd us ns) :
    ReadsStatements rule atEnd (ts ++ us) (n :: ns) := by
  intro c c' stop rounds moved ends there stops enough
  obtain ⟨mid, head, tail⟩ := moved.split
  have noElse : mid.current.kind ≠ .kwElse := by
    cases us with
    | nil =>
      obtain rfl := tail.eq_of_nil
      rcases stops with rfl | rfl <;> simp [there]
    | cons u us =>
      obtain ⟨_, second, -⟩ := tail.uncons
      have starts := list.first
      rw [← (passes_single second).1] at starts
      intro isElse
      simp [isElse, statementStarts, expressionStarts, unaryOperators, atoms] at starts
  have flag : (atEnd && us.isEmpty) = true → mid.current.kind = .endOfInput := by
    intro last
    simp only [Bool.and_eq_true, List.isEmpty_iff] at last
    obtain ⟨last, rfl⟩ := last
    obtain rfl := tail.eq_of_nil
    exact ends last
  have read := first head flag noElse
  have shorter := head.length_after
  obtain ⟨t, ts, rfl, starts⟩ := phrase.first
  obtain ⟨_, token, -⟩ := head.uncons
  obtain ⟨rfl, -⟩ := passes_single token
  cases rounds with
  | nil =>
    simp only [List.length_cons, List.length_nil] at shorter enough
    omega
  | cons _ rounds =>
    simp only [List.length_cons] at shorter enough
    have enough : mid.after.length ≤ rounds.length := by omega
    have rest := reads stop rounds tail ends there stops enough
    have both : Settles (fun room => do
        let first ← rule room
        let rest ← statementsUpTo stop (rule room) rounds
        return first :: rest) c (n :: ns) c' := read.bind rest.bind_pure
    refine both.congr fun room => ?_
    have others : c.current.kind ≠ .closeBrace ∧ c.current.kind ≠ .endOfInput ∧
        c.current.kind ≠ .semicolon := by
      revert starts
      cases c.current.kind <;> decide
    have accepted := accept_run [.semicolon] c
    rw [if_neg (by simp [others.2.2])] at accepted
    have goes : ¬([stop, .endOfInput].contains c.current.kind = true) := by
      rcases stops with rfl | rfl <;> simp [others]
    rw [statementsUpTo, bind_ok (check_run _ c), if_neg goes, bind_ok accepted, if_neg (by simp)]

mutual

theorem statement_settles : ∀ {atEnd ts n}, Statement atEnd ts n →
    ∀ {c c' : Cursor}, c.Passes ts c' → (atEnd = true → c'.current.kind = .endOfInput) →
      c'.current.kind ≠ .kwElse → Settles statement c n c'
  | _, _, _, .declaration isVar isName isSign value terminated, _, _, moved, ends, _ =>
    (declaration_settles isVar isName isSign (expression_settles value) terminated moved
      ends).shift.shift
  | _, _, _, .print isPrint (.intro opens value closes) terminated, _, _, moved, ends, _ =>
    (print_settles isPrint opens (expression_settles value) closes terminated moved
      ends).shift.shift
  | _, _, _, .conditional isIf test body, _, _, moved, _, noElse =>
    (selected_settles moved (conditional_settles isIf test (reads_block body) moved noElse)
      fun room kind => by simp [statement_run, kind, isIf]).shift
  | _, _, _, .alternative isIf test body isElse other, _, _, moved, _, _ =>
    (selected_settles moved
      (alternative_settles isIf test (reads_block body) isElse (reads_block other) moved)
      fun room kind => by simp [statement_run, kind, isIf]).shift
  | _, _, _, .loop isWhile test body, _, _, moved, _, _ =>
    (selected_settles moved (loop_settles isWhile test (reads_block body) moved)
      fun room kind => by simp [statement_run, kind, isWhile]).shift
  | _, _, _, .assignment isName isSign value terminated, _, _, moved, ends, _ =>
    (assignment_settles isName isSign (expression_settles value) terminated moved ends).shift
  | _, _, _, .expression value terminated, _, _, moved, ends, _ =>
    (expressionStatement_settles value (expression_settles value) terminated moved ends).shift

theorem reads_statements : ∀ {atEnd ts ns}, Statements atEnd ts ns →
    ReadsStatements statement atEnd ts ns
  | _, _, _, .nil => reads_nil
  | _, _, _, .empty semicolon rest => reads_empty semicolon (reads_statements rest)
  | _, _, _, .cons first rest =>
    reads_cons first (statement_settles first) rest (reads_statements rest)

theorem reads_block : ∀ {ts n}, Block ts n → ReadsBlock ts n
  | _, _, .intro opens body closes => block_settles opens (reads_statements body) closes

end

/-! ## Programs -/

/-- The tokens of a program make the rule for its statements settle on its tree. -/
theorem program_settles {tokens : List Token} {tree : Node}
    (phrase : Program (beforeEnd tokens) tree) :
    ∃ ns c', tree = .branch .program ns ∧
      Settles (fun room => statements room .endOfInput) (.ofTokens tokens) ns c' := by
  obtain ⟨list⟩ := phrase
  obtain ⟨c', moved, ends⟩ := (Cursor.ofTokens_closed tokens).passes_beforeEnd
  rw [Cursor.ofTokens_tokens, Cursor.beforeEnd_close] at moved
  have read := reads_statements list .endOfInput _ moved (fun _ => ends) ends (.inr rfl)
    (Nat.le_refl _)
  exact ⟨_, c', rfl, read.enter fun _ => rfl⟩

theorem parse_of_program {tokens : List Token} {tree : Node}
    (phrase : Program (beforeEnd tokens) tree) :
    parse tokens = .ok tree ∨ ∃ found, parse tokens = .error (.tooDeep found) := by
  obtain ⟨ns, c', rfl, least, read⟩ := program_settles phrase
  have wide := read (max least depthLimit) (by omega)
  unfold parse program
  rcases statements_widens .endOfInput (Nat.le_max_right least depthLimit) (.ofTokens tokens) with
    same | ⟨there, refused⟩
  · left
    rw [bind_ok (same.symm.trans wide)]
    rfl
  · right
    exact ⟨there.current, by rw [bind_error refused]⟩

/-- Parsing accepts exactly the programs of the grammar and gives their trees: what it accepts is a
    program with that tree, a program is accepted with its tree unless it is nested too deeply, and
    no tokens are programs with two trees. -/
theorem parse_accepts_exactly_programs (tokens : List Token) (tree : Node) :
    (parse tokens = .ok tree → Program (beforeEnd tokens) tree) ∧
    (Program (beforeEnd tokens) tree →
      parse tokens = .ok tree ∨ ∃ found, parse tokens = .error (.tooDeep found)) ∧
    (∀ other, Program (beforeEnd tokens) tree → Program (beforeEnd tokens) other →
      other = tree) := by
  refine ⟨program_of_parse, parse_of_program, ?_⟩
  intro other first second
  obtain ⟨ns, _, rfl, settles⟩ := program_settles first
  obtain ⟨ns', _, rfl, settles'⟩ := program_settles second
  rw [settles.unique settles']

end BraceScript.Grammar
