import BraceScript.Proofs.Eval.Actions
import BraceScript.Proofs.Node.Leaves

/-!
# Two runs side by side

A *coupling* relates the runs of a program and of the same program with its leaves changed, possibly
with other settings and from another state. It says when two states agree, and that each action of
one run keeps the agreement with its counterpart in the other. Then the runs of whole programs give
the same values, and halt together and for the same reason, at places that are moved as the leaves
are. After a halt that is excused nothing more is compared.

States agree at a depth, which is the number of blocks that have been entered: a block is run one
level deeper, and leaving it gives the agreement of its own level again. A coupling says for each
depth which names may be declared there.
-/

namespace BraceScript

/-- A halt whose place, if it has one, is moved. -/
def Halt.moved (move : Position → Position) : Halt → Halt
  | fault cause place => fault cause (place.map move)
  | tooDeep => tooDeep
  | outOfFuel => outOfFuel

theorem Halt.moved_id (reason : Halt) : reason.moved (fun p => p) = reason := by
  cases reason with
  | fault cause place => simp [moved]
  | tooDeep => rfl
  | outOfFuel => rfl

/-! ## Declarations and depths -/

namespace Node

mutual

/-- The names that a tree at a depth declares are allowed there; those of a block are one deeper. -/
def Allows (allowed : Nat → Leaf → Prop) : Nat → Node → Prop
  | depth, branch .declaration (leaf l :: _) => allowed depth l
  | depth, branch .block children => ForestAllows allowed (depth + 1) children
  | depth, branch _ children => ForestAllows allowed depth children
  | _, leaf _ => True

/-- The names that several trees at a depth declare are allowed. -/
def ForestAllows (allowed : Nat → Leaf → Prop) : Nat → List Node → Prop
  | _, [] => True
  | depth, n :: rest => Allows allowed depth n ∧ ForestAllows allowed depth rest

end

variable {allowed : Nat → Leaf → Prop} {depth : Nat} {ns : List Node}

theorem forestAllows_iff : ForestAllows allowed depth ns ↔ ∀ n ∈ ns, n.Allows allowed depth := by
  induction ns with
  | nil => simp [ForestAllows]
  | cons n ns ih => simp [ForestAllows, ih]

mutual

/-- Names that are allowed at a depth and at all greater ones are allowed wherever they are
    declared. -/
theorem allows_of_leaves : ∀ (n : Node) (depth : Nat),
    (∀ l ∈ n.leaves, ∀ deeper ≥ depth, allowed deeper l) → n.Allows allowed depth
  | leaf _, _, _ => by simp [Allows]
  | branch label children, depth, each => by
    unfold Allows
    split
    · next l rest same =>
      obtain ⟨-, rfl⟩ := branch.inj same
      exact each l (by simp [leaves, forestLeaves]) _ (Nat.le_refl _)
    · next same =>
      obtain ⟨-, rfl⟩ := branch.inj same
      refine forestAllows_of_leaves children _ fun l member deeper deep => ?_
      exact each l member deeper (Nat.le_of_succ_le deep)
    · next same =>
      obtain ⟨-, rfl⟩ := branch.inj same
      exact forestAllows_of_leaves children _ each
    · trivial

theorem forestAllows_of_leaves : ∀ (ns : List Node) (depth : Nat),
    (∀ l ∈ forestLeaves ns, ∀ deeper ≥ depth, allowed deeper l) → ForestAllows allowed depth ns
  | [], _, _ => trivial
  | n :: rest, depth, each => by
    obtain ⟨here, later⟩ := List.forall_mem_append.mp each
    exact ⟨allows_of_leaves n depth here, forestAllows_of_leaves rest depth later⟩

end

end Node

namespace Eval

open Phrase Node

/-! ## Actions side by side -/

/-- Two results are alike: they have the same value, or halt for the same reason at places that
    correspond, and their states agree, after a value in one way and after a halt in another; or one
    of them is excused. -/
inductive Alike {α : Type} (move : Position → Position) (excused : Halt → Prop)
    (agree halted : Machine → Machine → Prop) :
    EStateM.Result Halt Machine α → EStateM.Result Halt Machine α → Prop
  | value {a : α} {m m' : Machine} :
    agree m m' → Alike move excused agree halted (.ok a m) (.ok a m')
  | halt {reason : Halt} {m m' : Machine} :
    halted m m' → Alike move excused agree halted (.error reason m) (.error (reason.moved move) m')
  | left {reason : Halt} {m : Machine} {result : EStateM.Result Halt Machine α} :
    excused reason → Alike move excused agree halted (.error reason m) result
  | right {reason : Halt} {m : Machine} {result : EStateM.Result Halt Machine α} :
    excused reason → Alike move excused agree halted result (.error reason m)

namespace Alike

variable {α β : Type} {move : Position → Position} {excused : Halt → Prop}
  {agree halted : Machine → Machine → Prop} {x y : EvalM α} {m m' : Machine}

theorem mono {agree' halted' : Machine → Machine → Prop}
    {result result' : EStateM.Result Halt Machine α}
    (alike : Alike move excused agree halted result result')
    (values : ∀ m m', agree m m' → agree' m m') (halts : ∀ m m', halted m m' → halted' m m') :
    Alike move excused agree' halted' result result' := by
  cases alike with
  | value after => exact .value (values _ _ after)
  | halt after => exact .halt (halts _ _ after)
  | left allowed => exact .left allowed
  | right allowed => exact .right allowed

/-- Results that are alike with nothing moved or excused and equal states are equal. -/
theorem eq {result result' : EStateM.Result Halt Machine α}
    (alike : Alike (fun p => p) (fun _ => False) (fun m m' => m' = m) (fun m m' => m' = m)
      result result') : result' = result := by
  cases alike with
  | value same => rw [same]
  | @halt reason _ _ same => rw [same, reason.moved_id]
  | left excused => exact excused.elim
  | right excused => exact excused.elim

theorem bind {last : Machine → Machine → Prop} {f g : α → EvalM β}
    (first : Alike move excused agree halted (x m) (y m'))
    (second : ∀ a m m', agree m m' → Alike move excused last halted (f a m) (g a m')) :
    Alike move excused last halted ((x >>= f) m) ((y >>= g) m') := by
  simp only [Bind.bind, EStateM.bind]
  generalize x m = result at first
  generalize y m' = result' at first
  cases first with
  | value after => exact second _ _ _ after
  | halt after => exact .halt after
  | left allowed => exact .left allowed
  | right allowed => exact .right allowed

theorem discard (alike : Alike move excused agree halted (x m) (y m')) :
    Alike move excused agree halted (Functor.discard x m) (Functor.discard y m') := by
  rw [Outcome.discard_eq_bind, Outcome.discard_eq_bind]
  exact alike.bind fun _ _ _ after => .value after

/-- Faults get places that correspond when the places of the two trees do. -/
theorem located {place : Node → Option Position} {n n' : Node}
    (alike : Alike move excused agree halted (x m) (y m'))
    (moved : place n' = (place n).map move)
    (placed : ∀ cause found, excused (.fault cause none) → excused (.fault cause found)) :
    Alike move excused agree halted (locating place n x m) (locating place n' y m') := by
  unfold locating
  generalize x m = result at alike
  generalize y m' = result' at alike
  cases alike with
  | value after => exact .value after
  | @halt reason _ _ after =>
    match reason with
    | .fault cause none =>
      show Alike _ _ _ _ (.error (.fault cause (place n)) _) (.error (.fault cause (place n')) _)
      rw [moved]
      exact .halt after
    | .fault cause (some found) => exact .halt after
    | .tooDeep => exact .halt after
    | .outOfFuel => exact .halt after
  | @left reason _ _ allowed =>
    match reason with
    | .fault cause none => exact .left (placed _ _ allowed)
    | .fault cause (some found) => exact .left allowed
    | .tooDeep => exact .left allowed
    | .outOfFuel => exact .left allowed
  | @right reason _ _ allowed =>
    match reason with
    | .fault cause none => exact .right (placed _ _ allowed)
    | .fault cause (some found) => exact .right allowed
    | .tooDeep => exact .right allowed
    | .outOfFuel => exact .right allowed

end Alike

/-- From states that agree, two actions have results that are alike and agree in the same way. -/
def Simulates {α : Type} (move : Position → Position) (excused : Halt → Prop)
    (agree : Machine → Machine → Prop) (x y : EvalM α) : Prop :=
  ∀ m m', agree m m' → Alike move excused agree agree (x m) (y m')

namespace Simulates

variable {α β : Type} {move : Position → Position} {excused : Halt → Prop}
  {agree : Machine → Machine → Prop} {x y : EvalM α}

theorem value (a : α) : Simulates move excused agree (pure a) (pure a) :=
  fun _ _ before => .value before

/-- An action does the same as itself. -/
theorem refl (x : EvalM α) : Simulates (fun p => p) excused (fun m m' => m' = m) x x := by
  rintro _ m rfl
  cases x m with
  | ok a m => exact .value rfl
  | error reason m =>
    have same : Alike (fun p => p) excused (fun m m' : Machine => m' = m) (fun m m' => m' = m)
        (.error reason m : EStateM.Result Halt Machine α)
        (.error (reason.moved fun p => p) m) := .halt rfl
    rwa [reason.moved_id] at same

theorem halt (reason : Halt) :
    Simulates move excused agree (throw reason : EvalM α) (throw (reason.moved move)) :=
  fun _ _ before => .halt before

theorem fault (cause : Fault) :
    Simulates move excused agree (fail cause : EvalM α) (fail cause) :=
  halt (.fault cause none)

theorem bind {f g : α → EvalM β} (first : Simulates move excused agree x y)
    (second : ∀ a, Simulates move excused agree (f a) (g a)) :
    Simulates move excused agree (x >>= f) (y >>= g) :=
  fun m m' before => (first m m' before).bind second

theorem discard (simulates : Simulates move excused agree x y) :
    Simulates move excused agree (Functor.discard x) (Functor.discard y) :=
  fun m m' before => (simulates m m' before).discard

theorem ite {p : Prop} [Decidable p] {x' y' : EvalM α} (yes : Simulates move excused agree x y)
    (no : Simulates move excused agree x' y') :
    Simulates move excused agree (if p then x else x') (if p then y else y') := by
  split
  · exact yes
  · exact no

theorem enough (units room : Nat) :
    Simulates move excused agree (demand units room) (demand units room) :=
  ite (halt .tooDeep) (value ())

theorem result (outcome : Except Fault α) :
    Simulates move excused agree (lift outcome) (lift outcome) := by
  cases outcome with
  | ok a => exact value a
  | error cause => exact fault cause

theorem located {place : Node → Option Position} {n n' : Node}
    (simulates : Simulates move excused agree x y) (moved : place n' = (place n).map move)
    (placed : ∀ cause found, excused (.fault cause none) → excused (.fault cause found)) :
    Simulates move excused agree (locating place n x) (locating place n' y) :=
  fun m m' before => (simulates m m' before).located moved placed

/-- Blocks with frames of their own: dropping these gives the agreement of the states outside. -/
theorem inBlock {left right : Settings} {inner last : Machine → Machine → Prop} {x y : EvalM Unit}
    (framed : left.blockScoped = true) (framed' : right.blockScoped = true)
    (opens : ∀ m m', agree m m' →
      inner { m with scope := [] :: m.scope } { m' with scope := [] :: m'.scope })
    (closes : ∀ m m', last m m' →
      agree { m with scope := m.scope.tail } { m' with scope := m'.scope.tail })
    (inside : ∀ m m', inner m m' → Alike move excused last last (x m) (y m')) :
    Simulates move excused agree (Eval.inBlock left x) (Eval.inBlock right y) := by
  intro m m' before
  have outcome := inside _ _ (opens m m' before)
  rw [inBlock_framed framed, inBlock_framed framed']
  generalize x { m with scope := [] :: m.scope } = result at outcome
  generalize y { m' with scope := [] :: m'.scope } = result' at outcome
  cases outcome with
  | value after => exact .value (closes _ _ after)
  | halt after => exact .halt (closes _ _ after)
  | left allowed => exact .left allowed
  | right allowed => exact .right allowed

end Simulates

/-! ## Expressions -/

/-- How two runs evaluate expressions side by side: they find the same value for a name that fits
    and for the name it is changed to. -/
structure Reading where
  change : LeafChange
  fits : Leaf → Prop
  excused : Halt → Prop
  agree : Machine → Machine → Prop
  excused_placed : ∀ cause place, excused (.fault cause none) → excused (.fault cause place)
  lookup : ∀ l, fits l → l.kind = .token .identifier → ∀ room,
    Simulates change.move excused agree (lookup room l.text) (lookup room (change.apply l).text)

variable {left right : Settings} {room : Nat} {n : Node} {ns : List Node}

namespace Reading

/-- Two actions go side by side. -/
def Couples {α : Type} (ρ : Reading) (x y : EvalM α) : Prop :=
  Simulates ρ.change.move ρ.excused ρ.agree x y

/-- The expressions that fit are evaluated side by side with some room. -/
def Evaluates (ρ : Reading) (left right : Settings) (room : Nat) : Prop :=
  ∀ n, IsExpression n → (∀ l ∈ n.leaves, ρ.fits l) →
    ρ.Couples (eval left room n) (eval right room (n.changed ρ.change))

variable {ρ : Reading}

theorem leaf {l : Leaf} (shaped : IsLeaf atoms (.leaf l)) (fit : ρ.fits l) :
    ρ.Couples (evalLeaf room l) (evalLeaf room (ρ.change.apply l)) := by
  have kind := ρ.change.kind_apply l
  have text := ρ.change.text_apply l
  have read := ρ.lookup l fit
  obtain ⟨isAtom, -⟩ := shaped
  refine .bind (.enough 1 room) fun _ => ?_
  rw [kind]
  simp only [atoms, List.mem_cons, List.not_mem_nil, or_false] at isAtom
  rcases isAtom with rfl | rfl | rfl
  · rw [text (by simp)]
    refine .bind (.enough 5 room) fun _ => ?_
    cases Number.read? _ with
    | some x => exact .value _
    | none => exact .fault _
  · rw [text (by simp)]
    exact .bind (.enough 5 room) fun _ => .value _
  · exact read rfl _

/-- Operators are applied to the same values, since their leaves keep their texts. -/
theorem foldOperators (evaluates : ρ.Evaluates left right room) {operations : List (List Node)}
    (shaped : ∀ o ∈ operations, IsOperation o)
    (fit : ∀ l ∈ operations.flatMap forestLeaves, ρ.fits l) (value : Value) :
    ρ.Couples (foldOperators left room (eval left room) value operations)
      (foldOperators right room (eval right room) value
        (operations.map (forestMap ρ.change.apply))) := by
  induction operations generalizing value with
  | nil => exact .value value
  | cons operation rest ih =>
    obtain ⟨⟨operator, right⟩, others⟩ := List.forall_mem_cons.mp shaped
    obtain ⟨isOperator, -⟩ := operator
    obtain ⟨here, later⟩ := List.forall_mem_append.mp fit
    have known := mem_operatorsAt_iff.mp isOperator
    have operand := evaluates _ right fun l member => here l (by simp [forestLeaves, member])
    refine .bind operand fun v => .bind (.located ?_ (position?_changed _) ρ.excused_placed)
      fun v' => ih others later v'
    rw [mapLeaves, operatorText, operatorText, ρ.change.text_apply]
    · exact .result _
    · rintro ⟨⟩
      simp [Kind.level?] at known

theorem unary (inside : ρ.Evaluates left right room) {op operand : Node}
    (operator : IsLeaf unaryOperators op) (shaped : IsExpression operand)
    (fit : ∀ l ∈ operand.leaves, ρ.fits l) :
    ρ.Couples (compound left (room + 2) .unary [op, operand])
      (compound right (room + 2) .unary (forestMap ρ.change.apply [op, operand])) := by
  obtain ⟨isOperator, -⟩ := operator
  refine .bind (inside _ shaped fit) fun v => ?_
  rw [ρ.change.text_apply]
  · exact .result _
  · rintro ⟨⟩
    simp [unaryOperators] at isOperator

theorem binary (inside : ρ.Evaluates left right room) {level : Nat} {l op r : Node}
    (operator : IsLeaf (operatorsAt level) op) (first : IsExpression l) (second : IsExpression r)
    (fit : ∀ leaf ∈ forestLeaves [l, op, r], ρ.fits leaf) :
    ρ.Couples (compound left (room + 2) .binary [l, op, r])
      (compound right (room + 2) .binary (forestMap ρ.change.apply [l, op, r])) := by
  have spine := spine_mapLeaves (f := ρ.change.apply) l [[op, r]]
  rw [List.map_singleton] at spine
  obtain ⟨start, operations⟩ := spine_shape first
    (List.forall_mem_singleton.mpr (IsOperation.intro operator second))
  have fitSpine : ∀ leaf ∈ (l.spine [[op, r]]).1.leaves ++
      (l.spine [[op, r]]).2.flatMap forestLeaves, ρ.fits leaf := by
    rw [leaves_spine]
    intro leaf member
    exact fit leaf (by simpa [forestLeaves] using member)
  obtain ⟨fitFirst, fitOthers⟩ := List.forall_mem_append.mp fitSpine
  rw [forestMap, compound_binary, compound_binary, spine]
  exact .bind (inside _ start fitFirst) fun v => foldOperators inside operations fitOthers v

/-- Expressions are evaluated side by side with any room: by induction on the room, since each rule
    evaluates its operands with less room. -/
theorem evaluates (ρ : Reading) (left right : Settings) (room : Nat) :
    ρ.Evaluates left right room := by
  induction room using Nat.strongRecOn with
  | ind room ih =>
    intro n shaped fit
    match room with
    | 0 => exact .halt .tooDeep
    | 1 => exact .located (.halt .tooDeep) (faultPosition?_changed n) ρ.excused_placed
    | room + 2 =>
      refine .located ?_ (faultPosition?_changed n) ρ.excused_placed
      cases shaped with
      | atom leaf =>
        obtain ⟨isAtom, lexeme⟩ := leaf
        exact Reading.leaf (.intro isAtom lexeme) (fit _ (by simp [leaves]))
      | unary operator operand =>
        match room with
        | 0 | 1 => exact .halt .tooDeep
        | room + 2 =>
          refine unary (ih room (by omega)) operator operand fun l member => fit l ?_
          simp [leaves, forestLeaves, member]
      | binary operator first second =>
        match room with
        | 0 | 1 => exact .halt .tooDeep
        | room + 2 => exact binary (ih room (by omega)) operator first second fit

end Reading

/-! ## Statements -/

/-- How two runs go side by side: from states that agree at a depth, each action of one leads to
    states that agree with those of its counterpart. -/
structure Coupling (left right : Settings) where
  change : LeafChange
  fits : Leaf → Prop
  allowed : Nat → Leaf → Prop
  excused : Halt → Prop
  agree : Nat → Machine → Machine → Prop
  recording : right.recording = left.recording
  rounds : right.loopFuel = left.loopFuel
  excused_placed : ∀ cause place, excused (.fault cause none) → excused (.fault cause place)
  poll : ∀ depth, Simulates change.move excused (agree depth) (poll left) (poll right)
  record : ∀ depth value,
    Simulates change.move excused (agree depth) (record value) (record value)
  lookup : ∀ depth l, fits l → l.kind = .token .identifier → ∀ room,
    Simulates change.move excused (agree depth) (lookup room l.text)
      (lookup room (change.apply l).text)
  define : ∀ depth l, fits l → allowed depth l → l.kind = .token .identifier → ∀ value,
    Simulates change.move excused (agree depth) (define l.text value)
      (define (change.apply l).text value)
  requireBound : ∀ depth l, fits l → l.kind = .token .identifier → ∀ room,
    Simulates change.move excused (agree depth) (requireBound room l.text)
      (requireBound room (change.apply l).text)
  assign : ∀ depth l, fits l → l.kind = .token .identifier → ∀ room value,
    Simulates change.move excused (agree depth) (assign room l.text value)
      (assign room (change.apply l).text value)
  inBlock : ∀ depth x y, Simulates change.move excused (agree (depth + 1)) x y →
    Simulates change.move excused (agree depth) (inBlock left x) (inBlock right y)

namespace Coupling

/-- Two actions go side by side at a depth. -/
def Couples {α : Type} (κ : Coupling left right) (depth : Nat) (x y : EvalM α) : Prop :=
  Simulates κ.change.move κ.excused (κ.agree depth) x y

/-- The expressions of a coupling at a depth. -/
def reading (κ : Coupling left right) (depth : Nat) : Reading where
  change := κ.change
  fits := κ.fits
  excused := κ.excused
  agree := κ.agree depth
  excused_placed := κ.excused_placed
  lookup := κ.lookup depth

/-- The statements that fit are run side by side with some room, at every depth. -/
def Runs (κ : Coupling left right) (room : Nat) : Prop :=
  ∀ depth n, IsStatement n → (∀ l ∈ n.leaves, κ.fits l) → n.Allows κ.allowed depth →
    κ.Couples depth (eval left room n) (eval right room (n.changed κ.change))

variable {κ : Coupling left right} {depth : Nat}

theorem expression (κ : Coupling left right) (depth room : Nat) (shaped : IsExpression n)
    (fit : ∀ l ∈ n.leaves, κ.fits l) :
    κ.Couples depth (eval left room n) (eval right room (n.changed κ.change)) :=
  (κ.reading depth).evaluates left right room n shaped fit

theorem runAll {run run' : Node → EvalM Value}
    (each : ∀ n ∈ ns, κ.Couples depth (run n) (run' (n.changed κ.change))) :
    κ.Couples depth (runAll left run ns) (runAll right run' (forestMap κ.change.apply ns)) := by
  induction ns with
  | nil => exact .value ()
  | cons n ns ih =>
    obtain ⟨first, others⟩ := List.forall_mem_cons.mp each
    exact .bind (κ.poll depth) fun _ => .bind (.discard first) fun _ => ih others

theorem runWhile {condition condition' : EvalM Value} {body body' : EvalM Unit}
    (conditions : κ.Couples depth condition condition') (bodies : κ.Couples depth body body')
    {rounds rounds' : Nat} (same : rounds' = rounds) :
    κ.Couples depth (runWhile left condition body rounds)
      (runWhile right condition' body' rounds') := by
  subst same
  induction rounds' with
  | zero => exact .halt .outOfFuel
  | succ rounds ih =>
    refine .bind (κ.poll depth) fun _ => .bind conditions fun v => ?_
    exact .ite (.bind bodies fun _ => ih) (.value ())

theorem statements (inside : ∀ less < room, κ.Runs less) (shaped : ∀ n ∈ ns, IsStatement n)
    (fit : ∀ l ∈ forestLeaves ns, κ.fits l) (allows : ForestAllows κ.allowed depth ns) :
    κ.Couples depth (statements left room ns)
      (statements right room (forestMap κ.change.apply ns)) := by
  match room with
  | 0 => exact .halt .tooDeep
  | room + 1 =>
    refine runAll fun n member => inside room (by omega) depth n (shaped n member) ?_
      (forestAllows_iff.mp allows n member)
    exact fun l found => fit l (mem_forestLeaves.mpr ⟨n, member, found⟩)

theorem block (inside : ∀ less < room, κ.Runs less) (shaped : ∀ n ∈ ns, IsStatement n)
    (fit : ∀ l ∈ forestLeaves ns, κ.fits l) (allows : ForestAllows κ.allowed (depth + 1) ns) :
    κ.Couples depth (block left room (.branch .block ns))
      (block right room (.branch .block (forestMap κ.change.apply ns))) := by
  match room with
  | 0 => exact .halt .tooDeep
  | room + 1 =>
    exact κ.inBlock depth _ _
      (statements (fun less below => inside less (by omega)) shaped fit allows)

theorem print (κ : Coupling left right) (shaped : IsExpression n)
    (fit : ∀ l ∈ n.leaves, κ.fits l) :
    κ.Couples depth (print left room n) (print right room (n.changed κ.change)) := by
  match room with
  | 0 => exact .halt .tooDeep
  | room + 1 =>
    refine .bind (κ.expression depth room shaped fit) fun v => ?_
    rw [κ.recording]
    exact .ite (κ.record depth v) (.fault _)

theorem conditional {test test' body body' : Node}
    (tests : κ.Couples depth (eval left room test) (eval right room test'))
    (bodies : κ.Couples depth (Eval.block left room body) (Eval.block right room body')) :
    κ.Couples depth (Eval.compound left (room + 2) .conditional [test, body])
      (Eval.compound right (room + 2) .conditional [test', body']) := by
  refine .bind tests fun v => .ite ?_ (.value _)
  exact .bind bodies fun _ => .value _

theorem alternative {test test' body body' other other' : Node}
    (tests : κ.Couples depth (eval left room test) (eval right room test'))
    (bodies : κ.Couples depth (Eval.block left room body) (Eval.block right room body'))
    (others : κ.Couples depth (Eval.block left room other) (Eval.block right room other')) :
    κ.Couples depth (Eval.compound left (room + 2) .conditional [test, body, other])
      (Eval.compound right (room + 2) .conditional [test', body', other']) := by
  refine .bind tests fun v => .ite ?_ ?_
  · exact .bind bodies fun _ => .value _
  · exact .bind others fun _ => .value _

theorem loop {test test' : Node} {body body' : List Node}
    (tests : κ.Couples depth (eval left room test) (eval right room test'))
    (bodies : κ.Couples depth (Eval.block left room (.branch .block body))
      (Eval.block right room (.branch .block body'))) :
    κ.Couples depth (Eval.compound left (room + 2) .loop [test, .branch .block body])
      (Eval.compound right (room + 2) .loop [test', .branch .block body']) :=
  .bind (runWhile tests bodies κ.rounds) fun _ => .value _

/-- The statements whose rules take two units. -/
theorem compound (inside : ∀ less < room, κ.Runs less) {label : Label}
    (compounds : label ∈ [.declaration, .assignment, .conditional, .loop])
    (shaped : IsStatement (.branch label ns)) (fit : ∀ l ∈ forestLeaves ns, κ.fits l)
    (allows : (branch label ns).Allows κ.allowed depth) :
    κ.Couples depth (compound left room label ns)
      (compound right room label (forestMap κ.change.apply ns)) := by
  match room with
  | 0 | 1 => exact .halt .tooDeep
  | room + 2 =>
    have below : ∀ less < room, κ.Runs less := fun less _ => inside less (by omega)
    cases shaped with
    | declaration name value =>
      obtain ⟨l, rfl, isName⟩ := name.identifier
      simp only [forestLeaves, leaves, List.cons_append, List.nil_append, List.append_nil,
        List.forall_mem_cons] at fit
      rw [compound_declaration _ _ isName, forestMap, mapLeaves, forestMap, forestMap,
        compound_declaration _ _ (by rw [κ.change.kind_apply, isName])]
      refine .bind (κ.expression depth room value fit.2) fun v => ?_
      exact .bind (κ.define depth l fit.1 allows isName v) fun _ => .value _
    | assignment name value =>
      obtain ⟨l, rfl, isName⟩ := name.identifier
      simp only [forestLeaves, leaves, List.cons_append, List.nil_append, List.append_nil,
        List.forall_mem_cons] at fit
      rw [compound_assignment _ _ isName, forestMap, mapLeaves, forestMap, forestMap,
        compound_assignment _ _ (by rw [κ.change.kind_apply, isName])]
      refine .bind (κ.requireBound depth l fit.1 isName room) fun _ => ?_
      refine .bind (κ.expression depth room value fit.2) fun v => ?_
      exact .bind (κ.assign depth l fit.1 isName room v) fun _ => .value _
    | print => simp at compounds
    | expression => simp at compounds
    | conditional test body =>
      simp only [forestLeaves, leaves, List.append_nil, List.forall_mem_append] at fit
      simp only [Allows, ForestAllows] at allows
      exact conditional (κ.expression depth room test fit.1) (block below body fit.2 allows.2.1)
    | alternative test body other =>
      simp only [forestLeaves, leaves, List.append_nil, List.forall_mem_append] at fit
      simp only [Allows, ForestAllows] at allows
      exact alternative (κ.expression depth room test fit.1)
        (block below body fit.2.1 allows.2.1) (block below other fit.2.2 allows.2.2.1)
    | loop test body =>
      simp only [forestLeaves, leaves, List.append_nil, List.forall_mem_append] at fit
      simp only [Allows, ForestAllows] at allows
      exact loop (κ.expression depth room test fit.1) (block below body fit.2 allows.2.1)

theorem step (inside : ∀ less < room, κ.Runs less) (shaped : IsStatement n)
    (fit : ∀ l ∈ n.leaves, κ.fits l) (allows : n.Allows κ.allowed depth) :
    κ.Couples depth (step left room n) (step right room (n.changed κ.change)) := by
  match room with
  | 0 => exact .halt .tooDeep
  | room + 1 =>
    have below : ∀ less < room, κ.Runs less := fun less _ => inside less (by omega)
    rcases shaped.rule with ⟨value, shapedValue, rfl | rfl⟩ | ⟨label, ns, rfl, compounds⟩
    · simp only [leaves, forestLeaves, List.append_nil] at fit
      exact .bind (κ.print shapedValue fit) fun _ => .value _
    · simp only [leaves, forestLeaves, List.append_nil] at fit
      exact .bind (.discard (κ.expression depth room shapedValue fit)) fun _ => .value _
    · rw [step_compound _ _ _ compounds, changed, mapLeaves, step_compound _ _ _ compounds]
      exact compound below compounds shaped fit allows

/-- Statements are run side by side with any room: by induction on the room. -/
theorem runs (κ : Coupling left right) (room : Nat) : κ.Runs room := by
  induction room using Nat.strongRecOn with
  | ind room ih =>
    intro depth n shaped fit allows
    match room with
    | 0 => exact .halt .tooDeep
    | room + 1 =>
      refine .located ?_ (faultPosition?_changed n) κ.excused_placed
      exact step (fun less below => ih less (by omega)) shaped fit allows

/-- Programs are run side by side. -/
theorem program (κ : Coupling left right) (room : Nat) (shaped : IsProgram n)
    (fit : ∀ l ∈ n.leaves, κ.fits l) (allows : n.Allows κ.allowed 0) :
    κ.Couples 0 (eval left room n) (eval right room (n.changed κ.change)) := by
  obtain ⟨shaped⟩ := shaped
  match room with
  | 0 => exact .halt .tooDeep
  | room + 1 =>
    refine .located ?_ (faultPosition?_changed _) κ.excused_placed
    match room with
    | 0 => exact .halt .tooDeep
    | room + 1 =>
      simp only [Allows] at allows
      exact .bind (statements (fun less _ => κ.runs less) shaped fit allows) fun _ => .value _

end Coupling

end Eval

end BraceScript
