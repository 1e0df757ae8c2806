import BraceScript.Proofs.Eval.Expressions

/-!
# The moments of a run

A run polls the cancel signal before each statement of a program or of a block that it runs, and
before each test of the condition of a loop. The moments of a run are its states at these places, in
their order. They are listed by functions that follow the rules of evaluation.
-/

namespace BraceScript

/-- A place of a run at which the cancel signal is polled. -/
structure Moment where
  /-- The program, conditional or loop whose statements or rounds are run. -/
  site : Node
  /-- The statement that is run next, or the condition that is tested next. -/
  next : Node
  /-- How many blocks have a frame. -/
  depth : Nat
  /-- The state before the poll. -/
  state : Machine

namespace Node

/-- A tree is a part of a tree, or the tree itself. -/
inductive Within : Node → Node → Prop
  | refl (n : Node) : Within n n
  | inside {part n : Node} {label : Label} {ns : List Node} :
    n ∈ ns → Within part n → Within part (.branch label ns)

theorem within_leaf {part : Node} {l : Leaf} : Within part (leaf l) ↔ part = leaf l := by
  constructor
  · rintro ⟨⟩
    rfl
  · rintro rfl
    exact .refl _

theorem within_branch {part : Node} {label : Label} {ns : List Node} :
    Within part (branch label ns) ↔ part = branch label ns ∨ ∃ n ∈ ns, Within part n := by
  constructor
  · rintro (_ | ⟨member, within⟩)
    · exact .inl rfl
    · exact .inr ⟨_, member, within⟩
  · rintro (rfl | ⟨n, member, within⟩)
    · exact .refl _
    · exact .inside member within

theorem Within.trans {a b c : Node} (inner : Within a b) (outer : Within b c) : Within a c := by
  induction outer with
  | refl => exact inner
  | inside member _ ih => exact .inside member ih

theorem Within.leaves {part n : Node} {l : Leaf} (within : Within part n)
    (member : l ∈ part.leaves) : l ∈ n.leaves := by
  induction within with
  | refl => exact member
  | inside found _ ih => exact mem_leaves_branch.mpr ⟨_, found, ih⟩

end Node

namespace Moment

open Node

/-- The places at which a tree polls: before each statement of a program or of a block, and before
    each test of the condition of a loop. -/
inductive Polls : Node → Node → Prop
  | program {n : Node} {ns : List Node} : n ∈ ns → Polls (.branch .program ns) n
  | block {n : Node} {label : Label} {ns parts : List Node} :
    label ∈ [.conditional, .loop] → .branch .block ns ∈ parts → n ∈ ns →
    Polls (.branch label parts) n
  | condition {test : Node} {rest : List Node} : Polls (.branch .loop (test :: rest)) test

/-- A moment is one of the places at which a part of a tree polls. -/
structure IsOf (tree : Node) (moment : Moment) : Prop where
  within : Within moment.site tree
  polls : Polls moment.site moment.next

end Moment

namespace Eval

open Node

/-! ## The lists of moments -/

/-- The moments of an action, then those of what follows it if it succeeds. -/
def andThen {α : Type} (x : EvalM α) (first : Machine → List Moment)
    (second : α → Machine → List Moment) (m : Machine) : List Moment :=
  first m ++
    match x m with
    | .ok a m => second a m
    | .error _ _ => []

theorem andThen_ok {α : Type} {x : EvalM α} {first : Machine → List Moment}
    {second : α → Machine → List Moment} {m m' : Machine} {a : α} (outcome : x m = .ok a m') :
    andThen x first second m = first m ++ second a m' := by
  rw [andThen, outcome]

theorem andThen_error {α : Type} {x : EvalM α} {first : Machine → List Moment}
    {second : α → Machine → List Moment} {m m' : Machine} {reason : Halt}
    (outcome : x m = .error reason m') : andThen x first second m = first m := by
  rw [andThen, outcome, List.append_nil]

/-- What follows without moments adds none. -/
@[simp] theorem andThen_nil {α : Type} (x : EvalM α) (first : Machine → List Moment) :
    andThen x first (fun _ _ => []) = first := by
  funext m
  cases outcome : x m with
  | ok a m' => rw [andThen_ok outcome, List.append_nil]
  | error reason m' => rw [andThen_error outcome]

/-- The moments of statements that are run in order. -/
def listMoments (settings : Settings) (site : Node) (depth : Nat) (run : Node → EvalM Value)
    (inside : Node → Machine → List Moment) : List Node → Machine → List Moment
  | [] => fun _ => []
  | n :: rest =>
    andThen (poll settings) (fun m => [⟨site, n, depth, m⟩]) fun _ =>
      andThen (discard (run n)) (inside n) fun _ =>
        listMoments settings site depth run inside rest

/-- The moments of a loop. -/
def loopMoments (settings : Settings) (site test : Node) (depth : Nat) (condition : EvalM Value)
    (body : EvalM Unit) (inside : Machine → List Moment) : Nat → Machine → List Moment
  | 0 => fun _ => []
  | rounds + 1 =>
    andThen (poll settings) (fun m => [⟨site, test, depth, m⟩]) fun _ =>
      andThen condition (fun _ => []) fun v =>
        if v.isTrue then
          andThen body inside fun _ =>
            loopMoments settings site test depth condition body inside rounds
        else fun _ => []

/-- The moments of a block, which has a frame if the run is scoped. -/
def framedMoments (settings : Settings) (inside : Nat → Machine → List Moment) (depth : Nat)
    (m : Machine) : List Moment :=
  if settings.blockScoped then inside (depth + 1) { m with scope := [] :: m.scope }
  else inside depth m

@[simp] theorem framedMoments_nil (settings : Settings) (depth : Nat) :
    framedMoments settings (fun _ _ => []) depth = fun _ => [] := by
  funext m
  rw [framedMoments]
  split <;> rfl

mutual

/-- The moments inside a statement that is run at a depth. -/
def moments (settings : Settings) : Nat → Nat → Node → Machine → List Moment
  | room + 4, depth, .branch .conditional [test, body] =>
    andThen (eval settings room test) (fun _ => []) fun v =>
      if v.isTrue then
        blockMoments settings room depth (.branch .conditional [test, body]) body
      else fun _ => []
  | room + 4, depth, .branch .conditional [test, body, other] =>
    andThen (eval settings room test) (fun _ => []) fun v =>
      if v.isTrue then
        blockMoments settings room depth (.branch .conditional [test, body, other]) body
      else
        blockMoments settings room depth (.branch .conditional [test, body, other]) other
  | room + 4, depth, .branch .loop [test, .branch .block body] =>
    loopMoments settings (.branch .loop [test, .branch .block body]) test depth
      (eval settings room test) (block settings room (.branch .block body))
      (blockMoments settings room depth (.branch .loop [test, .branch .block body])
        (.branch .block body))
      settings.loopFuel
  | _, _, _ => fun _ => []

/-- The moments inside a block of a statement. -/
def blockMoments (settings : Settings) : Nat → Nat → Node → Node → Machine → List Moment
  | room + 2, depth, site, body =>
    framedMoments settings (fun depth =>
      listMoments settings site depth (eval settings room) (moments settings room depth)
        body.children) depth
  | _, _, _, _ => fun _ => []

end

/-- A statement without blocks has no moments inside it. -/
theorem moments_simple (settings : Settings) (room depth : Nat) {label : Label} (ns : List Node)
    (simple : label ∉ [.conditional, .loop]) :
    moments settings room depth (.branch label ns) = fun _ => [] := by
  match room with
  | 0 | 1 | 2 | 3 => rfl
  | room + 4 => cases label <;> first | rfl | simp at simple

/-- The moments of a program. -/
def programMoments (settings : Settings) : Nat → Node → Machine → List Moment
  | room + 3, tree =>
    listMoments settings tree 0 (eval settings room) (moments settings room 0) tree.children
  | _, _ => fun _ => []

end Eval

/-- The moments of running a tree in a scope. -/
def timeline (settings : Settings) (scope : Scope) (tree : Node) : List Moment :=
  Eval.programMoments settings Eval.depthLimit tree ⟨scope, #[], 0⟩

namespace Eval

open Node

/-! ## Where moments are -/

/-- All moments have a property, whatever the state. -/
def Throughout (p : Moment → Prop) (list : Machine → List Moment) : Prop :=
  ∀ m, ∀ moment ∈ list m, p moment

variable {p : Moment → Prop} {settings : Settings} {room depth : Nat} {site : Node}

theorem Throughout.none : Throughout p fun _ => [] := fun _ _ member => by cases member

theorem Throughout.andThen {α : Type} {x : EvalM α} {first : Machine → List Moment}
    {second : α → Machine → List Moment} (front : Throughout p first)
    (back : ∀ a, Throughout p (second a)) : Throughout p (Eval.andThen x first second) := by
  intro m moment member
  cases outcome : x m with
  | ok a m' =>
    rw [andThen_ok outcome] at member
    rcases List.mem_append.mp member with here | later
    · exact front m moment here
    · exact back a m' moment later
  | error reason m' =>
    rw [andThen_error outcome] at member
    exact front m moment member

theorem Throughout.ite {c : Prop} [Decidable c] {yes no : Machine → List Moment}
    (front : Throughout p yes) (back : Throughout p no) : Throughout p (if c then yes else no) := by
  split
  · exact front
  · exact back

theorem Throughout.statements {ns : List Node} {run : Node → EvalM Value}
    {inside : Node → Machine → List Moment}
    (here : ∀ n ∈ ns, ∀ m, p ⟨site, n, depth, m⟩) (each : ∀ n ∈ ns, Throughout p (inside n)) :
    Throughout p (listMoments settings site depth run inside ns) := by
  induction ns with
  | nil => exact .none
  | cons n ns ih =>
    obtain ⟨first, others⟩ := List.forall_mem_cons.mp here
    obtain ⟨inner, inners⟩ := List.forall_mem_cons.mp each
    refine .andThen (fun m moment member => ?_) fun _ => .andThen inner fun _ => ih others inners
    rw [List.mem_singleton.mp member]
    exact first m

theorem Throughout.loop {test : Node} {condition : EvalM Value} {body : EvalM Unit}
    {inside : Machine → List Moment} (here : ∀ m, p ⟨site, test, depth, m⟩)
    (each : Throughout p inside) (rounds : Nat) :
    Throughout p (loopMoments settings site test depth condition body inside rounds) := by
  induction rounds with
  | zero => exact .none
  | succ rounds ih =>
    refine .andThen (fun m moment member => ?_) fun _ => .andThen .none fun v =>
      .ite (.andThen each fun _ => ih) .none
    rw [List.mem_singleton.mp member]
    exact here m

theorem Throughout.framed {inside : Nat → Machine → List Moment}
    (each : ∀ depth, Throughout p (inside depth)) :
    Throughout p (framedMoments settings inside depth) := by
  intro m moment member
  rw [framedMoments] at member
  split at member
  · exact each _ _ moment member
  · exact each _ _ moment member

/-- The moments inside the statements of a tree, with some room, are those of the tree. -/
def MomentsWithin (settings : Settings) (tree : Node) (room : Nat) : Prop :=
  ∀ depth n, IsStatement n → Within n tree →
    Throughout (Moment.IsOf tree) (moments settings room depth n)

theorem blockMoments_isOf {label : Label} {ns parts : List Node} {tree : Node}
    (controls : label ∈ [.conditional, .loop]) (part : .branch .block ns ∈ parts)
    (shaped : ∀ n ∈ ns, IsStatement n) (within : Within (.branch label parts) tree)
    (inside : ∀ less < room, MomentsWithin settings tree less) :
    Throughout (Moment.IsOf tree)
      (blockMoments settings room depth (.branch label parts) (.branch .block ns)) := by
  match room with
  | 0 | 1 => exact .none
  | room + 2 =>
    have each : ∀ deeper, Throughout (Moment.IsOf tree) (listMoments settings (.branch label parts)
        deeper (eval settings room) (moments settings room deeper) ns) := by
      intro deeper
      refine .statements (fun n member m => ⟨within, .block controls part member⟩) ?_
      intro n member
      have inner : Within n tree :=
        (Within.inside member (.refl n)).trans ((Within.inside part (.refl _)).trans within)
      exact inside room (by omega) deeper n (shaped n member) inner
    exact .framed each

/-- By induction on the room, since blocks are run with less. -/
theorem moments_isOf (settings : Settings) (tree : Node) (room : Nat) :
    MomentsWithin settings tree room := by
  induction room using Nat.strongRecOn with
  | ind room ih =>
    intro depth n shaped within
    match room with
    | 0 | 1 | 2 | 3 => exact .none
    | room + 4 =>
      have inside : ∀ less < room, MomentsWithin settings tree less := fun less _ =>
        ih less (by omega)
      cases shaped with
      | declaration | assignment | print | expression =>
        rw [moments_simple _ _ _ _ (by simp)]
        exact .none
      | conditional test body =>
        refine .andThen .none fun v => .ite ?_ .none
        exact blockMoments_isOf (by simp) (by simp) body within inside
      | alternative test body other =>
        refine .andThen .none fun v => .ite ?_ ?_
        · exact blockMoments_isOf (by simp) (by simp) body within inside
        · exact blockMoments_isOf (by simp) (by simp) other within inside
      | loop test body =>
        refine .loop (fun m => ⟨within, .condition⟩) ?_ _
        exact blockMoments_isOf (by simp) (by simp) body within inside

end Eval

/-- Every moment of a run is a place at which a part of its program polls. -/
theorem timeline_isOf {settings : Settings} {scope : Scope} {tree : Node}
    (program : tree.IsProgram) : ∀ moment ∈ timeline settings scope tree, moment.IsOf tree := by
  obtain ⟨shaped⟩ := program
  refine Eval.Throughout.statements (fun n member m => ⟨.refl _, .program member⟩)
    (fun n member => ?_) _
  exact Eval.moments_isOf settings _ _ 0 n (shaped n member) (.inside member (.refl n))

end BraceScript
