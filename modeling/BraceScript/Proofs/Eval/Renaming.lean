import BraceScript.Program
import BraceScript.Proofs.Eval.Carrying
import BraceScript.Proofs.Scope.Renamed

/-!
# Locals of blocks can be renamed

When blocks have frames of their own, a name that a block declares is its own affair. Let the first
declaration of `old` in a block and all that follows it there say `new` instead, where `new` is a
name that the program does not use and no frame binds. Then the program runs as before: it prints
the same values, polls as often, ends in the same way and leaves the same bindings.

The two runs go side by side as follows. Up to the declaration they are in the same state, and the
frame of the block does not bind `old`. From there on `old` is renamed in the frame of the block and
in the frames inside it. After the block, whose frame is dropped, the states are the same again.
-/

namespace BraceScript

/-! ## Programs with a local renamed -/

namespace Node

/-- A statement declares a name in the frame that it is run in. -/
inductive Declares (name : String) : Node → Prop
  | intro {l : Leaf} {rest : List Node} :
    l.text = name → Declares name (.branch .declaration (.leaf l :: rest))

/-- A tree and the tree with a local of one of its blocks renamed: in the first declaration of the
    name among the statements of the block, but not in its value, and in all statements after it. -/
inductive LocalRenamed (old new : String) : Node → Node → Prop
  | block {before after : List Node} {target : Leaf} {value : Node} :
    (∀ n ∈ before, ¬ n.Declares old) → target.text = old →
    LocalRenamed old new
      (.branch .block (before ++ .branch .declaration [.leaf target, value] :: after))
      (.branch .block (before ++
        .branch .declaration [.leaf { target with text := new }, value] ::
          after.map (changed (.renamed old new))))
  | inside {label : Label} {ns ms : List Node} {n n' : Node} :
    LocalRenamed old new n n' →
    LocalRenamed old new (.branch label (ns ++ n :: ms)) (.branch label (ns ++ n' :: ms))

variable {old new : String} {n n' : Node}

/-- A name does not occur in a tree. -/
def Unused (name : String) (n : Node) : Prop :=
  ∀ l ∈ n.leaves, l.kind = .token .identifier → l.text ≠ name

theorem Unused.part {label : Label} {ns : List Node} {name : String}
    (unused : (branch label ns).Unused name) : ∀ n ∈ ns, n.Unused name :=
  fun n member l found => unused l (mem_leaves_branch.mpr ⟨n, member, found⟩)

/-- Renaming leaves all leaves where they are. -/
theorem LocalRenamed.places (renamed : LocalRenamed old new n n') :
    n'.leaves.map Leaf.position? = n.leaves.map Leaf.position? := by
  induction renamed with
  | @block before after target value _ _ =>
    have same : Leaf.position? ∘ (LeafChange.renamed old new).apply = Leaf.position? := by
      funext l
      rw [Function.comp_apply, (LeafChange.renamed old new).position?_apply]
      exact Option.map_id'
    simp [leaves, forestLeaves, map_changed, forestLeaves_forestMap, same, Leaf.position?]
  | inside _ ih => simp [leaves, forestLeaves, ih]

theorem LocalRenamed.position? (renamed : LocalRenamed old new n n') :
    n'.position? = n.position? := by
  have head : ∀ n : Node, n.position? = (n.leaves.map Leaf.position?).head?.join := by
    intro n
    rw [position?_eq_head?, List.head?_map]
    cases n.leaves.head? <;> rfl
  rw [head, renamed.places, ← head]

theorem LocalRenamed.not_leaf {kinds : List Kind} (renamed : LocalRenamed old new n n') :
    ¬ IsLeaf kinds n := by
  intro leaf
  cases leaf
  cases renamed

/-- Expressions have no blocks. -/
theorem LocalRenamed.not_expression (renamed : LocalRenamed old new n n') : ¬ IsExpression n := by
  induction renamed with
  | block =>
    rintro ⟨⟨⟩⟩
  | @inside label ns ms n n' part ih =>
    intro shaped
    generalize whole : ns ++ n :: ms = children at shaped
    have member : n ∈ children := by simp [← whole]
    cases shaped with
    | atom leaf => cases leaf
    | unary operator operand =>
      simp only [List.mem_cons, List.not_mem_nil, or_false] at member
      rcases member with rfl | rfl
      · exact part.not_leaf operator
      · exact ih operand
    | binary operator first second =>
      simp only [List.mem_cons, List.not_mem_nil, or_false] at member
      rcases member with rfl | rfl | rfl
      · exact ih first
      · exact part.not_leaf operator
      · exact ih second

/-- The statements of a block of a statement, with the parts of the statement before and after the
    block. -/
inductive BlockOf : Label → List Node → List Node → List Node → Prop
  | conditional {test : Node} {body : List Node} :
    IsExpression test → BlockOf .conditional [test] body []
  | first {test : Node} {body other : List Node} :
    IsExpression test → (∀ n ∈ other, IsStatement n) →
    BlockOf .conditional [test] body [.branch .block other]
  | second {test : Node} {body other : List Node} :
    IsExpression test → (∀ n ∈ body, IsStatement n) →
    BlockOf .conditional [test, .branch .block body] other []
  | loop {test : Node} {body : List Node} : IsExpression test → BlockOf .loop [test] body []

/-- A part of a statement in which a local is renamed is a block of it. -/
theorem LocalRenamed.blockOf {label : Label} {ns ms : List Node}
    (renamed : LocalRenamed old new n n')
    (shaped : IsStatement (.branch label (ns ++ n :: ms))) :
    ∃ body, n = .branch .block body ∧ (∀ s ∈ body, IsStatement s) ∧ BlockOf label ns body ms := by
  generalize whole : ns ++ n :: ms = children at shaped
  have neither : ∀ first second, IsLeaf [.identifier] first → IsExpression second →
      ns ++ n :: ms ≠ [first, second] := by
    intro first second name value whole
    have member : n ∈ [first, second] := by simp [← whole]
    simp only [List.mem_cons, List.not_mem_nil, or_false] at member
    rcases member with rfl | rfl
    · exact renamed.not_leaf name
    · exact renamed.not_expression value
  have none : ∀ value, IsExpression value → ns ++ n :: ms ≠ [value] := by
    intro value shaped whole
    have member : n ∈ [value] := by simp [← whole]
    exact renamed.not_expression (List.mem_singleton.mp member ▸ shaped)
  cases shaped with
  | declaration name value => exact absurd whole (neither _ _ name value)
  | assignment name value => exact absurd whole (neither _ _ name value)
  | print value => exact absurd whole (none _ value)
  | expression value => exact absurd whole (none _ value)
  | conditional test body =>
    rcases ns with _ | ⟨first, _ | ⟨second, ns⟩⟩
    · exact absurd ((List.cons.inj whole).1 ▸ test) renamed.not_expression
    · obtain ⟨rfl, rfl, rfl⟩ : first = _ ∧ n = _ ∧ ms = _ := by simpa using whole
      exact ⟨_, rfl, body, .conditional test⟩
    · simp at whole
  | alternative test body other =>
    rcases ns with _ | ⟨first, _ | ⟨second, _ | ⟨third, ns⟩⟩⟩
    · exact absurd ((List.cons.inj whole).1 ▸ test) renamed.not_expression
    · obtain ⟨rfl, rfl, rfl⟩ : first = _ ∧ n = _ ∧ ms = _ := by simpa using whole
      exact ⟨_, rfl, body, .first test other⟩
    · obtain ⟨rfl, rfl, rfl, rfl⟩ : first = _ ∧ second = _ ∧ n = _ ∧ ms = _ := by simpa using whole
      exact ⟨_, rfl, other, .second test body⟩
    · simp at whole
  | loop test body =>
    rcases ns with _ | ⟨first, _ | ⟨second, ns⟩⟩
    · exact absurd ((List.cons.inj whole).1 ▸ test) renamed.not_expression
    · obtain ⟨rfl, rfl, rfl⟩ : first = _ ∧ n = _ ∧ ms = _ := by simpa using whole
      exact ⟨_, rfl, body, .loop test⟩
    · simp at whole

/-- Expressions declare nothing. -/
theorem IsExpression.allows {allowed : Nat → Leaf → Prop} {depth : Nat} (shaped : IsExpression n) :
    n.Allows allowed depth := by
  induction shaped with
  | atom leaf =>
    cases leaf
    simp [Allows]
  | unary operator _ ih =>
    cases operator
    exact ⟨by simp [Allows], ih, trivial⟩
  | binary operator _ _ ihl ihr =>
    cases operator
    exact ⟨ihl, by simp [Allows], ihr, trivial⟩

/-- A name may be declared in inner blocks only. -/
def AllowedInside (name : String) (depth : Nat) (l : Leaf) : Prop :=
  depth = 0 → l.kind = .token .identifier → l.text ≠ name

/-- A statement that does not declare a name itself may declare it in its blocks only. -/
theorem IsStatement.allows (shaped : IsStatement n) (other : ¬ n.Declares old) :
    n.Allows (AllowedInside old) 0 := by
  have inside : ∀ ns : List Node, ForestAllows (AllowedInside old) 1 ns := fun ns =>
    forestAllows_of_leaves ns 1 fun l _ deeper deep zero => by omega
  cases shaped with
  | declaration name value =>
    obtain ⟨l, rfl, -⟩ := name.identifier
    exact fun _ _ same => other (.intro same)
  | assignment name value =>
    obtain ⟨l, rfl, -⟩ := name.identifier
    exact ⟨by simp [Allows], value.allows, trivial⟩
  | print value => exact ⟨value.allows, trivial⟩
  | expression value => exact ⟨value.allows, trivial⟩
  | conditional test body => exact ⟨test.allows, inside _, trivial⟩
  | alternative test body other => exact ⟨test.allows, inside _, inside _, trivial⟩
  | loop test body => exact ⟨test.allows, inside _, trivial⟩

end Node

namespace Eval

open Node

section

variable {settings : Settings} (framed : settings.blockScoped = true) (old new : String)

/-! ## The runs side by side -/

/-- Nothing is renamed yet: no frame binds the new name, and the frame of the block does not bind
    the old one. -/
def unrenamed : Carrying settings where
  change := .none
  fits l := l.kind = .token .identifier → l.text ≠ new
  allowed := AllowedInside old
  suits depth scope := Scope.bindsAt scope depth old = false ∧ Scope.binds scope new = false
  carry _ scope := scope
  printed := #[]
  polls := 0
  uncancelled := .inl rfl
  get?_carry _ _ _ := rfl
  reach_carry _ _ _ := rfl
  unbound _ _ _ := rfl
  suits_define := by
    intro depth scope l value suits fit allow isName
    refine ⟨?_, ?_⟩
    · cases depth with
      | zero =>
        rw [Scope.bindsAt_define_zero, suits.1, Bool.or_false, beq_eq_false_iff_ne]
        exact Ne.symm (allow rfl isName)
      | succ depth => rw [Scope.bindsAt_define_succ, suits.1]
    · rw [Scope.binds_define, suits.2, Bool.or_false, beq_eq_false_iff_ne]
      exact Ne.symm (fit isName)
  define_carry _ _ _ _ _ := rfl
  suits_set? := by
    intro depth scope name value changed suits found
    rw [Scope.bindsAt_set? found, Scope.binds_set? found]
    exact suits
  set?_carry _ _ _ _ := by simp [LeafChange.none]
  opens suits := by
    refine ⟨⟨suits.1, ?_⟩, rfl⟩
    rw [Scope.binds_cons, suits.2]
    rfl
  closes := by
    rintro depth (_ | ⟨frame, outer⟩) suits
    · exact ⟨suits, rfl⟩
    · rw [Scope.binds_cons, Bool.or_eq_false_iff] at suits
      exact ⟨⟨suits.1, suits.2.2⟩, rfl⟩
  flat flat := by simp [framed] at flat

theorem unrenamed_apply : (unrenamed framed old new).coupling.change.apply = fun l => l := rfl

/-- The text of a name is renamed as it is in scopes. -/
theorem text_renamed {l : Leaf} (isName : l.kind = .token .identifier) :
    ((LeafChange.renamed old new).apply l).text = renameTo old new l.text := by
  by_cases same : l.text = old <;> simp [LeafChange.renamed, renameTo, isName, same]

/-- The old name is renamed in the frame of the block and in the frames inside it. -/
def renamedInside : Carrying settings where
  change := .renamed old new
  fits l := l.kind = .token .identifier → l.text ≠ new
  allowed _ _ := True
  suits := Scope.CanRename old new
  carry := Scope.renamed old new
  printed := #[]
  polls := 0
  uncancelled := .inl rfl
  get?_carry can fit isName := by
    rw [text_renamed old new isName, can.get?_renamed (fit isName)]
  reach_carry can fit isName := by
    rw [text_renamed old new isName, can.reach_renamed (fit isName)]
  unbound can isName absent := by
    rw [text_renamed old new isName, can.unbound absent]
  suits_define value can fit _ isName := can.define (fit isName) value
  define_carry value can fit _ isName := by
    rw [text_renamed old new isName, can.define_renamed (fit isName)]
  suits_set? can found := can.set? found
  set?_carry value can fit isName := by
    rw [text_renamed old new isName, can.set?_renamed (fit isName)]
  opens can := ⟨can.opened, rfl⟩
  closes can := can.closed
  flat flat := by simp [framed] at flat

variable {framed old new} {room depth : Nat} {m m' : Machine}

theorem expression_alike {n : Node} (shaped : IsExpression n) (unused : n.Unused new) :
    (unrenamed framed old new).Carries depth (eval settings room n) (eval settings room n) := by
  have same := (unrenamed framed old new).coupling.expression depth room shaped unused
  rwa [Node.changed, unrenamed_apply, mapLeaves_id] at same

/-- The declaration of the local: from there on its name is renamed. -/
theorem declaration_alike {target : Leaf} {value : Node} (room : Nat)
    (isName : target.kind = .token .identifier) (named : target.text = old) (differ : old ≠ new)
    (shaped : IsExpression value) (unused : value.Unused new)
    (before : (unrenamed framed old new).Agree 0 m m') :
    Alike (fun p => p) (fun _ => False) ((renamedInside framed old new).Agree 0)
      ((unrenamed framed old new).Agree 0)
      (eval settings room (.branch .declaration [.leaf target, value]) m)
      (eval settings room
        (.branch .declaration [.leaf { target with text := new }, value]) m') := by
  have isName' : ({ target with text := new } : Leaf).kind = .token .identifier := isName
  match room with
  | 0 => exact .halt before
  | room + 1 =>
    have place : (branch .declaration [leaf { target with text := new }, value]).faultPosition? =
        (branch .declaration [leaf target, value]).faultPosition?.map (fun p => p) := by
      rw [Option.map_id', faultPosition?_branch (by simp), faultPosition?_branch (by simp),
        position?_eq_head?, position?_eq_head?]
      rfl
    refine Alike.located ?_ place fun _ _ => id
    · match room with
      | 0 => exact .halt before
      | room + 1 =>
        rw [step_compound _ _ _ (by simp), step_compound _ _ _ (by simp)]
        match room with
        | 0 | 1 => exact .halt before
        | room + 2 =>
          rw [compound_declaration _ _ isName, compound_declaration _ _ isName', named]
          refine (expression_alike shaped unused m m' before).bind ?_
          rintro v m _ ⟨suits, rfl⟩
          obtain ⟨can, carried⟩ := Scope.CanRename.of_declaration suits.1 suits.2 differ v
          refine .value ⟨can, ?_⟩
          exact congrArg (fun scope => Machine.mk scope (#[] ++ m.output) (0 + m.polls)) carried

/-- Statements that are the same in both programs. -/
theorem runAll_alike {ns : List Node} (room : Nat) (shaped : ∀ n ∈ ns, IsStatement n)
    (unused : ∀ n ∈ ns, n.Unused new)
    (allows : ∀ n ∈ ns, n.Allows (AllowedInside old) depth) :
    (unrenamed framed old new).Carries depth (runAll settings (eval settings room) ns)
      (runAll settings (eval settings room) ns) := by
  have same : (unrenamed framed old new).Carries depth (runAll settings (eval settings room) ns)
      (runAll settings (eval settings room) (forestMap (fun l => l) ns)) :=
    (unrenamed framed old new).coupling.runAll fun n member =>
      (unrenamed framed old new).coupling.runs room depth n (shaped n member) (unused n member)
        (allows n member)
  rwa [forestMap_id] at same

/-- Outside the block nothing is renamed, and no frame binds the new name. -/
theorem outside_iff : (unrenamed framed new new).Agree depth m m' ↔
    Scope.binds m.scope new = false ∧ m' = m := by
  have same : (unrenamed framed new new).carried depth m = m := by
    simp [Carrying.carried, unrenamed]
  rw [Carrying.Agree, same]
  constructor
  · rintro ⟨suits, rfl⟩
    exact ⟨suits.2, rfl⟩
  · rintro ⟨absent, rfl⟩
    exact ⟨⟨Scope.bindsAt_of_binds absent depth, absent⟩, rfl⟩

/-- The states agree once the frame of the block is dropped. -/
def AgreeOutside (new : String) (m m' : Machine) : Prop :=
  Scope.binds m.scope.tail new = false ∧
    { m' with scope := m'.scope.tail } = { m with scope := m.scope.tail }

theorem binds_tail {scope : Scope} {name : String} (absent : Scope.binds scope name = false) :
    Scope.binds scope.tail name = false := by
  cases scope with
  | nil => rfl
  | cons frame outer =>
    rw [Scope.binds_cons, Bool.or_eq_false_iff] at absent
    exact absent.2

theorem agreeOutside_of_unrenamed (agree : (unrenamed framed old new).Agree 0 m m') :
    AgreeOutside new m m' := by
  obtain ⟨suits, rfl⟩ := agree
  exact ⟨binds_tail suits.2, by simp [Carrying.carried, unrenamed]⟩

theorem agreeOutside_of_renamed (agree : (renamedInside framed old new).Agree 0 m m') :
    AgreeOutside new m m' := by
  obtain ⟨can, rfl⟩ := agree
  refine ⟨binds_tail can.absent, ?_⟩
  have same : (Scope.renamed old new 0 m.scope).tail = m.scope.tail := by
    cases m.scope <;> rfl
  simp [Carrying.carried, renamedInside, same]

/-- The statements of the block, with the local renamed from its declaration on. -/
theorem body_alike {before after : List Node} {target : Leaf} {value : Node}
    (shaped : ∀ n ∈ before ++ .branch .declaration [.leaf target, value] :: after, IsStatement n)
    (unused : ∀ n ∈ before ++ .branch .declaration [.leaf target, value] :: after, n.Unused new)
    (others : ∀ n ∈ before, ¬ n.Declares old) (named : target.text = old)
    (agree : (unrenamed framed old new).Agree 0 m m') :
    Alike (fun p => p) (fun _ => False) (AgreeOutside new) (AgreeOutside new)
      (statements settings room
        (before ++ .branch .declaration [.leaf target, value] :: after) m)
      (statements settings room (before ++
        .branch .declaration [.leaf { target with text := new }, value] ::
          after.map (changed (.renamed old new))) m') := by
  obtain ⟨shapedBefore, shapedRest⟩ := List.forall_mem_append.mp shaped
  obtain ⟨declaration, shapedAfter⟩ := List.forall_mem_cons.mp shapedRest
  obtain ⟨unusedBefore, unusedRest⟩ := List.forall_mem_append.mp unused
  obtain ⟨unusedHere, unusedAfter⟩ := List.forall_mem_cons.mp unusedRest
  have early : ∀ m m', (unrenamed framed old new).Agree 0 m m' → AgreeOutside new m m' :=
    fun _ _ => agreeOutside_of_unrenamed
  have late : ∀ m m', (renamedInside framed old new).Agree 0 m m' → AgreeOutside new m m' :=
    fun _ _ => agreeOutside_of_renamed
  obtain ⟨isName, shapedValue⟩ : target.kind = .token .identifier ∧ IsExpression value := by
    cases declaration with
    | declaration name value =>
      obtain ⟨_, same, isName⟩ := name.identifier
      cases same
      exact ⟨isName, value⟩
  have differ : old ≠ new := named ▸ unusedHere target (by simp [leaves, forestLeaves]) isName
  have unusedValue : value.Unused new := fun l member =>
    unusedHere l (by simp [leaves, forestLeaves, member])
  match room with
  | 0 => exact .halt (early _ _ agree)
  | room + 1 =>
    rw [statements, statements, runAll_append, runAll_append]
    have front := runAll_alike room shapedBefore unusedBefore
      (fun n member => (shapedBefore n member).allows (others n member)) m m' agree
    refine (front.mono (fun _ _ => id) early).bind fun _ m m' agree => ?_
    refine ((Carrying.poll m m' agree).mono (fun _ _ => id) early).bind fun _ m m' agree => ?_
    have declared := declaration_alike room isName named differ shapedValue unusedValue agree
    refine ((declared.discard).mono (fun _ _ => id) early).bind fun _ m m' agree => ?_
    rw [map_changed]
    have rest := (renamedInside framed old new).coupling.runAll fun n member =>
      (renamedInside framed old new).coupling.runs room 0 n (shapedAfter n member)
        (unusedAfter n member) (allows_of_leaves n 0 fun _ _ _ _ => trivial)
    exact (rest m m' agree).mono late late

/-- The block with its local renamed. -/
theorem block_alike {before after : List Node} {target : Leaf} {value : Node}
    (shaped : ∀ n ∈ before ++ .branch .declaration [.leaf target, value] :: after, IsStatement n)
    (unused : ∀ n ∈ before ++ .branch .declaration [.leaf target, value] :: after, n.Unused new)
    (others : ∀ n ∈ before, ¬ n.Declares old) (named : target.text = old) :
    (unrenamed framed new new).Carries depth
      (block settings room
        (.branch .block (before ++ .branch .declaration [.leaf target, value] :: after)))
      (block settings room (.branch .block (before ++
        .branch .declaration [.leaf { target with text := new }, value] ::
          after.map (changed (.renamed old new))))) := by
  match room with
  | 0 => exact .halt .tooDeep
  | room + 1 =>
    have opens : ∀ m m', (unrenamed framed new new).Agree depth m m' →
        (unrenamed framed old new).Agree 0 { m with scope := [] :: m.scope }
          { m' with scope := [] :: m'.scope } := by
      intro m m' agree
      obtain ⟨absent, rfl⟩ := outside_iff.mp agree
      refine ⟨⟨rfl, ?_⟩, by simp [Carrying.carried, unrenamed]⟩
      rw [Scope.binds_cons, absent]
      rfl
    refine Simulates.inBlock framed framed opens ?_ fun m m' agree =>
      body_alike shaped unused others named agree
    rintro m m' ⟨absent, same⟩
    exact outside_iff.mpr ⟨absent, same⟩

/-- A list of statements with one of them replaced. -/
theorem runAll_replaced {ns ms : List Node} {n n' : Node}
    (shaped : ∀ s ∈ ns ++ n :: ms, IsStatement s) (unused : ∀ s ∈ ns ++ n :: ms, s.Unused new)
    (same : (unrenamed framed new new).Carries depth (eval settings room n)
      (eval settings room n')) :
    (unrenamed framed new new).Carries depth (runAll settings (eval settings room) (ns ++ n :: ms))
      (runAll settings (eval settings room) (ns ++ n' :: ms)) := by
  obtain ⟨shapedBefore, shapedRest⟩ := List.forall_mem_append.mp shaped
  obtain ⟨unusedBefore, unusedRest⟩ := List.forall_mem_append.mp unused
  obtain ⟨-, shapedAfter⟩ := List.forall_mem_cons.mp shapedRest
  obtain ⟨-, unusedAfter⟩ := List.forall_mem_cons.mp unusedRest
  have allows : ∀ s : Node, s.Unused new → s.Allows (AllowedInside new) depth := fun s unused =>
    allows_of_leaves s depth fun l member _ _ _ => unused l member
  rw [runAll_append, runAll_append]
  refine .bind (runAll_alike room shapedBefore unusedBefore ?_) fun _ => ?_
  · exact fun s member => allows s (unusedBefore s member)
  refine .bind Carrying.poll fun _ => .bind (.discard same) fun _ => ?_
  exact runAll_alike room shapedAfter unusedAfter fun s member => allows s (unusedAfter s member)

/-- A conditional or a loop whose rule is simulated. -/
theorem eval_replaced {label : Label} {ns ns' : List Node}
    (compounds : label ∈ [.declaration, .assignment, .conditional, .loop])
    (place : (branch label ns').position? = (branch label ns).position?)
    (same : ∀ room, (unrenamed framed new new).Carries depth
      (compound settings (room + 2) label ns) (compound settings (room + 2) label ns')) :
    (unrenamed framed new new).Carries depth (eval settings room (.branch label ns))
      (eval settings room (.branch label ns')) := by
  have other : label ≠ .binary := by
    rintro rfl
    simp at compounds
  match room with
  | 0 => exact .halt .tooDeep
  | room + 1 =>
    refine .located ?_ ?_ fun _ _ => id
    · match room with
      | 0 => exact .halt .tooDeep
      | room + 1 =>
        rw [step_compound _ _ _ compounds, step_compound _ _ _ compounds]
        match room with
        | 0 | 1 => exact .halt .tooDeep
        | room + 2 => exact same room
    · rw [faultPosition?_branch other, faultPosition?_branch other, place]
      exact Option.map_id'.symm

/-- A block that is the same in both programs. -/
theorem block_unchanged {body : List Node} (shaped : ∀ s ∈ body, IsStatement s)
    (unused : (branch .block body).Unused new) :
    (unrenamed framed new new).Carries depth (block settings room (.branch .block body))
      (block settings room (.branch .block body)) := by
  have same : (unrenamed framed new new).Carries depth (block settings room (.branch .block body))
      (block settings room (.branch .block (forestMap (fun l => l) body))) :=
    (unrenamed framed new new).coupling.block (fun less _ => Coupling.runs _ less) shaped unused
      (forestAllows_of_leaves body _ fun l member _ _ _ => unused l member)
  rwa [forestMap_id] at same

/-- A statement with the local of one of its blocks renamed. -/
theorem statement_replaced {label : Label} {ns body body' ms : List Node}
    (part : BlockOf label ns body ms)
    (unused : (branch label (ns ++ .branch .block body :: ms)).Unused new)
    (place : (branch label (ns ++ .branch .block body' :: ms)).position? =
      (branch label (ns ++ .branch .block body :: ms)).position?)
    (same : ∀ room, (unrenamed framed new new).Carries depth
      (block settings room (.branch .block body)) (block settings room (.branch .block body'))) :
    (unrenamed framed new new).Carries depth
      (eval settings room (.branch label (ns ++ .branch .block body :: ms)))
      (eval settings room (.branch label (ns ++ .branch .block body' :: ms))) := by
  have inside := unused.part
  cases part with
  | conditional test =>
    refine eval_replaced (by simp) place fun room => ?_
    exact (unrenamed framed new new).coupling.conditional
      (expression_alike test (inside _ (by simp))) (same room)
  | first test other =>
    refine eval_replaced (by simp) place fun room => ?_
    exact (unrenamed framed new new).coupling.alternative
      (expression_alike test (inside _ (by simp))) (same room)
      (block_unchanged other (inside _ (by simp)))
  | second test first =>
    refine eval_replaced (by simp) place fun room => ?_
    exact (unrenamed framed new new).coupling.alternative
      (expression_alike test (inside _ (by simp)))
      (block_unchanged first (inside _ (by simp))) (same room)
  | loop test =>
    refine eval_replaced (by simp) place fun room => ?_
    exact (unrenamed framed new new).coupling.loop
      (expression_alike test (inside _ (by simp))) (same room)

/-- A statement or a block with a local renamed somewhere in it: by induction on where that is. -/
theorem renamed_alike (framed : settings.blockScoped = true) {n n' : Node}
    (renamed : LocalRenamed old new n n') (unused : n.Unused new) :
    (IsStatement n → ∀ depth room, (unrenamed framed new new).Carries depth
      (eval settings room n) (eval settings room n')) ∧
    ∀ body, n = .branch .block body → (∀ s ∈ body, IsStatement s) →
      ∃ body', n' = .branch .block body' ∧ ∀ depth room, (unrenamed framed new new).Carries depth
        (block settings room n) (block settings room n') := by
  induction renamed with
  | block others named =>
    refine ⟨fun shaped => (by cases shaped), ?_⟩
    rintro _ ⟨⟩ shaped
    exact ⟨_, rfl, fun depth room => block_alike shaped unused.part others named⟩
  | @inside label ns ms n n' part ih =>
    have inside := unused.part
    obtain ⟨asStatement, asBlock⟩ := ih (inside n (by simp))
    constructor
    · intro shaped depth room
      have place := (LocalRenamed.inside part : LocalRenamed old new
        (.branch label (ns ++ n :: ms)) (.branch label (ns ++ n' :: ms))).position?
      obtain ⟨body, rfl, statements, context⟩ := part.blockOf shaped
      obtain ⟨body', rfl, same⟩ := asBlock body rfl statements
      exact statement_replaced context unused place (same depth)
    · rintro _ ⟨⟩ shaped
      refine ⟨_, rfl, fun depth room => ?_⟩
      match room with
      | 0 => exact .halt .tooDeep
      | 1 => exact Carrying.inBlock (.halt .tooDeep)
      | room + 2 =>
        refine Carrying.inBlock (runAll_replaced shaped inside ?_)
        exact asStatement (shaped n (by simp)) _ _

theorem program_alike (framed : settings.blockScoped = true) (room : Nat) {ns : List Node}
    {tree : Node} (shaped : ∀ n ∈ ns, IsStatement n)
    (renamed : LocalRenamed old new (.branch .program ns) tree)
    (unused : (branch .program ns).Unused new) :
    (unrenamed framed new new).Carries 0 (eval settings room (.branch .program ns))
      (eval settings room tree) := by
  have place := renamed.position?
  generalize whole : branch .program ns = program at renamed
  cases renamed with
  | block => cases whole
  | @inside label ns ms n n' part =>
    cases whole
    have inside := unused.part
    have same := (renamed_alike framed part (inside n (by simp))).1 (shaped n (by simp)) 0
    match room with
    | 0 => exact .halt .tooDeep
    | room + 1 =>
      refine .located ?_ ?_ fun _ _ => id
      · match room with
        | 0 | 1 => exact .halt .tooDeep
        | room + 2 => exact .bind (runAll_replaced shaped inside (same room)) fun _ => .value _
      · rw [faultPosition?_branch (by simp), faultPosition?_branch (by simp), place]
        exact Option.map_id'.symm

/-- Where no frame binds the new name, actions that end alike do the same. -/
theorem eq_of_carries {α : Type} {x y : EvalM α}
    (same : (unrenamed framed new new).Carries depth x y)
    (absent : Scope.binds m.scope new = false) : y m = x m := by
  have outcome := same m m (outside_iff.mpr ⟨absent, rfl⟩)
  exact (outcome.mono (fun _ _ after => (outside_iff.mp after).2)
    fun _ _ after => (outside_iff.mp after).2).eq

end

end Eval

open Node

/-- A program runs in the same way when a local of one of its blocks is renamed to a name that the
    program does not use and that no frame binds. -/
theorem execute_localRenamed {settings : Settings} {scope : Scope} {old new : String}
    {tree tree' : Node} (framed : settings.blockScoped = true) (program : tree.IsProgram)
    (renamed : LocalRenamed old new tree tree') (unused : tree.Unused new)
    (absent : Scope.binds scope new = false) :
    execute settings scope tree' = execute settings scope tree := by
  obtain ⟨shaped⟩ := program
  have same := Eval.program_alike framed Eval.depthLimit shaped renamed unused
  unfold execute
  rw [Eval.eq_of_carries same absent]

/-- The program `if (x) { print(x); var x = x; while (x) { x = z; } }` for a choice of the name of
    the local. -/
def shadowing (name : String) : Node :=
  .branch .program [.branch .conditional [word "x", .branch .block
    [.branch .print [word "x"],
     .branch .declaration [word name, word "x"],
     .branch .loop [word name, .branch .block [.branch .assignment [word name, word "z"]]]]]]
where
  word (text : String) : Node := .leaf ⟨.token .identifier, text, {}⟩

/-- Both programs print the outer `x`, and are cancelled at the first test of the loop's condition,
    which is the fifth poll. -/
theorem execute_localRenamed_shadowing :
    let settings : Settings := { blockScoped := true, cancelAfter := some 4 }
    let scope : Scope := [[("z", .string "")], [("x", .string "a")]]
    let report := execute settings scope (shadowing "x")
    (shadowing "x").IsProgram ∧ LocalRenamed "x" "y" (shadowing "x") (shadowing "y") ∧
    (shadowing "x").Unused "y" ∧ Scope.binds scope "y" = false ∧
    execute settings scope (shadowing "y") = report ∧ report.lines = ["a"] ∧ report.polls = 5 ∧
    report.failure = some (.halt (.fault .cancelled none)) := by
  intro settings scope report
  have lexeme : ∀ c, Scanner.isWordStart c = true → Kind.ofWord (String.ofList [c]) = .identifier →
      Lexical.Lexeme .identifier [c] := fun c start isName =>
    .plain (isName ▸ Lexical.plain_of_word (Lexical.word_of_all start rfl))
  have x : IsLeaf [.identifier] (shadowing.word "x") := .intro (by simp) (lexeme 'x' rfl rfl)
  have atom : ∀ c : String, Lexical.Lexeme .identifier c.toList →
      IsExpression (shadowing.word c) := fun c lexeme => .atom (.intro (by decide) lexeme)
  have readsX := atom "x" (lexeme 'x' rfl rfl)
  have program : (shadowing "x").IsProgram := by
    refine .intro (List.forall_mem_singleton.mpr (.conditional readsX ?_))
    simp only [List.forall_mem_cons, List.not_mem_nil, false_imp_iff, implies_true, and_true]
    refine ⟨.print readsX, .declaration x readsX, .loop readsX ?_⟩
    exact List.forall_mem_singleton.mpr (.assignment x (atom "z" (lexeme 'z' rfl rfl)))
  have renamed : LocalRenamed "x" "y" (shadowing "x") (shadowing "y") := by
    refine @LocalRenamed.inside _ _ _ [] [] _ _ (@LocalRenamed.inside _ _ _ [_] [] _ _ ?_)
    refine @LocalRenamed.block _ _ [_] [_] _ _ (List.forall_mem_singleton.mpr ?_) rfl
    rintro ⟨⟩
  have unused : (shadowing "x").Unused "y" := by
    simp [Unused, shadowing, shadowing.word, leaves, forestLeaves]
  exact ⟨program, renamed, unused, rfl, execute_localRenamed rfl program renamed unused rfl,
    by decide +kernel, by decide +kernel, by decide +kernel⟩

end BraceScript
