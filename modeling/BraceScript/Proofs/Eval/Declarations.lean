import BraceScript.Proofs.Eval.Effects
import BraceScript.Proofs.Eval.Renaming

/-!
# Only declarations bind names

A run keeps a record of the statements that it completes. The names of the frame that it starts in
are afterwards those from before and those that completed declarations at this frame have declared,
whether the run succeeds or halts, and the frames further out have the names that they had. In a
scoped run the declarations of blocks are further in, and their frames are dropped: whatever happens
inside a conditional or a loop, no frame has other names after it.
-/

namespace BraceScript

open Node Outcome

theorem Node.Declares.label {name : String} {label : Label} {ns : List Node}
    (declares : (branch label ns).Declares name) : label = .declaration := by
  cases declares
  rfl

namespace Eval

/-! ## The statements that are completed -/

/-- A statement that is completed is recorded with what is completed inside it. -/
def completing (x : EvalM Value) (inside : Machine → List Moment) (now : Moment) (m : Machine) :
    List Moment :=
  match x m with
  | .ok _ _ => now :: inside m
  | .error _ _ => inside m

/-- What is completed of statements that are run in order. -/
def listCompleted (settings : Settings) (site : Node) (depth : Nat) (run : Node → EvalM Value)
    (inside : Node → Machine → List Moment) : List Node → Machine → List Moment
  | [] => fun _ => []
  | n :: rest => fun m =>
    andThen (poll settings) (fun _ => []) (fun _ =>
      andThen (discard (run n)) (completing (run n) (inside n) ⟨site, n, depth, m⟩) fun _ =>
        listCompleted settings site depth run inside rest) m

/-- What is completed in the rounds of a loop. -/
def loopCompleted (settings : Settings) (condition : EvalM Value) (body : EvalM Unit)
    (inside : Machine → List Moment) : Nat → Machine → List Moment
  | 0 => fun _ => []
  | rounds + 1 =>
    andThen (poll settings) (fun _ => []) fun _ =>
      andThen condition (fun _ => []) fun v =>
        if v.isTrue then
          andThen body inside fun _ => loopCompleted settings condition body inside rounds
        else fun _ => []

mutual

/-- What is completed inside a statement that is run at a depth. -/
def completed (settings : Settings) : Nat → Nat → Node → Machine → List Moment
  | room + 4, depth, .branch .conditional [test, body] =>
    andThen (eval settings room test) (fun _ => []) fun v =>
      if v.isTrue then
        blockCompleted settings room depth (.branch .conditional [test, body]) body
      else fun _ => []
  | room + 4, depth, .branch .conditional [test, body, other] =>
    andThen (eval settings room test) (fun _ => []) fun v =>
      if v.isTrue then
        blockCompleted settings room depth (.branch .conditional [test, body, other]) body
      else
        blockCompleted settings room depth (.branch .conditional [test, body, other]) other
  | room + 4, depth, .branch .loop [test, .branch .block body] =>
    loopCompleted settings (eval settings room test) (block settings room (.branch .block body))
      (blockCompleted settings room depth (.branch .loop [test, .branch .block body])
        (.branch .block body))
      settings.loopFuel
  | _, _, _ => fun _ => []

/-- What is completed inside a block of a statement. -/
def blockCompleted (settings : Settings) : Nat → Nat → Node → Node → Machine → List Moment
  | room + 2, depth, site, body =>
    framedMoments settings (fun depth =>
      listCompleted settings site depth (eval settings room) (completed settings room depth)
        body.children) depth
  | _, _, _, _ => fun _ => []

end

/-- Nothing is completed inside a statement without blocks. -/
theorem completed_simple (settings : Settings) (room depth : Nat) {label : Label} (ns : List Node)
    (simple : label ∉ [.conditional, .loop]) :
    completed settings room depth (.branch label ns) = fun _ => [] := by
  match room with
  | 0 | 1 | 2 | 3 => rfl
  | room + 4 => cases label <;> first | rfl | simp at simple

/-- What is completed of a program. -/
def programCompleted (settings : Settings) : Nat → Node → Machine → List Moment
  | room + 3, tree =>
    listCompleted settings tree 0 (eval settings room) (completed settings room 0) tree.children
  | _, _ => fun _ => []

/-! ## Names -/

/-- The second state has the names of the first, and in its innermost frame, which is the one at a
    depth, also those that recorded statements have declared there. -/
structure NamesAfter (depth : Nat) (m m' : Machine) (done : List Moment) : Prop where
  deep : ∀ moment ∈ done, depth ≤ moment.depth
  inner : ∀ name, Scope.bindsAt m'.scope 0 name = true ↔
    Scope.bindsAt m.scope 0 name = true ∨
      ∃ moment ∈ done, moment.depth = depth ∧ moment.next.Declares name
  outer : ∀ d, Scope.bindsAt m'.scope (d + 1) = Scope.bindsAt m.scope (d + 1)

namespace NamesAfter

variable {depth : Nat} {m m' m'' : Machine} {done more : List Moment} {now : Moment}

theorem same (names : Scope.bindsAt m'.scope = Scope.bindsAt m.scope) :
    NamesAfter depth m m' [] where
  deep := by simp
  inner name := by simp [names]
  outer d := by rw [names]

theorem trans (first : NamesAfter depth m m' done) (second : NamesAfter depth m' m'' more) :
    NamesAfter depth m m'' (done ++ more) where
  deep := List.forall_mem_append.mpr ⟨first.deep, second.deep⟩
  inner name := by
    rw [second.inner, first.inner, or_assoc]
    simp only [List.mem_append, or_and_right, exists_or]
  outer d := (second.outer d).trans (first.outer d)

/-- A statement at the same depth that declares nothing makes no difference. -/
theorem other (names : NamesAfter depth m m' done) (here : now.depth = depth)
    (none : ∀ name, ¬ now.next.Declares name) : NamesAfter depth m m' (now :: done) where
  deep := List.forall_mem_cons.mpr ⟨Nat.le_of_eq here.symm, names.deep⟩
  inner name := by
    rw [names.inner]
    simp [none name]
  outer := names.outer

/-- The frame of a block is dropped with its names. -/
theorem framed (names : NamesAfter (depth + 1) { m with scope := [] :: m.scope } m' done) :
    NamesAfter depth m { m' with scope := m'.scope.tail } done where
  deep moment member := by
    have deeper := names.deep moment member
    omega
  inner name := by
    have none : ¬ ∃ moment ∈ done, moment.depth = depth ∧ moment.next.Declares name := by
      rintro ⟨moment, member, here, -⟩
      have deeper := names.deep moment member
      omega
    rw [Scope.bindsAt_tail, names.outer, or_iff_left none]
    rfl
  outer d := by
    rw [Scope.bindsAt_tail, names.outer]
    rfl

/-- If nothing was declared at the depth, all frames have the names that they had. -/
theorem bindsAt_eq (names : NamesAfter depth m m' done)
    (none : ∀ moment ∈ done, moment.depth = depth → ∀ name, ¬ moment.next.Declares name) :
    Scope.bindsAt m'.scope = Scope.bindsAt m.scope := by
  funext d name
  cases d with
  | zero =>
    rw [Bool.eq_iff_iff, names.inner, or_iff_left]
    rintro ⟨moment, member, here, declares⟩
    exact none moment member here name declares
  | succ d => rw [names.outer]

/-- No frame has lost a name. -/
theorem kept (names : NamesAfter depth m m' done) (d : Nat) (name : String)
    (bound : Scope.bindsAt m.scope d name = true) : Scope.bindsAt m'.scope d name = true := by
  cases d with
  | zero => exact (names.inner name).mpr (.inl bound)
  | succ d => rwa [names.outer]

end NamesAfter

/-- An action records what it completes, and binds the names that were declared. -/
def Names {α : Type} (depth : Nat) (x : EvalM α) (done : Machine → List Moment) : Prop :=
  ∀ m, NamesAfter depth m (final (x m)) (done m)

namespace Names

variable {α β : Type} {depth : Nat} {x : EvalM α} {done : Machine → List Moment}
  {settings : Settings}

theorem still (still : Still x) : Names depth x fun _ => [] := by
  intro m
  rw [still m]
  exact .same rfl

theorem bind {next : α → EvalM β} {more : α → Machine → List Moment} (first : Names depth x done)
    (second : ∀ a, Names depth (next a) (more a)) :
    Names depth (x >>= next) (andThen x done more) := by
  intro m
  have before := first m
  cases outcome : x m with
  | ok a m' =>
    rw [outcome] at before
    rw [bind_ok outcome, andThen_ok outcome]
    exact before.trans (second a m')
  | error reason m' =>
    rw [outcome] at before
    rw [bind_error outcome, andThen_error outcome]
    exact before

theorem ended (names : Names depth x done) (b : β) : Names depth (x >>= fun _ => pure b) done := by
  rw [← andThen_nil x done]
  exact names.bind fun _ => .still (.value b)

theorem discard (names : Names depth x done) : Names depth (Functor.discard x) done := by
  rw [discard_eq_bind]
  exact names.ended ()

theorem ite {c : Prop} [Decidable c] {yes no : EvalM α} {inYes inNo : Machine → List Moment}
    (first : Names depth yes inYes) (second : Names depth no inNo) :
    Names depth (if c then yes else no) (if c then inYes else inNo) := by
  split
  · exact first
  · exact second

theorem located (names : Names depth x done) (place : Node → Option Position) (n : Node) :
    Names depth (locating place n x) done := by
  intro m
  rw [final_locating]
  exact names m

theorem poll (settings : Settings) : Names depth (Eval.poll settings) fun _ => [] := by
  intro m
  rw [poll_run]
  split <;> exact .same rfl

/-- A block is run further in if it has a frame. -/
theorem inBlock {action : EvalM Unit} {inside : Nat → Machine → List Moment}
    (names : ∀ depth, Names depth action (inside depth)) :
    Names depth (Eval.inBlock settings action) (framedMoments settings inside depth) := by
  intro m
  cases framed : settings.blockScoped with
  | false =>
    rw [inBlock_flat framed, framedMoments, framed]
    exact names depth m
  | true =>
    have within := (names (depth + 1) { m with scope := [] :: m.scope }).framed
    rw [inBlock_framed framed, framedMoments, framed]
    revert within
    cases action { m with scope := [] :: m.scope } with
    | ok a m' => exact id
    | error reason m' => exact id

theorem completing {action : EvalM Value} {inside : Machine → List Moment} {now : Moment}
    (names : Names depth action inside) (here : now.depth = depth)
    (none : ∀ name, ¬ now.next.Declares name) :
    Names depth action (Eval.completing action inside now) := by
  intro m
  have before := names m
  unfold Eval.completing
  split
  · exact before.other here none
  · exact before

end Names

variable {settings : Settings} {room depth : Nat} {ns : List Node}

/-- A statement is recorded when it is completed, and it binds what it declares. -/
def Records (depth : Nat) (n : Node) (run : EvalM Value) (inside : Machine → List Moment) : Prop :=
  ∀ now : Moment, now.next = n → now.depth = depth → Names depth run (completing run inside now)

theorem runAll_names {run : Node → EvalM Value} {inside : Node → Machine → List Moment}
    (site : Node) (each : ∀ n ∈ ns, Records depth n (run n) (inside n)) :
    Names depth (runAll settings run ns) (listCompleted settings site depth run inside ns) := by
  induction ns with
  | nil => exact .still (.value ())
  | cons n ns ih =>
    obtain ⟨first, others⟩ := List.forall_mem_cons.mp each
    -- The first statement is recorded with the state before its poll.
    intro m
    have now := first ⟨site, n, depth, m⟩ rfl rfl
    exact Names.bind (.poll settings) (fun _ => .bind now.discard fun _ => ih others) m

theorem runWhile_names {condition : EvalM Value} {body : EvalM Unit}
    {inside : Machine → List Moment} (test : Still condition) (round : Names depth body inside)
    (rounds : Nat) :
    Names depth (runWhile settings condition body rounds)
      (loopCompleted settings condition body inside rounds) := by
  induction rounds with
  | zero => exact .still (.halt _)
  | succ rounds ih =>
    refine .bind (.poll settings) fun _ => .bind (.still test) fun v => ?_
    exact .ite (.bind round fun _ => ih) (.still (.value ()))

/-! ## Statements -/

/-- Every statement of a program is recorded, with some room. -/
def RecordsStatements (settings : Settings) (room : Nat) : Prop :=
  ∀ depth n, IsStatement n →
    Records depth n (eval settings room n) (completed settings room depth n)

/-- What a simple statement changes is said by its effect. -/
theorem simple_records {e n : Node} (simple : Simple e n) (shaped : IsExpression e) (room : Nat) :
    Records depth n (eval settings room n) fun _ => [] := by
  rintro now rfl here m
  have effect := simple_effect simple shaped.isFormula settings room m
  unfold completing
  generalize eval settings room now.next m = result at effect
  generalize same : now.next = n at effect
  have silent : ∀ {label ns}, n = .branch label ns → label ≠ .declaration →
      ∀ name, ¬ now.next.Declares name := by
    rintro label ns rfl other name declares
    rw [same] at declares
    exact other declares.label
  cases effect with
  | halted => exact .same rfl
  | @declared l e v scope _ writes =>
    have declares : ∀ name, now.next.Declares name ↔ name = l.text := by
      intro name
      rw [same]
      exact ⟨fun ⟨text⟩ => text.symm, fun text => .intro text.symm⟩
    refine ⟨by simp [here], fun name => ?_, fun d => ?_⟩
    · simp [final, writes.bindsAt, here, declares]
    · funext name
      rw [Bool.eq_iff_iff]
      simp [final, writes.bindsAt]
  | @assigned l e v frame scope _ nearest writes =>
    refine .other (.same ?_) here (silent rfl (by simp))
    funext d name
    rw [Bool.eq_iff_iff]
    simp only [final, writes.bindsAt, or_iff_left_iff_imp]
    rintro ⟨rfl, rfl⟩
    exact nearest.binds
  | printed => exact .other (.same rfl) here (silent rfl (by simp))
  | dropped => exact .other (.same rfl) here (silent rfl (by simp))

theorem block_names (inside : ∀ less < room, RecordsStatements settings less)
    (shaped : ∀ n ∈ ns, IsStatement n) (site : Node) :
    Names depth (block settings room (.branch .block ns))
      (blockCompleted settings room depth site (.branch .block ns)) := by
  match room with
  | 0 => exact .still (.halt _)
  | 1 =>
    have names : Names depth (inBlock settings (throw .tooDeep))
        (framedMoments settings (fun _ _ => []) depth) := .inBlock fun _ => .still (.halt _)
    rwa [framedMoments_nil] at names
  | room + 2 =>
    refine .inBlock fun deeper => runAll_names site fun n member => ?_
    exact inside room (by omega) deeper n (shaped n member)

/-- A statement with blocks binds what is declared in them, and declares nothing itself. -/
theorem control_names {label : Label} (inside : ∀ less < room, RecordsStatements settings less)
    (controls : label ∈ [.conditional, .loop]) (shaped : IsStatement (.branch label ns)) :
    Names depth (step settings room (.branch label ns))
      (completed settings (room + 1) depth (.branch label ns)) := by
  have below : ∀ less < room - 3, RecordsStatements settings less := fun less _ =>
    inside less (by omega)
  cases shaped with
  | declaration | assignment | print | expression => simp at controls
  | conditional test body =>
    match room with
    | 0 | 1 | 2 => exact .still (.halt _)
    | room + 3 =>
      refine .bind (.still (eval_still settings room test.isFormula)) fun v => ?_
      exact .ite (.ended (block_names below body _) _) (.still (.value _))
  | alternative test body other =>
    match room with
    | 0 | 1 | 2 => exact .still (.halt _)
    | room + 3 =>
      refine .bind (.still (eval_still settings room test.isFormula)) fun v => ?_
      exact .ite (.ended (block_names below body _) _) (.ended (block_names below other _) _)
  | loop test body =>
    match room with
    | 0 | 1 | 2 => exact .still (.halt _)
    | room + 3 =>
      refine .ended (runWhile_names (eval_still settings room test.isFormula) ?_ _) _
      exact block_names below body _

/-- A statement is simple or has blocks. -/
theorem simple_or_control {n : Node} (shaped : IsStatement n) :
    (∃ e, IsExpression e ∧ Simple e n ∧ ∃ label ns, n = .branch label ns ∧
      label ∉ [.conditional, .loop]) ∨
      ∃ label ns, n = .branch label ns ∧ label ∈ [.conditional, .loop] := by
  cases shaped with
  | declaration name value =>
    obtain ⟨l, rfl⟩ := name.exists_leaf
    exact .inl ⟨_, value, .declaration l, _, _, rfl, by simp⟩
  | assignment name value =>
    obtain ⟨l, rfl⟩ := name.exists_leaf
    exact .inl ⟨_, value, .assignment l, _, _, rfl, by simp⟩
  | print value => exact .inl ⟨_, value, .print, _, _, rfl, by simp⟩
  | expression value => exact .inl ⟨_, value, .expression, _, _, rfl, by simp⟩
  | conditional | alternative | loop => exact .inr ⟨_, _, rfl, by simp⟩

/-- Statements are recorded with any room: by induction on the room. -/
theorem statements_record (settings : Settings) (room : Nat) : RecordsStatements settings room := by
  induction room using Nat.strongRecOn with
  | ind room ih =>
    intro depth n shaped
    rcases simple_or_control shaped with
      ⟨e, value, simple, label, ns, rfl, uncontrolled⟩ | ⟨label, ns, rfl, controls⟩
    · rw [completed_simple _ _ _ _ uncontrolled]
      exact simple_records simple value room
    · intro now same here
      have silent : ∀ name, ¬ now.next.Declares name := by
        intro name declares
        rw [same] at declares
        rw [declares.label] at controls
        simp at controls
      refine .completing ?_ here silent
      match room with
      | 0 => exact .still (.halt _)
      | room + 1 =>
        refine .located ?_ _ _
        exact control_names (fun less below => ih less (by omega)) controls shaped

theorem program_names (settings : Settings) (room : Nat) (shaped : ∀ n ∈ ns, IsStatement n) :
    Names 0 (eval settings room (.branch .program ns))
      (programCompleted settings room (.branch .program ns)) := by
  match room with
  | 0 | 1 | 2 => exact .still (.halt _)
  | room + 3 =>
    refine .located (.ended (runAll_names _ fun n member => ?_) _) _ _
    exact statements_record settings room 0 n (shaped n member)

/-! ## Where statements are completed -/

theorem mem_completing {x : EvalM Value} {inside : Machine → List Moment} {now moment : Moment}
    {m : Machine} (member : moment ∈ completing x inside now m) :
    moment = now ∨ moment ∈ inside m := by
  unfold completing at member
  split at member
  · exact List.mem_cons.mp member
  · exact .inr member

theorem Throughout.completing {p : Moment → Prop} {x : EvalM Value} {now : Moment}
    {inside : Machine → List Moment} (here : p now) (inner : Throughout p inside) :
    Throughout p (completing x inside now) := by
  intro m
  unfold Eval.completing
  split
  · exact List.forall_mem_cons.mpr ⟨here, inner m⟩
  · exact inner m

theorem Throughout.listCompleted {p : Moment → Prop} {site : Node} {run : Node → EvalM Value}
    {inside : Node → Machine → List Moment}
    (here : ∀ n ∈ ns, ∀ m, p ⟨site, n, depth, m⟩) (each : ∀ n ∈ ns, Throughout p (inside n)) :
    Throughout p (listCompleted settings site depth run inside ns) := by
  induction ns with
  | nil => exact .none
  | cons n ns ih =>
    obtain ⟨first, others⟩ := List.forall_mem_cons.mp here
    obtain ⟨inner, inners⟩ := List.forall_mem_cons.mp each
    intro m
    have now : Throughout p (Eval.completing (run n) (inside n) ⟨site, n, depth, m⟩) :=
      .completing (first m) inner
    exact Throughout.andThen .none (fun _ => .andThen now fun _ => ih others inners) m

theorem Throughout.loopCompleted {p : Moment → Prop} {condition : EvalM Value} {body : EvalM Unit}
    {inside : Machine → List Moment} (each : Throughout p inside) (rounds : Nat) :
    Throughout p (loopCompleted settings condition body inside rounds) := by
  induction rounds with
  | zero => exact .none
  | succ rounds ih =>
    exact .andThen .none fun _ => .andThen .none fun v => .ite (.andThen each fun _ => ih) .none

/-- A statement is completed in a block of a conditional or a loop that is run at a depth. -/
structure Inner (settings : Settings) (tree : Node) (depth : Nat) (moment : Moment) : Prop where
  isOf : moment.IsOf tree
  control : ∃ label ns, moment.site = .branch label ns ∧ label ∈ [.conditional, .loop]
  framed : settings.blockScoped = true → depth < moment.depth
  flat : settings.blockScoped = false → moment.depth = depth

/-- What is completed inside the statements of a tree, with some room, is in blocks of them. -/
def CompletedWithin (settings : Settings) (tree : Node) (room : Nat) : Prop :=
  ∀ depth n, IsStatement n → Within n tree →
    Throughout (Inner settings tree depth) (completed settings room depth n)

theorem blockCompleted_inner {label : Label} {parts : List Node} {tree : Node}
    (controls : label ∈ [.conditional, .loop]) (part : .branch .block ns ∈ parts)
    (shaped : ∀ n ∈ ns, IsStatement n) (within : Within (.branch label parts) tree)
    (inside : ∀ less < room, CompletedWithin settings tree less) :
    Throughout (Inner settings tree depth)
      (blockCompleted settings room depth (.branch label parts) (.branch .block ns)) := by
  match room with
  | 0 | 1 => exact .none
  | room + 2 =>
    have each : ∀ deeper, (settings.blockScoped = true → depth < deeper) →
        (settings.blockScoped = false → deeper = depth) →
        Throughout (Inner settings tree depth) (listCompleted settings (.branch label parts) deeper
          (eval settings room) (completed settings room deeper) ns) := by
      intro deeper framed flat
      refine .listCompleted (fun n member m => ?_) fun n member m moment found => ?_
      · exact ⟨⟨within, .block controls part member⟩, ⟨label, parts, rfl, controls⟩, framed, flat⟩
      · have inner : Within n tree :=
          (Within.inside member (.refl n)).trans ((Within.inside part (.refl _)).trans within)
        have known := inside room (by omega) deeper n (shaped n member) inner m moment found
        refine ⟨known.isOf, known.control, fun isFramed => ?_, fun isFlat => ?_⟩
        · exact Nat.lt_trans (framed isFramed) (known.framed isFramed)
        · exact (known.flat isFlat).trans (flat isFlat)
    intro m
    rw [blockCompleted, framedMoments]
    split
    · next isFramed => exact each _ (fun _ => Nat.lt_succ_self depth) (by simp [isFramed]) _
    · next isFlat => exact each _ (fun isFramed => absurd isFramed isFlat) (fun _ => rfl) _

/-- By induction on the room, since blocks are run with less. -/
theorem completed_inner (settings : Settings) (tree : Node) (room : Nat) :
    CompletedWithin settings tree room := by
  induction room using Nat.strongRecOn with
  | ind room ih =>
    intro depth n shaped within
    match room with
    | 0 | 1 | 2 | 3 => exact .none
    | room + 4 =>
      have inside : ∀ less < room, CompletedWithin settings tree less := fun less _ =>
        ih less (by omega)
      cases shaped with
      | declaration | assignment | print | expression =>
        rw [completed_simple _ _ _ _ (by simp)]
        exact .none
      | conditional test body =>
        refine .andThen .none fun v => .ite ?_ .none
        exact blockCompleted_inner (by simp) (by simp) body within inside
      | alternative test body other =>
        refine .andThen .none fun v => .ite ?_ ?_
        · exact blockCompleted_inner (by simp) (by simp) body within inside
        · exact blockCompleted_inner (by simp) (by simp) other within inside
      | loop test body =>
        refine .loopCompleted ?_ _
        exact blockCompleted_inner (by simp) (by simp) body within inside

end Eval

/-- The statements that a run completes, with the states before them. -/
def completions (settings : Settings) (scope : Scope) (tree : Node) : List Moment :=
  Eval.programCompleted settings Eval.depthLimit tree ⟨scope, #[], 0⟩

open Eval

/-- A statement of a program is completed at the frame that the run starts in if blocks have no
    frames, or if it is one of the program's own statements. -/
theorem completions_depth {settings : Settings} {scope : Scope} {tree : Node}
    (program : tree.IsProgram) : ∀ moment ∈ completions settings scope tree,
      moment.IsOf tree ∧ (settings.blockScoped = false → moment.depth = 0) ∧
        (settings.blockScoped = true → (moment.depth = 0 ↔ moment.site = tree)) := by
  obtain @⟨statements, shaped⟩ := program
  refine Throughout.listCompleted (fun n member m => ?_) (fun n member m moment found => ?_) _
  · exact ⟨⟨.refl _, .program member⟩, fun _ => rfl, fun _ => iff_of_true rfl rfl⟩
  · have within : Within n (.branch .program statements) := .inside member (.refl n)
    have known := completed_inner settings _ _ 0 n (shaped n member) within m moment found
    refine ⟨known.isOf, known.flat, fun framed => ?_⟩
    obtain ⟨label, ns, site, controls⟩ := known.control
    refine iff_of_false (Nat.ne_of_gt (known.framed framed)) fun same => ?_
    rw [site] at same
    obtain ⟨rfl, -⟩ := Node.branch.inj same
    simp at controls

theorem scope_ofResult (result : EStateM.Result Halt Machine Value) :
    (Report.ofResult result).scope = (final result).scope := by
  cases result <;> rfl

/-- What a statement may do to the names of frames: it takes none away and adds none further out. An
    assignment adds none at all, and neither does a conditional or a loop whose blocks have
    frames. -/
structure Confined (settings : Settings) (n : Node) (before after : Scope) : Prop where
  kept : ∀ depth name, Scope.bindsAt before depth name = true →
    Scope.bindsAt after depth name = true
  outer : ∀ depth, Scope.bindsAt after (depth + 1) = Scope.bindsAt before (depth + 1)
  assignment : ∀ ns, n = .branch .assignment ns → Scope.bindsAt after = Scope.bindsAt before
  control : settings.blockScoped = true → ∀ label ns, n = .branch label ns →
    label ∈ [.conditional, .loop] → Scope.bindsAt after = Scope.bindsAt before

theorem statement_confined {n : Node} (shaped : n.IsStatement) (settings : Settings) (room : Nat)
    (m : Machine) : Confined settings n m.scope (final (eval settings room n m)).scope := by
  have names := statements_record settings room 0 n shaped ⟨n, n, 0, m⟩ rfl rfl m
  -- Only the statement itself, or what is completed inside it, could have declared a name.
  have unchanged : (∀ name, ¬ n.Declares name) →
      (∀ moment ∈ completed settings room 0 n m, moment.depth ≠ 0) →
      Scope.bindsAt (final (eval settings room n m)).scope = Scope.bindsAt m.scope := by
    intro silent deeper
    refine names.bindsAt_eq fun moment member here => ?_
    rcases mem_completing member with rfl | inside
    · exact silent
    · exact absurd here (deeper moment inside)
  refine ⟨names.kept, names.outer, ?_, ?_⟩
  · rintro ns rfl
    refine unchanged (fun name declares => by cases declares) ?_
    rw [completed_simple _ _ _ _ (by simp)]
    simp
  · rintro framed label ns rfl controls
    refine unchanged (fun name declares => ?_) fun moment member => ?_
    · rw [declares.label] at controls
      simp at controls
    · have known := completed_inner settings _ room 0 _ shaped (.refl _) m moment member
      exact Nat.ne_of_gt (known.framed framed)

/-- Only declarations create bindings, and those of blocks with frames are dropped with them.
    However a run ends, its first frame has the names that it had and those of the completed
    declarations at depth zero: all of them in a flat run, and those among the program's own
    statements in a scoped one. The frames further out have the names that they had. Every statement
    that is run on the way, at whatever depth and however it ends, is confined in the same way. -/
theorem execute_names {tree : Node} (program : tree.IsProgram) (settings : Settings)
    (scope : Scope) :
    let after := (execute settings scope tree).scope
    (∀ name, Scope.bindsAt after 0 name = true ↔ Scope.bindsAt scope 0 name = true ∨
      ∃ moment ∈ completions settings scope tree, moment.depth = 0 ∧ moment.next.Declares name) ∧
    (∀ depth, Scope.bindsAt after (depth + 1) = Scope.bindsAt scope (depth + 1)) ∧
    (∀ moment ∈ completions settings scope tree, moment.IsOf tree ∧
      (settings.blockScoped = false → moment.depth = 0) ∧
      (settings.blockScoped = true → (moment.depth = 0 ↔ moment.site = tree))) ∧
    ∀ n, n.IsStatement → ∀ room m,
      Confined settings n m.scope (final (eval settings room n m)).scope := by
  intro after
  have whole : after = (final (eval settings depthLimit tree ⟨scope, #[], 0⟩)).scope := by
    show (execute settings scope tree).scope = _
    rw [execute_eq, scope_ofResult]
  have names : NamesAfter 0 ⟨scope, #[], 0⟩ (final (eval settings depthLimit tree ⟨scope, #[], 0⟩))
      (completions settings scope tree) := by
    obtain ⟨shaped⟩ := program
    exact program_names settings depthLimit shaped _
  rw [whole]
  exact ⟨names.inner, names.outer, completions_depth program, fun n shaped room m =>
    statement_confined shaped settings room m⟩

/-- The program `if (a) { var b = a; var c = d; }`. -/
def unfinishedBlock : Node :=
  .branch .program [.branch .conditional [word "a", .branch .block
    [.branch .declaration [word "b", word "a"], .branch .declaration [word "c", word "d"]]]]
where
  word (text : String) : Node := .leaf ⟨.token .identifier, text, {}⟩

/-- The second declaration of the block fails. The first one is completed in both modes, and it is
    dropped with the frame of the block if there is one. -/
theorem execute_names_unfinishedBlock :
    let scope : Scope := [[("a", .boolean true)]]
    unfinishedBlock.IsProgram ∧
    (execute {} scope unfinishedBlock).failure =
      some (.halt (.fault (.undefinedVariable "d") none)) ∧
    (∃ moment ∈ completions {} scope unfinishedBlock,
      moment.depth = 0 ∧ moment.next.Declares "b") ∧
    ¬ ∃ moment ∈ completions { blockScoped := true } scope unfinishedBlock,
      moment.depth = 0 ∧ moment.next.Declares "b" := by
  intro scope
  have a : Node.IsLeaf [.identifier] (unfinishedBlock.word "a") :=
    .name (Lexical.word_of_all rfl rfl) rfl
  have b : Node.IsLeaf [.identifier] (unfinishedBlock.word "b") :=
    .name (Lexical.word_of_all rfl rfl) rfl
  have c : Node.IsLeaf [.identifier] (unfinishedBlock.word "c") :=
    .name (Lexical.word_of_all rfl rfl) rfl
  have d : Node.IsLeaf [.identifier] (unfinishedBlock.word "d") :=
    .name (Lexical.word_of_all rfl rfl) rfl
  have program : unfinishedBlock.IsProgram := by
    refine .intro (List.forall_mem_singleton.mpr (.conditional a.isExpression ?_))
    refine List.forall_mem_cons.mpr ⟨.declaration b a.isExpression, ?_⟩
    exact List.forall_mem_singleton.mpr (.declaration c d.isExpression)
  have flat := (execute_names program {} scope).1 "b"
  have framed := (execute_names program { blockScoped := true } scope).1 "b"
  have bound : Scope.bindsAt (execute {} scope unfinishedBlock).scope 0 "b" = true := rfl
  have unbound : Scope.bindsAt
      (execute { blockScoped := true } scope unfinishedBlock).scope 0 "b" = false := rfl
  refine ⟨program, rfl, (flat.mp bound).resolve_left (by decide), fun completed => ?_⟩
  rw [framed.mpr (.inr completed)] at unbound
  cases unbound

end BraceScript
