import BraceScript.Proofs.Eval.Moments
import BraceScript.Proofs.Grammar.Leaves
import BraceScript.Proofs.Report
import BraceScript.Proofs.Scanner.Places
import BraceScript.Proofs.Scope

/-!
# What a fault is blamed on

The last moment of a run that faults explains the fault. Either the poll found the cancel signal
set, and the first leaf of the program, conditional or loop that polled is to blame; or the
statement that came next assigns a name without a value; or the expression that it starts with has
no value, for the reason that `Faults` gives. The fault is reported at the place of the leaf to
blame, where the text of the leaf stands in the source.

A fault is given its place on the way out. So a list of statements leaves the place of a cancelled
poll open, and the statement or the program around it fills in its own.
-/

namespace BraceScript

open Node

namespace Node

/-- What a statement computes first; the condition of a loop is computed itself. -/
inductive Computes : Node → Node → Prop
  | declaration {name e : Node} : Computes (.branch .declaration [name, e]) e
  | assignment {name e : Node} : Computes (.branch .assignment [name, e]) e
  | print {e : Node} : Computes (.branch .print [e]) e
  | expression {e : Node} : Computes (.branch .expression [e]) e
  | conditional {e : Node} {blocks : List Node} : Computes (.branch .conditional (e :: blocks)) e
  | condition {e : Node} : Computes e e

theorem Computes.within {n e : Node} (computes : Computes n e) : Within e n := by
  cases computes with
  | declaration | assignment | print | expression | conditional =>
    exact .inside (by simp) (.refl _)
  | condition => exact .refl _

end Node

namespace Moment

/-- The reason why a run stops after a moment, and the leaf that is to blame. -/
inductive Blames (settings : Settings) (moment : Moment) : Fault → Leaf → Prop
  | cancelled {l : Leaf} :
    Eval.isCancelled settings moment.state = true → moment.site.firstLeaf? = some l →
    Blames settings moment .cancelled l
  | target {l : Leaf} {value : Node} :
    moment.next = .branch .assignment [.leaf l, value] → l.kind = .token .identifier →
    Scope.binds moment.state.scope l.text = false →
    Blames settings moment (.undefinedVariable l.text) l
  | expression {e : Node} {cause : Fault} {l : Leaf} :
    Computes moment.next e → IsExpression e → Faults moment.state.scope e cause l →
    Blames settings moment cause l

variable {settings : Settings} {moment : Moment} {cause : Fault} {l : Leaf} {tree : Node}

theorem Polls.within {site next : Node} (polls : Polls site next) : Within next site := by
  cases polls with
  | program member => exact .inside member (.refl next)
  | block _ part member => exact .inside part (.inside member (.refl next))
  | condition => exact .inside List.mem_cons_self (.refl next)

theorem Blames.mem_leaves (blames : Blames settings moment cause l) (isOf : IsOf tree moment) :
    l ∈ tree.leaves := by
  have next := isOf.polls.within.trans isOf.within
  cases blames with
  | cancelled _ first =>
    rw [firstLeaf?_eq_head?] at first
    exact isOf.within.leaves (List.mem_of_mem_head? first)
  | target same =>
    rw [same] at next
    exact next.leaves (by simp [leaves, forestLeaves])
  | expression computes _ faults =>
    exact (computes.within.trans next).leaves faults.mem_leaves

theorem Blames.suits (blames : Blames settings moment cause l) :
    cause = .cancelled ∨ cause.Suits l := by
  cases blames with
  | cancelled => exact .inl rfl
  | target _ isName => exact .inr (.undefinedVariable isName)
  | expression _ shaped faults => exact .inr (faults.suits shaped)

end Moment

namespace Eval

open Outcome

/-! ## Explanations -/

/-- If a result is a fault, the last of some moments explains it. -/
def Explained {α : Type} (settings : Settings) (placed : Leaf → Option Position → Prop)
    (moments : List Moment) (result : EStateM.Result Halt Machine α) : Prop :=
  ∀ cause place m, result = .error (.fault cause place) m →
    ∃ moment l, moments.getLast? = some moment ∧ moment.Blames settings cause l ∧ placed l place

/-- A fault that has its place, or is to get it from a tree around it. -/
def Pending (n : Node) (l : Leaf) (place : Option Position) : Prop :=
  PlacedAt l place ∨ place = none ∧ n.position? = l.position?

namespace Explained

variable {α β : Type} {settings : Settings} {placed placed' : Leaf → Option Position → Prop}
  {moments : List Moment} {m : Machine} {n site : Node} {depth : Nat}

theorem value (a : α) (m : Machine) :
    Explained settings placed moments (.ok a m : EStateM.Result Halt Machine α) := by
  rintro _ _ _ ⟨⟩

theorem tooDeep (m : Machine) :
    Explained settings placed moments (.error .tooDeep m : EStateM.Result Halt Machine α) := by
  rintro _ _ _ ⟨⟩

theorem fault {moment : Moment} {cause : Fault} {place : Option Position} {l : Leaf}
    (blames : moment.Blames settings cause l) (known : placed l place) (m : Machine) :
    Explained settings placed [moment]
      (.error (.fault cause place) m : EStateM.Result Halt Machine α) := by
  rintro _ _ _ ⟨⟩
  exact ⟨moment, l, rfl, blames, known⟩

theorem mono {result : EStateM.Result Halt Machine α}
    (explained : Explained settings placed moments result)
    (weaker : ∀ l place, placed l place → placed' l place) :
    Explained settings placed' moments result := by
  intro cause place m' failed
  obtain ⟨moment, l, last, blames, known⟩ := explained cause place m' failed
  exact ⟨moment, l, last, blames, weaker l place known⟩

/-- A fault is explained whatever value the action would have given, and in whatever state. -/
theorem halted {reason : Halt} (m' : Machine)
    (explained : Explained settings placed moments
      (.error reason m : EStateM.Result Halt Machine α)) :
    Explained settings placed moments (.error reason m' : EStateM.Result Halt Machine β) := by
  rintro cause place _ ⟨⟩
  exact explained cause place m rfl

/-- Earlier moments do not matter. -/
theorem after {result : EStateM.Result Halt Machine α} (front : List Moment)
    (explained : Explained settings placed moments result) :
    Explained settings placed (front ++ moments) result := by
  intro cause place m' failed
  obtain ⟨moment, l, last, rest⟩ := explained cause place m' failed
  exact ⟨moment, l, by rw [List.getLast?_append, last, Option.some_or], rest⟩

theorem bind {x : EvalM α} {next : α → EvalM β} (first : Machine → List Moment)
    {second : α → Machine → List Moment} (front : Explained settings placed (first m) (x m))
    (back : ∀ a m', x m = .ok a m' → Explained settings placed (second a m') (next a m')) :
    Explained settings placed (andThen x first second m) ((x >>= next) m) := by
  cases outcome : x m with
  | error reason m' =>
    rw [outcome] at front
    rw [bind_error outcome, andThen_error outcome]
    exact front.halted m'
  | ok a m' =>
    rw [bind_ok outcome, andThen_ok outcome]
    exact (back a m' outcome).after _

/-- An action whose value is replaced. -/
theorem ended {x : EvalM α} (explained : Explained settings placed moments (x m)) (b : β) :
    Explained settings placed moments ((x >>= fun _ => pure b) m) := by
  cases outcome : x m with
  | error reason m' =>
    rw [outcome] at explained
    rw [bind_error outcome]
    exact explained.halted m'
  | ok a m' =>
    rw [bind_ok outcome]
    exact value b m'

theorem discard {x : EvalM α} (explained : Explained settings placed moments (x m)) :
    Explained settings placed moments (Functor.discard x m) := by
  rw [discard_eq_bind]
  exact explained.ended ()

/-- A statement or a program fills in the places that are open. -/
theorem located {x : EvalM α} (own : n.faultPosition? = n.position?)
    (explained : Explained settings (Pending n) moments (x m)) :
    Explained settings PlacedAt moments (locating Node.faultPosition? n x m) := by
  unfold locating
  split
  · next cause m' outcome =>
    rintro _ _ _ ⟨⟩
    obtain ⟨moment, l, last, blames, known⟩ := explained cause none m' outcome
    refine ⟨moment, l, last, blames, fun placed => ?_⟩
    rcases known with inside | ⟨-, here⟩
    · rw [← inside placed] at placed
      cases placed
    · rw [own, here]
  · next result unplaced =>
    intro cause place m' outcome
    obtain ⟨moment, l, last, blames, known⟩ := explained cause place m' outcome
    refine ⟨moment, l, last, blames, ?_⟩
    rcases known with inside | ⟨rfl, -⟩
    · exact inside
    · exact absurd outcome (unplaced cause m')

theorem inBlock {x : EvalM Unit} {inside : Nat → Machine → List Moment}
    (explained : ∀ deeper m, Explained settings placed (inside deeper m) (x m)) :
    Explained settings placed (framedMoments settings inside depth m) (inBlock settings x m) := by
  cases framed : settings.blockScoped with
  | false =>
    rw [inBlock_flat framed, framedMoments, if_neg (by simp [framed])]
    exact explained depth m
  | true =>
    have within := explained (depth + 1) { m with scope := [] :: m.scope }
    rw [inBlock_framed framed, framedMoments, if_pos framed]
    cases outcome : x { m with scope := [] :: m.scope } with
    | ok a m' => exact value a _
    | error reason m' =>
      rw [outcome] at within
      exact within.halted _

end Explained

/-- What is run at a moment is explained by that moment or by the later ones. -/
def ExplainsFrom {α : Type} (settings : Settings) (next : Node)
    (placed : Leaf → Option Position → Prop) (x : EvalM α)
    (inside : Machine → List Moment) : Prop :=
  ∀ now : Moment, now.next = next → ∀ m, now.state.scope = m.scope →
    Explained settings placed (now :: inside m) (x m)

namespace ExplainsFrom

variable {α β : Type} {settings : Settings} {next : Node} {x : EvalM α}
  {placed : Leaf → Option Position → Prop} {inside : Machine → List Moment}

theorem tooDeep : ExplainsFrom settings next placed (throw .tooDeep : EvalM α) inside :=
  fun _ _ m _ => .tooDeep m

theorem pending (explains : ExplainsFrom settings next PlacedAt x inside) (n : Node) :
    ExplainsFrom settings next (Pending n) x inside :=
  fun now same m scope => (explains now same m scope).mono fun _ _ => .inl

theorem bind {rest : α → EvalM β} {second : α → Machine → List Moment}
    (front : ExplainsFrom settings next placed x inside)
    (back : ∀ a m, Explained settings placed (second a m) (rest a m)) :
    ExplainsFrom settings next placed (x >>= rest) (andThen x inside second) := by
  intro now same m scope
  exact .bind (fun m => now :: inside m) (front now same m scope) fun a m' _ => back a m'

/-- What follows without moments and never faults. -/
theorem quietly {rest : α → EvalM β} (explains : ExplainsFrom settings next placed x inside)
    (back : ∀ a m, Explained settings placed [] (rest a m)) :
    ExplainsFrom settings next placed (x >>= rest) inside := by
  have both : ExplainsFrom settings next placed (x >>= rest) (andThen x inside fun _ _ => []) :=
    explains.bind back
  rwa [andThen_nil] at both

theorem discard (explains : ExplainsFrom settings next placed x inside) :
    ExplainsFrom settings next placed (Functor.discard x) inside :=
  fun now same m scope => (explains now same m scope).discard

theorem expression {e : Node} (room : Nat) (computes : Computes next e) (shaped : IsExpression e) :
    ExplainsFrom settings next PlacedAt (eval settings room e) fun _ => [] := by
  rintro now rfl m scope
  have settles := eval_settles settings room shaped m
  generalize eval settings room e m = result at settles
  cases settles with
  | value => exact .value _ m
  | tooDeep => exact .tooDeep m
  | fault faults placed =>
    rw [← scope] at faults
    exact .fault (.expression computes shaped faults) placed m

/-- What follows a poll: the poll faults if the signal is set, and its place is left open. -/
theorem polled {site : Node} {first : Leaf} {depth : Nat} (start : site.firstLeaf? = some first)
    (explains : ExplainsFrom settings next (Pending site) x inside) (m : Machine) :
    Explained settings (Pending site)
      (andThen (poll settings) (fun m => [⟨site, next, depth, m⟩]) (fun _ => inside) m)
      ((poll settings >>= fun _ => x) m) := by
  cases found : isCancelled settings m with
  | true =>
    have stopped : poll settings m = .error (.fault .cancelled none) (Eval.polled m) := by
      rw [poll_run, found]
      rfl
    rw [bind_error stopped, andThen_error stopped]
    refine .fault (.cancelled found start) (.inr ⟨rfl, ?_⟩) _
    rw [position?, start, Option.bind_some]
  | false =>
    have passed : poll settings m = .ok () (Eval.polled m) := by
      rw [poll_run, found]
      rfl
    rw [bind_ok passed, andThen_ok passed]
    exact explains _ rfl _ rfl

end ExplainsFrom

/-! ## Statements -/

section

variable {settings : Settings} {site : Node} {first : Leaf} {room depth : Nat} {ns : List Node}

theorem runAll_explained {run : Node → EvalM Value} {inside : Node → Machine → List Moment}
    (start : site.firstLeaf? = some first)
    (each : ∀ n ∈ ns, ExplainsFrom settings n PlacedAt (run n) (inside n)) (m : Machine) :
    Explained settings (Pending site) (listMoments settings site depth run inside ns m)
      (runAll settings run ns m) := by
  induction ns generalizing m with
  | nil => exact .value () m
  | cons n ns ih =>
    obtain ⟨head, others⟩ := List.forall_mem_cons.mp each
    exact ((head.discard.pending site).bind fun _ => ih others).polled start m

theorem runWhile_explained {test : Node} {condition : EvalM Value} {body : EvalM Unit}
    {inside : Machine → List Moment} (start : site.firstLeaf? = some first)
    (conditions : ExplainsFrom settings test PlacedAt condition fun _ => [])
    (bodies : ∀ m, Explained settings (Pending site) (inside m) (body m)) (rounds : Nat)
    (m : Machine) :
    Explained settings (Pending site)
      (loopMoments settings site test depth condition body inside rounds m)
      (runWhile settings condition body rounds m) := by
  induction rounds generalizing m with
  | zero =>
    rintro _ _ _ ⟨⟩
  | succ rounds ih =>
    refine ((conditions.pending site).bind fun v m => ?_).polled start m
    split
    · exact .bind inside (bodies m) fun _ m' _ => ih m'
    · exact .value () m

/-- The faults of statements are explained with some room, at every depth. -/
def ExplainsStatements (settings : Settings) (room : Nat) : Prop :=
  ∀ depth n, IsStatement n →
    ExplainsFrom settings n PlacedAt (eval settings room n) (moments settings room depth n)

theorem block_explained (inside : ∀ less < room, ExplainsStatements settings less)
    (shaped : ∀ n ∈ ns, IsStatement n) (start : site.firstLeaf? = some first) (m : Machine) :
    Explained settings (Pending site) (blockMoments settings room depth site (.branch .block ns) m)
      (block settings room (.branch .block ns) m) := by
  match room with
  | 0 => exact .tooDeep m
  | 1 =>
    have explained : Explained settings (Pending site)
        (framedMoments settings (fun _ _ => []) depth m) (inBlock settings (throw .tooDeep) m) :=
      .inBlock fun _ m => .tooDeep m
    rwa [framedMoments_nil] at explained
  | room + 2 =>
    have each : ∀ deeper m, Explained settings (Pending site)
        (listMoments settings site deeper (eval settings room) (moments settings room deeper) ns m)
        (runAll settings (eval settings room) ns m) := by
      intro deeper
      refine runAll_explained start fun n member => ?_
      exact inside room (by omega) deeper n (shaped n member)
    exact .inBlock each

theorem print_explained {n value : Node} (recording : settings.recording = true)
    (computes : Computes n value) (shaped : IsExpression value) :
    ExplainsFrom settings n PlacedAt (print settings room value) fun _ => [] := by
  match room with
  | 0 => exact .tooDeep
  | room + 1 =>
    refine .quietly (.expression room computes shaped) fun v m => ?_
    rw [if_pos recording]
    exact .value () _

/-- An assignment faults at its target if no frame binds it. Otherwise only its expression can: it
    leaves the scope alone, so that the target is still bound when the value is known. -/
theorem assignment_explained {l : Leaf} {value : Node} (isName : l.kind = .token .identifier)
    (shaped : IsExpression value) :
    ExplainsFrom settings (.branch .assignment [.leaf l, value])
      (Pending (.branch .assignment [.leaf l, value]))
      (compound settings (room + 2) .assignment [.leaf l, value]) fun _ => [] := by
  intro now same m scope
  rw [compound_assignment _ _ isName]
  have required := requireBound_run room l.text m
  by_cases deep : room < Scope.reach m.scope l.text
  · rw [if_pos deep] at required
    rw [bind_error required]
    exact .tooDeep m
  rw [if_neg deep] at required
  cases bound : Scope.binds m.scope l.text with
  | false =>
    rw [bound] at required
    rw [bind_error required]
    refine .fault (.target same isName (by rw [scope, bound])) (.inr ⟨rfl, ?_⟩) m
    rw [position?_eq_head?]
    rfl
  | true =>
    rw [bound] at required
    rw [bind_ok required]
    have settles := eval_settles settings room shaped m
    have explained : Explained settings (Pending (.branch .assignment [.leaf l, value])) [now]
        (eval settings room value m) :=
      (ExplainsFrom.expression room .assignment shaped).pending _ now same m scope
    cases outcome : eval settings room value m with
    | error reason m' =>
      rw [outcome] at explained
      rw [bind_error outcome]
      exact explained.halted m'
    | ok v m' =>
      rw [outcome] at settles
      obtain ⟨-⟩ := settles
      obtain ⟨changed, found⟩ :=
        Option.isSome_iff_exists.mp ((Scope.isSome_set? m.scope l.text v).trans bound)
      have assigned : assign room l.text v m = .ok () { m with scope := changed } := by
        rw [assign_run, if_neg deep, found]
      rw [bind_ok outcome, bind_ok assigned]
      exact .value _ _

/-- The statements whose rules take two units. -/
theorem compound_explained (inside : ∀ less < room, ExplainsStatements settings less)
    {label : Label} (compounds : label ∈ [.declaration, .assignment, .conditional, .loop])
    (shaped : IsStatement (.branch label ns)) :
    ExplainsFrom settings (.branch label ns) (Pending (.branch label ns))
      (compound settings room label ns) (moments settings (room + 2) depth (.branch label ns)) := by
  obtain ⟨first, start⟩ := exists_firstLeaf? shaped.leaves_ne_nil
  match room with
  | 0 | 1 => exact .tooDeep
  | room + 2 =>
    have below : ∀ less < room, ExplainsStatements settings less := fun less _ =>
      inside less (by omega)
    cases shaped with
    | declaration name value =>
      obtain ⟨l, rfl, isName⟩ := name.identifier
      rw [compound_declaration _ _ isName, moments_simple _ _ _ _ (by simp)]
      refine .quietly ((ExplainsFrom.expression room .declaration value).pending _) fun v m => ?_
      exact .value _ _
    | assignment name value =>
      obtain ⟨l, rfl, isName⟩ := name.identifier
      rw [moments_simple _ _ _ _ (by simp)]
      exact assignment_explained isName value
    | print => simp at compounds
    | expression => simp at compounds
    | conditional test body =>
      refine .bind ((ExplainsFrom.expression room .conditional test).pending _) fun v m => ?_
      split
      · exact (block_explained below body start m).ended _
      · exact .value _ m
    | alternative test body other =>
      refine .bind ((ExplainsFrom.expression room .conditional test).pending _) fun v m => ?_
      split
      · exact (block_explained below body start m).ended _
      · exact (block_explained below other start m).ended _
    | loop test body =>
      intro now same m scope
      refine .after [now] (.ended (runWhile_explained start ?_ ?_ _ m) _)
      · exact .expression room .condition test
      · exact block_explained below body start

theorem step_explained {n : Node} (recording : settings.recording = true)
    (inside : ∀ less < room, ExplainsStatements settings less) (shaped : IsStatement n) :
    ExplainsFrom settings n (Pending n) (step settings room n)
      (moments settings (room + 1) depth n) := by
  match room with
  | 0 => exact .tooDeep
  | room + 1 =>
    have below : ∀ less < room, ExplainsStatements settings less := fun less _ =>
      inside less (by omega)
    rcases shaped.rule with ⟨value, shapedValue, rfl | rfl⟩ | ⟨label, ns, rfl, compounds⟩
    · rw [moments_simple _ _ _ _ (by simp)]
      refine .quietly ((print_explained recording .print shapedValue).pending _) fun _ m => ?_
      exact .value _ m
    · rw [moments_simple _ _ _ _ (by simp)]
      refine .quietly ?_ fun _ m => .value _ m
      exact (ExplainsFrom.expression room .expression shapedValue).discard.pending _
    · rw [step_compound _ _ _ compounds]
      exact compound_explained below compounds shaped

/-- Statements are explained with any room: by induction on the room. -/
theorem statements_explained (recording : settings.recording = true) (room : Nat) :
    ExplainsStatements settings room := by
  induction room using Nat.strongRecOn with
  | ind room ih =>
    intro depth n shaped
    match room with
    | 0 => exact .tooDeep
    | room + 1 =>
      have inside : ∀ less < room, ExplainsStatements settings less := fun less _ =>
        ih less (by omega)
      exact fun now same m scope =>
        (step_explained recording inside shaped now same m scope).located shaped.faultPosition?

theorem program_explained (recording : settings.recording = true) (room : Nat)
    (shaped : ∀ n ∈ ns, IsStatement n) (m : Machine) :
    Explained settings PlacedAt (programMoments settings room (.branch .program ns) m)
      (eval settings room (.branch .program ns) m) := by
  match room with
  | 0 | 1 | 2 => exact .tooDeep m
  | room + 3 =>
    refine .located (faultPosition?_branch (by simp)) (.ended ?_ _)
    cases ns with
    | nil => exact .value () m
    | cons n ns =>
      have leafy : (branch .program (n :: ns)).leaves ≠ [] := by
        simp [leaves, forestLeaves, (shaped n List.mem_cons_self).leaves_ne_nil]
      obtain ⟨first, start⟩ := exists_firstLeaf? leafy
      refine runAll_explained start (fun n member => ?_) m
      exact statements_explained recording room 0 n (shaped n member)

end

end Eval

/-! ## Runs -/

/-- A fault of a source text is explained by the last moment of the run, and is reported where the
    leaf to blame stands in the text. -/
theorem run_blames {settings : Settings} {scope : Scope} {source : String} {cause : Fault}
    {place : Option Position} (recording : settings.recording = true)
    (failed : (run settings scope source).failure = some (.halt (.fault cause place))) :
    ∃ tree moment l before after,
      parseSource source = .ok tree ∧
      (timeline settings scope tree).getLast? = some moment ∧ moment.IsOf tree ∧
      moment.Blames settings cause l ∧ (cause = .cancelled ∨ cause.Suits l) ∧
      l ∈ tree.leaves ∧ l.position? = place ∧
      source.toList = before ++ l.text.toList ++ after ∧
      place = some ⟨before.length, before.count '\n' + 1,
        (before.reverse.takeWhile (· ≠ '\n')).length + 1⟩ := by
  obtain ⟨tree, parsed, halted⟩ := execute_of_run failed
  have program := isProgram_of_parseSource parsed
  obtain ⟨m, stopped⟩ := eval_of_failure halted
  have explained : Eval.Explained settings Eval.PlacedAt (timeline settings scope tree)
      (Eval.eval settings Eval.depthLimit tree ⟨scope, #[], 0⟩) := by
    obtain ⟨shaped⟩ := program
    exact Eval.program_explained recording Eval.depthLimit shaped _
  obtain ⟨moment, l, last, blames, placed⟩ := explained cause place m stopped
  have isOf := timeline_isOf program moment (List.mem_of_getLast? last)
  have member := blames.mem_leaves isOf
  obtain ⟨t, rfl, -, before, after, whole, start⟩ := leaf_standsIn parsed member
  obtain rfl := placed rfl
  refine ⟨tree, moment, _, before, after, parsed, last, isOf, blames, blames.suits, member, rfl,
    whole, ?_⟩
  rw [← Position.origin_after, ← start]
  rfl

theorem run_blames_product :
    let source := "if (x) \x7b\n  print(x + (x * x));\n\x7d"
    let settings : Settings := { blockScoped := true }
    let scope : Scope := [[("x", .string "a")]]
    settings.recording = true ∧
    (run settings scope source).failure =
      some (.halt (.fault (.typeMismatch "*" [.string, .string]) (some ⟨24, 2, 16⟩))) ∧
    ∃ tree moment l, parseSource source = .ok tree ∧
      (timeline settings scope tree).getLast? = some moment ∧
      moment.Blames settings (.typeMismatch "*" [.string, .string]) l ∧
      l ∈ tree.leaves ∧ l.position? = some ⟨24, 2, 16⟩ := by
  intro source settings scope
  have failed : (run settings scope source).failure =
      some (.halt (.fault (.typeMismatch "*" [.string, .string]) (some ⟨24, 2, 16⟩))) := by
    decide +kernel
  obtain ⟨tree, moment, l, before, after, parsed, last, -, blames, -, member, placed, -⟩ :=
    run_blames rfl failed
  exact ⟨rfl, failed, tree, moment, l, parsed, last, blames, member, placed⟩

end BraceScript
