import BraceScript.Proofs.Eval.Moments
import BraceScript.Proofs.Report

/-!
# A cancelled run is cut short, and nothing else

Let the cancel signal be found not set by the first polls of a run and set by the next. The run then
does what the run without a signal does up to that poll, and stops there: its bindings and its
output are those of that moment. If there is no such poll the two runs are the same.

The proof compares a *whole* run, whose signal is set later or never, with the run that is *cut*
after a number of polls, action by action.
-/

namespace BraceScript

namespace Eval

open Node Outcome

/-- The state after an action, however it ended. -/
def final {α : Type} : EStateM.Result Halt Machine α → Machine
  | .ok _ m => m
  | .error _ m => m

/-- The settings of the run that is cut. -/
def cutAfter (whole : Settings) (limit : Nat) : Settings := { whole with cancelAfter := some limit }

/-- How the results of an action from a state compare when the run is whole and when it is cut after
    a number of polls, with the moments of the action in the whole run. The first fields are about
    the whole run alone; `fuel` bounds the polls after which it may run out of rounds. -/
structure CutAt {α : Type} (whole : Settings) (fuel limit depth : Nat) (m : Machine)
    (result result' : EStateM.Result Halt Machine α) (moments : List Moment) : Prop where
  deep : ∀ moment ∈ moments, depth ≤ moment.depth
  count : ∀ i moment, moments[i]? = some moment → moment.state.polls = m.polls + i
  polls : (final result).polls = m.polls + moments.length
  grows : m.output.toList <+: (final result).output.toList
  passed : ∀ moment ∈ moments, moment.state.output.toList <+: (final result).output.toList
  rounds : ∀ m', result = .error .outOfFuel m' → fuel ≤ moments.length
  /-- Without a cancel signal nothing is cancelled. -/
  uncancelled : whole.cancelAfter = none → ∀ place m', result ≠ .error (.fault .cancelled place) m'
  spared : m.polls + moments.length ≤ limit → result' = result
  cut : ∀ moment, m.polls ≤ limit → moments[limit - m.polls]? = some moment →
    ∃ place, result' = .error (.fault .cancelled place)
      ⟨moment.state.scope.drop (moment.depth - depth), moment.state.output, limit + 1⟩

/-- An action of the whole run and the same action of the run that is cut. -/
def Cuts {α : Type} (whole : Settings) (fuel limit depth : Nat) (x y : EvalM α)
    (moments : Machine → List Moment) : Prop :=
  ∀ m, CutAt whole fuel limit depth m (x m) (y m) (moments m)

namespace CutAt

variable {α β : Type} {whole : Settings} {fuel limit depth : Nat} {m m' : Machine}
  {result result' : EStateM.Result Halt Machine α}

/-- An action that does not poll is not cut. -/
theorem still (polls : (final result).polls = m.polls)
    (grows : m.output.toList <+: (final result).output.toList)
    (rounds : ∀ m', result = .error .outOfFuel m' → fuel = 0)
    (uncancelled : ∀ place m', result ≠ .error (.fault .cancelled place) m') :
    CutAt whole fuel limit depth m result result [] where
  deep _ member := by cases member
  count _ _ found := by simp at found
  polls := polls
  grows := grows
  passed _ member := by cases member
  rounds m' out := Nat.le_of_eq (rounds m' out)
  uncancelled _ := uncancelled
  spared _ := rfl
  cut _ _ found := by simp at found

/-- An action that halted, with another type for the values that it does not give. -/
theorem halted {reason : Halt} {last' : EStateM.Result Halt Machine β} {ms : List Moment}
    (front : CutAt whole fuel limit depth m
      (.error reason m' : EStateM.Result Halt Machine α) result' ms)
    (same : ∀ reason m', result' = .error reason m' → last' = .error reason m') :
    CutAt whole fuel limit depth m (.error reason m') last' ms where
  deep := front.deep
  count := front.count
  polls := front.polls
  grows := front.grows
  passed := front.passed
  rounds m'' out := by
    cases out
    exact front.rounds m' rfl
  uncancelled never place m'' cancelled := by
    cases cancelled
    exact front.uncancelled never place m' rfl
  spared enough := same _ _ (front.spared enough)
  cut moment before found := by
    obtain ⟨place, stopped⟩ := front.cut moment before found
    exact ⟨place, same _ _ stopped⟩

/-- Results that are changed on the way out, in their places or in their frames. -/
theorem changed {inner : Nat} {start : Machine} {ms : List Moment}
    (change : EStateM.Result Halt Machine α → EStateM.Result Halt Machine α)
    (inside : CutAt whole fuel limit inner start result result' ms)
    (startPolls : start.polls = m.polls) (startOutput : start.output = m.output)
    (within : depth ≤ inner)
    (polls : ∀ r, (final (change r)).polls = (final r).polls)
    (output : ∀ r, (final (change r)).output = (final r).output)
    (rounds : ∀ r m', change r = .error .outOfFuel m' → ∃ m'', r = .error .outOfFuel m'')
    (uncancelled : ∀ r place m', change r = .error (.fault .cancelled place) m' →
      ∃ place m'', r = .error (.fault .cancelled place) m'')
    (cancelled : ∀ place scope output, ∃ place', change (.error (.fault .cancelled place)
      ⟨scope, output, limit + 1⟩) = .error (.fault .cancelled place')
        ⟨scope.drop (inner - depth), output, limit + 1⟩) :
    CutAt whole fuel limit depth m (change result) (change result') ms where
  deep moment member := Nat.le_trans within (inside.deep moment member)
  count i moment found := by rw [inside.count i moment found, startPolls]
  polls := by rw [polls, inside.polls, startPolls]
  grows := by
    rw [output, ← startOutput]
    exact inside.grows
  passed moment member := by
    rw [output]
    exact inside.passed moment member
  rounds m' out := by
    obtain ⟨m'', stopped⟩ := rounds _ _ out
    exact inside.rounds m'' stopped
  uncancelled never place m' stopped := by
    obtain ⟨place, m'', before⟩ := uncancelled _ _ _ stopped
    exact inside.uncancelled never place m'' before
  spared enough := by rw [inside.spared (by omega)]
  cut moment before found := by
    rw [← startPolls] at before found
    obtain ⟨place, stopped⟩ := inside.cut moment before found
    obtain ⟨place', changed⟩ := cancelled place
      (moment.state.scope.drop (moment.depth - inner)) moment.state.output
    refine ⟨place', ?_⟩
    have deeper := inside.deep moment (List.mem_of_getElem? found)
    rw [stopped, changed, List.drop_drop]
    congr 3
    omega

end CutAt

namespace Cuts

variable {α β : Type} {whole : Settings} {fuel limit depth : Nat} {x y : EvalM α}
  {first : Machine → List Moment}

/-- Two actions one after the other. The second may run out of rounds the earlier, the more polls
    the first has made. -/
theorem sequence (fuel' : Nat) {next next' : α → EvalM β} {second : α → Machine → List Moment}
    (front : Cuts whole fuel limit depth x y first)
    (back : ∀ a, Cuts whole fuel' limit depth (next a) (next' a) (second a))
    (enough : ∀ m, fuel ≤ (first m).length + fuel') :
    Cuts whole fuel limit depth (x >>= next) (y >>= next') (andThen x first second) := by
  intro m
  have here := front m
  cases outcome : x m with
  | error reason m' =>
    rw [outcome] at here
    rw [bind_error outcome, andThen_error outcome]
    exact here.halted fun _ _ stopped => bind_error stopped
  | ok a m' =>
    have later := back a m'
    rw [outcome] at here
    rw [bind_ok outcome, andThen_ok outcome]
    have counted : m'.polls = m.polls + (first m).length := here.polls
    exact {
      deep := by
        intro moment member
        rcases List.mem_append.mp member with inside | after
        · exact here.deep moment inside
        · exact later.deep moment after
      count := by
        intro i moment found
        rw [List.getElem?_append] at found
        split at found
        · exact here.count i moment found
        · rw [later.count _ moment found]
          omega
      polls := by
        rw [later.polls, List.length_append]
        omega
      grows := here.grows.trans later.grows
      passed := by
        intro moment member
        rcases List.mem_append.mp member with inside | after
        · exact (here.passed moment inside).trans later.grows
        · exact later.passed moment after
      rounds := by
        intro m'' out
        have more := later.rounds m'' out
        have before := enough m
        rw [List.length_append]
        omega
      uncancelled := later.uncancelled
      spared := by
        intro enough
        rw [List.length_append] at enough
        rw [bind_ok (here.spared (by omega))]
        exact later.spared (by omega)
      cut := by
        intro moment before found
        rw [List.getElem?_append] at found
        split at found
        · obtain ⟨place, stopped⟩ := here.cut moment before found
          exact ⟨place, bind_error stopped⟩
        · rw [bind_ok (here.spared (by omega))]
          refine later.cut moment (by omega) ?_
          rwa [counted, Nat.sub_add_eq] }

theorem bind {next next' : α → EvalM β} {second : α → Machine → List Moment}
    (front : Cuts whole fuel limit depth x y first)
    (back : ∀ a, Cuts whole fuel limit depth (next a) (next' a) (second a)) :
    Cuts whole fuel limit depth (x >>= next) (y >>= next') (andThen x first second) :=
  front.sequence fuel back fun _ => Nat.le_add_left _ _

theorem mono {less : Nat} (cuts : Cuts whole fuel limit depth x y first) (fewer : less ≤ fuel) :
    Cuts whole less limit depth x y first := fun m =>
  { cuts m with rounds := fun m' out => Nat.le_trans fewer ((cuts m).rounds m' out) }

theorem ite {p : Prop} [Decidable p] {x' y' : EvalM α} {other : Machine → List Moment}
    (yes : Cuts whole fuel limit depth x y first) (no : Cuts whole fuel limit depth x' y' other) :
    Cuts whole fuel limit depth (if p then x else x') (if p then y else y')
      (if p then first else other) := by
  split
  · exact yes
  · exact no

/-- An action that leaves polls and output alone, and is the same in both runs. -/
theorem still (same : ∀ m, y m = x m) (polls : ∀ m, (final (x m)).polls = m.polls)
    (grows : ∀ m, m.output.toList <+: (final (x m)).output.toList)
    (halts : ∀ m reason m', x m = .error reason m' →
      reason ≠ .outOfFuel ∧ ∀ place, reason ≠ .fault .cancelled place) :
    Cuts whole fuel limit depth x y fun _ => [] := by
  intro m
  rw [same m]
  refine .still (polls m) (grows m) ?_ ?_
  · intro m' out
    exact absurd rfl (halts m _ m' out).1
  · intro place m' cancelled
    exact (halts m _ m' cancelled).2 place rfl

theorem value (a : α) : Cuts whole fuel limit depth (pure a) (pure a) fun _ => [] :=
  .still (fun _ => rfl) (fun _ => rfl) (fun _ => List.prefix_rfl) fun _ _ _ out => by cases out

/-- An action whose value is replaced. -/
theorem ended (cuts : Cuts whole fuel limit depth x y first) (b : β) :
    Cuts whole fuel limit depth (x >>= fun _ => pure b) (y >>= fun _ => pure b) first := by
  rw [← andThen_nil x first]
  exact cuts.bind fun _ => value b

/-- Two actions without moments. -/
theorem quietly {next next' : α → EvalM β} (front : Cuts whole fuel limit depth x y fun _ => [])
    (back : ∀ a, Cuts whole fuel limit depth (next a) (next' a) fun _ => []) :
    Cuts whole fuel limit depth (x >>= next) (y >>= next') fun _ => [] := by
  rw [← andThen_nil x fun _ => []]
  exact front.bind back

theorem tooDeep :
    Cuts whole fuel limit depth (throw .tooDeep : EvalM α) (throw .tooDeep) fun _ => [] := by
  refine .still (fun _ => rfl) (fun _ => rfl) (fun _ => List.prefix_rfl) ?_
  rintro m _ m' ⟨⟩
  exact ⟨by simp, by simp⟩

theorem discard (cuts : Cuts whole fuel limit depth x y first) :
    Cuts whole fuel limit depth (Functor.discard x) (Functor.discard y) first := by
  rw [discard_eq_bind, discard_eq_bind]
  exact cuts.ended ()

/-- A result whose fault is given a place if it has none yet. -/
def withPlace (place : Option Position) :
    EStateM.Result Halt Machine α → EStateM.Result Halt Machine α
  | .error (.fault cause none) m => .error (.fault cause place) m
  | result => result

theorem located {place : Node → Option Position} {n : Node}
    (cuts : Cuts whole fuel limit depth x y first) :
    Cuts whole fuel limit depth (locating place n x) (locating place n y) first := by
  intro m
  refine (cuts m).changed (withPlace (place n)) rfl rfl (Nat.le_refl depth) ?_ ?_ ?_ ?_ ?_
  · rintro (_ | ⟨⟨_, _ | _⟩ | _ | _, _⟩) <;> rfl
  · rintro (_ | ⟨⟨_, _ | _⟩ | _ | _, _⟩) <;> rfl
  · rintro (_ | ⟨⟨_, _ | _⟩ | _ | _, _⟩) m' out <;> cases out
    exact ⟨_, rfl⟩
  · rintro (_ | ⟨⟨_, _ | _⟩ | _ | _, _⟩) place m' stopped <;> cases stopped
    · exact ⟨_, _, rfl⟩
    · exact ⟨_, _, rfl⟩
  · rintro (_ | _) scope output
    · exact ⟨_, by rw [Nat.sub_self]; rfl⟩
    · exact ⟨_, by rw [Nat.sub_self]; rfl⟩

/-- A result after the innermost frame is dropped. -/
def withoutFrame : EStateM.Result Halt Machine Unit → EStateM.Result Halt Machine Unit
  | .ok a m => .ok a { m with scope := m.scope.tail }
  | .error reason m => .error reason { m with scope := m.scope.tail }

theorem inBlock {x y : EvalM Unit} {inside : Nat → Machine → List Moment}
    (cuts : ∀ deeper, Cuts whole fuel limit deeper x y (inside deeper)) :
    Cuts whole fuel limit depth (inBlock whole x) (inBlock (cutAfter whole limit) y)
      (framedMoments whole inside depth) := by
  intro m
  cases framed : whole.blockScoped with
  | false =>
    have framed' : (cutAfter whole limit).blockScoped = false := framed
    rw [inBlock_flat framed, inBlock_flat framed', framedMoments, if_neg (by simp [framed])]
    exact cuts depth m
  | true =>
    have framed' : (cutAfter whole limit).blockScoped = true := framed
    rw [inBlock_framed framed, inBlock_framed framed', framedMoments, if_pos framed]
    refine (cuts (depth + 1) _).changed withoutFrame rfl rfl (Nat.le_succ depth) ?_ ?_ ?_ ?_ ?_
    · rintro (_ | _) <;> rfl
    · rintro (_ | _) <;> rfl
    · rintro (_ | _) m' out <;> cases out
      exact ⟨_, rfl⟩
    · rintro (_ | _) place m' stopped <;> cases stopped
      exact ⟨_, _, rfl⟩
    · intro place scope output
      refine ⟨place, ?_⟩
      rw [Nat.add_sub_cancel_left, List.drop_one]
      rfl

theorem poll (later : ∀ count, whole.cancelAfter = some count → limit < count) (site next : Node) :
    Cuts whole fuel limit depth (poll whole) (poll (cutAfter whole limit))
      fun m => [⟨site, next, depth, m⟩] := by
  intro m
  have reached : isCancelled (cutAfter whole limit) m = decide (limit ≤ m.polls) := by
    simp [isCancelled, cutAfter]
  have ending : final (Eval.poll whole m) = polled m := by
    rw [poll_run]
    split <;> rfl
  exact {
    deep := by simp
    count := by
      intro i moment found
      cases i with
      | zero =>
        obtain ⟨⟩ := found
        rfl
      | succ i => cases found
    polls := by rw [ending]; rfl
    grows := by rw [ending]; exact List.prefix_rfl
    passed := by
      intro moment member
      obtain rfl := List.mem_singleton.mp member
      rw [ending]
      exact List.prefix_rfl
    rounds := by
      intro m' out
      rw [poll_run] at out
      split at out <;> cases out
    uncancelled := by
      intro never place m' stopped
      rw [poll_run] at stopped
      simp [isCancelled, never] at stopped
    spared := by
      intro enough
      have early : isCancelled (cutAfter whole limit) m = false := by
        rw [reached, decide_eq_false_iff_not]
        simp only [List.length_singleton] at enough
        omega
      have early' : isCancelled whole m = false := by
        cases signal : whole.cancelAfter with
        | none => simp [isCancelled, signal]
        | some count =>
          have after := later count signal
          simp only [isCancelled, signal, Option.any_some, decide_eq_false_iff_not]
          simp only [List.length_singleton] at enough
          omega
      rw [poll_run, poll_run, early, early']
    cut := by
      intro moment before found
      have now : limit = m.polls := by
        have inside := (List.getElem?_eq_some_iff.mp found).1
        simp only [List.length_singleton] at inside
        omega
      subst now
      rw [Nat.sub_self] at found
      obtain ⟨⟩ := found
      refine ⟨none, ?_⟩
      rw [poll_run, reached, decide_eq_true (Nat.le_refl _), if_pos rfl, Nat.sub_self]
      rfl }

/-! ### Actions without polls -/

theorem define (name : String) (v : Value) :
    Cuts whole fuel limit depth (define name v) (define name v) fun _ => [] :=
  .still (fun _ => rfl) (fun _ => rfl) (fun _ => List.prefix_rfl) fun _ _ _ out => by cases out

theorem record (v : Value) :
    Cuts whole fuel limit depth (record v) (record v) fun _ => [] := by
  refine .still (fun _ => rfl) (fun _ => rfl) (fun m => ?_) fun _ _ _ out => by cases out
  rw [record_run, final, Array.toList_push]
  exact List.prefix_append _ _

theorem fault {cause : Fault} (other : cause ≠ .cancelled) :
    Cuts whole fuel limit depth (fail cause : EvalM α) (fail cause) fun _ => [] := by
  refine .still (fun _ => rfl) (fun _ => rfl) (fun _ => List.prefix_rfl) ?_
  rintro m _ m' ⟨⟩
  refine ⟨by simp, ?_⟩
  rintro _ ⟨⟩
  exact other rfl

theorem requireBound (room : Nat) (name : String) :
    Cuts whole fuel limit depth (requireBound room name) (requireBound room name) fun _ => [] := by
  intro m
  rw [requireBound_run]
  split
  · exact .still rfl List.prefix_rfl (by simp) (by simp)
  · split
    · exact .still rfl List.prefix_rfl (by simp) (by simp)
    · exact .still rfl List.prefix_rfl (by simp) (by simp)

theorem assign (room : Nat) (name : String) (v : Value) :
    Cuts whole fuel limit depth (assign room name v) (assign room name v) fun _ => [] := by
  intro m
  rw [assign_run]
  split
  · exact .still rfl List.prefix_rfl (by simp) (by simp)
  · split
    · exact .still rfl List.prefix_rfl (by simp) (by simp)
    · exact .still rfl List.prefix_rfl (by simp) (by simp)

theorem expression {n : Node} (room : Nat) (shaped : IsExpression n) :
    Cuts whole fuel limit depth (eval whole room n) (eval (cutAfter whole limit) room n)
      fun _ => [] := by
  intro m
  rw [eval_settings whole (cutAfter whole limit) room shaped m]
  have settles := eval_settles whole room shaped m
  generalize eval whole room n m = result at settles
  cases settles with
  | value => exact .still rfl List.prefix_rfl (by simp) (by simp)
  | tooDeep => exact .still rfl List.prefix_rfl (by simp) (by simp)
  | fault faults placed =>
    refine .still rfl List.prefix_rfl (by simp) ?_
    rintro _ _ ⟨⟩
    cases faults.suits shaped

end Cuts

/-! ## Statements -/

section

variable {whole : Settings} {fuel limit depth : Nat} {room : Nat} {ns : List Node}
  (later : ∀ count, whole.cancelAfter = some count → limit < count)

include later

theorem runAll_cuts {run run' : Node → EvalM Value} {inside : Node → Machine → List Moment}
    (site : Node) (each : ∀ n ∈ ns, Cuts whole fuel limit depth (run n) (run' n) (inside n)) :
    Cuts whole fuel limit depth (runAll whole run ns) (runAll (cutAfter whole limit) run' ns)
      (listMoments whole site depth run inside ns) := by
  induction ns with
  | nil => exact .value ()
  | cons n ns ih =>
    obtain ⟨first, others⟩ := List.forall_mem_cons.mp each
    exact .bind (.poll later site n) fun _ => .bind first.discard fun _ => ih others

/-- A loop that may take some rounds has polled once for each of them when it runs out. -/
theorem runWhile_cuts {condition condition' : EvalM Value} {body body' : EvalM Unit}
    {inside : Machine → List Moment} (site test : Node)
    (conditions : ∀ fuel, Cuts whole fuel limit depth condition condition' fun _ => [])
    (bodies : Cuts whole fuel limit depth body body' inside) {rounds : Nat} (few : rounds ≤ fuel) :
    Cuts whole rounds limit depth (runWhile whole condition body rounds)
      (runWhile (cutAfter whole limit) condition' body' rounds)
      (loopMoments whole site test depth condition body inside rounds) := by
  induction rounds with
  | zero => exact fun m => .still rfl List.prefix_rfl (fun _ _ => rfl) fun _ _ out => by cases out
  | succ rounds ih =>
    refine .sequence rounds (.poll later site test) (fun _ => ?_) fun _ => ?_
    · refine .bind (conditions rounds) fun v => .ite ?_ (.value ())
      exact .bind (bodies.mono (by omega)) fun _ => ih (by omega)
    · simp only [List.length_singleton]
      omega

omit later in
/-- The statements are cut with some room, at every depth. -/
def CutsStatements (whole : Settings) (limit room : Nat) : Prop :=
  ∀ depth n, IsStatement n → Cuts whole whole.loopFuel limit depth (eval whole room n)
    (eval (cutAfter whole limit) room n) (moments whole room depth n)

theorem block_cuts (inside : ∀ less < room, CutsStatements whole limit less)
    (shaped : ∀ n ∈ ns, IsStatement n) (site : Node) :
    Cuts whole whole.loopFuel limit depth (block whole room (.branch .block ns))
      (block (cutAfter whole limit) room (.branch .block ns))
      (blockMoments whole room depth site (.branch .block ns)) := by
  match room with
  | 0 => exact .tooDeep
  | 1 =>
    have cuts : Cuts whole whole.loopFuel limit depth (inBlock whole (throw .tooDeep))
        (inBlock (cutAfter whole limit) (throw .tooDeep))
        (framedMoments whole (fun _ _ => []) depth) :=
      .inBlock fun _ => .tooDeep
    rwa [framedMoments_nil] at cuts
  | room + 2 =>
    refine .inBlock fun deeper => runAll_cuts later site fun n member => ?_
    exact inside room (by omega) deeper n (shaped n member)

omit later in
theorem print_cuts {n : Node} (shaped : IsExpression n) :
    Cuts whole fuel limit depth (print whole room n) (print (cutAfter whole limit) room n)
      fun _ => [] := by
  match room with
  | 0 => exact .tooDeep
  | room + 1 =>
    refine .quietly (.expression room shaped) fun v => ?_
    show Cuts whole fuel limit depth
      (if whole.recording then record v else fail .printOutsideRun)
      (if whole.recording then record v else fail .printOutsideRun) _
    split
    · exact .record v
    · exact .fault (by simp)

/-- The statements whose rules take two units. -/
theorem compound_cuts (inside : ∀ less < room, CutsStatements whole limit less) {label : Label}
    (compounds : label ∈ [.declaration, .assignment, .conditional, .loop])
    (shaped : IsStatement (.branch label ns)) :
    Cuts whole whole.loopFuel limit depth (compound whole room label ns)
      (compound (cutAfter whole limit) room label ns)
      (moments whole (room + 2) depth (.branch label ns)) := by
  match room with
  | 0 | 1 => exact .tooDeep
  | room + 2 =>
    have below : ∀ less < room, CutsStatements whole limit less := fun less _ =>
      inside less (by omega)
    cases shaped with
    | declaration name value =>
      obtain ⟨l, rfl, isName⟩ := name.identifier
      rw [compound_declaration _ _ isName, compound_declaration _ _ isName]
      exact .quietly (.expression room value) fun v => .ended (.define l.text v) _
    | assignment name value =>
      obtain ⟨l, rfl, isName⟩ := name.identifier
      rw [compound_assignment _ _ isName, compound_assignment _ _ isName]
      refine .quietly (.requireBound room l.text) fun _ => ?_
      exact .quietly (.expression room value) fun v => .ended (.assign room l.text v) _
    | print => simp at compounds
    | expression => simp at compounds
    | conditional test body =>
      refine .bind (.expression room test) fun v => .ite ?_ (.value _)
      exact .ended (block_cuts later below body _) _
    | alternative test body other =>
      refine .bind (.expression room test) fun v => .ite ?_ ?_
      · exact .ended (block_cuts later below body _) _
      · exact .ended (block_cuts later below other _) _
    | loop test body =>
      refine .ended (runWhile_cuts later _ _ (fun _ => .expression room test) ?_ (Nat.le_refl _)) _
      exact block_cuts later below body _

theorem step_cuts {n : Node} (inside : ∀ less < room, CutsStatements whole limit less)
    (shaped : IsStatement n) :
    Cuts whole whole.loopFuel limit depth (step whole room n) (step (cutAfter whole limit) room n)
      (moments whole (room + 1) depth n) := by
  match room with
  | 0 => exact .tooDeep
  | room + 1 =>
    have below : ∀ less < room, CutsStatements whole limit less := fun less _ =>
      inside less (by omega)
    rcases shaped.rule with ⟨value, shapedValue, rfl | rfl⟩ | ⟨label, ns, rfl, compounds⟩
    · rw [moments_simple _ _ _ _ (by simp)]
      exact .ended (print_cuts shapedValue) _
    · rw [moments_simple _ _ _ _ (by simp)]
      exact .ended (.discard (.expression room shapedValue)) _
    · rw [step_compound _ _ _ compounds, step_compound _ _ _ compounds]
      exact compound_cuts later below compounds shaped

/-- Statements are cut with any room: by induction on the room. -/
theorem statements_cut (room : Nat) : CutsStatements whole limit room := by
  induction room using Nat.strongRecOn with
  | ind room ih =>
    intro depth n shaped
    match room with
    | 0 => exact .tooDeep
    | room + 1 => exact .located (step_cuts later (fun less below => ih less (by omega)) shaped)

theorem program_cuts (room : Nat) (shaped : ∀ n ∈ ns, IsStatement n) :
    Cuts whole whole.loopFuel limit 0 (eval whole room (.branch .program ns))
      (eval (cutAfter whole limit) room (.branch .program ns))
      (programMoments whole room (.branch .program ns)) := by
  match room with
  | 0 | 1 | 2 => exact .tooDeep
  | room + 3 =>
    refine .located (.ended (runAll_cuts later _ fun n member => ?_) _)
    exact statements_cut later room 0 n (shaped n member)

end

end Eval

/-! ## Runs -/

/-- A run was cancelled. -/
def Report.IsCancelled (report : Report) : Prop :=
  ∃ place, report.failure = some (.halt (.fault .cancelled place))

namespace Report

variable (result : EStateM.Result Halt Machine Value)

theorem polls_ofResult : (ofResult result).polls = (Eval.final result).polls := by
  cases result <;> rfl

theorem output_ofResult : (ofResult result).output = (Eval.final result).output.toList := by
  cases result <;> rfl

end Report

section

variable {settings : Settings} {scope : Scope} {tree : Node} {limit : Nat}

/-- A run and the same run with a signal that is set earlier. -/
theorem cutAt_start (program : tree.IsProgram)
    (later : ∀ count, settings.cancelAfter = some count → limit < count) :
    Eval.CutAt settings settings.loopFuel limit 0 ⟨scope, #[], 0⟩
      (Eval.eval settings Eval.depthLimit tree ⟨scope, #[], 0⟩)
      (Eval.eval { settings with cancelAfter := some limit } Eval.depthLimit tree ⟨scope, #[], 0⟩)
      (timeline settings scope tree) := by
  obtain ⟨shaped⟩ := program
  exact Eval.program_cuts later Eval.depthLimit shaped _

theorem execute_polls (program : tree.IsProgram)
    (later : ∀ count, settings.cancelAfter = some count → limit < count) :
    (execute settings scope tree).polls = (timeline settings scope tree).length := by
  rw [execute_eq, Report.polls_ofResult, (cutAt_start program later).polls, Nat.zero_add]

/-- A run that polls no more often is not cut. -/
theorem execute_spared (program : tree.IsProgram)
    (later : ∀ count, settings.cancelAfter = some count → limit < count)
    (few : (timeline settings scope tree).length ≤ limit) :
    execute { settings with cancelAfter := some limit } scope tree =
      execute settings scope tree := by
  have enough : 0 + (timeline settings scope tree).length ≤ limit := by rwa [Nat.zero_add]
  rw [execute_eq, execute_eq, (cutAt_start program later).spared enough]

/-- A run that polls more often is cut at the moment of the poll. -/
theorem execute_cut {moment : Moment} (program : tree.IsProgram)
    (later : ∀ count, settings.cancelAfter = some count → limit < count)
    (found : (timeline settings scope tree)[limit]? = some moment) :
    ∃ place, execute { settings with cancelAfter := some limit } scope tree =
      { scope := moment.state.scope.drop moment.depth, output := moment.state.output.toList
        polls := limit + 1, failure := some (.halt (.fault .cancelled place)) } := by
  obtain ⟨place, stopped⟩ := (cutAt_start program later).cut moment (Nat.zero_le limit) found
  rw [execute_eq, stopped]
  exact ⟨place, rfl⟩

/-- Without a signal a run is not cancelled. -/
theorem execute_uncancelled (program : tree.IsProgram) (signal : settings.cancelAfter = none) :
    ¬ (execute settings scope tree).IsCancelled := by
  rintro ⟨place, failed⟩
  have later : ∀ count, settings.cancelAfter = some count → 0 < count := by simp [signal]
  have never := (@cutAt_start settings scope tree 0 program later).uncancelled signal place
  obtain ⟨m, stopped⟩ := eval_of_failure failed
  exact never m stopped

/-- A run runs out of rounds only after a poll for each of them. -/
theorem execute_outOfFuel (program : tree.IsProgram) (signal : settings.cancelAfter = none)
    (out : (execute settings scope tree).failure = some (.halt .outOfFuel)) :
    settings.loopFuel ≤ (timeline settings scope tree).length := by
  have later : ∀ count, settings.cancelAfter = some count → 0 < count := by simp [signal]
  obtain ⟨m, stopped⟩ := eval_of_failure out
  exact (@cutAt_start settings scope tree 0 program later).rounds m stopped

/-- A signal that is set later makes a run go on at least as far. -/
theorem execute_later (program : tree.IsProgram)
    (later : ∀ count, settings.cancelAfter = some count → limit < count)
    (polls : (execute { settings with cancelAfter := some limit } scope tree).polls = limit + 1) :
    (execute { settings with cancelAfter := some limit } scope tree).output <+:
        (execute settings scope tree).output ∧
      limit + 1 ≤ (execute settings scope tree).polls := by
  have counted := @execute_polls settings scope tree limit program later
  have reaches : limit < (timeline settings scope tree).length := by
    apply Nat.lt_of_not_le
    intro few
    rw [execute_spared program later few] at polls
    omega
  obtain ⟨place, cut⟩ := execute_cut program later (List.getElem?_eq_getElem reaches)
  constructor
  · rw [cut, execute_eq settings, Report.output_ofResult]
    exact (cutAt_start program later).passed _ (List.getElem_mem reaches)
  · omega

end

/-- Let `run n` be the run whose cancel signal answers "not set" to its first `n` polls and "set"
    afterwards. If it is not cancelled, it is the run without a signal, and so is every run with a
    later signal. If it is cancelled, it stops at its poll of number `n + 1`, with the output and
    the bindings that the run without a signal has just before that poll. -/
theorem execute_cancelAfter (settings : Settings) (scope : Scope) {tree : Node}
    (program : tree.IsProgram) (n : Nat) :
    let run := fun signal => execute { settings with cancelAfter := signal } scope tree
    let moments := timeline { settings with cancelAfter := none } scope tree
    ((run none).polls = moments.length ∧ ∀ moment ∈ moments, moment.IsOf tree) ∧
    (¬ (run (some n)).IsCancelled →
      (run (some n)).polls ≤ n ∧ run none = run (some n) ∧ ∀ m ≥ n, run (some m) = run (some n)) ∧
    ((run (some n)).IsCancelled →
      (run (some n)).polls = n + 1 ∧
      (∀ m > n, (run (some n)).output <+: (run (some m)).output ∧ n + 1 ≤ (run (some m)).polls) ∧
      ∃ moment, moments[n]? = some moment ∧ moment.state.polls = n ∧
        (run (some n)).output = moment.state.output.toList ∧
        (run (some n)).scope = moment.state.scope.drop moment.depth) ∧
    (n < settings.loopFuel → (run (some n)).failure ≠ some (.halt .outOfFuel)) := by
  intro run moments
  have later : ∀ limit count, (none : Option Nat) = some count → limit < count := by simp
  have polls : (run none).polls = moments.length := execute_polls program (later 0)
  have spared : ∀ m, moments.length ≤ m → run (some m) = run none := fun m =>
    execute_spared program (later m)
  refine ⟨⟨polls, timeline_isOf program⟩, ?_⟩
  by_cases few : moments.length ≤ n
  · have same := spared n few
    have never : ¬ (run (some n)).IsCancelled := by
      rw [same]
      exact execute_uncancelled program rfl
    refine ⟨fun _ => ⟨?_, same.symm, fun m after => ?_⟩,
      fun cancelled => absurd cancelled never, ?_⟩
    · rwa [same, polls]
    · rw [same]
      exact spared m (Nat.le_trans few after)
    · intro enough out
      rw [same] at out
      exact absurd (Nat.le_trans (execute_outOfFuel program rfl out) few) (Nat.not_le_of_lt enough)
  · have found := List.getElem?_eq_getElem (Nat.lt_of_not_le few)
    obtain ⟨place, cut⟩ := execute_cut program (later n) found
    have stopped : run (some n) = _ := cut
    have count := (cutAt_start program (later n)).count n _ found
    have cancelled : (run (some n)).IsCancelled := ⟨place, by rw [stopped]⟩
    have last : (run (some n)).polls = n + 1 := by rw [stopped]
    refine ⟨fun never => absurd cancelled never, fun _ => ⟨last, ?_, ?_⟩, fun _ out => ?_⟩
    · intro m after
      refine @execute_later { settings with cancelAfter := some m } scope tree n program ?_ last
      rintro _ ⟨⟩
      exact after
    · refine ⟨_, found, ?_, by rw [stopped], by rw [stopped]⟩
      rw [count, Nat.zero_add]
    · rw [stopped] at out
      cases out

/-- The program `while (x) { print(x); }`, which has no end when `x` holds. -/
def endless : Node :=
  .branch .program [.branch .loop [x, .branch .block [.branch .print [x]]]]
where
  x : Node := .leaf ⟨.token .identifier, "x", {}⟩

theorem execute_cancelAfter_endless :
    endless.IsProgram ∧
    (execute { cancelAfter := some 4 } [[("x", .string "a")]] endless).IsCancelled ∧
    (execute { cancelAfter := some 4 } [[("x", .string "a")]] endless).polls = 5 := by
  have word : Lexical.Word ['x'] := Lexical.word_of_all rfl rfl
  have name : Lexical.Lexeme .identifier ['x'] := .plain (Lexical.plain_of_word word)
  have x : Node.IsExpression endless.x := .atom (.intro (by decide) name)
  have program : endless.IsProgram := by
    refine .intro (List.forall_mem_singleton.mpr (.loop x ?_))
    exact List.forall_mem_singleton.mpr (.print x)
  have cancelled :
      (execute { cancelAfter := some 4 } [[("x", .string "a")]] endless).IsCancelled := ⟨_, rfl⟩
  have cut := (execute_cancelAfter {} [[("x", .string "a")]] program 4).2.2.1 cancelled
  exact ⟨program, cancelled, cut.1⟩

end BraceScript
