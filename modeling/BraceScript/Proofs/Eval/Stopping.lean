import BraceScript.Proofs.Eval.Actions
import BraceScript.Proofs.Report

/-!
# The cancel signal stops every run

A loop polls the cancel signal in each of its rounds, and a poll that finds it set stops the run. So
a run whose signal is set from some poll on makes no poll after that one, whatever its tree is and
wherever loops stand in it. The rounds that its loops are given do not matter: if they are more than
the polls that find the signal not set, no loop uses them up.
-/

namespace BraceScript

namespace Eval

/-! ## Bounds on polls -/

/-- The results of an action that stays below a limit of polls: after a value there are no more than
    `limit` polls, and no fewer than `start`; after a halt there may be one more, and no loop has
    used up its rounds. -/
inductive EndsWithin {α : Type} (limit start : Nat) : EStateM.Result Halt Machine α → Prop
  | value {a : α} {m : Machine} :
    start ≤ m.polls → m.polls ≤ limit → EndsWithin limit start (.ok a m)
  | halt {reason : Halt} {m : Machine} :
    reason ≠ .outOfFuel → m.polls ≤ limit + 1 → EndsWithin limit start (.error reason m)

/-- An action stays below a limit of polls from every state that is below it. -/
def Bounded {α : Type} (limit : Nat) (x : EvalM α) : Prop :=
  ∀ m, m.polls ≤ limit → EndsWithin limit m.polls (x m)

namespace EndsWithin

variable {α β : Type} {limit start : Nat} {x : EvalM α} {m : Machine}

theorem mono {earlier : Nat} {result : EStateM.Result Halt Machine α}
    (ends : EndsWithin limit start result) (before : earlier ≤ start) :
    EndsWithin limit earlier result := by
  cases ends with
  | value after below => exact .value (Nat.le_trans before after) below
  | halt other below => exact .halt other below

theorem bind {f : α → EvalM β} (first : EndsWithin limit start (x m))
    (second : ∀ a m', start ≤ m'.polls → m'.polls ≤ limit → EndsWithin limit start (f a m')) :
    EndsWithin limit start ((x >>= f) m) := by
  cases result : x m with
  | ok a m' =>
    rw [result] at first
    obtain ⟨after, below⟩ := first
    rw [Outcome.bind_ok result]
    exact second a m' after below
  | error reason m' =>
    rw [result] at first
    obtain ⟨⟩ | ⟨other, below⟩ := first
    rw [Outcome.bind_error result]
    exact .halt other below

end EndsWithin

namespace Bounded

variable {α β : Type} {limit : Nat} {x : EvalM α}

theorem value (a : α) : Bounded limit (pure a) :=
  fun m below => .value (Nat.le_refl m.polls) below

theorem halt {reason : Halt} (other : reason ≠ .outOfFuel) :
    Bounded limit (throw reason : EvalM α) :=
  fun _ below => .halt other (Nat.le_succ_of_le below)

theorem fault (cause : Fault) : Bounded limit (fail cause : EvalM α) :=
  halt (by simp)

theorem bind {f : α → EvalM β} (first : Bounded limit x) (second : ∀ a, Bounded limit (f a)) :
    Bounded limit (x >>= f) := by
  intro m below
  refine (first m below).bind fun a m' after below' => ?_
  exact (second a m' below').mono after

theorem located (bounded : Bounded limit x) (place : Node → Option Position) (n : Node) :
    Bounded limit (locating place n x) := by
  intro m below
  have outcome := bounded m below
  unfold locating
  generalize x m = result at outcome
  cases outcome with
  | value after below' => exact .value after below'
  | @halt reason m' other below' =>
    match reason with
    | .fault cause none => exact .halt (by simp) below'
    | .fault cause (some found) => exact .halt other below'
    | .tooDeep => exact .halt other below'
    | .outOfFuel => exact absurd rfl other

theorem inBlock {block : EvalM Unit} (bounded : Bounded limit block) (settings : Settings) :
    Bounded limit (inBlock settings block) := by
  cases framed : settings.blockScoped with
  | false =>
    rw [inBlock_flat framed]
    exact bounded
  | true =>
    intro m below
    have outcome := bounded { m with scope := [] :: m.scope } below
    rw [inBlock_framed framed]
    generalize block { m with scope := [] :: m.scope } = result at outcome
    cases outcome with
    | value after below' => exact .value after below'
    | halt other below' => exact .halt other below'

theorem lookup (room : Nat) (name : String) : Bounded limit (lookup room name) := by
  intro m below
  have stopped := Nat.le_succ_of_le below
  rw [lookup_run]
  split
  · exact .halt (by simp) stopped
  · cases Scope.get? m.scope name with
    | some v => exact .value (Nat.le_refl _) below
    | none => exact .halt (by simp) stopped

theorem requireBound (room : Nat) (name : String) : Bounded limit (requireBound room name) := by
  intro m below
  have stopped := Nat.le_succ_of_le below
  rw [requireBound_run]
  split
  · exact .halt (by simp) stopped
  · split
    · exact .value (Nat.le_refl _) below
    · exact .halt (by simp) stopped

theorem assign (room : Nat) (name : String) (v : Value) : Bounded limit (assign room name v) := by
  intro m below
  have stopped := Nat.le_succ_of_le below
  rw [assign_run]
  split
  · exact .halt (by simp) stopped
  · cases Scope.set? m.scope name v with
    | some changed => exact .value (Nat.le_refl m.polls) below
    | none => exact .halt (by simp) stopped

end Bounded

/-! ## Polls and loops -/

section

variable {limit : Nat} {settings : Settings} (signal : settings.cancelAfter = some limit)

include signal

theorem poll_late {m : Machine} (late : limit ≤ m.polls) :
    poll settings m = .error (.fault .cancelled none) (polled m) := by
  rw [poll_run, isCancelled, signal]
  exact if_pos (by simpa using late)

theorem poll_early {m : Machine} (early : m.polls < limit) :
    poll settings m = .ok () (polled m) := by
  rw [poll_run, isCancelled, signal]
  exact if_neg (by simpa using early)

theorem poll_bounded : Bounded limit (poll settings) := by
  intro m below
  by_cases late : limit ≤ m.polls
  · rw [poll_late signal late]
    exact .halt (by simp) (Nat.succ_le_succ below)
  · have early := Nat.lt_of_not_le late
    rw [poll_early signal early]
    exact .value (Nat.le_succ m.polls) early

/-- A loop stays below the limit if it has more rounds left than there are polls left. Each round
    takes one of both. -/
theorem runWhile_ends {condition : EvalM Value} {body : EvalM Unit}
    (conditions : Bounded limit condition) (bodies : Bounded limit body) {rounds : Nat}
    {m : Machine} (below : m.polls ≤ limit) (enough : limit < m.polls + rounds) :
    EndsWithin limit m.polls (runWhile settings condition body rounds m) := by
  induction rounds generalizing m with
  | zero => omega
  | succ rounds ih =>
    rw [runWhile]
    by_cases late : limit ≤ m.polls
    · rw [Outcome.bind_error (poll_late signal late)]
      exact .halt (by simp) (Nat.succ_le_succ below)
    have early := Nat.lt_of_not_le late
    rw [Outcome.bind_ok (poll_early signal early)]
    have next : (polled m).polls = m.polls + 1 := rfl
    have rest : EndsWithin limit (polled m).polls
        ((condition >>= fun v =>
          if v.isTrue then body >>= fun _ => runWhile settings condition body rounds
          else pure ()) (polled m)) := by
      refine (conditions (polled m) early).bind fun v m₁ after₁ below₁ => ?_
      split
      · refine .mono (.bind (bodies m₁ below₁) fun _ m₂ after₂ below₂ => ?_) after₁
        exact (ih below₂ (by omega)).mono after₂
      · exact .value after₁ below₁
    exact rest.mono (by omega)

/-- Evaluation stays below the limit if loops may take more rounds than it. -/
theorem bounded_congruence (enough : limit < settings.loopFuel) :
    Congruence settings settings fun x _ => Bounded limit x where
  recording := rfl
  display := rfl
  value := .value
  tooDeep := .halt (by simp)
  fault := .fault
  bind := .bind
  located place n bounded := bounded.located place n
  poll := poll_bounded signal
  record v := fun m below => .value (Nat.le_refl m.polls) below
  lookup := .lookup
  define name v := fun m below => .value (Nat.le_refl m.polls) below
  requireBound := .requireBound
  assign := .assign
  inBlock bounded := bounded.inBlock settings
  loop conditions bodies := fun m below =>
    runWhile_ends signal conditions bodies below (Nat.lt_add_left m.polls enough)

end

end Eval

/-! ## Runs -/

theorem execute_endsWithin {settings : Settings} {limit : Nat} (scope : Scope) (tree : Node)
    (signal : settings.cancelAfter = some limit) (enough : limit < settings.loopFuel) :
    (execute settings scope tree).failure ≠ some (.halt .outOfFuel) ∧
      (execute settings scope tree).polls ≤ limit + 1 := by
  have rules := (Eval.bounded_congruence signal enough).rules Eval.depthLimit
  have outcome := rules.eval tree ⟨scope, #[], 0⟩ (Nat.zero_le limit)
  rw [execute_eq]
  generalize Eval.eval settings Eval.depthLimit tree ⟨scope, #[], 0⟩ = result at outcome
  cases outcome with
  | value _ below => exact ⟨by simp [Report.ofResult], Nat.le_succ_of_le below⟩
  | halt other below => exact ⟨by simpa [Report.ofResult] using other, below⟩

/-- A run of any tree whose cancel signal is set from its poll of number `n + 1` on, or from an
    earlier one, ends after at most that many polls. It ends in one way, however many rounds its
    loops may take, if only these are more than `n`; so it ends when there is no bound on them. -/
theorem execute_stops {settings : Settings} {count : Nat} {n : Int} (scope : Scope) (tree : Node)
    (signal : settings.cancelAfter = some count) (set : count ≤ n.toNat) :
    ∃ report : Report, report.failure ≠ some (.halt .outOfFuel) ∧
      (report.polls : Int) ≤ max n 0 + 1 ∧
      ∀ rounds > n.toNat, execute (settings.withRounds rounds) scope tree = report := by
  let bounded := settings.withRounds (n.toNat + 1)
  obtain ⟨ends, polls⟩ :=
    @execute_endsWithin bounded count scope tree signal (Nat.lt_succ_of_le set)
  refine ⟨execute bounded scope tree, ends, ?_, fun rounds more => ?_⟩
  · have counted : (n.toNat : Int) = max n 0 := Int.ofNat_toNat n
    omega
  · exact @execute_withRounds bounded scope tree rounds more ends

/-- The tree `!(while (x) { })`, which no source text has: a loop with nothing in it stands where an
    operand should. -/
def negatedLoop : Node :=
  .branch .unary [.leaf ⟨.token .not, "!", {}⟩,
    .branch .loop [.leaf ⟨.token .identifier, "x", {}⟩, .branch .block []]]

/-- Without a signal the tree uses up all its rounds; with one it stops at the fifth poll. -/
theorem execute_stops_negatedLoop :
    let scope : Scope := [[], [("x", .string "a")]]
    let settings : Settings := { blockScoped := true, loopFuel := 9 }
    let signalled : Settings := { settings with cancelAfter := some 4 }
    (execute settings scope negatedLoop).failure = some (.halt .outOfFuel) ∧
    signalled.cancelAfter = some 4 ∧ 4 ≤ (4 : Int).toNat ∧
    (execute signalled scope negatedLoop).failure = some (.halt (.fault .cancelled none)) ∧
    (execute signalled scope negatedLoop).failure ≠ some (.halt .outOfFuel) ∧
    (execute signalled scope negatedLoop).polls ≤ 5 := by
  intro scope settings signalled
  obtain ⟨report, ends, polls, same⟩ :=
    @execute_stops signalled 4 4 scope negatedLoop rfl (by decide)
  have whole : execute signalled scope negatedLoop = report := same 9 (by decide)
  refine ⟨by decide +kernel, rfl, by decide, by decide +kernel, ?_, ?_⟩
  · rw [whole]
    exact ends
  · rw [whole]
    omega

end BraceScript
