import BraceScript.Proofs.Eval.Coupling
import BraceScript.Proofs.Report
import BraceScript.Proofs.Scope

/-!
# Runs that see the same values

Two runs of one program in scopes of different shapes, or with different uses of frames, go side by
side if the names of the program have the same values in both. A *matching* is a relation between
scopes that says so and that is kept by definitions and assignments and at the borders of blocks.

How many frames a search for a name looks at may differ. So one of the runs may be nested too deeply
where the other is not, and after that nothing more is compared.
-/

namespace BraceScript

/-! ## The borders of blocks -/

/-- The scope that a block is run in. -/
def Settings.opened (settings : Settings) (scope : Scope) : Scope :=
  if settings.blockScoped then [] :: scope else scope

/-- The scope after a block. -/
def Settings.closed (settings : Settings) (scope : Scope) : Scope :=
  if settings.blockScoped then scope.tail else scope

namespace Eval

/-- A block with or without a frame of its own. -/
theorem inBlock_run (settings : Settings) (block : EvalM Unit) (m : Machine) :
    inBlock settings block m =
      match block { m with scope := settings.opened m.scope } with
      | .ok a m' => .ok a { m' with scope := settings.closed m'.scope }
      | .error reason m' => .error reason { m' with scope := settings.closed m'.scope } := by
  unfold Settings.opened Settings.closed
  cases framed : settings.blockScoped with
  | true =>
    rw [inBlock_framed framed]
    rfl
  | false =>
    rw [inBlock_flat framed]
    simp only [Bool.false_eq_true, if_false]
    cases block m <;> rfl

/-! ## Matchings -/

/-- A relation between the scopes of two runs at each depth. -/
structure Matching (left right : Settings) where
  fits : String → Prop
  /-- The depths at which names may be declared. -/
  allowed : Nat → Prop
  like : Nat → Scope → Scope → Prop
  settings : right = { left with blockScoped := right.blockScoped }
  get?_like : ∀ {depth scope scope' name}, like depth scope scope' → fits name →
    Scope.get? scope' name = Scope.get? scope name
  define_like : ∀ {depth scope scope' name} value, like depth scope scope' → fits name →
    allowed depth → like depth (Scope.define scope name value) (Scope.define scope' name value)
  set?_like : ∀ {depth scope scope' name value changed changed'}, like depth scope scope' →
    fits name → Scope.set? scope name value = some changed →
    Scope.set? scope' name value = some changed' → like depth changed changed'
  opens : ∀ {depth scope scope'}, like depth scope scope' →
    like (depth + 1) (left.opened scope) (right.opened scope')
  closes : ∀ {depth scope scope'}, like (depth + 1) scope scope' →
    like depth (left.closed scope) (right.closed scope')

namespace Matching

variable {left right : Settings}

/-- Two states whose scopes match, with the same values printed and as many polls made. -/
structure Agree (μ : Matching left right) (depth : Nat) (m m' : Machine) : Prop where
  scope : μ.like depth m.scope m'.scope
  output : m'.output = m.output
  polls : m'.polls = m.polls

/-- Two actions end alike from states that agree, unless one of them is nested too deeply. -/
def Keeps {α : Type} (μ : Matching left right) (depth : Nat) (x y : EvalM α) : Prop :=
  Simulates (fun p => p) (· = .tooDeep) (μ.Agree depth) x y

variable {μ : Matching left right} {depth room : Nat} {name : String} {m m' : Machine}

theorem Agree.binds (agree : μ.Agree depth m m') (fit : μ.fits name) :
    Scope.binds m'.scope name = Scope.binds m.scope name := by
  rw [← Scope.isSome_get?, ← Scope.isSome_get?, μ.get?_like agree.scope fit]

/-- Where the two runs may have too little room for different searches, it is enough that they end
    alike when they have both enough. -/
theorem alike_demanded {α : Type} {agree : Machine → Machine → Prop} {reach reach' : Nat}
    {result result' : EStateM.Result Halt Machine α}
    (alike : Alike (fun p => p) (· = .tooDeep) agree agree result result') :
    Alike (fun p => p) (· = .tooDeep) agree agree
      (if room < reach then .error .tooDeep m else result)
      (if room < reach' then .error .tooDeep m' else result') := by
  by_cases deep : room < reach
  · rw [if_pos deep]
    exact .left rfl
  · by_cases deep' : room < reach'
    · rw [if_pos deep']
      exact .right rfl
    · rw [if_neg deep, if_neg deep']
      exact alike

theorem poll (depth : Nat) : μ.Keeps depth (poll left) (poll right) := by
  intro m m' agree
  have cancelled : isCancelled right m' = isCancelled left m := by
    rw [isCancelled, isCancelled, agree.polls, μ.settings]
  have after : μ.Agree depth (polled m) (polled m') :=
    ⟨agree.scope, agree.output, congrArg (· + 1) agree.polls⟩
  rw [poll_run, poll_run, cancelled]
  split
  · exact .halt after
  · exact .value after

theorem record (depth : Nat) (value : Value) : μ.Keeps depth (record value) (record value) := by
  intro m m' agree
  rw [record_run, record_run]
  exact .value ⟨agree.scope, congrArg (·.push value) agree.output, agree.polls⟩

theorem lookup (depth : Nat) (fit : μ.fits name) (room : Nat) :
    μ.Keeps depth (lookup room name) (lookup room name) := by
  intro m m' agree
  rw [lookup_run, lookup_run, μ.get?_like agree.scope fit]
  refine alike_demanded ?_
  cases Scope.get? m.scope name with
  | some value => exact .value agree
  | none => exact .halt agree

theorem define (fit : μ.fits name) (allowed : μ.allowed depth) (value : Value) :
    μ.Keeps depth (define name value) (define name value) := by
  intro m m' agree
  rw [define_run, define_run]
  exact .value ⟨μ.define_like value agree.scope fit allowed, agree.output, agree.polls⟩

theorem requireBound (depth : Nat) (fit : μ.fits name) (room : Nat) :
    μ.Keeps depth (requireBound room name) (requireBound room name) := by
  intro m m' agree
  rw [requireBound_run, requireBound_run, agree.binds fit]
  refine alike_demanded ?_
  split
  · exact .value agree
  · exact .halt agree

theorem assign (depth : Nat) (fit : μ.fits name) (room : Nat) (value : Value) :
    μ.Keeps depth (assign room name value) (assign room name value) := by
  intro m m' agree
  have both : (Scope.set? m'.scope name value).isSome = (Scope.set? m.scope name value).isSome := by
    rw [Scope.isSome_set?, Scope.isSome_set?, agree.binds fit]
  rw [assign_run, assign_run]
  refine alike_demanded ?_
  cases found : Scope.set? m.scope name value with
  | some changed =>
    rw [found] at both
    obtain ⟨changed', found'⟩ := Option.isSome_iff_exists.mp both
    rw [found']
    exact .value ⟨μ.set?_like agree.scope fit found found', agree.output, agree.polls⟩
  | none =>
    rw [found] at both
    have found' : Scope.set? m'.scope name value = none := by simpa using both
    rw [found']
    exact .halt agree

theorem inBlock {x y : EvalM Unit} (inside : μ.Keeps (depth + 1) x y) :
    μ.Keeps depth (inBlock left x) (inBlock right y) := by
  intro m m' agree
  have outcome := inside { m with scope := left.opened m.scope }
    { m' with scope := right.opened m'.scope } ⟨μ.opens agree.scope, agree.output, agree.polls⟩
  rw [inBlock_run, inBlock_run]
  generalize x { m with scope := left.opened m.scope } = result at outcome
  generalize y { m' with scope := right.opened m'.scope } = result' at outcome
  cases outcome with
  | value after => exact .value ⟨μ.closes after.scope, after.output, after.polls⟩
  | halt after => exact .halt ⟨μ.closes after.scope, after.output, after.polls⟩
  | left excused => exact .left excused
  | right excused => exact .right excused

/-- Runs in scopes that match go side by side. -/
def coupling (μ : Matching left right) : Coupling left right where
  change := .none
  fits l := l.kind = .token .identifier → μ.fits l.text
  allowed depth _ := μ.allowed depth
  excused reason := reason = .tooDeep
  agree := μ.Agree
  recording := by rw [μ.settings]
  rounds := by rw [μ.settings]
  excused_placed _ _ excused := by cases excused
  poll := poll
  record := record
  lookup depth _ fit isName := lookup depth (fit isName)
  define _ _ fit allowed isName := define (fit isName) allowed
  requireBound depth _ fit isName := requireBound depth (fit isName)
  assign depth _ fit isName := assign depth (fit isName)
  inBlock _ _ _ := inBlock

end Matching

end Eval

/-! ## Runs -/

open Node

variable {left right : Settings} {scope scope' : Scope} {tree : Node}

/-- Running a program in scopes that match gives the same output, the same failure and as many
    polls, and scopes that match, if neither run is nested too deeply. -/
theorem execute_matching (μ : Eval.Matching left right) (program : tree.IsProgram)
    (fit : ∀ l ∈ tree.leaves, l.kind = .token .identifier → μ.fits l.text)
    (allows : tree.Allows (fun depth _ => μ.allowed depth) 0) (like : μ.like 0 scope scope')
    (shallow : (execute left scope tree).failure ≠ some (.halt .tooDeep))
    (shallow' : (execute right scope' tree).failure ≠ some (.halt .tooDeep)) :
    (execute right scope' tree).output = (execute left scope tree).output ∧
    (execute right scope' tree).failure = (execute left scope tree).failure ∧
    (execute right scope' tree).polls = (execute left scope tree).polls ∧
    μ.like 0 (execute left scope tree).scope (execute right scope' tree).scope := by
  have couples := μ.coupling.program Eval.depthLimit program fit allows
  have same : tree.changed μ.coupling.change = tree := mapLeaves_id tree
  rw [same] at couples
  have outcome := couples ⟨scope, #[], 0⟩ ⟨scope', #[], 0⟩ ⟨like, rfl, rfl⟩
  rw [execute_eq] at shallow shallow' ⊢
  rw [execute_eq]
  generalize Eval.eval left Eval.depthLimit tree ⟨scope, #[], 0⟩ = result at outcome shallow ⊢
  generalize Eval.eval right Eval.depthLimit tree ⟨scope', #[], 0⟩ = result' at outcome shallow' ⊢
  cases outcome with
  | value agree => exact ⟨congrArg Array.toList agree.output, rfl, agree.polls, agree.scope⟩
  | @halt reason _ _ agree =>
    have kept : reason.moved μ.coupling.change.move = reason := reason.moved_id
    rw [kept]
    exact ⟨congrArg Array.toList agree.output, rfl, agree.polls, agree.scope⟩
  | left excused => exact absurd (congrArg (some ∘ Failure.halt) excused) shallow
  | right excused => exact absurd (congrArg (some ∘ Failure.halt) excused) shallow'

end BraceScript
