import BraceScript.Program
import BraceScript.Proofs.Eval.Congruence
import BraceScript.Proofs.Eval.Ensures

/-!
# More rounds for loops

A run whose loops may take more rounds does the same, unless a loop had used up the rounds it was
given. So a run that ends with some number of rounds has one outcome, which it has with all larger
numbers too, and a run that ends with no number of rounds goes on forever.
-/

namespace BraceScript

/-- The same settings with another number of rounds for each loop. -/
def Settings.withRounds (settings : Settings) (rounds : Nat) : Settings :=
  { settings with loopFuel := rounds }

namespace Eval

open Outcome

variable {α : Type} {reason : Halt} {settings left right : Settings} {more : Nat}

/-! ## Actions -/

theorem locating_widens {place : Node → Option Position} {n : Node} {narrow wide : EvalM α}
    (fixed : reason.IsPlaced) (widens : Widens (fun _ => reason) narrow wide) :
    Widens (fun _ => reason) (locating place n narrow) (locating place n wide) := by
  intro m
  rcases widens m with same | ⟨m', stopped⟩
  · left
    rw [locating, locating, same]
  · right
    refine ⟨m', ?_⟩
    rw [locating, stopped]
    cases reason with
    | fault cause known =>
      cases known with
      | none => exact absurd rfl (fixed cause)
      | some place => rfl
    | tooDeep => rfl
    | outOfFuel => rfl

theorem inBlock_widens {narrow wide : EvalM Unit} (same : right.blockScoped = left.blockScoped)
    (widens : Widens (fun _ => reason) narrow wide) :
    Widens (fun _ => reason) (inBlock left narrow) (inBlock right wide) := by
  unfold inBlock
  rw [same]
  refine .ite ?_ widens
  intro m
  rcases widens { m with scope := [] :: m.scope } with same | ⟨m', stopped⟩
  · left
    simp only [same]
  · right
    exact ⟨{ m' with scope := m'.scope.tail }, by simp only [stopped]⟩

/-- A loop with other rounds than the first has them only where running out of them is excused. -/
theorem runWhile_widens {condition test : EvalM Value} {body inside : EvalM Unit}
    (polls : Widens (fun _ => reason) (poll left) (poll right))
    (conditions : Widens (fun _ => reason) condition test)
    (bodies : Widens (fun _ => reason) body inside)
    {rounds others : Nat} (enough : rounds = others ∨ (reason = .outOfFuel ∧ rounds ≤ others)) :
    Widens (fun _ => reason) (runWhile left condition body rounds)
      (runWhile right test inside others) := by
  induction rounds generalizing others with
  | zero =>
    rcases enough with rfl | ⟨rfl, -⟩
    · exact .refl _
    · exact .stop (fun _ => rfl) _
  | succ rounds ih =>
    obtain ⟨others, rfl⟩ : ∃ fewer, others = fewer + 1 := ⟨others - 1, by omega⟩
    refine .bind polls fun _ => conditions.bind fun _ => .ite ?_ (.refl _)
    exact bodies.bind fun _ => ih (by simpa using enough)

/-- Evaluation with more rounds widens evaluation. -/
theorem widens_congruence (enough : settings.loopFuel ≤ more) :
    Congruence settings (settings.withRounds more) (Widens fun _ => .outOfFuel) where
  recording := rfl
  display := rfl
  value _ := .refl _
  tooDeep := .refl _
  fault _ := .refl _
  bind := .bind
  located _ _ := locating_widens fun cause => by simp
  poll := .refl (poll settings)
  record _ := .refl _
  lookup _ _ := .refl _
  define _ _ := .refl _
  requireBound _ _ := .refl _
  assign _ _ _ := .refl _
  inBlock := inBlock_widens rfl
  loop conditions bodies := by
    have polls : Widens (fun _ => .outOfFuel) (poll settings) (poll (settings.withRounds more)) :=
      .refl (poll settings)
    exact runWhile_widens polls conditions bodies (.inr ⟨rfl, enough⟩)

end Eval

/-! ## Runs -/

/-- With more rounds a tree is run in the same way, unless a loop had used up those it was given. -/
theorem execute_withRounds {settings : Settings} {scope : Scope} {tree : Node} {more : Nat}
    (enough : settings.loopFuel ≤ more)
    (ends : (execute settings scope tree).failure ≠ some (.halt .outOfFuel)) :
    execute (settings.withRounds more) scope tree = execute settings scope tree := by
  have rules := (Eval.widens_congruence enough).rules Eval.depthLimit
  unfold execute at ends ⊢
  rcases rules.eval tree ⟨scope, #[], 0⟩ with same | ⟨m, stopped⟩
  · rw [same]
  · simp [stopped] at ends

/-- With more rounds a run is the same, unless a loop had used up those it was given. -/
theorem run_withRounds {settings : Settings} {scope : Scope} {source : String} {more : Nat}
    (enough : settings.loopFuel ≤ more)
    (ends : (run settings scope source).failure ≠ some (.halt .outOfFuel)) :
    run (settings.withRounds more) scope source = run settings scope source := by
  unfold run at ends ⊢
  cases parsed : parseSource source with
  | error failure => rfl
  | ok tree =>
    simp only [parsed] at ends ⊢
    exact execute_withRounds enough ends

end BraceScript
