import BraceScript.Program
import BraceScript.Proofs.Eval.Congruence
import BraceScript.Proofs.Eval.Ensures
import BraceScript.Proofs.Scope

/-!
# A run keeps its frames

Blocks put frames before the chain that a run starts in and drop them again, however they end, and a
definition or an assignment adds no frame to a chain that has one. So the chain after a run is as
long as the chain before it, whatever the tree is and whether the run fails.
-/

namespace BraceScript

namespace Eval

open Outcome

variable {α β : Type} {settings : Settings}

/-- An action leaves every chain that has a frame as long as it is. -/
def KeepsFrames (x : EvalM α) : Prop :=
  ∀ outer, Ensures (fun m => m.scope.length = outer + 1) (fun _ => True) x fun _ => True

namespace KeepsFrames

theorem value (a : α) : KeepsFrames (pure a) := fun _ => .value trivial

theorem halt (reason : Halt) : KeepsFrames (throw reason : EvalM α) := fun _ => .halt trivial

theorem bind {x : EvalM α} {f : α → EvalM β} (first : KeepsFrames x)
    (second : ∀ a, KeepsFrames (f a)) : KeepsFrames (x >>= f) :=
  fun outer => Ensures.bind (first outer) fun a _ => second a outer

theorem enough (units room : Nat) : KeepsFrames (demand units room) :=
  fun _ => .enough trivial

/-- An action that looks at the frames and goes on from there. -/
theorem look {f : Machine → EvalM α} (rest : ∀ m, KeepsFrames (f m)) :
    KeepsFrames (get >>= f) :=
  bind (fun _ _ kept => ⟨trivial, kept⟩) rest

theorem poll (settings : Settings) : KeepsFrames (poll settings) := by
  intro outer
  unfold Eval.poll
  refine Ensures.bind .state fun m kept => Ensures.bind (.put kept) fun _ _ => ?_
  split
  · split
    · exact .fault trivial
    · exact .value trivial
  · exact .value trivial

theorem lookup (room : Nat) (name : String) : KeepsFrames (lookup room name) := by
  refine look fun m => bind (enough _ _) fun _ => ?_
  split
  · exact value _
  · exact halt _

theorem requireBound (room : Nat) (name : String) : KeepsFrames (requireBound room name) := by
  refine look fun m => bind (enough _ _) fun _ => ?_
  split
  · exact halt _
  · exact value ()

theorem define (name : String) (value : Value) : KeepsFrames (define name value) := by
  refine fun outer => .change fun m kept => ?_
  have length := (Scope.define_writes m.scope name value).length
  simp only [length, kept]
  omega

theorem assign (room : Nat) (name : String) (value : Value) :
    KeepsFrames (assign room name value) := by
  intro outer
  unfold Eval.assign
  refine Ensures.bind .state fun m kept => Ensures.bind (.enough trivial) fun _ _ => ?_
  split
  · next changed found =>
    have length := congrArg List.length (Scope.map_binds_set? found)
    rw [List.length_map, List.length_map, kept] at length
    exact .put length
  · exact .fault trivial

theorem inBlock {action : EvalM Unit} (inside : KeepsFrames action) :
    KeepsFrames (inBlock settings action) := by
  intro outer
  cases framed : settings.blockScoped with
  | false =>
    rw [inBlock_flat framed]
    exact inside outer
  | true =>
    intro m kept
    have within := inside (outer + 1) { m with scope := [] :: m.scope } (by simp [kept])
    rw [inBlock_framed framed]
    revert within
    cases action { m with scope := [] :: m.scope } with
    | ok a m' => exact fun within => ⟨trivial, by simp [within.2]⟩
    | error reason m' => exact fun within => ⟨trivial, by simp [within.2]⟩

theorem runWhile {condition : EvalM Value} {body : EvalM Unit} (test : KeepsFrames condition)
    (round : KeepsFrames body) (rounds : Nat) :
    KeepsFrames (runWhile settings condition body rounds) := by
  induction rounds with
  | zero => exact halt _
  | succ rounds ih =>
    refine bind (poll settings) fun _ => bind test fun v => ?_
    split
    · exact bind round fun _ => ih
    · exact value ()

end KeepsFrames

end Eval

end BraceScript
