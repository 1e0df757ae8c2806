import BraceScript.Proofs.Eval.Coupling
import BraceScript.Proofs.Grammar.Shape
import BraceScript.Proofs.Report

/-!
# Displays of trees make no difference to programs

The operators of a program are leaves, so that no fault of it shows a tree. The run of a program is
the same however trees are shown, and so is the run of a source text.
-/

namespace BraceScript

/-- A run goes side by side with itself where trees are shown in another way. -/
def Eval.shown (settings : Settings) (display : Node → Display) :
    Coupling settings { settings with display } where
  change := .none
  fits _ := True
  allowed _ _ := True
  excused _ := False
  agree _ m m' := m' = m
  recording := rfl
  rounds := rfl
  excused_placed _ _ := id
  poll _ := .refl (poll settings)
  record _ value := .refl (record value)
  lookup _ l _ _ room := .refl (lookup room l.text)
  define _ l _ _ _ value := .refl (define l.text value)
  requireBound _ l _ _ room := .refl (requireBound room l.text)
  assign _ l _ _ room value := .refl (assign room l.text value)
  inBlock _ x y same := by
    obtain rfl : y = x := funext fun m => (same m m rfl).eq
    exact .refl (inBlock settings y)

theorem Eval.shown_apply (settings : Settings) (display : Node → Display) :
    (shown settings display).change.apply = fun l => l := rfl

theorem execute_display {tree : Node} (program : tree.IsProgram) (settings : Settings)
    (display : Node → Display) (scope : Scope) :
    execute { settings with display } scope tree = execute settings scope tree := by
  have same := (Eval.shown settings display).program Eval.depthLimit program
    (fun _ _ => trivial) (Node.allows_of_leaves tree 0 fun _ _ _ _ => trivial)
  rw [Node.changed, Eval.shown_apply, Node.mapLeaves_id] at same
  rw [execute_eq, execute_eq, (same _ _ rfl).eq]

theorem run_display (settings : Settings) (display : Node → Display) (scope : Scope)
    (source : String) :
    run { settings with display } scope source = run settings scope source := by
  unfold run
  split
  · rfl
  · next parsed => exact execute_display (isProgram_of_parseSource parsed) settings display scope

end BraceScript
