import BraceScript.Proofs.Eval.Matching
import BraceScript.Proofs.Eval.Moments

/-!
# Frames that stay empty

Whether blocks have frames of their own matters only for the names that are declared in them. If no
block of a program declares a name, then all frames that blocks open stay empty until they are
closed: a search for a name goes past them to the frames that the program was started with, and an
assignment changes one of those. So the program runs the same with and without frames for blocks.
-/

namespace BraceScript

/-! ## Declarations outside blocks -/

namespace Node

/-- No block of a tree has a declaration in it, however deep. -/
def DeclaresOutsideBlocks (n : Node) : Prop :=
  ∀ statements, Within (branch .block statements) n →
    ∀ parts, ¬ Within (branch .declaration parts) (branch .block statements)

variable {allowed : Nat → Leaf → Prop} {label : Label} {n : Node} {ns : List Node}

theorem DeclaresOutsideBlocks.child (outside : (branch label ns).DeclaresOutsideBlocks)
    (member : n ∈ ns) : n.DeclaresOutsideBlocks :=
  fun statements within => outside statements (.inside member within)

/-- A tree without declarations may stand where no name may be declared. -/
theorem allows_of_no_declaration (n : Node) (depth : Nat)
    (none : ∀ parts, ¬ Within (branch .declaration parts) n) : n.Allows allowed depth := by
  match n with
  | leaf _ => simp [Allows]
  | branch label ns =>
    have inside : ∀ deeper, ForestAllows allowed deeper ns := fun deeper =>
      forestAllows_iff.mpr fun n member =>
        allows_of_no_declaration n deeper fun parts within => none parts (.inside member within)
    unfold Allows
    split
    · next same =>
      obtain ⟨rfl, rfl⟩ := branch.inj same
      exact absurd (.refl _) (none _)
    · next same =>
      obtain ⟨-, rfl⟩ := branch.inj same
      exact inside _
    · next same =>
      obtain ⟨-, rfl⟩ := branch.inj same
      exact inside _
    · trivial

/-- Declarations outside blocks are at the depth of the tree itself. -/
theorem DeclaresOutsideBlocks.allows (n : Node) (outside : n.DeclaresOutsideBlocks) (depth : Nat) :
    n.Allows (fun deeper _ => deeper = depth) depth := by
  match n with
  | leaf _ => simp [Allows]
  | branch label ns =>
    unfold Allows
    split
    · rfl
    · next same =>
      obtain ⟨rfl, rfl⟩ := branch.inj same
      refine forestAllows_iff.mpr fun n member => allows_of_no_declaration n _ fun parts inner => ?_
      exact outside _ (.refl _) parts (.inside member inner)
    · next same =>
      obtain ⟨-, rfl⟩ := branch.inj same
      exact forestAllows_iff.mpr fun n member => allows n (outside.child member) _
    · trivial

end Node

/-! ## Scopes with empty frames inside -/

namespace Scope

variable {scope changed changed' : Scope} {name : String} {value : Value}

/-- A scope inside which some frames have been opened that are empty. -/
def padded : Nat → Scope → Scope
  | 0, scope => scope
  | depth + 1, scope => [] :: padded depth scope

@[simp]
theorem get?_padded (depth : Nat) (scope : Scope) (name : String) :
    get? (padded depth scope) name = get? scope name := by
  induction depth with
  | zero => rfl
  | succ depth ih => exact ih

@[simp]
theorem set?_padded (depth : Nat) (scope : Scope) (name : String) (value : Value) :
    set? (padded depth scope) name value = (set? scope name value).map (padded depth) := by
  induction depth with
  | zero => exact Option.map_id'.symm
  | succ depth ih =>
    have absent : ¬ Frame.binds [] name := nofun
    rw [padded, set?, if_neg absent, ih, Option.map_map]
    rfl

end Scope

namespace Eval

/-- Blocks without frames match blocks whose frames stay empty. -/
def padding (settings : Settings) :
    Matching { settings with blockScoped := false } { settings with blockScoped := true } where
  fits _ := True
  allowed depth := depth = 0
  like depth scope scope' := scope' = Scope.padded depth scope
  settings := rfl
  get?_like := by
    rintro depth scope _ name rfl -
    exact Scope.get?_padded depth scope name
  define_like := by
    rintro _ scope _ name value rfl - rfl
    rfl
  set?_like := by
    rintro depth scope _ name value changed changed' rfl - found found'
    rw [Scope.set?_padded, found] at found'
    exact (Option.some.inj found').symm
  opens := by
    rintro depth scope _ rfl
    rfl
  closes := by
    rintro depth scope _ rfl
    rfl

end Eval

/-- A program whose blocks declare no names runs the same with and without frames for blocks. -/
theorem execute_blockScoped {settings : Settings} {scope : Scope} {tree : Node}
    (program : tree.IsProgram) (outside : tree.DeclaresOutsideBlocks)
    (shallow : (execute { settings with blockScoped := true } scope tree).failure ≠
      some (.halt .tooDeep))
    (shallow' : (execute { settings with blockScoped := false } scope tree).failure ≠
      some (.halt .tooDeep)) :
    execute { settings with blockScoped := true } scope tree =
      execute { settings with blockScoped := false } scope tree := by
  have start : (Eval.padding settings).like 0 scope scope := rfl
  obtain ⟨output, failure, polls, like⟩ := execute_matching (Eval.padding settings) program
    (fun _ _ _ => trivial) (outside.allows tree 0) start shallow' shallow
  exact Report.ext like output polls failure

/-- The program `var x = y; while (x) { if (y) { x = y; print(x); } y = z; }`. -/
def outerDeclaration : Node :=
  .branch .program [.branch .declaration [word "x", word "y"],
    .branch .loop [word "x", .branch .block
      [.branch .conditional [word "y", .branch .block
        [.branch .assignment [word "x", word "y"], .branch .print [word "x"]]],
       .branch .assignment [word "y", word "z"]]]]
where
  word (text : String) : Node := .leaf ⟨.token .identifier, text, {}⟩

/-- The assignment to `y` in the loop changes a frame outside of the one that has `x`, and the
    run is then cancelled in the third round. -/
theorem execute_blockScoped_outerDeclaration :
    let scope : Scope := [[("z", .string "b")], [("y", .string "a")]]
    let settings : Settings := { cancelAfter := some 13 }
    outerDeclaration.IsProgram ∧ outerDeclaration.DeclaresOutsideBlocks ∧
    (execute { settings with blockScoped := true } scope outerDeclaration).failure =
      some (.halt (.fault .cancelled none)) ∧
    execute { settings with blockScoped := true } scope outerDeclaration =
      execute { settings with blockScoped := false } scope outerDeclaration := by
  intro scope settings
  have x : Node.IsLeaf [.identifier] (outerDeclaration.word "x") :=
    .name (Lexical.word_of_all rfl rfl) rfl
  have y : Node.IsLeaf [.identifier] (outerDeclaration.word "y") :=
    .name (Lexical.word_of_all rfl rfl) rfl
  have z : Node.IsLeaf [.identifier] (outerDeclaration.word "z") :=
    .name (Lexical.word_of_all rfl rfl) rfl
  have program : outerDeclaration.IsProgram := by
    refine .intro (List.forall_mem_cons.mpr ⟨.declaration x y.isExpression, ?_⟩)
    refine List.forall_mem_singleton.mpr (.loop x.isExpression ?_)
    refine List.forall_mem_cons.mpr ⟨.conditional y.isExpression ?_, ?_⟩
    · refine List.forall_mem_cons.mpr ⟨.assignment x y.isExpression, ?_⟩
      exact List.forall_mem_singleton.mpr (.print x.isExpression)
    · exact List.forall_mem_singleton.mpr (.assignment y z.isExpression)
  have outside : outerDeclaration.DeclaresOutsideBlocks := by
    simp [Node.DeclaresOutsideBlocks, Node.within_branch, Node.within_leaf, outerDeclaration,
      outerDeclaration.word]
  have cancelled : (execute { settings with blockScoped := true } scope outerDeclaration).failure =
      some (.halt (.fault .cancelled none)) := by decide +kernel
  exact ⟨program, outside, cancelled,
    execute_blockScoped program outside (by rw [cancelled]; decide) (by decide +kernel)⟩

end BraceScript
