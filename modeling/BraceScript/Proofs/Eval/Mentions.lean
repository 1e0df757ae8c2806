import BraceScript.Proofs.Eval.Matching

/-!
# Names that a program does not mention

A program has nothing to do with the names that it does not mention: they cannot change what it
does, and it does not change them. Run in two scopes that have the same values for the names it
mentions, it prints the same values, ends in the same way and polls as often. Afterwards the scopes
have the same values for these names again, and each has for all other names the values that it had.

During a run the frames of blocks are the same in both scopes, since only names that the program
mentions are defined in them. The frames outside of them may be any.
-/

namespace BraceScript

/-- A name occurs in a tree. -/
def Node.Mentions (n : Node) (name : String) : Prop :=
  ∃ l ∈ n.leaves, l.kind = .token .identifier ∧ l.text = name

namespace Scope

variable {names : String → Prop} {start start' scope scope' changed changed' : Scope} {depth : Nat}
  {name : String} {value : Value}

/-- Two scopes have the same values for some names, and for all others the values that they had at
    the start. -/
structure AgreeOn (names : String → Prop) (start start' scope scope' : Scope) : Prop where
  same : ∀ name, names name → get? scope' name = get? scope name
  kept : ∀ name, ¬ names name → get? scope name = get? start name
  kept' : ∀ name, ¬ names name → get? scope' name = get? start' name

/-- A change that gives one of the names a value, the same in both scopes. -/
theorem AgreeOn.assigned (agree : AgreeOn names start start' scope scope') (named : names name)
    (updated : ∀ other, get? changed other = if other = name then some value else get? scope other)
    (updated' : ∀ other,
      get? changed' other = if other = name then some value else get? scope' other) :
    AgreeOn names start start' changed changed' := by
  have different : ∀ other, ¬ names other → other ≠ name := by
    rintro other unnamed rfl
    exact unnamed named
  refine ⟨fun other isNamed => ?_, fun other unnamed => ?_, fun other unnamed => ?_⟩
  · rw [updated, updated', agree.same other isNamed]
  · rw [updated, if_neg (different other unnamed), agree.kept other unnamed]
  · rw [updated', if_neg (different other unnamed), agree.kept' other unnamed]

/-- Two scopes have the same frames at their inner end, as many as the depth says, and related
    scopes outside of these. -/
inductive Sharing (outside : Scope → Scope → Prop) : Nat → Scope → Scope → Prop
  | outer {scope scope' : Scope} : outside scope scope' → Sharing outside 0 scope scope'
  | inner {depth : Nat} {scope scope' : Scope} (frame : Frame) :
    Sharing outside depth scope scope' →
    Sharing outside (depth + 1) (frame :: scope) (frame :: scope')

namespace Sharing

theorem get? (sharing : Sharing (AgreeOn names start start') depth scope scope')
    (named : names name) : Scope.get? scope' name = Scope.get? scope name := by
  induction sharing with
  | outer agree => exact agree.same name named
  | inner frame _ ih => rw [Scope.get?, Scope.get?, ih]

theorem define (sharing : Sharing (AgreeOn names start start') depth scope scope')
    (named : names name) (value : Value) :
    Sharing (AgreeOn names start start') depth (Scope.define scope name value)
      (Scope.define scope' name value) := by
  cases sharing with
  | outer agree => exact .outer (agree.assigned named (get?_define _ _ · _) (get?_define _ _ · _))
  | inner frame outer => exact .inner _ outer

theorem set? (sharing : Sharing (AgreeOn names start start') depth scope scope')
    (named : names name) (found : Scope.set? scope name value = some changed)
    (found' : Scope.set? scope' name value = some changed') :
    Sharing (AgreeOn names start start') depth changed changed' := by
  induction sharing generalizing changed changed' with
  | outer agree => exact .outer (agree.assigned named (get?_set? found) (get?_set? found'))
  | inner frame outer ih =>
    rw [Scope.set?] at found found'
    split at found
    · next bound =>
      rw [if_pos bound] at found'
      obtain ⟨⟩ := found
      obtain ⟨⟩ := found'
      exact .inner _ outer
    · next unbound =>
      rw [if_neg unbound] at found'
      obtain ⟨rest, later, rfl⟩ := Option.map_eq_some_iff.mp found
      obtain ⟨rest', later', rfl⟩ := Option.map_eq_some_iff.mp found'
      exact .inner frame (ih later later')

theorem tail {outside : Scope → Scope → Prop}
    (sharing : Sharing outside (depth + 1) scope scope') :
    Sharing outside depth scope.tail scope'.tail := by
  obtain _ | ⟨frame, outer⟩ := sharing
  exact outer

end Sharing

end Scope

namespace Eval

/-- Scopes that agree on some names match. Blocks have frames of their own if the runs are scoped,
    and these frames are shared. -/
def agreeing (settings : Settings) (names : String → Prop) (start start' : Scope) :
    Matching settings settings where
  fits := names
  allowed _ := True
  like depth := Scope.Sharing (Scope.AgreeOn names start start')
    (if settings.blockScoped then depth else 0)
  settings := rfl
  get?_like sharing named := sharing.get? named
  define_like value sharing named _ := sharing.define named value
  set?_like sharing named := sharing.set? named
  opens sharing := by
    unfold Settings.opened
    cases framed : settings.blockScoped with
    | true =>
      rw [framed] at sharing
      exact .inner [] sharing
    | false =>
      rw [framed] at sharing
      exact sharing
  closes sharing := by
    unfold Settings.closed
    cases framed : settings.blockScoped with
    | true =>
      rw [framed] at sharing
      exact sharing.tail
    | false =>
      rw [framed] at sharing
      exact sharing

end Eval

/-- A program run in two scopes that agree on the names it mentions does the same in both, and
    leaves the names that it does not mention as they are. -/
theorem execute_agreeing {settings : Settings} {scope scope' : Scope} {tree : Node}
    (program : tree.IsProgram)
    (agree : ∀ name, tree.Mentions name → Scope.get? scope' name = Scope.get? scope name)
    (shallow : (execute settings scope tree).failure ≠ some (.halt .tooDeep))
    (shallow' : (execute settings scope' tree).failure ≠ some (.halt .tooDeep)) :
    let report := execute settings scope tree
    let report' := execute settings scope' tree
    report'.output = report.output ∧ report'.failure = report.failure ∧
    report'.polls = report.polls ∧
    (∀ name, tree.Mentions name →
      Scope.get? report'.scope name = Scope.get? report.scope name) ∧
    (∀ name, ¬ tree.Mentions name →
      Scope.get? report.scope name = Scope.get? scope name ∧
      Scope.get? report'.scope name = Scope.get? scope' name) := by
  intro report report'
  let μ := Eval.agreeing settings tree.Mentions scope scope'
  have fit : ∀ l ∈ tree.leaves, l.kind = .token .identifier → μ.fits l.text :=
    fun l member isName => ⟨l, member, isName, rfl⟩
  have start : μ.like 0 scope scope' := by
    show Scope.Sharing _ (if settings.blockScoped then 0 else 0) scope scope'
    rw [ite_self]
    exact .outer ⟨agree, fun _ _ => rfl, fun _ _ => rfl⟩
  obtain ⟨output, failure, polls, like⟩ := execute_matching μ program fit
    (Node.allows_of_leaves tree 0 fun _ _ _ _ => trivial) start shallow shallow'
  have last : Scope.Sharing (Scope.AgreeOn tree.Mentions scope scope') 0 report.scope
      report'.scope := by
    have outside : μ.like 0 report.scope report'.scope := like
    change Scope.Sharing _ (if settings.blockScoped then 0 else 0) _ _ at outside
    rwa [ite_self] at outside
  obtain ⟨same, kept, kept'⟩ | _ := last
  exact ⟨output, failure, polls, same, fun name unmentioned =>
    ⟨kept name unmentioned, kept' name unmentioned⟩⟩

/-- The program `if (x) { var y = x; x = z; print(x); w = y; }`. -/
def swapping : Node :=
  .branch .program [.branch .conditional [word "x", .branch .block
    [.branch .declaration [word "y", word "x"], .branch .assignment [word "x", word "z"],
     .branch .print [word "x"], .branch .assignment [word "w", word "y"]]]]
where
  word (text : String) : Node := .leaf ⟨.token .identifier, text, {}⟩

/-- The last assignment fails in both scopes, and `u`, which one of them binds twice, is kept. -/
theorem execute_agreeing_swapping :
    let settings : Settings := { blockScoped := true }
    let flat : Scope := [[("x", .string "a"), ("z", .string "b"), ("v", .string "c")]]
    let nested : Scope := [[("u", .string "d")], [("z", .string "b"), ("u", .string "e")],
      [("x", .string "a")]]
    swapping.IsProgram ∧
    (∀ name, swapping.Mentions name → Scope.get? nested name = Scope.get? flat name) ∧
    (execute settings flat swapping).failure = some (.halt (.fault (.undefinedVariable "w") none)) ∧
    (execute settings nested swapping).failure = (execute settings flat swapping).failure ∧
    (execute settings nested swapping).output = (execute settings flat swapping).output ∧
    Scope.get? (execute settings nested swapping).scope "x" =
      Scope.get? (execute settings flat swapping).scope "x" ∧
    Scope.get? (execute settings nested swapping).scope "u" = some (.string "d") := by
  intro settings flat nested
  have w : Node.IsLeaf [.identifier] (swapping.word "w") := .name (Lexical.word_of_all rfl rfl) rfl
  have x : Node.IsLeaf [.identifier] (swapping.word "x") := .name (Lexical.word_of_all rfl rfl) rfl
  have y : Node.IsLeaf [.identifier] (swapping.word "y") := .name (Lexical.word_of_all rfl rfl) rfl
  have z : Node.IsLeaf [.identifier] (swapping.word "z") := .name (Lexical.word_of_all rfl rfl) rfl
  have program : swapping.IsProgram := by
    refine .intro (List.forall_mem_singleton.mpr (.conditional x.isExpression ?_))
    simp only [List.forall_mem_cons, List.not_mem_nil, false_imp_iff, implies_true, and_true]
    exact ⟨.declaration y x.isExpression, .assignment x z.isExpression, .print x.isExpression,
      .assignment w y.isExpression⟩
  have agree : ∀ name, swapping.Mentions name →
      Scope.get? nested name = Scope.get? flat name := by
    have each : ∀ l ∈ swapping.leaves, Scope.get? nested l.text = Scope.get? flat l.text := by
      have empty : ∀ name, Frame.get? [] name = none := fun _ => rfl
      simp [swapping, swapping.word, Node.leaves, Node.forestLeaves, nested, flat, Scope.get?,
        Frame.get?_cons, empty]
    rintro _ ⟨l, member, -, rfl⟩
    exact each l member
  have failed : (execute settings flat swapping).failure =
      some (.halt (.fault (.undefinedVariable "w") none)) := by decide +kernel
  obtain ⟨output, failure, -, same, others⟩ := execute_agreeing program agree
    (by rw [failed]; decide) (by decide +kernel)
  refine ⟨program, agree, failed, failure, output, same "x" ?_, (others "u" ?_).2⟩
  · exact ⟨⟨.token .identifier, "x", {}⟩, by decide, rfl, rfl⟩
  · have others : ∀ l ∈ swapping.leaves, l.text ≠ "u" := by decide
    rintro ⟨l, member, -, named⟩
    exact others l member named

end BraceScript
