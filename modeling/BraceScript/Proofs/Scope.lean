import BraceScript.Scope

/-!
# Bindings of frames and scopes

What defining and assigning a name do to the names that are bound: a definition adds its name to the
innermost frame, and an assignment succeeds just when some frame binds the name and adds none. Both
give the name its new value, and leave the values of all other names as they are.
-/

namespace BraceScript

namespace Frame

theorem get?_cons (entry : String × Value) (rest : Frame) (name : String) :
    get? (entry :: rest) name = if name == entry.1 then some entry.2 else get? rest name := by
  rw [get?, List.lookup_cons]
  cases name == entry.1 <;> rfl

theorem binds_cons (entry : String × Value) (rest : Frame) (name : String) :
    binds (entry :: rest) name = (name == entry.1 || binds rest name) := by
  rw [binds, get?_cons]
  cases name == entry.1 <;> rfl

/-- Putting a name binds it and no other name. -/
theorem binds_put (frame : Frame) (name other : String) (value : Value) :
    binds (put frame name value) other = (other == name || binds frame other) := by
  induction frame with
  | nil => rw [put, binds_cons]
  | cons entry rest ih =>
    rw [put]
    by_cases same : name = entry.1
    · subst same
      simp only [beq_self_eq_true, if_true, binds_cons]
      cases other == entry.1 <;> rfl
    · simp only [beq_iff_eq, same, if_false, binds_cons, ih]
      cases other == entry.1 <;> cases other == name <;> rfl

/-- Putting a name gives it a value and leaves the values of other names. -/
theorem get?_put (frame : Frame) (name other : String) (value : Value) :
    get? (put frame name value) other = if other = name then some value else get? frame other := by
  induction frame with
  | nil =>
    rw [put, get?_cons]
    by_cases same : other = name <;> simp [same]
  | cons entry rest ih =>
    rw [put]
    by_cases found : name = entry.1
    · subst found
      by_cases same : other = entry.1 <;> simp [get?_cons, same]
    · by_cases same : other = name
      · subst same
        simp [get?_cons, found, ih]
      · simp [get?_cons, found, ih, same]

end Frame

namespace Scope

variable {scope changed : Scope} {name : String} {value : Value}

theorem binds_cons (frame : Frame) (outer : Scope) (name : String) :
    binds (frame :: outer) name = (Frame.binds frame name || binds outer name) := by
  rw [binds, List.any_cons, ← binds]

/-- A name has a value just when some frame binds it. -/
theorem isSome_get? (scope : Scope) (name : String) :
    (get? scope name).isSome = binds scope name := by
  induction scope with
  | nil => rfl
  | cons frame outer ih => rw [get?, Option.isSome_or, ih, binds_cons, Frame.binds]

/-- A name can be assigned just when some frame binds it. -/
theorem isSome_set? (scope : Scope) (name : String) (value : Value) :
    (set? scope name value).isSome = binds scope name := by
  induction scope with
  | nil => rfl
  | cons frame outer ih =>
    rw [set?, binds_cons]
    cases Frame.binds frame name with
    | true => rfl
    | false => simp [ih]

theorem binds_define (scope : Scope) (name other : String) (value : Value) :
    binds (define scope name value) other = (other == name || binds scope other) := by
  cases scope with
  | nil => rw [define, binds_cons, Frame.binds_cons, Bool.or_assoc]; rfl
  | cons frame outer =>
    rw [define, binds_cons, binds_cons, Frame.binds_put, Bool.or_assoc]

theorem get?_define (scope : Scope) (name other : String) (value : Value) :
    get? (define scope name value) other =
      if other = name then some value else get? scope other := by
  cases scope with
  | nil =>
    have empty : Frame.get? [] other = none := rfl
    by_cases same : other = name <;> simp [define, get?, Frame.get?_cons, empty, same]
  | cons frame outer =>
    rw [define, get?, Frame.get?_put]
    by_cases same : other = name <;> simp [same, get?]

theorem get?_set? (found : set? scope name value = some changed) (other : String) :
    get? changed other = if other = name then some value else get? scope other := by
  induction scope generalizing changed with
  | nil => simp [set?] at found
  | cons frame outer ih =>
    rw [set?] at found
    split at found
    · obtain ⟨⟩ := found
      rw [get?, Frame.get?_put]
      by_cases same : other = name <;> simp [same, get?]
    · next absent =>
      obtain ⟨rest, later, rfl⟩ := Option.map_eq_some_iff.mp found
      rw [get?, get?, ih later]
      by_cases same : other = name
      · -- The frame does not bind the name, so that the search goes on to where it was changed.
        subst same
        have none : Frame.get? frame other = none := by simpa [Frame.binds] using absent
        simp [none]
      · simp [same]

/-- Whether the frame at a depth binds a name. -/
def bindsAt (scope : Scope) (depth : Nat) (name : String) : Bool :=
  scope[depth]?.any (Frame.binds · name)

theorem bindsAt_of_binds (absent : binds scope name = false) (depth : Nat) :
    bindsAt scope depth name = false := by
  rw [bindsAt, Option.any_eq_false]
  intro frame found
  simpa using List.any_eq_false.mp absent frame (List.mem_of_getElem? found)

theorem bindsAt_define_zero (scope : Scope) (name other : String) (value : Value) :
    bindsAt (define scope name value) 0 other = (other == name || bindsAt scope 0 other) := by
  cases scope with
  | nil => exact Frame.binds_cons _ _ _
  | cons frame outer => exact Frame.binds_put _ _ _ _

theorem bindsAt_define_succ (scope : Scope) (depth : Nat) (name : String) (value : Value) :
    bindsAt (define scope name value) (depth + 1) = bindsAt scope (depth + 1) := by
  cases scope <;> rfl

/-- The frames bind after an assignment the names that they did before. -/
theorem map_binds_set? (found : set? scope name value = some changed) :
    changed.map Frame.binds = scope.map Frame.binds := by
  induction scope generalizing changed with
  | nil => simp [set?] at found
  | cons frame outer ih =>
    rw [set?] at found
    split at found
    · next bound =>
      obtain ⟨⟩ := found
      have same : Frame.binds (Frame.put frame name value) = Frame.binds frame := by
        funext other
        rw [Frame.binds_put]
        by_cases other = name <;> simp_all
      rw [List.map_cons, List.map_cons, same]
    · obtain ⟨rest, later, rfl⟩ := Option.map_eq_some_iff.mp found
      rw [List.map_cons, List.map_cons, ih later]

theorem binds_set? (found : set? scope name value = some changed) :
    binds changed = binds scope := by
  have same : ∀ scope : Scope, binds scope = fun name => (scope.map Frame.binds).any (· name) := by
    intro scope
    funext name
    rw [List.any_map]
    rfl
  rw [same changed, map_binds_set? found, ← same scope]

theorem bindsAt_set? (found : set? scope name value = some changed) :
    bindsAt changed = bindsAt scope := by
  have same : ∀ scope : Scope,
      bindsAt scope = fun depth name => (scope.map Frame.binds)[depth]?.any (· name) := by
    intro scope
    funext depth name
    rw [List.getElem?_map, Option.any_map]
    rfl
  rw [same changed, map_binds_set? found, ← same scope]

/-- One scope is another with a value written to a name of the frame at a depth, and nothing else
    changed. Only a definition in a scope without frames adds a frame. -/
structure Writes (scope : Scope) (depth : Nat) (name : String) (value : Value) (changed : Scope) :
    Prop where
  length : changed.length = max scope.length (depth + 1)
  frame : ∀ other, Frame.get? (changed.getD depth []) other =
    if other = name then some value else Frame.get? (scope.getD depth []) other
  others : ∀ d, d ≠ depth → changed[d]? = scope[d]?

theorem writes_cons (frame : Frame) (outer : Scope) (name : String) (value : Value) :
    Writes (frame :: outer) 0 name value (Frame.put frame name value :: outer) where
  length := by simp
  frame other := Frame.get?_put frame name other value
  others d other := by
    obtain ⟨d, rfl⟩ := Nat.exists_eq_succ_of_ne_zero other
    rfl

theorem define_writes (scope : Scope) (name : String) (value : Value) :
    Writes scope 0 name value (define scope name value) := by
  cases scope with
  | nil =>
    refine ⟨rfl, fun other => Frame.get?_put [] name other value, fun d other => ?_⟩
    obtain ⟨d, rfl⟩ := Nat.exists_eq_succ_of_ne_zero other
    rfl
  | cons frame outer => exact writes_cons frame outer name value

theorem Writes.outward {depth : Nat} (writes : Writes scope depth name value changed)
    (frame : Frame) : Writes (frame :: scope) (depth + 1) name value (frame :: changed) where
  length := by
    rw [List.length_cons, List.length_cons, writes.length]
    omega
  frame := writes.frame
  others d other := by
    cases d with
    | zero => rfl
    | succ d => exact writes.others d fun same => other (by rw [same])

theorem bindsAt_eq_getD (scope : Scope) (depth : Nat) (name : String) :
    bindsAt scope depth name = Frame.binds (scope.getD depth []) name := by
  rw [bindsAt, List.getD_eq_getElem?_getD]
  cases scope[depth]? <;> rfl

/-- A write adds its name to its frame and no name to another. -/
theorem Writes.bindsAt {depth : Nat} (writes : Writes scope depth name value changed) (d : Nat)
    (other : String) :
    Scope.bindsAt changed d other = true ↔
      Scope.bindsAt scope d other = true ∨ d = depth ∧ other = name := by
  by_cases here : d = depth
  · subst here
    rw [bindsAt_eq_getD, bindsAt_eq_getD, Frame.binds, Frame.binds, writes.frame]
    by_cases same : other = name <;> simp [same]
  · simp [Scope.bindsAt, writes.others d here, here]

theorem bindsAt_tail (scope : Scope) (depth : Nat) :
    Scope.bindsAt scope.tail depth = Scope.bindsAt scope (depth + 1) := by
  funext name
  rw [bindsAt, bindsAt, List.getElem?_tail]

/-- The frame at a depth is the nearest one that binds a name. -/
structure Nearest (scope : Scope) (name : String) (depth : Nat) : Prop where
  binds : bindsAt scope depth name = true
  nearer : ∀ d < depth, bindsAt scope d name = false

theorem set?_writes (found : set? scope name value = some changed) :
    ∃ depth, Nearest scope name depth ∧ Writes scope depth name value changed := by
  induction scope generalizing changed with
  | nil => simp [set?] at found
  | cons frame outer ih =>
    rw [set?] at found
    split at found
    · next bound =>
      obtain ⟨⟩ := found
      exact ⟨0, ⟨bound, fun d less => by omega⟩, writes_cons frame outer name value⟩
    · next absent =>
      obtain ⟨rest, later, rfl⟩ := Option.map_eq_some_iff.mp found
      obtain ⟨depth, nearest, writes⟩ := ih later
      refine ⟨depth + 1, ⟨nearest.binds, fun d less => ?_⟩, writes.outward frame⟩
      cases d with
      | zero => simpa [bindsAt] using absent
      | succ d => exact nearest.nearer d (by omega)

end Scope

end BraceScript
