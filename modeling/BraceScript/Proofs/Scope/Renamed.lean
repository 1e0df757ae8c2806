import BraceScript.Proofs.Scope

/-!
# Scopes with a name renamed

A name is renamed in the frames of a scope up to one that binds it. As no frame binds the new name,
and the frame that binds the old one hides the frames outside, the new name is found, defined and
assigned in the renamed scope where the old one is in the scope, and all other names as before.
-/

namespace BraceScript

/-- What a name becomes when `old` is renamed. -/
def renameTo (old new name : String) : String := if name = old then new else name

theorem renameTo_other {old new name : String} (other : name ≠ old) :
    renameTo old new name = name := if_neg other

theorem renameTo_beq {old new name other : String} (fresh : name ≠ new) (fresh' : other ≠ new) :
    (renameTo old new name == renameTo old new other) = (name == other) := by
  unfold renameTo
  by_cases same : name = old <;> by_cases same' : other = old <;> grind

namespace Frame

variable {old new name : String} {frame : Frame}

/-- A frame with a name renamed. -/
def renamed (old new : String) (frame : Frame) : Frame :=
  frame.map fun entry => (renameTo old new entry.1, entry.2)

theorem get?_renamed (absent : binds frame new = false) (fresh : name ≠ new) :
    get? (renamed old new frame) (renameTo old new name) = get? frame name := by
  induction frame with
  | nil => rfl
  | cons entry rest ih =>
    simp only [binds_cons, Bool.or_eq_false_iff, beq_eq_false_iff_ne] at absent
    have later := ih absent.2
    rw [renamed] at later ⊢
    rw [List.map_cons, get?_cons, get?_cons, renameTo_beq fresh (Ne.symm absent.1), later]

theorem binds_renamed (absent : binds frame new = false) (fresh : name ≠ new) :
    binds (renamed old new frame) (renameTo old new name) = binds frame name := by
  rw [binds, get?_renamed absent fresh, binds]

theorem put_renamed (absent : binds frame new = false) (fresh : name ≠ new) (value : Value) :
    put (renamed old new frame) (renameTo old new name) value =
      renamed old new (put frame name value) := by
  induction frame with
  | nil => rfl
  | cons entry rest ih =>
    simp only [binds_cons, Bool.or_eq_false_iff, beq_eq_false_iff_ne] at absent
    have later := ih absent.2
    rw [renamed] at later ⊢
    rw [List.map_cons, put, put, renameTo_beq fresh (Ne.symm absent.1), later]
    cases name == entry.1 <;> rfl

/-- A frame that does not bind a name is not changed by renaming it. -/
theorem renamed_absent (absent : binds frame old = false) : renamed old new frame = frame := by
  induction frame with
  | nil => rfl
  | cons entry rest ih =>
    simp only [binds_cons, Bool.or_eq_false_iff, beq_eq_false_iff_ne] at absent
    have later := ih absent.2
    rw [renamed] at later ⊢
    rw [List.map_cons, later, renameTo_other (Ne.symm absent.1)]

end Frame

namespace Scope

variable {old new name : String} {depth : Nat} {scope : Scope}

/-- A scope with a name renamed in the frames up to a depth. -/
def renamed (old new : String) : Nat → Scope → Scope
  | _, [] => []
  | 0, frame :: outer => Frame.renamed old new frame :: outer
  | depth + 1, frame :: outer => Frame.renamed old new frame :: renamed old new depth outer

/-- The frame at a depth binds the old name, so that it hides the frames outside, and no frame binds
    the new one. -/
structure CanRename (old new : String) (depth : Nat) (scope : Scope) : Prop where
  bound : bindsAt scope depth old = true
  absent : binds scope new = false

namespace CanRename

theorem innermost {frame : Frame} (can : CanRename old new 0 (frame :: scope)) :
    Frame.binds frame old = true ∧ Frame.binds frame new = false := by
  have absent := can.absent
  rw [binds_cons, Bool.or_eq_false_iff] at absent
  exact ⟨can.bound, absent.1⟩

theorem outward {frame : Frame} (can : CanRename old new (depth + 1) (frame :: scope)) :
    Frame.binds frame new = false ∧ CanRename old new depth scope := by
  have absent := can.absent
  rw [binds_cons, Bool.or_eq_false_iff] at absent
  exact ⟨absent.1, can.bound, absent.2⟩

theorem get?_renamed (can : CanRename old new depth scope) (fresh : name ≠ new) :
    get? (renamed old new depth scope) (renameTo old new name) = get? scope name := by
  fun_induction renamed old new depth scope with
  | case1 => cases can.bound
  | case2 frame outer =>
    obtain ⟨bound, absent⟩ := can.innermost
    rw [get?, get?, Frame.get?_renamed absent fresh]
    by_cases same : name = old
    · -- The search ends in this frame, whatever the frames outside bind.
      subst same
      obtain ⟨value, found⟩ := Option.isSome_iff_exists.mp bound
      rw [found, Option.some_or, Option.some_or]
    · rw [renameTo_other same]
  | case3 depth frame outer ih =>
    obtain ⟨absent, inside⟩ := can.outward
    rw [get?, get?, Frame.get?_renamed absent fresh, ih inside]

theorem reach_renamed (can : CanRename old new depth scope) (fresh : name ≠ new) :
    reach (renamed old new depth scope) (renameTo old new name) = reach scope name := by
  fun_induction renamed old new depth scope with
  | case1 => cases can.bound
  | case2 frame outer =>
    obtain ⟨bound, absent⟩ := can.innermost
    rw [reach, reach, Frame.binds_renamed absent fresh]
    by_cases same : name = old
    · subst same
      rw [if_pos bound, if_pos bound]
    · rw [renameTo_other same]
  | case3 depth frame outer ih =>
    obtain ⟨absent, inside⟩ := can.outward
    rw [reach, reach, Frame.binds_renamed absent fresh, ih inside]

theorem set?_renamed (can : CanRename old new depth scope) (fresh : name ≠ new) (value : Value) :
    set? (renamed old new depth scope) (renameTo old new name) value =
      (set? scope name value).map (renamed old new depth) := by
  fun_induction renamed old new depth scope with
  | case1 => cases can.bound
  | case2 frame outer =>
    obtain ⟨bound, absent⟩ := can.innermost
    rw [set?, set?, Frame.binds_renamed absent fresh, Frame.put_renamed absent fresh]
    by_cases same : name = old
    · subst same
      rw [if_pos bound, if_pos bound]
      rfl
    · rw [renameTo_other same]
      split
      · rfl
      · cases set? outer name value <;> rfl
  | case3 depth frame outer ih =>
    obtain ⟨absent, inside⟩ := can.outward
    rw [set?, set?, Frame.binds_renamed absent fresh, Frame.put_renamed absent fresh, ih inside]
    split
    · rfl
    · cases set? outer name value <;> rfl

theorem define_renamed (can : CanRename old new depth scope) (fresh : name ≠ new) (value : Value) :
    define (renamed old new depth scope) (renameTo old new name) value =
      renamed old new depth (define scope name value) := by
  fun_cases renamed old new depth scope with
  | case1 => cases can.bound
  | case2 frame outer =>
    rw [define, Frame.put_renamed can.innermost.2 fresh]
    rfl
  | case3 depth frame outer =>
    rw [define, Frame.put_renamed can.outward.1 fresh]
    rfl

theorem define (can : CanRename old new depth scope) (fresh : name ≠ new) (value : Value) :
    CanRename old new depth (Scope.define scope name value) := by
  refine ⟨?_, ?_⟩
  · cases depth with
    | zero => rw [bindsAt_define_zero, can.bound, Bool.or_true]
    | succ depth => rw [bindsAt_define_succ, can.bound]
  · rw [binds_define, can.absent, Bool.or_false, beq_eq_false_iff_ne]
    exact Ne.symm fresh

theorem set? {changed : Scope} {value : Value} (can : CanRename old new depth scope)
    (found : Scope.set? scope name value = some changed) : CanRename old new depth changed := by
  refine ⟨?_, ?_⟩
  · rw [bindsAt_set? found, can.bound]
  · rw [binds_set? found, can.absent]

theorem opened (can : CanRename old new depth scope) :
    CanRename old new (depth + 1) ([] :: scope) :=
  ⟨can.bound, by rw [binds_cons, can.absent]; rfl⟩

theorem closed (can : CanRename old new (depth + 1) scope) :
    CanRename old new depth scope.tail ∧
      renamed old new depth scope.tail = (renamed old new (depth + 1) scope).tail := by
  cases scope with
  | nil => cases can.bound
  | cons frame outer => exact ⟨can.outward.2, rfl⟩

/-- A name that has no value is not the one that is renamed. -/
theorem unbound (can : CanRename old new depth scope) (absent : get? scope name = none) :
    renameTo old new name = name := by
  apply renameTo_other
  rintro rfl
  have nowhere : binds scope name = false := by rw [← isSome_get?, absent]; rfl
  have bound := can.bound
  rw [bindsAt_of_binds nowhere] at bound
  cases bound

/-- The first declaration of a name in a frame can be that of another name. -/
theorem of_declaration (undeclared : bindsAt scope 0 old = false) (absent : binds scope new = false)
    (differ : old ≠ new) (value : Value) :
    CanRename old new 0 (Scope.define scope old value) ∧
      Scope.define scope new value = renamed old new 0 (Scope.define scope old value) := by
  refine ⟨⟨?_, ?_⟩, ?_⟩
  · rw [bindsAt_define_zero, beq_self_eq_true, Bool.true_or]
  · rw [binds_define, absent, Bool.or_false, beq_eq_false_iff_ne]
    exact Ne.symm differ
  · have target : renameTo old new old = new := if_pos rfl
    cases scope with
    | nil => simp only [Scope.define, renamed, Frame.renamed, List.map_cons, List.map_nil, target]
    | cons frame outer =>
      rw [binds_cons, Bool.or_eq_false_iff] at absent
      have put := @Frame.put_renamed old new old frame absent.1 differ value
      rw [target, Frame.renamed_absent undeclared] at put
      rw [Scope.define, Scope.define, renamed, put]

end CanRename

end Scope

end BraceScript
