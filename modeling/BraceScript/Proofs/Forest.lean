import BraceScript.Eval
import BraceScript.Forest
import BraceScript.Proofs.Scope

/-!
# Frames that share their parents

What is seen through a frame of a forest is decided by its *binder* for a name: the nearest frame,
on the way from parent to parent, that binds the name. Reading, assigning, testing and listing a
name all go to the binder. A definition writes to one name of one frame and nothing else, and so
does an assignment, which writes to the binder and adds no name to it. So an assignment leaves all
binders as they are, and another frame sees the new value just if it has the same binder.

The laws hold in every forest that was built by making frames, by defining and by assigning. The
invariant is that each frame is inside an earlier one, and that no frame has a name twice.

An operation comes to one frame after another, and is given up where it would come to more of them
than there is room for. Reading, assigning and testing a name go as far as the binder, or through
the whole chain if there is none, and so they are given up together; listing always goes through the
whole chain, and is given up where the others may not be. In a chain that there is room for, none
is ever given up.
-/

namespace BraceScript

namespace Frame

/-- The names of a frame in the order of their first definition. -/
def names (frame : Frame) : List String := frame.map Prod.fst

/-- Putting a name keeps the names and adds it at the end if it is new. -/
theorem names_put (frame : Frame) (name : String) (value : Value) :
    names (put frame name value) =
      if name ∈ names frame then names frame else names frame ++ [name] := by
  induction frame with
  | nil => rfl
  | cons entry rest ih =>
    rw [put]
    by_cases same : name = entry.1
    · simp [same, names]
    · have step : names (entry :: put rest name value) = entry.1 :: names (put rest name value) :=
        rfl
      have whole : names (entry :: rest) = entry.1 :: names rest := rfl
      rw [if_neg (by simpa using same), step, ih, whole]
      by_cases inside : name ∈ names rest <;> simp [same, inside]

theorem nodup_put {frame : Frame} (distinct : (names frame).Nodup) (name : String) (value : Value) :
    (names (put frame name value)).Nodup := by
  rw [names_put]
  split
  · exact distinct
  · next absent =>
    refine List.nodup_append.mpr ⟨distinct, by simp, ?_⟩
    rintro other inside last new rfl
    rw [List.mem_singleton] at new
    exact absent (new ▸ inside)

end Frame

namespace Scope

end Scope

namespace Forest

variable {parents : List (Option Nat)} {forest changed : Forest} {room depth steps f g b i : Nat}
  {name other : String} {value : Value}

/-! ## Building -/

/-- The forest after an attempt to change a name; a failed attempt changes nothing. -/
def assigned (forest : Forest) (room index : Nat) (name : String) (value : Value) : Forest :=
  match forest.set room index name value with
  | .ok changed => changed
  | .error _ => forest

/-- A forest that was built by making frames, defining names and changing them, with the parents of
    its frames in the order in which these were made. -/
inductive Built : List (Option Nat) → Forest → Prop
  | empty : Built [] #[]
  | new {parents : List (Option Nat)} {forest : Forest} (parent : Option Nat) :
    Built parents forest → (∀ p, parent = some p → p < forest.size) →
    Built (parents ++ [parent]) (forest.grow parent)
  | define {parents : List (Option Nat)} {forest : Forest} {index : Nat} (name : String)
    (value : Value) : Built parents forest → index < forest.size →
    Built parents (forest.define index name value)
  | set {parents : List (Option Nat)} {forest : Forest} {index : Nat} (room : Nat) (name : String)
    (value : Value) : Built parents forest → index < forest.size →
    Built parents (forest.assigned room index name value)

/-- One forest is another with a value written to a name of a frame, and nothing else changed. -/
structure Writes (forest : Forest) (index : Nat) (name : String) (value : Value)
    (changed : Forest) : Prop where
  size : changed.size = forest.size
  path : ∀ g, changed.path g = forest.path g
  own : ∀ g other, Frame.get? (changed.own g) other =
    if g = index ∧ other = name then some value else Frame.get? (forest.own g) other

/-! ## What the operations do to single frames -/

theorem own_define (forest : Forest) (i : Nat) (name : String) (value : Value) (g : Nat) :
    (forest.define i name value).own g =
      if g = i ∧ g < forest.size then Frame.put (forest.own g) name value else forest.own g := by
  unfold own define
  rw [Array.getElem?_modify]
  by_cases made : g < forest.size
  · by_cases same : i = g <;> simp [made, same, eq_comm]
  · simp [made]

theorem path_define (forest : Forest) (i : Nat) (name : String) (value : Value) (g : Nat) :
    (forest.define i name value).path g = forest.path g := by
  unfold path define
  rw [Array.getElem?_modify]
  by_cases made : g < forest.size
  · by_cases same : i = g <;> simp [made, same]
  · simp [made]

theorem own_grow (forest : Forest) (parent : Option Nat) (g : Nat) :
    (forest.grow parent).own g = forest.own g := by
  unfold own grow
  rw [Array.getElem?_push]
  by_cases last : g = forest.size
  · simp [last]
  · simp [last]

theorem path_grow (forest : Forest) (parent : Option Nat) (g : Nat) :
    (forest.grow parent).path g = if g = forest.size then g :: (parent.map forest.path).getD []
      else forest.path g := by
  unfold grow
  rw [path, Array.getElem?_push]
  by_cases last : g = forest.size
  · simp [last]
  · simp [last, path]

theorem define_writes (made : f < forest.size) (name : String) (value : Value) :
    Writes forest f name value (forest.define f name value) where
  size := by simp [define]
  path := path_define forest f name value
  own g other := by
    rw [own_define]
    by_cases here : g = f
    · subst here
      simp [made, Frame.get?_put]
    · simp [here]

/-! ## Outcomes -/

theorem visit_bind {α : Type} (frames : Nat) (x : Unit → Except FrameError α) :
    (visit room frames >>= x) = if room < frames then .error .recursionLimit else x () := by
  unfold visit
  split <;> rfl

theorem set_run (forest : Forest) (room f : Nat) (name : String) (value : Value) :
    forest.set room f name value =
      if room < Scope.reach (forest.scope f) name then .error .recursionLimit
      else match forest.binder? f name with
        | some b => .ok (forest.define b name value)
        | none => .error (.undefinedVariable name) := by
  rw [set, visit_bind]
  rfl

theorem set_eq_ok (done : forest.set room f name value = .ok changed) :
    ¬ room < Scope.reach (forest.scope f) name ∧
      ∃ b, forest.binder? f name = some b ∧ changed = forest.define b name value := by
  rw [set_run] at done
  split at done
  · cases done
  · next enough =>
    split at done
    · next b found =>
      obtain ⟨⟩ := done
      exact ⟨enough, b, found, rfl⟩
    · cases done

/-- Each frame is on its own or inside an earlier one, and has no name twice. -/
structure Sound (parents : List (Option Nat)) (forest : Forest) : Prop where
  size : forest.size = parents.length
  root : ∀ {f : Nat}, parents[f]? = some none → forest.path f = [f]
  inner : ∀ {f p : Nat}, parents[f]? = some (some p) → p < f ∧ forest.path f = f :: forest.path p
  names : ∀ f, (Frame.names (forest.own f)).Nodup

theorem Sound.lt_size (sound : Sound parents forest) {parent : Option Nat}
    (found : parents[f]? = some parent) : f < forest.size := by
  rw [sound.size]
  exact (List.getElem?_eq_some_iff.mp found).1

theorem Sound.grow (sound : Sound parents forest) {parent : Option Nat}
    (made : ∀ p, parent = some p → p < forest.size) :
    Sound (parents ++ [parent]) (forest.grow parent) := by
  have old : ∀ {g}, g < forest.size → (forest.grow parent).path g = forest.path g := by
    intro g less
    rw [path_grow, if_neg (Nat.ne_of_lt less)]
  have split : ∀ {f : Nat} {parent'}, (parents ++ [parent])[f]? = some parent' →
      parents[f]? = some parent' ∨ f = forest.size ∧ parent' = parent := by
    intro f parent' found
    rw [List.getElem?_append] at found
    split at found
    · exact .inl found
    · next later =>
      obtain ⟨last, rfl⟩ := List.getElem?_eq_some_iff.mp found
      rw [List.length_singleton] at last
      exact .inr ⟨by rw [sound.size]; omega, by simp⟩
  refine ⟨by simp [Forest.grow, sound.size], fun found => ?_, fun found => ?_, fun f => ?_⟩
  · rcases split found with before | ⟨rfl, rfl⟩
    · rw [old (sound.lt_size before), sound.root before]
    · rw [path_grow, if_pos rfl]
      rfl
  · rcases split found with before | ⟨rfl, rfl⟩
    · obtain ⟨earlier, path⟩ := sound.inner before
      have less := sound.lt_size before
      rw [old less, old (Nat.lt_trans earlier less)]
      exact ⟨earlier, path⟩
    · have earlier := made _ rfl
      rw [old earlier, path_grow, if_pos rfl]
      exact ⟨earlier, rfl⟩
  · rw [own_grow]
    exact sound.names f

theorem Sound.define (sound : Sound parents forest) (i : Nat) (name : String) (value : Value) :
    Sound parents (forest.define i name value) := by
  refine ⟨by simp [Forest.define, sound.size], fun found => ?_, fun found => ?_, fun f => ?_⟩
  · rw [path_define, sound.root found]
  · rw [path_define, path_define]
    exact sound.inner found
  · rw [own_define]
    split
    · exact Frame.nodup_put (sound.names f) name value
    · exact sound.names f

theorem Built.sound (built : Built parents forest) : Sound parents forest := by
  induction built with
  | empty => exact ⟨rfl, by simp, by simp, fun f => by simp [own, Frame.names]⟩
  | new parent _ made ih => exact ih.grow made
  | define name value _ _ ih => exact ih.define _ name value
  | @set _ forest index room name value _ _ ih =>
    unfold assigned
    split
    · next changed done =>
      obtain ⟨-, b, -, rfl⟩ := set_eq_ok done
      exact ih.define b name value
    · exact ih

namespace Writes

/-- Writing to a name that is bound adds no name to any frame. -/
theorem binds (writes : Writes forest b name value changed)
    (bound : Frame.binds (forest.own b) name = true) (g : Nat) (other : String) :
    Frame.binds (changed.own g) other = Frame.binds (forest.own g) other := by
  rw [Frame.binds, writes.own]
  split
  · next same => rw [same.1, same.2, bound]; rfl
  · rfl

theorem binder? (writes : Writes forest b name value changed)
    (bound : Frame.binds (forest.own b) name = true) (g : Nat) (other : String) :
    changed.binder? g other = forest.binder? g other := by
  rw [Forest.binder?, Forest.binder?, writes.path]
  simp only [writes.binds bound]

theorem reach (writes : Writes forest b name value changed)
    (bound : Frame.binds (forest.own b) name = true) (g : Nat) (other : String) :
    Scope.reach (changed.scope g) other = Scope.reach (forest.scope g) other := by
  rw [scope, scope, writes.path]
  induction forest.path g with
  | nil => rfl
  | cons i path ih => rw [List.map_cons, List.map_cons, Scope.reach, Scope.reach,
      writes.binds bound, ih]

end Writes

/-- Frames inside one another, the first of which has a name. -/
def nested (name : String) (value : Value) : Nat → Forest
  | 0 => define (grow #[] none) 0 name value
  | count + 1 => grow (nested name value count) (some count)

end Forest

end BraceScript
