import BraceScript.Eval

/-!
# What actions of a run ensure

`Ensures inv halts action post` says what an action does from any state with the property `inv`:
however it ends, the state has the property again; if it succeeds, its value has the property
`post`; and if it halts early, it halts in a way that `halts` allows. The lemmas give this for the
actions that all others are made of.

An action whose faults all have places is not changed by giving places to its faults.
-/

/-- A halt is not a fault that has no place yet. -/
def BraceScript.Halt.IsPlaced (reason : Halt) : Prop := ∀ cause, reason ≠ .fault cause none

namespace BraceScript.Eval

/-- An action keeps an invariant, gives values with a property, and halts only in allowed ways. -/
def Ensures {α : Type} (inv : Machine → Prop) (halts : Halt → Prop) (action : EvalM α)
    (post : α → Prop) : Prop :=
  ∀ m, inv m →
    match action m with
    | .ok a m' => post a ∧ inv m'
    | .error halt m' => halts halt ∧ inv m'

theorem inBlock_flat {settings : Settings} {block : EvalM Unit}
    (flat : settings.blockScoped = false) : inBlock settings block = block := by
  unfold inBlock
  exact if_neg (by simp [flat])

theorem inBlock_framed {settings : Settings} {block : EvalM Unit} {m : Machine}
    (framed : settings.blockScoped = true) :
    inBlock settings block m =
      match block { m with scope := [] :: m.scope } with
      | .ok a m => .ok a { m with scope := m.scope.tail }
      | .error halt m => .error halt { m with scope := m.scope.tail } := by
  unfold inBlock
  exact congrFun (if_pos framed) m

namespace Ensures

variable {α β : Type} {inv : Machine → Prop} {halts : Halt → Prop} {action : EvalM α}
  {post : α → Prop}

theorem value {a : α} (holds : post a) : Ensures inv halts (pure a) post :=
  fun _ before => ⟨holds, before⟩

theorem halt {reason : Halt} (allowed : halts reason) : Ensures inv halts (throw reason) post :=
  fun _ before => ⟨allowed, before⟩

theorem bind {next : α → EvalM β} {last : β → Prop} (first : Ensures inv halts action post)
    (second : ∀ a, post a → Ensures inv halts (next a) last) :
    Ensures inv halts (action >>= next) last := by
  intro m before
  have outcome := first m before
  simp only [Bind.bind, EStateM.bind]
  revert outcome
  cases action m with
  | ok a m' => exact fun outcome => second a outcome.1 m' outcome.2
  | error reason m' => exact id

theorem discard (ensures : Ensures inv halts action post) :
    Ensures inv halts (Functor.discard action) fun _ => True := by
  intro m before
  have outcome := ensures m before
  simp only [Functor.discard, Functor.mapConst, EStateM.map, Function.comp_apply]
  revert outcome
  cases action m with
  | ok a m' => exact fun outcome => ⟨trivial, outcome.2⟩
  | error reason m' => exact id

theorem state : Ensures inv halts get inv :=
  fun _ before => ⟨before, before⟩

theorem change {f : Machine → Machine} (keeps : ∀ m, inv m → inv (f m)) :
    Ensures inv halts (modify f) fun _ => True :=
  fun m before => ⟨trivial, keeps m before⟩

theorem put {m : Machine} (holds : inv m) : Ensures inv halts (set m) fun _ => True :=
  fun _ _ => ⟨trivial, holds⟩

theorem fault {cause : Fault} (allowed : halts (.fault cause none)) :
    Ensures inv halts (fail cause) post :=
  halt allowed

theorem enough {units room : Nat} (tooDeep : halts .tooDeep) :
    Ensures inv halts (demand units room) fun _ => True := by
  unfold demand
  split
  · exact halt tooDeep
  · exact value trivial

theorem result {outcome : Except Fault α} (succeeds : ∀ a, outcome = .ok a → post a)
    (fails : ∀ cause, outcome = .error cause → halts (.fault cause none)) :
    Ensures inv halts (lift outcome) post := by
  cases outcome with
  | ok a => exact value (succeeds a rfl)
  | error cause => exact fault (fails cause rfl)

theorem located {place : Node → Option Position} {n : Node}
    (ensures : Ensures inv halts action post)
    (placed : ∀ cause, halts (.fault cause none) → halts (.fault cause (place n))) :
    Ensures inv halts (locating place n action) post := by
  intro m before
  have outcome := ensures m before
  unfold locating
  revert outcome
  cases action m with
  | ok a m' => exact id
  | error reason m' =>
    cases reason with
    | fault cause found =>
      cases found with
      | none => exact fun outcome => ⟨placed cause outcome.1, outcome.2⟩
      | some found => exact id
    | tooDeep => exact id
    | outOfFuel => exact id

theorem framed {settings : Settings} {block : EvalM Unit}
    (ensures : Ensures inv halts block fun _ => True)
    (opens : ∀ m, inv m → inv { m with scope := [] :: m.scope })
    (closes : ∀ m, inv m → inv { m with scope := m.scope.tail }) :
    Ensures inv halts (inBlock settings block) fun _ => True := by
  cases framed : settings.blockScoped with
  | false =>
    rw [inBlock_flat framed]
    exact ensures
  | true =>
    intro m before
    have outcome := ensures _ (opens m before)
    rw [inBlock_framed framed]
    revert outcome
    cases block { m with scope := [] :: m.scope } with
    | ok a m' => exact fun outcome => ⟨trivial, closes m' outcome.2⟩
    | error reason m' => exact fun outcome => ⟨outcome.1, closes m' outcome.2⟩

end Ensures

/-! ## Places of faults -/

variable {α β : Type} {place : Node → Option Position} {n : Node}

/-- All faults of an action have places. -/
def Places (action : EvalM α) : Prop :=
  Ensures (fun _ => True) Halt.IsPlaced action fun _ => True

theorem locating_places {action : EvalM α} (placed : (place n).isSome) :
    Places (locating place n action) := by
  intro m _
  unfold locating
  cases action m with
  | ok v m' => exact ⟨trivial, trivial⟩
  | error reason m' =>
    match reason with
    | .fault cause none =>
      refine ⟨fun other same => ?_, trivial⟩
      obtain ⟨-, here⟩ := Halt.fault.inj same
      rw [here] at placed
      cases placed
    | .fault cause (some place) => exact ⟨fun other => by simp, trivial⟩
    | .tooDeep => exact ⟨fun cause => by simp, trivial⟩
    | .outOfFuel => exact ⟨fun cause => by simp, trivial⟩

/-- There is no fault to give a place in the first of two actions. -/
theorem locating_bind {action : EvalM α} {next : α → EvalM β} (places : Places action) :
    locating place n (action >>= next) = action >>= fun a => locating place n (next a) := by
  funext m
  have outcome := places m trivial
  simp only [locating, Bind.bind, EStateM.bind]
  revert outcome
  cases action m with
  | ok a m' => exact fun _ => rfl
  | error reason m' =>
    intro outcome
    match reason with
    | .fault cause none => exact absurd rfl (outcome.1 cause)
    | .fault cause (some place) => rfl
    | .tooDeep => rfl
    | .outOfFuel => rfl

theorem locating_of_places {action : EvalM α} (places : Places action) :
    locating place n action = action := by
  have rest : ∀ a : α, locating place n (pure a) = pure a := fun _ => rfl
  calc
    locating place n action = locating place n (action >>= pure) := by rw [bind_pure]
    _ = action >>= fun a => locating place n (pure a) := locating_bind places
    _ = action := by rw [funext rest, bind_pure]

end BraceScript.Eval
