/-!
# Outcomes of actions

Scanning, parsing and evaluation are actions that change a state and may fail. The lemmas here say
when an action built from smaller ones succeeds: `bind_eq_ok` and its companions take a success
apart, and `bind_ok` and `bind_error` run a sequence whose first action is known. `ending` is for
what holds of success and failure alike.

An action *widens* another when it agrees with it wherever that one does not stop for a given
reason. Sequences keep this relation.
-/

namespace BraceScript.Outcome

variable {ε σ α β : Type}

/-- A sequence succeeds when its first action does and the second one does from there. -/
theorem bind_eq_ok {x : EStateM ε σ α} {f : α → EStateM ε σ β} {s s' : σ} {b : β} :
    (x >>= f) s = .ok b s' ↔ ∃ a mid, x s = .ok a mid ∧ f a mid = .ok b s' := by
  simp only [bind, EStateM.bind]
  cases x s with
  | ok a mid =>
    constructor
    · intro second
      exact ⟨a, mid, rfl, second⟩
    · rintro ⟨_, _, ⟨⟩, second⟩
      exact second
  | error e mid => simp

theorem bind_ok {x : EStateM ε σ α} {f : α → EStateM ε σ β} {s mid : σ} {a : α}
    (first : x s = .ok a mid) : (x >>= f) s = f a mid := by
  simp only [bind, EStateM.bind, first]

theorem bind_error {x : EStateM ε σ α} {f : α → EStateM ε σ β} {s mid : σ} {e : ε}
    (first : x s = .error e mid) : (x >>= f) s = .error e mid := by
  simp only [bind, EStateM.bind, first]

theorem pure_eq_ok {s s' : σ} {a b : α} :
    (pure a : EStateM ε σ α) s = .ok b s' ↔ a = b ∧ s = s' := by
  simp [pure, EStateM.pure]

theorem get_eq_ok {s s' a : σ} : (get : EStateM ε σ σ) s = .ok a s' ↔ s = a ∧ s = s' := by
  change EStateM.Result.ok s s = .ok a s' ↔ _
  simp

theorem get_ok (s : σ) : (get : EStateM ε σ σ) s = .ok s s := rfl

theorem throw_eq_ok {e : ε} {s s' : σ} {a : α} :
    (throw e : EStateM ε σ α) s = .ok a s' ↔ False := by
  change EStateM.Result.error e s = .ok a s' ↔ _
  simp

theorem discard_eq_ok {x : EStateM ε σ α} {s s' : σ} {u : Unit} :
    (discard x) s = .ok u s' ↔ ∃ a, x s = .ok a s' := by
  simp only [discard, Functor.discard, Functor.mapConst, EStateM.map, Function.comp_apply]
  cases x s with
  | ok a mid => simp
  | error e mid => simp

theorem discard_ok {x : EStateM ε σ α} {s mid : σ} {a : α} (done : x s = .ok a mid) :
    (discard x) s = .ok () mid :=
  discard_eq_ok.mpr ⟨a, done⟩

theorem discard_error {x : EStateM ε σ α} {s mid : σ} {e : ε} (failed : x s = .error e mid) :
    (discard x) s = .error e mid := by
  simp [discard, Functor.discard, Functor.mapConst, EStateM.map, failed]

theorem discard_eq_bind (x : EStateM ε σ α) : discard x = x >>= fun _ => pure () := by
  funext s
  cases outcome : x s with
  | ok a mid =>
    rw [discard_ok outcome, bind_ok outcome]
    rfl
  | error e mid => rw [discard_error outcome, bind_error outcome]

/-- The result of an action that ended in a state, with a value or with an error. -/
def ending : Except ε α → σ → EStateM.Result ε σ α
  | .ok a, s => .ok a s
  | .error e, s => .error e s

/-- A sequence ends as its second action does, or with an error of its first. -/
theorem bind_eq_ending {x : EStateM ε σ α} {f : α → EStateM ε σ β} {s s' : σ} {o : Except ε β} :
    (x >>= f) s = ending o s' ↔
      (∃ a mid, x s = .ok a mid ∧ f a mid = ending o s') ∨
      (∃ e, o = .error e ∧ x s = .error e s') := by
  cases first : x s with
  | ok a mid =>
    rw [bind_ok first]
    constructor
    · intro rest
      exact .inl ⟨a, mid, rfl, rest⟩
    · rintro (⟨_, _, ⟨⟩, rest⟩ | ⟨_, _, ⟨⟩⟩)
      exact rest
  | error e mid =>
    rw [bind_error first]
    cases o with
    | ok b => simp [ending]
    | error e' => simp [ending, eq_comm]

/-! ## Widening -/

/-- The second action does what the first does, unless the first stops for a reason, which can tell
    of the state it stops in. -/
def Widens (reason : σ → ε) (narrow wide : EStateM ε σ α) : Prop :=
  ∀ s, wide s = narrow s ∨ ∃ s', narrow s = .error (reason s') s'

namespace Widens

variable {reason : σ → ε}

theorem refl (x : EStateM ε σ α) : Widens reason x x := fun _ => .inl rfl

theorem trans {x y z : EStateM ε σ α} (first : Widens reason x y) (second : Widens reason y z) :
    Widens reason x z := by
  intro s
  rcases first s with same | stopped
  · rw [← same]
    exact second s
  · exact .inr stopped

theorem stop {x : EStateM ε σ α} (stops : ∀ s, x s = .error (reason s) s) (y : EStateM ε σ α) :
    Widens reason x y :=
  fun s => .inr ⟨s, stops s⟩

theorem bind {x y : EStateM ε σ α} {f g : α → EStateM ε σ β} (first : Widens reason x y)
    (second : ∀ a, Widens reason (f a) (g a)) : Widens reason (x >>= f) (y >>= g) := by
  intro s
  rcases first s with same | ⟨s', stopped⟩
  · cases outcome : x s with
    | ok a mid =>
      rw [bind_ok outcome, bind_ok (same.trans outcome)]
      exact second a mid
    | error e mid =>
      rw [bind_error outcome, bind_error (same.trans outcome)]
      exact .inl rfl
  · exact .inr ⟨s', bind_error stopped⟩

theorem discard {x y : EStateM ε σ α} (widens : Widens reason x y) :
    Widens reason (Functor.discard x) (Functor.discard y) := by
  rw [discard_eq_bind, discard_eq_bind]
  exact widens.bind fun _ => refl _

theorem ite {p : Prop} [Decidable p] {x y x' y' : EStateM ε σ α} (yes : Widens reason x x')
    (no : Widens reason y y') : Widens reason (if p then x else y) (if p then x' else y') := by
  split
  · exact yes
  · exact no

end Widens

end BraceScript.Outcome
