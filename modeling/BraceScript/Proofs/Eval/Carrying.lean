import BraceScript.Proofs.Eval.Coupling
import BraceScript.Proofs.Scope

/-!
# Runs whose states are carried over

The simplest couplings relate a state to one other state: its scope is carried over by a map, and
values have been printed and polls been made before it. A run and the run of the changed program
from the state carried over then end alike, if the map agrees with what actions do to scopes.
-/

namespace BraceScript.Eval

/-- A map of scopes at each depth that goes together with a change of leaves. -/
structure Carrying (settings : Settings) where
  change : LeafChange
  fits : Leaf → Prop
  allowed : Nat → Leaf → Prop
  /-- The scopes that are carried over. -/
  suits : Nat → Scope → Prop
  carry : Nat → Scope → Scope
  /-- The values printed before. -/
  printed : Array Value
  /-- The polls made before. -/
  polls : Nat
  uncancelled : polls = 0 ∨ settings.cancelAfter = none
  get?_carry : ∀ {depth scope l}, suits depth scope → fits l → l.kind = .token .identifier →
    Scope.get? (carry depth scope) (change.apply l).text = Scope.get? scope l.text
  reach_carry : ∀ {depth scope l}, suits depth scope → fits l → l.kind = .token .identifier →
    Scope.reach (carry depth scope) (change.apply l).text = Scope.reach scope l.text
  unbound : ∀ {depth scope l}, suits depth scope → l.kind = .token .identifier →
    Scope.get? scope l.text = none → (change.apply l).text = l.text
  suits_define : ∀ {depth scope l} value, suits depth scope → fits l → allowed depth l →
    l.kind = .token .identifier → suits depth (Scope.define scope l.text value)
  define_carry : ∀ {depth scope l} value, suits depth scope → fits l → allowed depth l →
    l.kind = .token .identifier →
    Scope.define (carry depth scope) (change.apply l).text value =
      carry depth (Scope.define scope l.text value)
  suits_set? : ∀ {depth scope name value changed}, suits depth scope →
    Scope.set? scope name value = some changed → suits depth changed
  set?_carry : ∀ {depth scope l} value, suits depth scope → fits l → l.kind = .token .identifier →
    Scope.set? (carry depth scope) (change.apply l).text value =
      (Scope.set? scope l.text value).map (carry depth)
  opens : ∀ {depth scope}, suits depth scope → suits (depth + 1) ([] :: scope) ∧
    carry (depth + 1) ([] :: scope) = [] :: carry depth scope
  closes : ∀ {depth scope}, suits (depth + 1) scope → suits depth scope.tail ∧
    carry depth scope.tail = (carry (depth + 1) scope).tail
  flat : settings.blockScoped = false → ∀ depth,
    suits (depth + 1) = suits depth ∧ carry (depth + 1) = carry depth

namespace Carrying

variable {settings : Settings} (ω : Carrying settings)

/-- The state that a state is carried over to. -/
def carried (depth : Nat) (m : Machine) : Machine :=
  ⟨ω.carry depth m.scope, ω.printed ++ m.output, ω.polls + m.polls⟩

/-- A state and the one it is carried over to. -/
def Agree (depth : Nat) (m m' : Machine) : Prop :=
  ω.suits depth m.scope ∧ m' = ω.carried depth m

/-- Two actions end alike from a state and from the one it is carried over to. -/
def Carries {α : Type} (depth : Nat) (x y : EvalM α) : Prop :=
  Simulates ω.change.move (fun _ => False) (ω.Agree depth) x y

variable {ω} {depth : Nat} {l : Leaf}

theorem isCancelled_carried (m : Machine) :
    isCancelled settings (ω.carried depth m) = isCancelled settings m := by
  rcases ω.uncancelled with none | never
  · simp [isCancelled, carried, none]
  · simp [isCancelled, never]

theorem poll : ω.Carries depth (poll settings) (poll settings) := by
  rintro m _ ⟨suits, rfl⟩
  rw [poll_run, poll_run, isCancelled_carried]
  split
  · exact .halt ⟨suits, rfl⟩
  · exact .value ⟨suits, rfl⟩

theorem record (value : Value) : ω.Carries depth (record value) (record value) := by
  rintro m _ ⟨suits, rfl⟩
  rw [record_run, record_run]
  refine .value ⟨suits, ?_⟩
  simp [carried]

theorem lookup (fit : ω.fits l) (isName : l.kind = .token .identifier) (room : Nat) :
    ω.Carries depth (lookup room l.text) (lookup room (ω.change.apply l).text) := by
  rintro m _ ⟨suits, rfl⟩
  rw [lookup_run, lookup_run]
  simp only [carried, ω.get?_carry suits fit isName, ω.reach_carry suits fit isName]
  split
  · exact .halt ⟨suits, rfl⟩
  · cases found : Scope.get? m.scope l.text with
    | some value => exact .value ⟨suits, rfl⟩
    | none =>
      rw [ω.unbound suits isName found]
      exact .halt ⟨suits, rfl⟩

theorem define (fit : ω.fits l) (allow : ω.allowed depth l) (isName : l.kind = .token .identifier)
    (value : Value) :
    ω.Carries depth (define l.text value) (define (ω.change.apply l).text value) := by
  rintro m _ ⟨suits, rfl⟩
  rw [define_run, define_run]
  refine .value ⟨ω.suits_define value suits fit allow isName, ?_⟩
  simp only [carried, ω.define_carry value suits fit allow isName]

theorem requireBound (fit : ω.fits l) (isName : l.kind = .token .identifier) (room : Nat) :
    ω.Carries depth (requireBound room l.text) (requireBound room (ω.change.apply l).text) := by
  rintro m _ ⟨suits, rfl⟩
  rw [requireBound_run, requireBound_run]
  simp only [carried, ω.reach_carry suits fit isName, ← Scope.isSome_get?,
    ω.get?_carry suits fit isName]
  split
  · exact .halt ⟨suits, rfl⟩
  · cases found : Scope.get? m.scope l.text with
    | some value => exact .value ⟨suits, rfl⟩
    | none =>
      rw [ω.unbound suits isName found]
      exact .halt ⟨suits, rfl⟩

theorem assign (fit : ω.fits l) (isName : l.kind = .token .identifier) (room : Nat)
    (value : Value) :
    ω.Carries depth (assign room l.text value) (assign room (ω.change.apply l).text value) := by
  rintro m _ ⟨suits, rfl⟩
  rw [assign_run, assign_run]
  simp only [carried, ω.reach_carry suits fit isName, ω.set?_carry value suits fit isName]
  split
  · exact .halt ⟨suits, rfl⟩
  · cases found : Scope.set? m.scope l.text value with
    | some changed => exact .value ⟨ω.suits_set? suits found, rfl⟩
    | none =>
      have absent : Scope.get? m.scope l.text = none := by
        rw [← Option.not_isSome_iff_eq_none, Scope.isSome_get?, ← Scope.isSome_set?, found]
        simp
      rw [ω.unbound suits isName absent]
      exact .halt ⟨suits, rfl⟩

theorem inBlock {x y : EvalM Unit} (inside : ω.Carries (depth + 1) x y) :
    ω.Carries depth (inBlock settings x) (inBlock settings y) := by
  cases framed : settings.blockScoped with
  | false =>
    rw [inBlock_flat framed, inBlock_flat framed]
    have same : ω.Agree (depth + 1) = ω.Agree depth := by
      funext m m'
      simp only [Agree, carried, (ω.flat framed depth).1, (ω.flat framed depth).2]
    rwa [Carries, same] at inside
  | true =>
    refine .inBlock framed framed ?_ ?_ inside
    · rintro m _ ⟨suits, rfl⟩
      obtain ⟨open_suits, open_carry⟩ := ω.opens suits
      exact ⟨open_suits, by simp only [carried, open_carry]⟩
    · rintro m _ ⟨suits, rfl⟩
      obtain ⟨close_suits, close_carry⟩ := ω.closes suits
      exact ⟨close_suits, by simp only [carried, close_carry]⟩

variable (ω)

/-- A run and the run of the changed program from the state carried over go side by side. -/
def coupling : Coupling settings settings where
  change := ω.change
  fits := ω.fits
  allowed := ω.allowed
  excused _ := False
  agree := ω.Agree
  recording := rfl
  rounds := rfl
  excused_placed _ _ := id
  poll _ := poll
  record _ := record
  lookup _ _ fit isName := lookup fit isName
  define _ _ fit allow isName := define fit allow isName
  requireBound _ _ fit isName := requireBound fit isName
  assign _ _ fit isName := assign fit isName
  inBlock _ _ _ := inBlock

/-- A run of a program whose leaves are moved, after some values have been printed and some polls
    have been made. -/
def moving (move : Position → Position) (printed : Array Value) (polls : Nat)
    (uncancelled : polls = 0 ∨ settings.cancelAfter = none) : Carrying settings where
  change := .moving move
  fits _ := True
  allowed _ _ := True
  suits _ _ := True
  carry _ scope := scope
  printed := printed
  polls := polls
  uncancelled := uncancelled
  get?_carry _ _ _ := rfl
  reach_carry _ _ _ := rfl
  unbound _ _ _ := rfl
  suits_define _ _ _ _ _ := trivial
  define_carry _ _ _ _ _ := rfl
  suits_set? _ _ := trivial
  set?_carry _ _ _ _ := by simp [LeafChange.moving]
  opens _ := ⟨trivial, rfl⟩
  closes _ := ⟨trivial, rfl⟩
  flat _ _ := ⟨rfl, rfl⟩

end Carrying

end BraceScript.Eval
