import BraceScript.Proofs.Scanner.Places
import BraceScript.Scanner.Call

/-!
# Scanners after any calls

A scanner can be called in any order, also past the end of its text and after calls that failed.
Whatever a call does to a scanner is a row of *moves*: passing characters, marking the current place
and emitting a token. Moves keep the coordinates of a scanner right, in a text that goes on with NUL
characters for ever, and neither go back nor take tokens away, so that the same holds after every
history of calls.

The moves of a scanner that reads its whole text never pass more characters than are left.
-/

namespace BraceScript

open Lexical Outcome

/-! ## Coordinates in a text without an end -/

/-- The first `n` characters of a text, NUL characters past its end. -/
def padded (source : List Char) (n : Nat) : List Char :=
  source.take n ++ List.replicate (n - source.length) '\x00'

/-- A place is counted in a text: its line from the line feeds before its offset, and its column
    from the characters between the last of these, or the start of the text, and its offset. -/
structure Position.CountedIn (source : List Char) (p : Position) : Prop where
  offset : 0 ≤ p.offset
  line : p.line = 1 + (padded source p.offset.toNat).count '\n'
  column : p.column = 1 + ((padded source p.offset.toNat).reverse.takeWhile (· ≠ '\n')).length

theorem length_padded (source : List Char) (n : Nat) : (padded source n).length = n := by
  rw [padded, List.length_append, List.length_take, List.length_replicate]
  omega

/-- Characters of a text one after the other. -/
theorem padded_add (source : List Char) (k n : Nat) :
    padded source (k + n) = padded source k ++ padded (source.drop k) n := by
  by_cases inside : k ≤ source.length
  · have none : k - source.length = 0 := by omega
    have some : k + n - source.length = n - (source.length - k) := by omega
    simp only [padded, List.take_add, List.length_drop, none, some, List.replicate_zero,
      List.append_nil, List.append_assoc]
  · have left : source.drop k = [] := List.drop_eq_nil_of_le (by omega)
    have whole : source.take (k + n) = source.take k := by
      rw [List.take_of_length_le (by omega), List.take_of_length_le (by omega)]
    have more : k + n - source.length = (k - source.length) + n := by omega
    simp [padded, left, whole, more, List.replicate_append_replicate]

theorem Position.countedIn_iff {source : List Char} {p : Position} :
    p.CountedIn source ↔ ∃ n, p = origin.after (padded source n) := by
  constructor
  · intro counted
    refine ⟨p.offset.toNat, ?_⟩
    obtain ⟨offset, line, column⟩ := p
    have known : (offset.toNat : Int) = offset := Int.toNat_of_nonneg counted.offset
    rw [origin_after, length_padded, mk.injEq]
    refine ⟨known.symm, ?_, ?_⟩
    · rw [Int.add_comm]
      exact counted.line
    · rw [Int.add_comm]
      exact counted.column
  · rintro ⟨n, rfl⟩
    rw [origin_after, length_padded]
    exact ⟨Int.natCast_nonneg n, Int.add_comm _ _, Int.add_comm _ _⟩

namespace Scanner

/-! ## Moves -/

/-- What can happen to a scanner, where `allowed` says how many characters may be passed at once. -/
inductive Moves (allowed : Scanner → Nat → Prop) : Scanner → Scanner → Prop
  | none {s : Scanner} : Moves allowed s s
  | pass {s s' : Scanner} (n : Nat) : allowed s n → Moves allowed (s.pass n) s' → Moves allowed s s'
  | mark {s s' : Scanner} : Moves allowed s.marked s' → Moves allowed s s'
  | emit {s s' : Scanner} (kind : Kind) (text : List Char) :
    Moves allowed (s.emitting kind text) s' → Moves allowed s s'

variable {allowed : Scanner → Nat → Prop} {s s' : Scanner}

theorem Moves.trans {mid : Scanner} (first : Moves allowed s mid)
    (second : Moves allowed mid s') : Moves allowed s s' := by
  induction first with
  | none => exact second
  | pass n may _ ih => exact .pass n may (ih second)
  | mark _ ih => exact .mark (ih second)
  | emit kind text _ ih => exact .emit kind text (ih second)

/-- The coordinates of a scanner, of its mark and of its tokens are counted in a text. -/
structure Sound (source : List Char) (s : Scanner) : Prop where
  whole : s.source = source
  rest : s.rest = source.drop s.here.offset.toNat
  here : s.here.CountedIn source
  start : s.start.CountedIn source
  tokens : ∀ t ∈ s.tokens.toList, t.start.CountedIn source

theorem ahead_eq_padded (s : Scanner) (n : Nat) : s.ahead n = padded s.rest n := by
  simp only [ahead, padded, List.length_take]
  congr 2
  omega

theorem sound_ofSource (source : String) : Sound source.toList (ofSource source) := by
  have origin : Position.origin.CountedIn source.toList :=
    Position.countedIn_iff.mpr ⟨0, by simp [padded, Position.after]⟩
  exact ⟨rfl, rfl, origin, origin, by simp [ofSource]⟩

theorem Sound.pass {source : List Char} (sound : Sound source s) (n : Nat) :
    Sound source (s.pass n) := by
  obtain ⟨k, place⟩ := Position.countedIn_iff.mp sound.here
  have offset : s.here.offset.toNat = k := by
    rw [place, Position.origin_after, length_padded, Int.toNat_natCast]
  have left : s.rest = source.drop k := offset ▸ sound.rest
  have moved : (s.pass n).here = Position.origin.after (padded source (k + n)) := by
    show s.here.after (s.ahead n) = _
    rw [ahead_eq_padded, left, padded_add, after_append, place]
  refine ⟨sound.whole, ?_, Position.countedIn_iff.mpr ⟨_, moved⟩, sound.start, sound.tokens⟩
  rw [moved, Position.origin_after, length_padded, Int.toNat_natCast]
  show s.rest.drop n = _
  rw [left, List.drop_drop]

theorem Sound.emitting {source : List Char} (sound : Sound source s) (kind : Kind)
    (text : List Char) : Sound source (s.emitting kind text) := by
  refine ⟨sound.whole, sound.rest, sound.here, sound.start, fun t member => ?_⟩
  have cases : t ∈ s.tokens.toList ∨ t = ⟨kind, String.ofList text, s.start⟩ := by
    simpa [Scanner.emitting] using member
  obtain old | rfl := cases
  · exact sound.tokens t old
  · exact sound.start

/-- Moves keep coordinates right. -/
theorem Moves.sound {source : List Char} (moves : Moves allowed s s') (sound : Sound source s) :
    Sound source s' := by
  induction moves with
  | none => exact sound
  | pass n _ _ ih => exact ih (sound.pass n)
  | mark _ ih => exact ih ⟨sound.whole, sound.rest, sound.here, sound.here, sound.tokens⟩
  | emit kind text _ ih => exact ih (sound.emitting kind text)

theorem pass_offset (s : Scanner) (n : Nat) : (s.pass n).here.offset = s.here.offset + n := by
  show (s.here.after (s.ahead n)).offset = _
  rw [after_offset, ahead_eq_padded, length_padded]

/-- Moves neither take tokens away nor go back. -/
theorem Moves.grows (moves : Moves allowed s s') :
    s.tokens.toList <+: s'.tokens.toList ∧ s.here.offset ≤ s'.here.offset := by
  induction moves with
  | none => exact ⟨List.prefix_refl _, Int.le_refl _⟩
  | @pass s _ n _ _ ih =>
    have further := ih.2
    rw [pass_offset] at further
    exact ⟨ih.1, by omega⟩
  | mark _ ih => exact ih
  | @emit s _ kind text _ ih =>
    have longer : s.tokens.toList <+: (s.emitting kind text).tokens.toList := by
      simp [Scanner.emitting]
    exact ⟨longer.trans ih.1, ih.2⟩

/-- At most the characters that are left may be passed. -/
def Inside (s : Scanner) (n : Nat) : Prop := n ≤ s.rest.length

/-- Moves over characters of the text lead to as many fewer that are left. -/
theorem Moves.inside (moves : Moves Inside s s') :
    s'.here.offset + s'.rest.length = s.here.offset + s.rest.length := by
  induction moves with
  | none => rfl
  | @pass s _ n within _ ih =>
    rw [ih, pass_offset]
    show s.here.offset + n + (s.rest.drop n).length = _
    have within : n ≤ s.rest.length := within
    rw [List.length_drop]
    omega
  | mark _ ih => exact ih
  | emit _ _ _ ih => exact ih

/-! ## Actions -/

end Scanner

/-- The place of a scanning error. -/
def ScanError.place : ScanError → Position
  | unexpectedCharacter _ place => place
  | unterminatedString start => start
  | unterminatedComment start => start

theorem ScanError.notice_place (e : ScanError) : e.notice.place = some (.ofPosition e.place) := by
  cases e <;> rfl

namespace Scanner

variable {allowed : Scanner → Nat → Prop} {s : Scanner} {α β : Type}

/-- What an action does to a scanner is a row of moves, and an error is found where the scanner is
    then, or at its mark. -/
def Plays (allowed : Scanner → Nat → Prop) (act : ScanM α) (s : Scanner) : Prop :=
  match act s with
  | .ok _ s' => Moves allowed s s'
  | .error e s' => Moves allowed s s' ∧ (e.place = s'.here ∨ e.place = s'.start)

namespace Plays

theorem moves {act : ScanM α} {o : Except ScanError α} {s' : Scanner} (plays : Plays allowed act s)
    (ended : act s = ending o s') : Moves allowed s s' := by
  rw [Plays, ended] at plays
  cases o with
  | ok a => exact plays
  | error e => exact plays.1

theorem value (a : α) : Plays allowed (pure a) s := Moves.none

theorem bind {act : ScanM α} {next : α → ScanM β} (first : Plays allowed act s)
    (second : ∀ a s', act s = .ok a s' → Plays allowed (next a) s') :
    Plays allowed (act >>= next) s := by
  unfold Plays at first
  cases outcome : act s with
  | error e s' =>
    rw [outcome] at first
    rw [Plays, bind_error outcome]
    exact first
  | ok a s' =>
    rw [outcome] at first
    have rest := second a s' outcome
    unfold Plays at rest ⊢
    rw [bind_ok outcome]
    revert rest
    cases next a s' with
    | ok b last => exact first.trans
    | error e last => exact fun rest => ⟨first.trans rest.1, rest.2⟩

theorem discard {act : ScanM α} (plays : Plays allowed act s) :
    Plays allowed (Functor.discard act) s := by
  rw [discard_eq_bind]
  exact plays.bind fun _ _ _ => value ()

theorem state {next : Scanner → ScanM α} (rest : Plays allowed (next s) s) :
    Plays allowed (get >>= next) s := by
  rwa [Plays, bind_ok (get_ok s)]

theorem refuse {e : ScanError} (place : e.place = s.here ∨ e.place = s.start) :
    Plays allowed (throw e : ScanM α) s :=
  ⟨.none, place⟩

theorem advance {n : Nat} (may : allowed s n) : Plays allowed (Scanner.advance n) s :=
  Moves.pass n may .none

theorem markStart : Plays allowed Scanner.markStart s := Moves.mark .none

theorem emit (kind : Kind) (text : List Char) : Plays allowed (Scanner.emit kind text) s :=
  Moves.emit kind text .none

end Plays

/-- As many characters as are left may always be passed. -/
def Reading (allowed : Scanner → Nat → Prop) : Prop := ∀ s n, n ≤ s.rest.length → allowed s n

section Actions

variable (reading : Reading allowed)

include reading

theorem skipLayout_plays (s : Scanner) : Plays allowed skipLayout s := by
  have front := List.takeWhile_prefix (l := s.rest) isLayout
  exact .state (.bind (.advance (reading _ _ front.length_le)) fun _ _ _ => .value _)

theorem skipLineComment_plays (s : Scanner) : Plays allowed skipLineComment s := by
  have front := List.takeWhile_prefix (l := s.rest) isCommentPart
  exact .state (.discard (.advance (reading _ _ front.length_le)))

/-- What is not closed is read to the end, and the error is reported at the mark. -/
theorem unterminated_plays {e : ScanError} (place : e.place = s.start) :
    Plays allowed (do discard (advance s.rest.length); throw e : ScanM α) s := by
  refine .bind (.discard (.advance (reading _ _ (Nat.le_refl _)))) fun _ s' passed => ?_
  obtain ⟨_, ⟨⟩⟩ := discard_eq_ok.mp passed
  exact .refuse (.inr place)

/-- Called where no comment starts, perhaps at the end, the first two characters are passed all the
    same. -/
theorem skipBlockComment_plays (opens : allowed s 2) : Plays allowed skipBlockComment s := by
  refine .bind (.discard (.advance opens)) fun _ s _ => .state ?_
  cases found : commentEnd? 0 s.rest with
  | some count =>
    obtain ⟨body, rest, -, whole, rfl⟩ := commentEnd?_eq_some found
    refine .discard (.advance (reading _ _ ?_))
    simp [whole]
  | none => exact unterminated_plays reading rfl

/-- Called where no string starts, perhaps at the end, the first character is passed all the
    same. -/
theorem scanString_plays (opens : allowed s 1) : Plays allowed scanString s := by
  refine .bind (.advance opens) fun _ s _ => .state ?_
  cases found : closingQuote? 0 s.rest with
  | some count =>
    obtain ⟨body, rest, -, whole, rfl⟩ := closingQuote?_eq_some found
    refine .bind (.advance (reading _ _ ?_)) fun _ _ _ => .emit _ _
    simp [whole]
  | none => exact unterminated_plays reading rfl

theorem scanNumber_plays (s : Scanner) : Plays allowed scanNumber s := by
  have front := numeral_prefix s.rest
  exact .state (.bind (.advance (reading _ _ front.length_le)) fun _ _ _ => .emit _ _)

theorem scanWord_plays (s : Scanner) : Plays allowed scanWord s := by
  have front := List.takeWhile_prefix (l := s.rest) isWordPart
  exact .state (.bind (.advance (reading _ _ front.length_le)) fun _ _ _ => .emit _ _)

theorem scanOperator_plays (s : Scanner) : Plays allowed scanOperator s := by
  refine .state ?_
  cases found : operator? s.rest with
  | some entry =>
    have front := (operator?_eq_some found).2
    exact .bind (.advance (reading _ _ front.length_le)) fun _ _ _ => .emit _ _
  | none => exact .refuse (.inl rfl)

/-- Reading an item passes only characters that are left. -/
theorem scanItem_plays (s : Scanner) : Plays allowed scanItem s := by
  refine .bind (skipLayout_plays reading s) fun skipped s _ => ?_
  split
  · exact .value ()
  refine .bind .markStart fun _ s _ => .state ?_
  split
  · exact skipLineComment_plays reading _
  · next front => exact skipBlockComment_plays reading (reading _ _ (by simp [front]))
  · next front => exact scanString_plays reading (reading _ _ (by simp [front]))
  · split
    · exact scanNumber_plays reading _
    · split
      · exact scanWord_plays reading _
      · exact scanOperator_plays reading _
  · exact scanOperator_plays reading _

theorem scanItems_plays (count : Nat) (s : Scanner) : Plays allowed (scanItems count) s := by
  induction count generalizing s with
  | zero => exact .value ()
  | succ count ih =>
    refine .state ?_
    split
    · exact .value ()
    · exact .bind (scanItem_plays reading s) fun _ s' _ => ih s'

theorem finish_plays (s : Scanner) : Plays allowed finish s := by
  refine .state (.bind (scanItems_plays reading _ s) fun _ _ _ => ?_)
  exact .bind .markStart fun _ _ _ => .bind (.emit _ _) fun _ _ _ => .state (.value _)

end Actions

/-! ## Calls -/

/-- Anything may be passed, also past the end. -/
def Anywhere (_ : Scanner) (_ : Nat) : Prop := True

/-- The scanner after calls. -/
def replay (s : Scanner) (calls : List Call) : Scanner := calls.foldl (fun s c => (s.call c).2) s

/-- What a call does: moves, and an error is found where the scanner is then, or at its mark. -/
def Answers (s : Scanner) (outcome : Except CallError Reply × Scanner) : Prop :=
  Moves Anywhere s outcome.2 ∧
    ∀ e, outcome.1 = .error (.scan e) → e.place = outcome.2.here ∨ e.place = outcome.2.start

theorem Plays.reply {act : ScanM α} (plays : Plays Anywhere act s) (wrap : α → Reply) :
    Answers s (Scanner.reply act wrap s) := by
  unfold Plays at plays
  unfold Scanner.reply
  revert plays
  cases act s with
  | ok a s' => exact fun moves => ⟨moves, by simp⟩
  | error e s' => exact fun plays => ⟨plays.1, fun _ same => by cases same; exact plays.2⟩

theorem call_answers (s : Scanner) (c : Call) : Answers s (s.call c) := by
  have reading : Reading Anywhere := fun _ _ _ => trivial
  cases c with
  | peek offset =>
    rw [call]
    split <;> exact ⟨.none, by simp⟩
  | advance count =>
    rw [call]
    split
    · exact ⟨.none, by simp⟩
    · exact Plays.reply (.advance trivial) _
  | skipLayout => exact (skipLayout_plays reading s).reply _
  | scanItem => exact (scanItem_plays reading s).reply _
  | scanString => exact (scanString_plays reading trivial).reply _
  | scanNumber => exact (scanNumber_plays reading s).reply _
  | scanWord => exact (scanWord_plays reading s).reply _
  | scanOperator => exact (scanOperator_plays reading s).reply _
  | skipLineComment => exact (skipLineComment_plays reading s).reply _
  | skipBlockComment => exact (skipBlockComment_plays reading trivial).reply _
  | finish => exact (finish_plays reading s).reply _

/-- A history of calls is a row of moves. -/
theorem replay_moves (s : Scanner) (calls : List Call) : Moves Anywhere s (s.replay calls) := by
  induction calls generalizing s with
  | nil => exact .none
  | cons c calls ih => exact (call_answers s c).1.trans (ih _)

/-- What only passes characters of a text ends within it. -/
theorem Plays.offset_le {source : String} {act : ScanM α} {o : Except ScanError α}
    (plays : Plays Inside act (ofSource source)) (ended : act (ofSource source) = ending o s) :
    s.here.offset ≤ source.length := by
  have kept := (plays.moves ended).inside
  have start : (ofSource source).here.offset + (ofSource source).rest.length = source.length := by
    rw [← String.length_toList]
    exact Int.zero_add _
  omega

end Scanner

open Scanner

/-- After any history of calls the coordinates of a scanner, of its mark, of its tokens and of the
    errors of further calls are counted in its text; tokens are only added, at the end, and the
    scanner does not go back. Reading a whole text from its start never goes past its end, neither
    between the items nor when it is done. -/
theorem coordinates_after_calls (source : String) (calls later : List Call) :
    let s := (ofSource source).replay calls
    s.Sound source.toList ∧
    s.tokens.toList <+: (s.replay later).tokens.toList ∧
    s.here.offset ≤ (s.replay later).here.offset ∧
    (∀ c e, (s.call c).1 = .error (.scan e) →
      ∃ p, e.notice.place = some (.ofPosition p) ∧ p.CountedIn source.toList) ∧
    (∀ count o s', scanItems count (ofSource source) = ending o s' →
      s'.here.offset ≤ source.length) ∧
    ∀ o s', finish (ofSource source) = ending o s' → s'.here.offset ≤ source.length := by
  intro s
  have sound : s.Sound source.toList := (replay_moves _ calls).sound (sound_ofSource source)
  obtain ⟨tokens, offset⟩ := (replay_moves s later).grows
  have reading : Reading Inside := fun _ _ within => within
  refine ⟨sound, tokens, offset, fun c e failed => ⟨e.place, e.notice_place, ?_⟩, ?_, ?_⟩
  · obtain ⟨moves, found⟩ := call_answers s c
    have after := moves.sound sound
    obtain here | start := found e failed
    · exact here ▸ after.here
    · exact start ▸ after.start
  · exact fun count o s' ended => (scanItems_plays reading count _).offset_le ended
  · exact fun o s' ended => (finish_plays reading _).offset_le ended

/-- A string is read where none starts, and an error is found past the end. -/
theorem coordinates_after_calls_past_end :
    let s := (ofSource "x\n\"").replay [.scanString, .advance 2]
    s.tokens = #[⟨.string, "x\n\"", .origin⟩] ∧ s.here = ⟨5, 2, 4⟩ ∧ s.Sound "x\n\"".toList ∧
      (s.call .scanItem).1 = .error (.scan (.unexpectedCharacter '\x00' ⟨5, 2, 4⟩)) ∧
      Position.CountedIn "x\n\"".toList ⟨5, 2, 4⟩ := by
  intro s
  obtain ⟨sound, -, -, located, -⟩ :=
    coordinates_after_calls "x\n\"" [.scanString, .advance 2] []
  have failed : (s.call .scanItem).1 =
      .error (.scan (.unexpectedCharacter '\x00' ⟨5, 2, 4⟩)) := rfl
  obtain ⟨⟨_, _, _⟩, ⟨⟩, counted⟩ := located .scanItem _ failed
  exact ⟨rfl, rfl, sound, failed, counted⟩

end BraceScript
