import BraceScript.Proofs.Scanner.History
import BraceScript.Proofs.Scanner.Lines

/-!
# Texts that cannot be scanned

At every place of a text an item stands, or the scanner is *stuck* there: at a character that starts
nothing, or at a string or a comment that nothing closes. A text is refused just when its items lead
to such a place, and the error is that of the place.

What a text is cut into does not depend on the lines above it, so that two texts with a line feed
between them are scanned as each of them is by itself, also where the second one is refused.
-/

namespace BraceScript

namespace ScanError

/-- An error at another place. -/
def moved (move : Position → Position) : ScanError → ScanError
  | unexpectedCharacter c place => .unexpectedCharacter c (move place)
  | unterminatedString start => .unterminatedString (move start)
  | unterminatedComment start => .unterminatedComment (move start)

/-- The user is told the same at another place. -/
theorem notice_moved (move : Position → Position) (e : ScanError) :
    (e.moved move).notice = .atPlace e.notice.message (some (move e.place)) := by
  cases e <;> rfl

end ScanError

namespace Lexical

open Outcome Scanner

variable {here : Position} {cs text rest : List Char} {e : ScanError}

/-- No item stands at the front of a text, with the error that is reported there. -/
inductive Stuck (here : Position) : List Char → ScanError → Prop
  | character {c : Char} {cs : List Char} : isLayout c = false → c ≠ '"' →
    (∀ kind text, Plain kind text → ¬ text <+: c :: cs) →
    Stuck here (c :: cs) (.unexpectedCharacter c here)
  | string {cs : List Char} : (∀ body rest, StringBody body → cs ≠ body ++ '"' :: rest) →
    Stuck here ('"' :: cs) (.unterminatedString here)
  | comment {cs : List Char} : ¬ ['*', '/'] <:+: cs →
    Stuck here ('/' :: '*' :: cs) (.unterminatedComment here)

/-- The items of a text lead to a place where the scanner is stuck. -/
inductive Refused : Position → List Char → ScanError → Prop
  | stuck {here : Position} {cs : List Char} {e : ScanError} : Stuck here cs e → Refused here cs e
  | item {here : Position} {text rest : List Char} {kind : Option Kind} {e : ScanError} :
    Item text rest kind → Refused (here.after text) rest e → Refused here (text ++ rest) e

/-! ## An item or none -/

theorem commentEnd?_eq_none {count : Nat} (opened : commentEnd? count cs = none) :
    ¬ ['*', '/'] <:+: cs := by
  fun_induction commentEnd? count cs with
  | case1 => simp
  | case2 => simp at opened
  | case3 count c rest notEnd ih =>
    rw [List.infix_cons_iff, not_or]
    refine ⟨fun front => ?_, ih opened⟩
    obtain ⟨rfl, more, rfl⟩ := List.cons_prefix_cons.mp front
    exact notEnd more rfl rfl

/-- Where a numeral, a word or an operator stands, the longest one does. -/
theorem Plain.exists_longest {kind : Kind} {c : Char} (plain : Plain kind text)
    (front : text <+: c :: cs) : ∃ best bestKind, Longest bestKind best (c :: cs) := by
  rcases plain.of_front front with ⟨digit, -⟩ | ⟨start, -⟩ | ⟨digit, start, operator⟩
  · exact ⟨_, _, longest_number cs digit⟩
  · exact ⟨_, _, longest_word cs start⟩
  · obtain ⟨best, bestKind, found, -⟩ := operator?_longest operator (by simpa using front)
    exact ⟨_, _, longest_operator digit start found⟩

/-- The scanner is stuck where no item stands. -/
theorem exists_stuck (here : Position) (left : cs ≠ [])
    (none : ∀ text rest kind, cs = text ++ rest → ¬ Item text rest kind) :
    ∃ e, Stuck here cs e := by
  obtain ⟨c, cs, rfl⟩ := List.exists_cons_of_ne_nil left
  have solid : isLayout c = false := by
    rw [Bool.eq_false_iff]
    intro layout
    exact none _ _ _ List.takeWhile_append_dropWhile.symm (.of_layout cs layout)
  by_cases quote : c = '"'
  · subst quote
    refine ⟨_, .string fun body rest valid whole => ?_⟩
    exact none _ rest _ (by simp [whole]) (.string valid)
  by_cases line : ['/', '/'] <+: c :: cs
  · obtain ⟨more, whole⟩ := line
    refine absurd (Item.of_lineComment more) (none _ _ _ (whole.symm.trans ?_))
    exact congrArg (['/', '/'] ++ ·) List.takeWhile_append_dropWhile.symm
  by_cases block : ['/', '*'] <+: c :: cs
  · obtain ⟨more, whole⟩ := block
    rw [← whole] at none ⊢
    cases found : commentEnd? 0 more with
    | none => exact ⟨_, .comment (commentEnd?_eq_none found)⟩
    | some count =>
      obtain ⟨body, rest, first, rfl, -⟩ := commentEnd?_eq_some found
      exact absurd (.blockComment first) (none _ rest _ (by simp))
  · refine ⟨_, .character solid quote fun kind text plain front => ?_⟩
    obtain ⟨best, bestKind, longest⟩ := plain.exists_longest front
    obtain ⟨rest, whole⟩ := longest.front
    rw [← whole] at line block longest
    exact none best rest _ whole.symm (.longest line block longest)

/-- A text is cut into items as a whole, or refused. -/
theorem segmented_or_refused (here : Position) (cs : List Char) :
    (∃ tokens, Segmented here cs tokens) ∨ ∃ e, Refused here cs e := by
  induction size : cs.length using Nat.strongRecOn generalizing here cs with
  | ind size ih =>
    by_cases left : cs = []
    · subst left
      exact .inl ⟨_, .done⟩
    by_cases stands : ∃ text rest kind, cs = text ++ rest ∧ Item text rest kind
    · obtain ⟨text, rest, kind, rfl, item⟩ := stands
      have some : 0 < text.length := List.length_pos_iff.mpr item.ne_nil
      rw [List.length_append] at size
      rcases ih rest.length (by omega) (here.after text) rest rfl with ⟨_, more⟩ | ⟨_, more⟩
      · exact .inl ⟨_, .item item more⟩
      · exact .inr ⟨_, .item item more⟩
    · obtain ⟨e, stuck⟩ := exists_stuck here left fun text rest kind whole item =>
        stands ⟨text, rest, kind, whole, item⟩
      exact .inr ⟨e, .stuck stuck⟩

end Lexical

/-! ## What the scanner reports -/

namespace Scanner

open Lexical Outcome

variable {s : Scanner} {e : ScanError}

theorem scanOperator_stuck (none : operator? s.rest = none) :
    scanOperator s = .error (.unexpectedCharacter (s.rest.headD '\x00') s.here) s := by
  unfold scanOperator
  rw [bind_ok (get_ok _)]
  simp only [none]
  rfl

/-- What is not closed is read to its end and reported at the mark. -/
theorem unterminated_run {α : Type} (s : Scanner) (e : ScanError) :
    ∃ s', (do discard (advance s.rest.length); throw e : ScanM α) s = .error e s' := by
  have passed : advance s.rest.length s = .ok s.rest (s.past s.rest []) :=
    advance_run (by simp) rfl
  exact ⟨_, bind_ok (discard_ok passed)⟩

theorem skipBlockComment_stuck {cs : List Char} (front : s.rest = ['/', '*'] ++ cs)
    (opened : ¬ ['*', '/'] <:+: cs) :
    ∃ s', skipBlockComment s = .error (.unterminatedComment s.start) s' := by
  unfold skipBlockComment
  rw [bind_ok (discard_ok (advance_run (n := 2) front rfl)), bind_ok (get_ok _)]
  cases found : commentEnd? 0 cs with
  | none =>
    simp only [past_rest, found]
    exact unterminated_run (s.past ['/', '*'] cs) _
  | some count =>
    obtain ⟨body, rest, -, rfl, -⟩ := commentEnd?_eq_some found
    exact absurd ⟨body, rest, by simp⟩ opened

theorem scanString_stuck {cs : List Char} (front : s.rest = ['"'] ++ cs)
    (opened : ∀ body rest, StringBody body → cs ≠ body ++ '"' :: rest) :
    ∃ s', scanString s = .error (.unterminatedString s.start) s' := by
  unfold scanString
  rw [bind_ok (advance_run (n := 1) front rfl), bind_ok (get_ok _)]
  cases found : closingQuote? 0 cs with
  | none =>
    simp only [past_rest, found]
    exact unterminated_run (s.past ['"'] cs) _
  | some count =>
    obtain ⟨body, rest, valid, whole, -⟩ := closingQuote?_eq_some found
    exact absurd whole (opened body rest valid)

/-- Where the scanner is stuck, it reports the error of the place. -/
theorem scanItem_stuck (stuck : Stuck s.here s.rest e) : ∃ s', scanItem s = .error e s' := by
  generalize whole : s.rest = cs at stuck
  cases stuck with
  | @character c cs solid quote nothing =>
    have mark : ∀ d, ¬ ['/', d] <+: s.rest := by
      intro d front
      have slash : ['/'] <+: s.rest := (List.prefix_append ['/'] [d]).trans front
      exact nothing .slash ['/'] (.operator (by decide)) (whole ▸ slash)
    have digit : c.isDigit = false := by
      rw [Bool.eq_false_iff]
      intro digit
      have longest := longest_number cs digit
      exact nothing _ _ longest.plain longest.front
    have start : isWordStart c = false := by
      rw [Bool.eq_false_iff]
      intro start
      have longest := longest_word cs start
      exact nothing _ _ longest.plain longest.front
    have operator : operator? s.rest = none := by
      rw [Option.eq_none_iff_forall_ne_some]
      rintro ⟨spelling, kind⟩ found
      obtain ⟨member, front⟩ := operator?_eq_some found
      exact nothing kind spelling.toList (.operator (by simpa using member)) (whole ▸ front)
    refine ⟨s.marked, ?_⟩
    rw [scanItem_plain whole solid quote (mark _) (mark _), if_neg (by simp [digit]),
      if_neg (by simp [start]), scanOperator_stuck (s := s.marked) operator]
    simp [marked, whole]
  | string opened =>
    have run : scanItem s = scanString s.marked := by
      rw [scanItem_inside (by simp [whole]; decide), whole]
      rfl
    rw [run]
    exact scanString_stuck (s := s.marked) whole opened
  | comment opened =>
    have run : scanItem s = skipBlockComment s.marked := by
      rw [scanItem_inside (by simp [whole]; decide), whole]
      rfl
    rw [run]
    exact skipBlockComment_stuck (s := s.marked) whole opened

/-- Reading a text that is refused fails with its error. -/
theorem scanItems_refused {here : Position} {cs : List Char} (refused : Refused here cs e) :
    ∀ (s : Scanner) (count : Nat), s.here = here → s.rest = cs → cs.length ≤ count →
      ∃ s', scanItems count s = .error e s' := by
  induction refused with
  | @stuck here cs e stuck =>
    rintro s count rfl rfl enough
    have left : s.rest ≠ [] := by
      intro done
      rw [done] at stuck
      cases stuck
    have some : 0 < s.rest.length := List.length_pos_iff.mpr left
    obtain ⟨count, rfl⟩ : ∃ fewer, count = fewer + 1 := ⟨count - 1, by omega⟩
    obtain ⟨s', failed⟩ := scanItem_stuck stuck
    exact ⟨s', by rw [scanItems_step left, bind_error failed]⟩
  | @item here text rest kind e item _ ih =>
    rintro s count rfl cut enough
    obtain ⟨mid, first, took⟩ := scanItem_takes item cut
    have some : 0 < text.length := List.length_pos_iff.mpr item.ne_nil
    rw [List.length_append] at enough
    obtain ⟨count, rfl⟩ : ∃ fewer, count = fewer + 1 := ⟨count - 1, by omega⟩
    have left : s.rest ≠ [] := by
      rw [cut]
      exact List.append_ne_nil_of_left_ne_nil item.ne_nil rest
    have same : mid.rest = rest := List.append_cancel_left (took.rest.symm.trans cut)
    obtain ⟨s', failed⟩ := ih mid count took.here same (by omega)
    exact ⟨s', by rw [scanItems_step left, bind_ok first, failed]⟩

end Scanner

open Lexical

/-- A text has no tokens just when it is refused, and the error is that of the place where no item
    stands. -/
theorem scan_eq_error_iff {source : String} {e : ScanError} :
    scan source = .error e ↔ Refused .origin source.toList e := by
  have fails : ∀ {e}, Refused .origin source.toList e → scan source = .error e := by
    intro e refused
    obtain ⟨s', failed⟩ := Scanner.scanItems_refused refused (.ofSource source) _ rfl rfl
      (Nat.le_refl _)
    have finished : Scanner.finish (.ofSource source) = .error e s' := by
      unfold Scanner.finish
      rw [Outcome.bind_ok (Outcome.get_ok _)]
      exact Outcome.bind_error failed
    rw [scan, finished]
  refine ⟨fun failed => ?_, fails⟩
  rcases segmented_or_refused .origin source.toList with ⟨tokens, segmented⟩ | ⟨e', refused⟩
  · rw [scan_eq_ok_iff.mpr segmented] at failed
    cases failed
  · rw [fails refused] at failed
    obtain ⟨⟩ := failed
    exact refused

/-! ## Lines above -/

namespace Lexical

open Scanner

variable {here : Position} {text below : List Char} {e : ScanError}

theorem Stuck.moved {move : Position → Position} (stuck : Stuck here text e) :
    Stuck (move here) text (e.moved move) := by
  cases stuck with
  | character solid quote nothing => exact .character solid quote nothing
  | string opened => exact .string opened
  | comment opened => exact .comment opened

theorem Stuck.solid (stuck : Stuck here text e) :
    ∀ c, text.head? = some c → isLayout c = false := by
  cases stuck with
  | character solid _ _ =>
    rintro _ ⟨⟩
    exact solid
  | string | comment =>
    rintro _ ⟨⟩
    rfl

/-- A text is refused at the same character from another place on, if counting goes on there in the
    same way. -/
theorem Refused.moved {move : Position → Position}
    (counts : ∀ p c, move (p.next c) = (move p).next c) (refused : Refused here text e) :
    Refused (move here) text (e.moved move) := by
  induction refused with
  | stuck stuck => exact .stuck stuck.moved
  | item item _ ih =>
    rw [Position.move_after counts] at ih
    exact .item item ih

/-- Layout in front of a text that is refused is an item, or a part of its first item. -/
theorem Refused.indented {blanks : List Char} (blank : ∀ c ∈ blanks, isLayout c = true)
    (refused : Refused (here.after blanks) text e) : Refused here (blanks ++ text) e := by
  by_cases some : blanks = []
  · subst some
    exact refused
  cases refused with
  | stuck stuck => exact .item (item_blanks some blank stuck.solid) (.stuck stuck)
  | item item more =>
    rcases item.indented some blank with apart | ⟨-, joined⟩
    · exact .item apart (.item item more)
    · rw [← List.append_assoc]
      refine .item joined ?_
      rwa [after_append]

/-- Below a text that is cut into items, a text is refused as it is by itself. -/
theorem Segmented.above_refused {tokens : List Token} (segmented : Segmented here text tokens)
    (more : Refused (here.after text) ('\n' :: below) e) :
    Refused here (text ++ '\n' :: below) e := by
  induction segmented with
  | done => exact more
  | skip item _ ih =>
    rw [after_append] at more
    rw [List.append_assoc]
    rcases item.above below with ⟨-, blank⟩ | item
    · exact (ih more).indented blank
    · exact .item item (ih more)
  | take item _ ih =>
    rw [after_append] at more
    rw [List.append_assoc]
    rcases item.above below with ⟨impossible, -⟩ | item
    · cases impossible
    · exact .item item (ih more)

end Lexical

/-- Where the first of two texts with a line feed between them has tokens, the whole is scanned as
    each of them is by itself: it has the tokens of the first without its end and then those of the
    second, moved below the first, or it is refused for the reason for which the second is, at the
    place of it that is below the first. -/
theorem scan_below {above : String} {tokens : List Token} (scanned : scan above = .ok tokens)
    (below : String) :
    (∃ front last, tokens = front ++ [last] ∧ last.kind = .endOfInput ∧
      ∀ others, scan below = .ok others → scan (above ++ "\n" ++ below) =
        .ok (front ++ others.map (.moved (Position.below above.toList)))) ∧
    ∀ e, scan below = .error e → ∃ e', scan (above ++ "\n" ++ below) = .error e' ∧
      e' = e.moved (Position.below above.toList) ∧
      e'.notice = .atPlace e.notice.message (some (Position.below above.toList e.place)) := by
  have first := scan_eq_ok_iff.mp scanned
  have whole : (above ++ "\n" ++ below).toList = above.toList ++ '\n' :: below.toList := by simp
  constructor
  · obtain ⟨front, rfl, -⟩ := first.tokens
    refine ⟨front, _, rfl, rfl, fun others found => ?_⟩
    rw [scan_eq_ok_iff, whole]
    exact segmented_lines first (scan_eq_ok_iff.mp found)
  · intro e failed
    refine ⟨_, ?_, rfl, e.notice_moved _⟩
    have moved := (scan_eq_error_iff.mp failed).moved (Position.below_next above.toList)
    rw [Position.below_origin] at moved
    rw [scan_eq_error_iff, whole]
    have blank : ∀ c ∈ ['\n'], Scanner.isLayout c = true := by simp [Scanner.isLayout]
    exact first.above_refused (.indented blank moved)

/-- Two marks on two lines are not one operator, and a string that is not closed is reported at its
    quote on the second line. -/
theorem scan_below_marks :
    let above := "a ="
    let tokens : List Token :=
      [⟨.identifier, "a", ⟨0, 1, 1⟩⟩, ⟨.assign, "=", ⟨2, 1, 3⟩⟩, ⟨.endOfInput, "", ⟨3, 1, 4⟩⟩]
    scan above = .ok tokens ∧
    scan "= 1" = .ok [⟨.assign, "=", ⟨0, 1, 1⟩⟩, ⟨.number, "1", ⟨2, 1, 3⟩⟩,
      ⟨.endOfInput, "", ⟨3, 1, 4⟩⟩] ∧
    scan (above ++ "\n" ++ "= 1") = .ok [⟨.identifier, "a", ⟨0, 1, 1⟩⟩, ⟨.assign, "=", ⟨2, 1, 3⟩⟩,
      ⟨.assign, "=", ⟨4, 2, 1⟩⟩, ⟨.number, "1", ⟨6, 2, 3⟩⟩, ⟨.endOfInput, "", ⟨7, 2, 4⟩⟩] ∧
    scan " \"b" = .error (.unterminatedString ⟨1, 1, 2⟩) ∧
    scan (above ++ "\n" ++ " \"b") = .error (.unterminatedString ⟨5, 2, 2⟩) := by
  intro above tokens
  have scanned : scan above = .ok tokens := by decide +kernel
  have second : scan "= 1" = .ok [⟨.assign, "=", ⟨0, 1, 1⟩⟩, ⟨.number, "1", ⟨2, 1, 3⟩⟩,
      ⟨.endOfInput, "", ⟨3, 1, 4⟩⟩] := by
    decide +kernel
  have opened : scan " \"b" = .error (.unterminatedString ⟨1, 1, 2⟩) := by decide +kernel
  obtain ⟨⟨front, last, split, -, joined⟩, -⟩ := scan_below scanned "= 1"
  obtain ⟨-, refused⟩ := scan_below scanned " \"b"
  obtain rfl : front = tokens.dropLast := by rw [split, List.dropLast_concat]
  obtain ⟨_, failed, rfl, -⟩ := refused _ opened
  refine ⟨scanned, second, (joined _ second).trans ?_, opened, failed.trans ?_⟩
  · decide +kernel
  · decide +kernel

end BraceScript
