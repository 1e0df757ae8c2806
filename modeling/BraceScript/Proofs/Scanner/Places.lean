import Mathlib.Data.List.Induction
import BraceScript.Proofs.Scanner.Segments

/-!
# Lines and columns

A place in a text is counted from the characters before it: the line from the line feeds among
them, and the column from those after the last line feed.
-/

namespace BraceScript

namespace Position

theorem after_cons (here : Position) (c : Char) (cs : List Char) :
    here.after (c :: cs) = (here.next c).after cs := rfl

theorem after_line (here : Position) (cs : List Char) :
    (here.after cs).line = here.line + cs.count '\n' := by
  induction cs generalizing here with
  | nil => simp [after]
  | cons c cs ih =>
    rw [after_cons, ih, next]
    by_cases feed : c = '\n'
    · subst feed
      simp only [if_true, List.count_cons_self]
      omega
    · simp only [if_neg feed, List.count_cons_of_ne feed]

/-- The last character of a text decides: a line feed starts a line, and others go on with it. -/
theorem after_column (cs : List Char) :
    (origin.after cs).column = (cs.reverse.takeWhile (· ≠ '\n')).length + 1 := by
  induction cs using List.reverseRecOn with
  | nil => rfl
  | append_singleton cs c ih =>
    rw [Lexical.after_append, after_cons, next]
    by_cases feed : c = '\n'
    · simp [feed, after]
    · simpa [feed, after] using ih

/-- The place that characters of a text lead to from its start. -/
theorem origin_after (cs : List Char) :
    origin.after cs =
      ⟨cs.length, cs.count '\n' + 1, (cs.reverse.takeWhile (· ≠ '\n')).length + 1⟩ := by
  have offset : (origin.after cs).offset = cs.length := by
    rw [Lexical.after_offset]
    exact Int.zero_add _
  have line : (origin.after cs).line = cs.count '\n' + 1 := by
    rw [after_line]
    exact Int.add_comm _ _
  rw [← offset, ← line, ← after_column]

end Position

end BraceScript
