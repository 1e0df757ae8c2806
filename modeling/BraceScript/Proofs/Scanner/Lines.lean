import BraceScript.Proofs.Scanner.Places
import BraceScript.Proofs.Scanner.Spaced

/-!
# Texts one below the other

What the scanner makes of two texts with a line feed between them. No item goes on past the line
feed but layout, which has no token, so that the tokens are those of the first text and then those
of the second, moved down.
-/

namespace BraceScript

namespace Position

/-- A place of a text that stands on the lines below another text. -/
def below (above : List Char) (p : Position) : Position :=
  ⟨p.offset + above.length + 1, p.line + above.count '\n' + 1, p.column⟩

theorem below_next (above : List Char) (p : Position) (c : Char) :
    (p.next c).below above = (p.below above).next c := by
  by_cases feed : c = '\n'
  · simp only [next, below, if_pos feed, mk.injEq, and_true]
    omega
  · simp only [next, below, if_neg feed, mk.injEq, and_true]
    omega

theorem below_origin (above : List Char) :
    origin.below above = (origin.after above).next '\n' := by
  rw [origin_after, next, if_pos rfl, below, origin]
  simp only [mk.injEq, and_true]
  omega

/-- Moving goes along with counting if it does for one character. -/
theorem move_after {move : Position → Position}
    (counts : ∀ p c, move (p.next c) = (move p).next c) (p : Position) (cs : List Char) :
    move (p.after cs) = (move p).after cs := by
  induction cs generalizing p with
  | nil => rfl
  | cons c cs ih => rw [after_cons, after_cons, ih, counts]

end Position

/-- A token at another place. -/
def Token.moved (move : Position → Position) (t : Token) : Token := { t with start := move t.start }

namespace Lexical

open Scanner

variable {here : Position} {text rest below : List Char} {kind : Option Kind} {tokens : List Token}

/-- A text has the same items from another place on, if counting goes on there in the same way. -/
theorem Segmented.moved {move : Position → Position}
    (counts : ∀ p c, move (p.next c) = (move p).next c) (segmented : Segmented here text tokens) :
    Segmented (move here) text (tokens.map (.moved move)) := by
  induction segmented with
  | done => exact .done
  | skip item _ ih =>
    rw [Position.move_after counts] at ih
    exact .skip item ih
  | take item _ ih =>
    rw [Position.move_after counts] at ih
    exact .take item ih

/-! ## Layout in front -/

theorem item_blanks {blanks : List Char} (some : blanks ≠ [])
    (blank : ∀ c ∈ blanks, isLayout c = true)
    (solid : ∀ c, rest.head? = .some c → isLayout c = false) : Item blanks rest none := by
  refine .layout some (fun c member => isLayout_iff.mp (blank c member)) fun c first member => ?_
  have clash := solid c first
  rw [isLayout_iff.mpr member] at clash
  contradiction

/-- Layout in front of an item is an item of its own, or is joined with it. -/
theorem Item.indented {blanks : List Char} (some : blanks ≠ [])
    (blank : ∀ c ∈ blanks, isLayout c = true) (item : Item text rest kind) :
    Item blanks (text ++ rest) none ∨ kind = none ∧ Item (blanks ++ text) rest none := by
  cases item with
  | layout _ others stops =>
    have layout : ∀ c ∈ blanks, c ∈ [' ', '\t', '\r', '\n'] := fun c member =>
      isLayout_iff.mp (blank c member)
    exact .inr ⟨rfl, .layout (by simp [some]) (List.forall_mem_append.mpr ⟨layout, others⟩) stops⟩
  | lineComment | blockComment | string =>
    refine .inl (item_blanks some blank ?_)
    rintro _ ⟨⟩
    rfl
  | longest _ _ longest =>
    obtain ⟨c, cs, rfl⟩ := List.exists_cons_of_ne_nil longest.plain.ne_nil
    refine .inl (item_blanks some blank ?_)
    rintro _ ⟨⟩
    exact (not_separator_of_plain longest.plain).1

/-- Layout in front of a text is an item of its own, or a part of the item that the text starts
    with. -/
theorem Segmented.indented {blanks : List Char} (blank : ∀ c ∈ blanks, isLayout c = true)
    (segmented : Segmented (here.after blanks) text tokens) :
    Segmented here (blanks ++ text) tokens := by
  by_cases some : blanks = []
  · subst some
    exact segmented
  cases segmented with
  | done => exact .skip (item_blanks some blank (by simp)) .done
  | skip item more =>
    rcases item.indented some blank with apart | ⟨-, joined⟩
    · exact .skip apart (.skip item more)
    · rw [← List.append_assoc]
      refine .skip joined ?_
      rwa [after_append]
  | take item more =>
    rcases item.indented some blank with apart | ⟨impossible, -⟩
    · exact .skip apart (.take item more)
    · cases impossible

/-! ## A line feed behind -/

/-- What has no line feed in it and stands in front of a text with one stands before the line
    feed. -/
theorem front_of_append {front above : List Char} (solid : '\n' ∉ front)
    (stands : front <+: above ++ '\n' :: below) : front <+: above := by
  by_cases short : front.length ≤ above.length
  · exact List.prefix_of_prefix_length_le stands (List.prefix_append _ _) short
  · have feed : above ++ ['\n'] <+: above ++ '\n' :: below := ⟨below, by simp⟩
    have inside : above ++ ['\n'] <+: front := by
      refine List.prefix_of_prefix_length_le feed stands ?_
      rw [List.length_append, List.length_singleton]
      omega
    exact absurd (inside.subset (by simp)) solid

/-- Items end before a line feed, layout apart. -/
theorem Item.above (item : Item text rest kind) (below : List Char) :
    (kind = none ∧ ∀ c ∈ text, isLayout c = true) ∨ Item text (rest ++ '\n' :: below) kind := by
  cases item with
  | layout _ blank _ => exact .inl ⟨rfl, fun c member => isLayout_iff.mpr (blank c member)⟩
  | lineComment inside stops =>
    refine .inr (.lineComment inside fun c first => ?_)
    cases rest with
    | nil =>
      obtain ⟨⟩ := first
      exact .inl rfl
    | cons d rest => exact stops c first
  | blockComment first => exact .inr (.blockComment first)
  | string valid => exact .inr (.string valid)
  | longest line block longest =>
    right
    refine .longest ?_ ?_ ?_
    · rw [← List.append_assoc]
      exact fun front => line (front_of_append (by decide) front)
    · rw [← List.append_assoc]
      exact fun front => block (front_of_append (by decide) front)
    · refine ⟨longest.plain, List.prefix_append _ _, fun plain front => ?_⟩
      rw [← List.append_assoc] at front
      exact longest.length_le plain (front_of_append (plain.layout_not_mem rfl) front)

/-- The items of a text stay as they are when a line feed and more follow; layout at its end is
    joined with what follows. -/
theorem Segmented.above {others : List Token} (segmented : Segmented here text tokens)
    (more : Segmented (here.after text) ('\n' :: below) others) :
    Segmented here (text ++ '\n' :: below) (tokens.dropLast ++ others) := by
  induction segmented with
  | done => exact more
  | skip item _ ih =>
    rw [after_append] at more
    rw [List.append_assoc]
    rcases item.above below with ⟨-, blank⟩ | item
    · exact (ih more).indented blank
    · exact .skip item (ih more)
  | take item inside ih =>
    rw [after_append] at more
    obtain ⟨front, rfl, -⟩ := inside.tokens
    rw [List.append_assoc, List.dropLast_cons_of_ne_nil (by simp)]
    rcases item.above below with ⟨impossible, -⟩ | item
    · cases impossible
    · exact .take item (ih more)

/-- Two texts with a line feed between them have the tokens of the first and then those of the
    second, which stands below. -/
theorem segmented_lines {above below : List Char} {last : Token} {others : List Token}
    (first : Segmented .origin above (tokens ++ [last])) (second : Segmented .origin below others) :
    Segmented .origin (above ++ '\n' :: below)
      (tokens ++ others.map (.moved (Position.below above))) := by
  have moved := second.moved (Position.below_next above)
  rw [Position.below_origin] at moved
  have feed : Segmented (Position.origin.after above) (['\n'] ++ below)
      (others.map (.moved (Position.below above))) := .indented (by simp [isLayout]) moved
  have joined := first.above feed
  rwa [List.dropLast_concat] at joined

end Lexical

end BraceScript
