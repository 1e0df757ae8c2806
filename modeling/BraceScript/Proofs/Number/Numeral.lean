import BraceScript.Number.Reader
import BraceScript.Proofs.Scanner.Lexeme

/-!
# Numerals are numbers

The text of every number token is a numeral that the reader of numbers accepts: it has no blanks
around it, no underscores and no sign, and it ends after its digits, so that the exponent is zero.
-/

namespace BraceScript.Number

open Lexical

/-- The characters that numerals are made of, those of signs and exponents included. -/
def numeralCharacters : List Char := '.' :: 'e' :: '+' :: '-' :: "0123456789".toList

theorem digit_mem_numeralCharacters {c : Char} (digit : c.isDigit = true) :
    c ∈ numeralCharacters :=
  List.mem_append_right ['.', 'e', '+', '-'] (digit_mem digit)

theorem numeral_mem {cs : List Char} (numeral : Numeral cs) : ∀ c ∈ cs, c ∈ numeralCharacters := by
  cases numeral with
  | whole digits => exact fun c member => digit_mem_numeralCharacters (digits.2 c member)
  | fraction digits more =>
    intro c member
    rcases List.mem_append.mp member with front | back
    · exact digit_mem_numeralCharacters (digits.2 c front)
    rcases List.mem_cons.mp back with rfl | after
    · exact List.mem_cons_self
    · exact digit_mem_numeralCharacters (more.2 c after)

theorem dropSeparators_eq {cs : List Char} {afterDigit : Bool} (none : '_' ∉ cs) :
    dropSeparators afterDigit cs = some cs := by
  induction cs generalizing afterDigit with
  | nil => rfl
  | cons c cs ih =>
    rw [List.mem_cons, not_or] at none
    rw [dropSeparators, ih none.2]
    · rfl
    · rintro rfl
      exact none.1 rfl

theorem dropWhile_eq_self {p : Char → Bool} {cs : List Char} (none : ∀ c ∈ cs, p c = false) :
    cs.dropWhile p = cs := by
  cases cs with
  | nil => rfl
  | cons c cs => simp [none c (by simp)]

theorem map_asciiDigit {cs : List Char} (all : ∀ c ∈ cs, c ∈ numeralCharacters) :
    cs.map asciiDigit = cs := by
  have same : (numeralCharacters.all fun c => asciiDigit c = c) = true := by decide
  have fixed : ∀ c ∈ cs, asciiDigit c = id c := fun c member => by
    simpa using List.all_eq_true.mp same c (all c member)
  rw [List.map_congr_left fixed, List.map_id]

theorem takeSign_digit {c : Char} {rest : List Char} (digit : c.isDigit = true) :
    takeSign (c :: rest) = (false, c :: rest) := by
  unfold takeSign
  split
  · next same =>
    obtain ⟨rfl, -⟩ := List.cons.inj same
    contradiction
  · next same =>
    obtain ⟨rfl, -⟩ := List.cons.inj same
    contradiction
  · rfl

/-- Digits at the front of a text are cut off where they end. -/
theorem digits_cut {ds : List Char} (digits : Digits ds) (rest : List Char)
    (stops : ∀ c, rest.head? = some c → c.isDigit = false) :
    (ds ++ rest).takeWhile Char.isDigit = ds ∧ (ds ++ rest).dropWhile Char.isDigit = rest := by
  refine ⟨takeWhile_eq digits.2 stops, ?_⟩
  rw [List.dropWhile_append_of_pos digits.2]
  cases rest with
  | nil => rfl
  | cons c rest => simp [stops c rfl]

theorem decimal?_isSome {cs : List Char} (numeral : Numeral cs) : (decimal? cs).isSome := by
  cases numeral with
  | whole digits =>
    obtain ⟨taken, dropped⟩ := digits_cut digits [] (by simp)
    rw [List.append_nil] at taken dropped
    simp [decimal?, taken, dropped, digits.1, exponent?]
  | @fraction _ fs digits more =>
    obtain ⟨taken, dropped⟩ := digits_cut digits ('.' :: fs) (by simp)
    obtain ⟨moreTaken, moreDropped⟩ := digits_cut more [] (by simp)
    rw [List.append_nil] at moreTaken moreDropped
    simp [decimal?, taken, dropped, moreTaken, moreDropped, digits.1, exponent?]

theorem magnitude?_isSome {cs : List Char} (numeral : Numeral cs) : (magnitude? cs).isSome := by
  simp only [magnitude?]
  split
  · rfl
  split
  · rfl
  · rw [Option.isSome_map]
    exact decimal?_isSome numeral

/-- A text without blanks, underscores and digits of other scripts is read as it stands. -/
theorem read?_plain {text : String} (all : ∀ c ∈ text.toList, c ∈ numeralCharacters) :
    read? text = (magnitude? (takeSign text.toList).2).map (ofWord (takeSign text.toList).1) := by
  have solid : (numeralCharacters.all fun c => !isNumeralBlank c) = true := by decide
  have blankless : ∀ c ∈ text.toList, isNumeralBlank c = false := fun c member => by
    simpa using List.all_eq_true.mp solid c (all c member)
  have front : text.toList.dropWhile isNumeralBlank = text.toList := dropWhile_eq_self blankless
  have back : text.toList.reverse.dropWhile isNumeralBlank = text.toList.reverse :=
    dropWhile_eq_self fun c member => blankless c (List.mem_reverse.mp member)
  have separators : dropSeparators false text.toList = some text.toList :=
    dropSeparators_eq fun member => absurd (all '_' member) (by decide)
  simp only [read?, front, back, List.reverse_reverse, map_asciiDigit all, separators,
    Option.map_eq_bind]
  rfl

/-- Every numeral of the lexical grammar can be read. -/
theorem read?_isSome {text : String} (numeral : Numeral text.toList) : (read? text).isSome := by
  obtain ⟨c, rest, same, digit⟩ := numeral.first
  rw [read?_plain (numeral_mem numeral), same, takeSign_digit digit, Option.isSome_map, ← same]
  exact magnitude?_isSome numeral

end BraceScript.Number
