import BraceScript.Proofs.Scanner.Segments

/-!
# Lexemes with spaces between them

A lexeme that a space or the end of the text follows is the item at its place: no numeral, word or
operator has a space in it, so that none of them goes on past it, and no comment starts there. Texts
made of lexemes with single spaces between them are thus scanned into these lexemes, one for one and
each at its place. Since all tokens are lexemes, their texts can be joined and scanned again.
-/

namespace BraceScript

/-- The kind and the text of a token, wherever it stands. -/
def Token.lexeme (t : Token) : Kind × String := (t.kind, t.text)

namespace Lexical

open Scanner

/-- No character of a numeral or a word is layout. -/
theorem layout_apart {c : Char} (blank : isLayout c = true) :
    c.isDigit = false ∧ isWordPart c = false ∧ c ≠ '.' := by
  have member := isLayout_iff.mp blank
  simp only [List.mem_cons, List.not_mem_nil, or_false] at member
  rcases member with rfl | rfl | rfl | rfl <;> exact ⟨rfl, rfl, by decide⟩

theorem Digits.layout_not_mem {c : Char} {cs : List Char} (digits : Digits cs)
    (blank : isLayout c = true) : c ∉ cs := by
  intro member
  exact absurd (digits.2 c member) (by simp [layout_apart blank])

/-- Numerals, words and operators have no layout in them. -/
theorem Plain.layout_not_mem {kind : Kind} {c : Char} {text : List Char} (plain : Plain kind text)
    (blank : isLayout c = true) : c ∉ text := by
  have word : Word text → c ∉ text := by
    intro word member
    exact absurd (word.all_parts c member) (by simp [layout_apart blank])
  have operators : ∀ entry ∈ Kind.operators, entry.1.toList.any isLayout = false := by decide
  cases plain with
  | number numeral =>
    cases numeral with
    | whole digits => exact digits.layout_not_mem blank
    | fraction digits more =>
      simp [digits.layout_not_mem blank, more.layout_not_mem blank, layout_apart blank]
  | keyword isWord => exact word isWord
  | identifier isWord => exact word isWord
  | operator found =>
    intro member
    have solid := List.any_eq_false.mp (operators _ found) c (by simpa using member)
    exact solid blank

/-- Nothing follows, or a space. -/
def EndsOrSpace (rest : List Char) : Prop := ∀ c, rest.head? = some c → c = ' '

/-- A numeral, a word or an operator ends where a space follows. -/
theorem Plain.longest {kind : Kind} {text rest : List Char} (plain : Plain kind text)
    (follows : EndsOrSpace rest) : Longest kind text (text ++ rest) where
  plain := plain
  front := List.prefix_append text rest
  length_le {other otherKind} otherPlain front := by
    cases rest with
    | nil => simpa using front.length_le
    | cons c rest =>
      obtain rfl : c = ' ' := follows c rfl
      refine Nat.le_of_not_lt fun longer => otherPlain.layout_not_mem (c := ' ') rfl ?_
      -- A longer one would have the space in it.
      have inside : text ++ [' '] <+: other := by
        have short : text ++ [' '] <+: text ++ ' ' :: rest := ⟨rest, by simp⟩
        refine List.prefix_of_prefix_length_le short front ?_
        rw [List.length_append, List.length_singleton]
        omega
      exact inside.subset (by simp)

/-- No comment starts at a numeral, a word or an operator that a space follows. -/
theorem Plain.not_comment {kind : Kind} {text rest : List Char} {mark : Char}
    (plain : Plain kind text) (follows : EndsOrSpace rest) (solid : mark ≠ ' ') :
    ¬ ['/', mark] <+: text ++ rest := by
  intro front
  obtain ⟨c, cs, rfl⟩ := List.exists_cons_of_ne_nil plain.ne_nil
  obtain ⟨rfl, second⟩ := List.cons_prefix_cons.mp front
  have alone : ∀ entry ∈ Kind.operators, entry.1.toList.head? = some '/' →
      entry.1.toList = ['/'] := by
    decide
  rcases plain.of_front (List.prefix_refl _) with ⟨digit, -⟩ | ⟨start, -⟩ | ⟨-, -, operator⟩
  · exact absurd digit (by decide)
  · exact absurd start (by decide)
  · obtain rfl : cs = [] := by simpa using alone _ operator
    obtain ⟨more, rfl⟩ := second
    exact solid (follows mark rfl)

theorem Lexeme.item {kind : Kind} {text rest : List Char} (lexeme : Lexeme kind text)
    (follows : EndsOrSpace rest) : Item text rest (some kind) := by
  cases lexeme with
  | plain plain =>
    exact .longest (plain.not_comment follows (by decide)) (plain.not_comment follows (by decide))
      (plain.longest follows)
  | string valid => exact .string valid

theorem Lexeme.first {kind : Kind} {text : List Char} (lexeme : Lexeme kind text) :
    ∃ c cs, text = c :: cs ∧ isLayout c = false := by
  cases lexeme with
  | plain plain =>
    obtain ⟨c, cs, rfl⟩ := List.exists_cons_of_ne_nil plain.ne_nil
    exact ⟨c, cs, rfl, (not_separator_of_plain plain).1⟩
  | string => exact ⟨'"', _, rfl, by decide⟩

/-- A space before a lexeme is an item. -/
theorem item_space {kind : Kind} {w : String} (words : List String)
    (lexeme : Lexeme kind w.toList) : Item [' '] (" ".intercalate (w :: words)).toList none := by
  obtain ⟨c, cs, whole, solid⟩ := lexeme.first
  have head : (" ".intercalate (w :: words)).toList.head? = some c := by
    cases words <;> simp [whole]
  refine .layout (by simp) (by simp) fun d same layout => ?_
  rw [head] at same
  obtain ⟨⟩ := same
  rw [isLayout_iff.mpr layout] at solid
  contradiction

/-! ## Reading back -/

/-- Lexemes with single spaces between them. -/
def spaced (lexemes : List (Kind × String)) : String := " ".intercalate (lexemes.map Prod.snd)

/-- Words of which each is a lexeme of some kind. -/
theorem exists_lexemes {words : List String} (valid : ∀ w ∈ words, ∃ kind, Lexeme kind w.toList) :
    ∃ lexemes : List (Kind × String), lexemes.map Prod.snd = words ∧
      ∀ l ∈ lexemes, Lexeme l.1 l.2.toList := by
  induction words with
  | nil => exact ⟨[], rfl, by simp⟩
  | cons w words ih =>
    obtain ⟨⟨kind, lexeme⟩, others⟩ := List.forall_mem_cons.mp valid
    obtain ⟨lexemes, rfl, inside⟩ := ih others
    exact ⟨(kind, w) :: lexemes, rfl, List.forall_mem_cons.mpr ⟨lexeme, inside⟩⟩

/-- The tokens of lexemes with single spaces between them. -/
def spacedTokens (here : Position) : List (Kind × String) → List Token
  | [] => []
  | (kind, text) :: rest =>
    ⟨kind, text, here⟩ :: spacedTokens ((here.after text.toList).after [' ']) rest

/-- Lexemes with single spaces between them are segmented into these lexemes. -/
theorem segmented_spaced {lexemes : List (Kind × String)}
    (valid : ∀ l ∈ lexemes, Lexeme l.1 l.2.toList) (here : Position) :
    Segmented here (spaced lexemes).toList
      (spacedTokens here lexemes ++ [⟨.endOfInput, "", here.after (spaced lexemes).toList⟩]) := by
  induction lexemes generalizing here with
  | nil => exact .done
  | cons l lexemes ih =>
    obtain ⟨lexeme, others⟩ := List.forall_mem_cons.mp valid
    cases lexemes with
    | nil =>
      have item : Item l.2.toList [] (some l.1) := lexeme.item (by simp [EndsOrSpace])
      simpa [spaced, spacedTokens] using Segmented.take item .done
    | cons next lexemes =>
      have follows := ih others ((here.after l.2.toList).after [' '])
      have whole : (spaced (l :: next :: lexemes)).toList =
          l.2.toList ++ ([' '] ++ (spaced (next :: lexemes)).toList) := by
        simp [spaced]
      have space := item_space (lexemes.map Prod.snd) (List.forall_mem_cons.mp others).1
      have item : Item l.2.toList ([' '] ++ (spaced (next :: lexemes)).toList) (some l.1) :=
        lexeme.item (by simp [EndsOrSpace])
      have taken := Segmented.take item (.skip space follows)
      rw [String.ofList_toList, ← whole] at taken
      rw [whole, after_append, after_append, ← whole]
      exact taken

theorem spacedTokens_lexemes (here : Position) (lexemes : List (Kind × String)) :
    (spacedTokens here lexemes).map Token.lexeme = lexemes := by
  induction lexemes generalizing here with
  | nil => rfl
  | cons l lexemes ih => rw [spacedTokens, List.map_cons, ih, Token.lexeme]

theorem spacedTokens_texts (here : Position) (lexemes : List (Kind × String)) :
    (spacedTokens here lexemes).map (·.text) = lexemes.map Prod.snd := by
  calc (spacedTokens here lexemes).map (·.text)
      = ((spacedTokens here lexemes).map Token.lexeme).map Prod.snd := by rw [List.map_map]; rfl
    _ = lexemes.map Prod.snd := by rw [spacedTokens_lexemes]

/-- The length of the texts of some tokens, with a space after each. -/
def spacedLength : List Token → Nat
  | [] => 0
  | t :: ts => t.text.length + 1 + spacedLength ts

/-- A token stands after the texts of those before it, each with its space. -/
theorem spacedTokens_offset {here : Position} {lexemes : List (Kind × String)}
    {before after : List Token} {t : Token}
    (split : spacedTokens here lexemes = before ++ t :: after) :
    t.start.offset = here.offset + spacedLength before := by
  induction lexemes generalizing here before with
  | nil => simp [spacedTokens] at split
  | cons l lexemes ih =>
    rw [spacedTokens] at split
    cases before with
    | nil =>
      obtain ⟨rfl, -⟩ := List.cons.inj split
      exact (Int.add_zero _).symm
    | cons first before =>
      obtain ⟨rfl, rest⟩ := List.cons.inj split
      rw [ih rest, after_offset, after_offset, String.length_toList]
      simp only [spacedLength, List.length_singleton]
      omega

/-- Scanning lexemes with single spaces between them. -/
theorem scan_spaced {lexemes : List (Kind × String)}
    (valid : ∀ l ∈ lexemes, Lexeme l.1 l.2.toList) :
    scan (spaced lexemes) = .ok (spacedTokens .origin lexemes ++
      [⟨.endOfInput, "", Position.origin.after (spaced lexemes).toList⟩]) :=
  scan_eq_ok_iff.mpr (segmented_spaced valid .origin)

/-- Lexemes with single spaces between them are scanned into tokens of just these kinds and texts,
    each at the place that the texts and spaces before it lead to, with the end of the input after
    them. And all the tokens of any text are lexemes, so that their texts with single spaces between
    them are scanned into tokens of the same kinds and texts again. -/
theorem spaced_lexemes_read_back :
    (∀ lexemes : List (Kind × String), (∀ l ∈ lexemes, Lexeme l.1 l.2.toList) →
      ∃ (tokens : List Token) (last : Token), scan (spaced lexemes) = .ok (tokens ++ [last]) ∧
        tokens.map Token.lexeme = lexemes ∧
        (∀ (before : List Token) (t : Token) after, tokens = before ++ t :: after →
          t.start.offset = spacedLength before) ∧
        last.lexeme = (.endOfInput, "") ∧ last.start.offset = (spaced lexemes).length) ∧
    ∀ source tokens, scan source = .ok tokens →
      ∃ front last, tokens = front ++ [last] ∧ last.lexeme = (.endOfInput, "") ∧
        (∀ t ∈ front, Lexeme t.kind t.text.toList) ∧
        ∃ again, scan (spaced (front.map Token.lexeme)) = .ok again ∧
          again.map Token.lexeme = tokens.map Token.lexeme := by
  refine ⟨fun lexemes valid => ?_, fun source tokens scanned => ?_⟩
  · refine ⟨_, _, scan_spaced valid, spacedTokens_lexemes _ _, fun before t after split => ?_, rfl,
      ?_⟩
    · rw [spacedTokens_offset split]
      exact Int.zero_add _
    · rw [after_offset, String.length_toList]
      exact Int.zero_add _
  · obtain ⟨front, rfl, stand⟩ := (scan_eq_ok_iff.mp scanned).tokens
    have valid : ∀ l ∈ front.map Token.lexeme, Lexeme l.1 l.2.toList :=
      List.forall_mem_map.mpr fun t member => (stand t member).1
    refine ⟨front, _, rfl, rfl, fun t member => (stand t member).1, _, scan_spaced valid, ?_⟩
    rw [List.map_append, List.map_append, spacedTokens_lexemes]
    rfl

/-- A string with the mark of a comment in it, the two characters of another mark, and a word that
    starts like a keyword. -/
theorem spaced_lexemes_read_back_marks :
    let lexemes := [(Kind.string, "\"//\""), (.slash, "/"), (.star, "*"), (.identifier, "iffy")]
    (∀ l ∈ lexemes, Lexeme l.1 l.2.toList) ∧
      ∃ tokens last, scan "\"//\" / * iffy" = .ok (tokens ++ [last]) ∧
        tokens.map Token.lexeme = lexemes ∧ last.lexeme = (.endOfInput, "") := by
  intro lexemes
  have string : Lexeme .string "\"//\"".toList :=
    .string (.plain (by decide) (by decide) (.plain (by decide) (by decide) .nil))
  have slash : Lexeme .slash "/".toList := .plain (.operator (by decide))
  have star : Lexeme .star "*".toList := .plain (.operator (by decide))
  have word : Word "iffy".toList := word_of_all rfl rfl
  have name : Lexeme .identifier "iffy".toList := .plain (plain_of_word word)
  have valid : ∀ l ∈ lexemes, Lexeme l.1 l.2.toList := by
    simp only [lexemes, List.forall_mem_cons]
    exact ⟨string, slash, star, name, by simp⟩
  obtain ⟨tokens, last, scanned, same, -, ends, -⟩ := spaced_lexemes_read_back.1 lexemes valid
  exact ⟨valid, tokens, last, scanned, same, ends⟩

end Lexical

end BraceScript
