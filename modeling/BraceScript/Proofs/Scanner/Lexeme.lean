import BraceScript.Scanner

/-!
# The lexical grammar

Which texts are numerals, words, operators, strings and comments, and which of them stands at the
front of a source text. A `Lexeme` is the text of a token of a kind. An `Item` is what the scanner
has to choose at its place: layout and comments first, then strings, and otherwise the longest of
the numerals, words and operators that the text starts with. `Segmented` cuts a whole text into
items and gives the tokens of those that have one, the end of the input after them.

The functions that the scanner measures its items with are shown to find just these texts.
-/

namespace BraceScript.Lexical

/-! ## Classes of texts -/

/-- One digit or more. -/
def Digits (cs : List Char) : Prop := cs ≠ [] ∧ ∀ c ∈ cs, c.isDigit = true

/-- Digits, or digits with a point and more digits. -/
inductive Numeral : List Char → Prop
  | whole {ds : List Char} : Digits ds → Numeral ds
  | fraction {ds fs : List Char} : Digits ds → Digits fs → Numeral (ds ++ '.' :: fs)

/-- A letter or an underscore, and then letters, digits and underscores. -/
inductive Word : List Char → Prop
  | intro {c : Char} {cs : List Char} : Text.isLetter c = true ∨ c = '_' →
    (∀ d ∈ cs, Text.isLetter d = true ∨ d.isDigit = true ∨ d = '_') → Word (c :: cs)

/-- Numerals, words and operators, with the kinds of their tokens. A word is of the kind of a
    keyword just when the whole of it is that keyword. -/
inductive Plain : Kind → List Char → Prop
  | number {cs : List Char} : Numeral cs → Plain .number cs
  | keyword {kind : Kind} {cs : List Char} :
    Word cs → (String.ofList cs, kind) ∈ Kind.keywords → Plain kind cs
  | identifier {cs : List Char} :
    Word cs → (∀ kind, (String.ofList cs, kind) ∉ Kind.keywords) → Plain .identifier cs
  | operator {kind : Kind} {cs : List Char} :
    (String.ofList cs, kind) ∈ Kind.operators → Plain kind cs

/-- The longest numeral, word or operator at the front of a text. -/
structure Longest (kind : Kind) (text cs : List Char) : Prop where
  plain : Plain kind text
  front : text <+: cs
  length_le : ∀ {other otherKind}, Plain otherKind other → other <+: cs →
    other.length ≤ text.length

/-- What stands between the quotes of a string: a backslash takes any character with it, and other
    characters are neither quotes nor backslashes. -/
inductive StringBody : List Char → Prop
  | nil : StringBody []
  | plain {c : Char} {cs : List Char} :
    c ≠ '"' → c ≠ '\\' → StringBody cs → StringBody (c :: cs)
  | escape {c : Char} {cs : List Char} : StringBody cs → StringBody ('\\' :: c :: cs)

/-- The texts of the tokens of a kind. -/
inductive Lexeme : Kind → List Char → Prop
  | plain {kind : Kind} {cs : List Char} : Plain kind cs → Lexeme kind cs
  | string {body : List Char} : StringBody body → Lexeme .string ('"' :: (body ++ ['"']))

/-! ## Items -/

/-- The first of two texts is what the scanner has to choose where both stand one after the other.
    Layout and comments have no kind. -/
inductive Item : List Char → List Char → Option Kind → Prop
  | layout {text rest : List Char} :
    text ≠ [] → (∀ c ∈ text, c ∈ [' ', '\t', '\r', '\n']) →
    (∀ c, rest.head? = some c → c ∉ [' ', '\t', '\r', '\n']) → Item text rest none
  | lineComment {body rest : List Char} :
    (∀ c ∈ body, c ≠ '\n' ∧ c ≠ '\x00') → (∀ c, rest.head? = some c → c = '\n' ∨ c = '\x00') →
    Item ('/' :: '/' :: body) rest none
  | blockComment {body rest : List Char} :
    ¬ ['*', '/'] <:+: body ++ ['*'] → Item ('/' :: '*' :: (body ++ ['*', '/'])) rest none
  | string {body rest : List Char} :
    StringBody body → Item ('"' :: (body ++ ['"'])) rest (some .string)
  | longest {kind : Kind} {text rest : List Char} :
    ¬ ['/', '/'] <+: text ++ rest → ¬ ['/', '*'] <+: text ++ rest →
    Longest kind text (text ++ rest) → Item text rest (some kind)

/-- A comment starts at the front of a text. -/
def StartsComment (cs : List Char) : Prop := ['/', '/'] <+: cs ∨ ['/', '*'] <+: cs

instance (cs : List Char) : Decidable (StartsComment cs) :=
  inferInstanceAs (Decidable (_ ∨ _))

/-- A text, from a place on, cut into items, and the tokens of these items with the end of the
    input after them. -/
inductive Segmented : Position → List Char → List Token → Prop
  | done {here : Position} : Segmented here [] [⟨.endOfInput, "", here⟩]
  | skip {here : Position} {text rest : List Char} {tokens : List Token} :
    Item text rest none → Segmented (here.after text) rest tokens →
    Segmented here (text ++ rest) tokens
  | take {here : Position} {text rest : List Char} {kind : Kind} {tokens : List Token} :
    Item text rest (some kind) → Segmented (here.after text) rest tokens →
    Segmented here (text ++ rest) (⟨kind, String.ofList text, here⟩ :: tokens)

/-- The token of an item that starts at a place, if the item has one. -/
def tokenOf (kind : Option Kind) (text : List Char) (here : Position) : List Token :=
  (kind.map fun kind => ⟨kind, String.ofList text, here⟩).toList

theorem Segmented.item {kind : Option Kind} {text rest : List Char} {here : Position}
    {tokens : List Token} (item : Item text rest kind)
    (more : Segmented (here.after text) rest tokens) :
    Segmented here (text ++ rest) (tokenOf kind text here ++ tokens) := by
  cases kind with
  | none => exact .skip item more
  | some kind => exact .take item more

/-! ## Runs of characters -/

/-- A run of characters of a class is not longer than the longest one. -/
theorem length_le_takeWhile {p : Char → Bool} {xs cs : List Char} (all : ∀ c ∈ xs, p c = true)
    (front : xs <+: cs) : xs.length ≤ (cs.takeWhile p).length := by
  obtain ⟨rest, rfl⟩ := front
  rw [List.takeWhile_append_of_pos all, List.length_append]
  omega

/-- A run of characters of a class that no such character follows is the longest one. -/
theorem takeWhile_eq {p : Char → Bool} {xs rest : List Char} (all : ∀ c ∈ xs, p c = true)
    (stops : ∀ c, rest.head? = some c → p c = false) : (xs ++ rest).takeWhile p = xs := by
  rw [List.takeWhile_append_of_pos all]
  cases rest with
  | nil => simp
  | cons c rest => simp [stops c rfl]

/-- The longest run of a class is not followed by a character of it. -/
theorem head_dropWhile {p : Char → Bool} {cs : List Char} {c : Char}
    (head : (cs.dropWhile p).head? = some c) : p c = false := by
  induction cs with
  | nil => simp at head
  | cons d cs ih =>
    rw [List.dropWhile_cons] at head
    split at head
    · exact ih head
    · next fails =>
      obtain ⟨rfl⟩ := head
      simpa using fails

/-! ## Numerals -/

open Scanner

theorem digits_takeWhile {c : Char} (cs : List Char) (digit : c.isDigit = true) :
    Digits ((c :: cs).takeWhile Char.isDigit) :=
  ⟨by simp [digit], fun d member => List.all_eq_true.mp List.all_takeWhile d member⟩

theorem numeral_prefix (cs : List Char) : numeral cs <+: cs := by
  have parts : cs.takeWhile Char.isDigit ++ cs.dropWhile Char.isDigit = cs :=
    List.takeWhile_append_dropWhile
  unfold numeral
  split
  · next d rest found =>
    split
    · obtain ⟨more, whole⟩ := List.takeWhile_prefix (p := Char.isDigit) (l := d :: rest)
      refine ⟨more, ?_⟩
      rw [List.append_assoc, List.cons_append, whole, ← found, parts]
    · simpa using List.takeWhile_prefix _
  · simpa using List.takeWhile_prefix _

theorem numeral_of_digit {c : Char} (cs : List Char) (digit : c.isDigit = true) :
    Numeral (numeral (c :: cs)) := by
  have whole := digits_takeWhile cs digit
  unfold numeral
  split
  · next d rest found =>
    split
    · next more => exact .fraction whole (digits_takeWhile rest more)
    · simpa using Numeral.whole whole
  · simpa using Numeral.whole whole

theorem Numeral.length_le {xs cs : List Char} (numeral : Numeral xs) (front : xs <+: cs) :
    xs.length ≤ (Scanner.numeral cs).length := by
  unfold Scanner.numeral
  cases numeral with
  | whole digits =>
    have bound := length_le_takeWhile digits.2 front
    rw [List.length_append]
    omega
  | @fraction ds fs whole fraction =>
    obtain ⟨rest, rfl⟩ := front
    obtain ⟨nonempty, digits⟩ := fraction
    obtain ⟨d, fs, rfl⟩ := List.exists_cons_of_ne_nil nonempty
    have cut : (ds ++ '.' :: (d :: fs) ++ rest).takeWhile Char.isDigit = ds := by
      rw [List.append_assoc]
      exact takeWhile_eq whole.2 (by simp)
    have left : (ds ++ '.' :: (d :: fs) ++ rest).dropWhile Char.isDigit =
        '.' :: d :: (fs ++ rest) := by
      rw [List.append_assoc, List.dropWhile_append_of_pos whole.2]
      simp
    rw [cut, left]
    have isDigit : d.isDigit = true := digits d (by simp)
    have bound : (d :: fs).length ≤ ((d :: (fs ++ rest)).takeWhile Char.isDigit).length :=
      length_le_takeWhile digits ⟨rest, rfl⟩
    simp only [isDigit, if_true, List.length_append, List.length_cons] at bound ⊢
    omega

/-! ## Words and operators -/

theorem isWordPart_iff {c : Char} :
    isWordPart c = true ↔ Text.isLetter c = true ∨ c.isDigit = true ∨ c = '_' := by
  simp [isWordPart, or_assoc]

theorem isWordStart_iff {c : Char} :
    isWordStart c = true ↔ Text.isLetter c = true ∨ c = '_' := by
  simp [isWordStart]

theorem digit_mem {c : Char} (digit : c.isDigit = true) : c ∈ "0123456789".toList := by
  obtain ⟨low, high⟩ : 48 ≤ c.toNat ∧ c.toNat ≤ 57 := Char.isDigit_iff_toNat.mp digit
  have all : ∀ value : Fin 10, Char.ofNat (48 + value) ∈ "0123456789".toList := by decide
  have member := all ⟨c.toNat - 48, by omega⟩
  rwa [Nat.add_sub_of_le low, Char.ofNat_toNat] at member

/-- Words do not start with digits. -/
theorem isWordStart_of_digit {c : Char} (digit : c.isDigit = true) : isWordStart c = false := by
  have none : ("0123456789".toList.all fun c => !isWordStart c) = true := by decide
  simpa using List.all_eq_true.mp none c (digit_mem digit)

theorem not_digit_of_wordStart {c : Char} (start : isWordStart c = true) : c.isDigit = false := by
  rw [Bool.eq_false_iff]
  intro digit
  simp [isWordStart_of_digit digit] at start

theorem isWordPart_of_start {c : Char} (starts : isWordStart c = true) : isWordPart c = true := by
  rcases isWordStart_iff.mp starts with letter | underscore
  · exact isWordPart_iff.mpr (.inl letter)
  · exact isWordPart_iff.mpr (.inr (.inr underscore))

theorem Word.all_parts {cs : List Char} (word : Word cs) : ∀ c ∈ cs, isWordPart c = true := by
  obtain ⟨start, parts⟩ := word
  intro c member
  rcases List.mem_cons.mp member with rfl | inside
  · exact isWordPart_of_start (isWordStart_iff.mpr start)
  · exact isWordPart_iff.mpr (parts c inside)

theorem word_of_all {c : Char} {cs : List Char} (start : isWordStart c = true)
    (parts : cs.all isWordPart = true) : Word (c :: cs) :=
  .intro (isWordStart_iff.mp start) fun d member =>
    isWordPart_iff.mp (List.all_eq_true.mp parts d member)

theorem word_takeWhile {c : Char} (cs : List Char) (start : isWordStart c = true) :
    Word ((c :: cs).takeWhile isWordPart) := by
  rw [List.takeWhile_cons, if_pos (isWordPart_of_start start)]
  exact word_of_all start List.all_takeWhile

theorem lookup_keywords {word : String} {kind : Kind} :
    Kind.keywords.lookup word = some kind ↔ (word, kind) ∈ Kind.keywords := by
  constructor
  · intro found
    obtain ⟨before, after, split, -⟩ := List.lookup_eq_some_iff.mp found
    rw [split]
    exact List.mem_append_right _ List.mem_cons_self
  · intro member
    simp only [Kind.keywords, List.mem_cons, List.not_mem_nil, or_false, Prod.mk.injEq] at member
    rcases member with ⟨rfl, rfl⟩ | ⟨rfl, rfl⟩ | ⟨rfl, rfl⟩ | ⟨rfl, rfl⟩ | ⟨rfl, rfl⟩ <;> rfl

/-- No operator comes before a longer one. -/
theorem operators_ordered :
    Kind.operators.Pairwise fun a b => b.1.toList.length ≤ a.1.toList.length := by
  decide

theorem operator?_eq_some {cs : List Char} {text : String} {kind : Kind}
    (found : operator? cs = some (text, kind)) :
    (text, kind) ∈ Kind.operators ∧ text.toList <+: cs := by
  unfold operator? at found
  exact ⟨List.mem_of_find?_eq_some found, by simpa using List.find?_some found⟩

/-- An operator at the front of a text is not longer than the one that is found. -/
theorem operator?_longest {cs : List Char} {other : String} {otherKind : Kind}
    (member : (other, otherKind) ∈ Kind.operators) (front : other.toList <+: cs) :
    ∃ text kind, operator? cs = some (text, kind) ∧ other.toList.length ≤ text.toList.length := by
  cases found : operator? cs with
  | none =>
    have missed := List.find?_eq_none.mp found (other, otherKind) member
    simp [front] at missed
  | some entry =>
    refine ⟨entry.1, entry.2, rfl, ?_⟩
    obtain ⟨-, before, after, split, earlier⟩ := List.find?_eq_some_iff_append.mp found
    have ordered := operators_ordered
    rw [split] at member ordered
    rcases List.mem_append.mp member with first | rest
    · have missed := earlier _ first
      simp [List.isPrefixOf_iff_prefix.mpr front] at missed
    rcases List.mem_cons.mp rest with rfl | later
    · exact Nat.le_refl _
    · exact (List.pairwise_cons.mp (List.pairwise_append.mp ordered).2.1).1 _ later

/-! ## The longest match -/

theorem Numeral.first {cs : List Char} (numeral : Numeral cs) :
    ∃ c rest, cs = c :: rest ∧ c.isDigit = true := by
  cases numeral with
  | whole digits =>
    obtain ⟨c, rest, rfl⟩ := List.exists_cons_of_ne_nil digits.1
    exact ⟨c, rest, rfl, digits.2 c (by simp)⟩
  | fraction digits _ =>
    obtain ⟨c, rest, rfl⟩ := List.exists_cons_of_ne_nil digits.1
    exact ⟨c, _, rfl, digits.2 c (by simp)⟩

theorem Word.first {cs : List Char} (word : Word cs) :
    ∃ c rest, cs = c :: rest ∧ isWordStart c = true := by
  obtain ⟨start, _⟩ := word
  exact ⟨_, _, rfl, isWordStart_iff.mpr start⟩

/-- An operator starts with a character that starts nothing else. -/
theorem operator_first {cs : List Char} {kind : Kind}
    (operator : (String.ofList cs, kind) ∈ Kind.operators) :
    ∃ c rest, cs = c :: rest ∧ c.isDigit = false ∧ isWordStart c = false ∧
      isLayout c = false ∧ c ≠ '"' := by
  have all : ∀ entry ∈ Kind.operators, ∃ c rest, entry.1.toList = c :: rest ∧
      c.isDigit = false ∧ isWordStart c = false ∧ isLayout c = false ∧ c ≠ '"' := by
    intro entry member
    simp only [Kind.operators, List.mem_cons, List.not_mem_nil, or_false] at member
    rcases member with rfl | rfl | rfl | rfl | rfl | rfl | rfl | rfl | rfl | rfl | rfl | rfl |
      rfl | rfl | rfl | rfl | rfl | rfl | rfl
    all_goals exact ⟨_, _, rfl, by decide⟩
  obtain ⟨c, rest, split, facts⟩ := all _ operator
  exact ⟨c, rest, by simpa using split, facts⟩

/-- What a word is the text of. -/
theorem plain_of_word {cs : List Char} (word : Word cs) :
    Plain (Kind.ofWord (String.ofList cs)) cs := by
  cases found : Kind.keywords.lookup (String.ofList cs) with
  | some kind =>
    rw [Kind.ofWord, found]
    exact .keyword word (lookup_keywords.mp found)
  | none =>
    rw [Kind.ofWord, found]
    refine .identifier word fun kind member => ?_
    rw [lookup_keywords.mpr member] at found
    exact absurd found (by simp)

/-- A numeral, a word or an operator at the front of a text is told by its first character. -/
theorem Plain.of_front {kind : Kind} {text : List Char} {c : Char} {cs : List Char}
    (plain : Plain kind text) (front : text <+: c :: cs) :
    (c.isDigit = true ∧ kind = .number ∧ Numeral text) ∨
    (isWordStart c = true ∧ kind = Kind.ofWord (String.ofList text) ∧ Word text) ∨
    (c.isDigit = false ∧ isWordStart c = false ∧
      (String.ofList text, kind) ∈ Kind.operators) := by
  cases plain with
  | number numeral =>
    obtain ⟨d, rest, rfl, digit⟩ := numeral.first
    obtain ⟨rfl, -⟩ := List.cons_prefix_cons.mp front
    exact .inl ⟨digit, rfl, numeral⟩
  | keyword word member =>
    obtain ⟨d, rest, rfl, start⟩ := word.first
    obtain ⟨rfl, -⟩ := List.cons_prefix_cons.mp front
    refine .inr (.inl ⟨start, ?_, word⟩)
    rw [Kind.ofWord, lookup_keywords.mpr member, Option.getD_some]
  | identifier word other =>
    obtain ⟨d, rest, rfl, start⟩ := word.first
    obtain ⟨rfl, -⟩ := List.cons_prefix_cons.mp front
    refine .inr (.inl ⟨start, ?_, word⟩)
    cases found : Kind.keywords.lookup (String.ofList (d :: rest)) with
    | some kind => exact absurd (lookup_keywords.mp found) (other kind)
    | none => rw [Kind.ofWord, found, Option.getD_none]
  | operator member =>
    obtain ⟨d, rest, rfl, digit, start, -⟩ := operator_first member
    obtain ⟨rfl, -⟩ := List.cons_prefix_cons.mp front
    exact .inr (.inr ⟨digit, start, member⟩)

/-- Neither numerals nor words start with layout or with a quote. -/
theorem starts_nothing {c : Char} (separates : c ∈ [' ', '\t', '\r', '\n', '"']) :
    c.isDigit = false ∧ isWordStart c = false := by
  simp only [List.mem_cons, List.not_mem_nil, or_false] at separates
  rcases separates with rfl | rfl | rfl | rfl | rfl <;> exact ⟨rfl, rfl⟩

/-- Numerals, words and operators start with neither layout nor a quote. -/
theorem not_separator_of_plain {kind : Kind} {c : Char} {cs : List Char}
    (plain : Plain kind (c :: cs)) : isLayout c = false ∧ c ≠ '"' := by
  have known : c.isDigit = true ∨ isWordStart c = true → c ∉ [' ', '\t', '\r', '\n', '"'] := by
    intro starts member
    simp [starts_nothing member] at starts
  have apart : c ∉ [' ', '\t', '\r', '\n', '"'] → isLayout c = false ∧ c ≠ '"' := by
    intro other
    simpa [isLayout, and_assoc] using other
  rcases plain.of_front (List.prefix_refl _) with ⟨digit, -⟩ | ⟨start, -⟩ | ⟨-, -, operator⟩
  · exact apart (known (.inl digit))
  · exact apart (known (.inr start))
  · obtain ⟨d, rest, same, -, -, facts⟩ := operator_first operator
    obtain ⟨rfl, -⟩ := List.cons.inj same
    exact facts

theorem longest_number {c : Char} (cs : List Char) (digit : c.isDigit = true) :
    Longest .number (numeral (c :: cs)) (c :: cs) where
  plain := .number (numeral_of_digit cs digit)
  front := numeral_prefix _
  length_le plain front := by
    rcases plain.of_front front with ⟨-, -, numeral⟩ | ⟨start, -⟩ | ⟨other, -⟩
    · exact numeral.length_le front
    · rw [isWordStart_of_digit digit] at start
      contradiction
    · rw [digit] at other
      contradiction

theorem longest_word {c : Char} (cs : List Char) (start : isWordStart c = true) :
    Longest (.ofWord (String.ofList ((c :: cs).takeWhile isWordPart)))
      ((c :: cs).takeWhile isWordPart) (c :: cs) where
  plain := plain_of_word (word_takeWhile cs start)
  front := List.takeWhile_prefix _
  length_le plain front := by
    rcases plain.of_front front with ⟨digit, -⟩ | ⟨-, -, word⟩ | ⟨-, other, -⟩
    · rw [isWordStart_of_digit digit] at start
      contradiction
    · exact length_le_takeWhile word.all_parts front
    · rw [start] at other
      contradiction

theorem longest_operator {c : Char} {cs : List Char} {text : String} {kind : Kind}
    (digit : c.isDigit = false) (start : isWordStart c = false)
    (found : operator? (c :: cs) = some (text, kind)) :
    Longest kind text.toList (c :: cs) where
  plain := .operator (by simpa using (operator?_eq_some found).1)
  front := (operator?_eq_some found).2
  length_le plain front := by
    rcases plain.of_front front with ⟨other, -⟩ | ⟨other, -⟩ | ⟨-, -, member⟩
    · rw [digit] at other
      contradiction
    · rw [start] at other
      contradiction
    · obtain ⟨best, bestKind, same, bound⟩ := operator?_longest member (by simpa using front)
      rw [found] at same
      obtain ⟨rfl, rfl⟩ := Prod.mk.inj (Option.some.inj same)
      simpa using bound

theorem Plain.ne_nil {kind : Kind} {text : List Char} (plain : Plain kind text) : text ≠ [] := by
  rintro rfl
  cases plain with
  | number numeral => obtain ⟨_, _, impossible, _⟩ := numeral.first; contradiction
  | keyword word => obtain ⟨_, _, impossible, _⟩ := word.first; contradiction
  | identifier word => obtain ⟨_, _, impossible, _⟩ := word.first; contradiction
  | operator member => obtain ⟨_, _, impossible, _⟩ := operator_first member; contradiction

theorem Item.ne_nil {kind : Option Kind} {text rest : List Char} (item : Item text rest kind) :
    text ≠ [] := by
  cases item with
  | layout nonempty => exact nonempty
  | lineComment => simp
  | blockComment => simp
  | string => simp
  | longest _ _ longest => exact longest.plain.ne_nil

/-- No spelling is that of two operators. -/
theorem operators_functional :
    ∀ a ∈ Kind.operators, ∀ b ∈ Kind.operators, a.1 = b.1 → a.2 = b.2 := by
  decide

/-- A text is of one kind only. -/
theorem Plain.kind_unique {kind other : Kind} {text : List Char} (first : Plain kind text)
    (second : Plain other text) : kind = other := by
  obtain ⟨c, cs, rfl⟩ := List.exists_cons_of_ne_nil first.ne_nil
  have front := List.prefix_refl (c :: cs)
  rcases first.of_front front with ⟨digit, rfl, -⟩ | ⟨start, rfl, -⟩ | ⟨digit, start, member⟩ <;>
    rcases second.of_front front with
      ⟨digit', rfl, -⟩ | ⟨start', rfl, -⟩ | ⟨digit', start', member'⟩
  · rfl
  · simp [isWordStart_of_digit digit] at start'
  · simp [digit] at digit'
  · simp [isWordStart_of_digit digit'] at start
  · rfl
  · simp [start] at start'
  · simp [digit] at digit'
  · simp [start] at start'
  · exact operators_functional _ member _ member' rfl

theorem Lexeme.kind_eq_string {kind : Kind} {cs : List Char} (lexeme : Lexeme kind ('"' :: cs)) :
    kind = .string := by
  generalize quoted : '"' :: cs = text at lexeme
  cases lexeme with
  | plain plain =>
    subst quoted
    exact absurd rfl (not_separator_of_plain plain).2
  | string => rfl

theorem Lexeme.kind_unique {kind other : Kind} {text : List Char} (first : Lexeme kind text)
    (second : Lexeme other text) : kind = other := by
  cases first with
  | plain plain =>
    cases second with
    | plain otherPlain => exact plain.kind_unique otherPlain
    | string => exact (Lexeme.plain plain).kind_eq_string
  | string => exact second.kind_eq_string.symm

theorem Lexeme.numeral {text : List Char} (lexeme : Lexeme .number text) : Numeral text := by
  have keywords : ∀ entry ∈ Kind.keywords, entry.2 ≠ .number := by decide
  have operators : ∀ entry ∈ Kind.operators, entry.2 ≠ .number := by decide
  generalize isNumber : Kind.number = kind at lexeme
  cases lexeme with
  | plain plain =>
    cases plain with
    | number numeral => exact numeral
    | keyword _ member => exact absurd isNumber.symm (keywords _ member)
    | identifier => contradiction
    | operator member => exact absurd isNumber.symm (operators _ member)
  | string => contradiction

theorem Lexeme.stringBody {text : List Char} (lexeme : Lexeme .string text) :
    ∃ body, StringBody body ∧ text = '"' :: (body ++ ['"']) := by
  have keywords : ∀ entry ∈ Kind.keywords, entry.2 ≠ .string := by decide
  have operators : ∀ entry ∈ Kind.operators, entry.2 ≠ .string := by decide
  generalize isString : Kind.string = kind at lexeme
  cases lexeme with
  | plain plain =>
    cases plain with
    | number => contradiction
    | keyword _ member => exact absurd isString.symm (keywords _ member)
    | identifier => contradiction
    | operator member => exact absurd isString.symm (operators _ member)
  | string valid => exact ⟨_, valid, rfl⟩

/-- The longest match is one text of one kind. -/
theorem Longest.unique {kind other : Kind} {text otherText cs : List Char}
    (first : Longest kind text cs) (second : Longest other otherText cs) :
    text = otherText ∧ kind = other := by
  have same : text = otherText := by
    have length := Nat.le_antisymm (second.length_le first.plain first.front)
      (first.length_le second.plain second.front)
    rw [List.prefix_iff_eq_take.mp first.front, List.prefix_iff_eq_take.mp second.front, length]
  subst same
  exact ⟨rfl, first.plain.kind_unique second.plain⟩

/-! ## Strings and comments -/

theorem closingQuote?_eq_some {count found : Nat} {cs : List Char}
    (closes : closingQuote? count cs = some found) :
    ∃ body rest, StringBody body ∧ cs = body ++ '"' :: rest ∧ found = count + body.length := by
  fun_induction closingQuote? count cs with
  | case1 => simp at closes
  | case2 count rest =>
    obtain ⟨rfl⟩ := closes
    exact ⟨[], rest, .nil, rfl, rfl⟩
  | case3 count c rest ih =>
    obtain ⟨body, rest, valid, rfl, rfl⟩ := ih closes
    exact ⟨'\\' :: c :: body, rest, .escape valid, rfl, by simp; omega⟩
  | case4 count c rest notQuote notEscape ih =>
    obtain ⟨body, rest, valid, rfl, rfl⟩ := ih closes
    refine ⟨c :: body, rest, .plain notQuote ?_ valid, rfl, by simp; omega⟩
    -- A backslash has a character after it here, the closing quote at the latest.
    intro escape
    obtain ⟨d, more, split⟩ : ∃ d more, body ++ '"' :: rest = d :: more := by
      cases body <;> simp
    exact notEscape d more escape split

theorem closingQuote?_complete {count : Nat} {body : List Char} (valid : StringBody body)
    (rest : List Char) :
    closingQuote? count (body ++ '"' :: rest) = some (count + body.length) := by
  induction valid generalizing count with
  | nil => simp [closingQuote?]
  | @plain c cs notQuote notEscape _ ih =>
    rw [List.cons_append, closingQuote?, ih, List.length_cons]
    · congr 1; omega
    · exact notQuote
    · intro d more escape _
      exact notEscape escape
  | @escape c cs _ ih =>
    rw [List.cons_append, List.cons_append, closingQuote?, ih]
    simp only [List.length_cons]
    congr 1; omega

/-- Where the end mark of a comment stands in a text that is followed by a star. -/
theorem closes_cons_iff {c : Char} {body : List Char} :
    ['*', '/'] <:+: c :: body ++ ['*'] ↔
      (c = '*' ∧ ∃ more, body = '/' :: more) ∨ ['*', '/'] <:+: body ++ ['*'] := by
  rw [List.cons_append, List.infix_cons_iff, List.cons_prefix_cons]
  cases body with
  | nil => simp
  | cons d body => simp [eq_comm]

theorem commentEnd?_eq_some {count found : Nat} {cs : List Char}
    (closes : commentEnd? count cs = some found) :
    ∃ body rest, ¬ ['*', '/'] <:+: body ++ ['*'] ∧ cs = body ++ '*' :: '/' :: rest ∧
      found = count + body.length := by
  fun_induction commentEnd? count cs with
  | case1 => simp at closes
  | case2 count rest =>
    obtain ⟨rfl⟩ := closes
    exact ⟨[], rest, by decide, rfl, rfl⟩
  | case3 count c rest notEnd ih =>
    obtain ⟨body, rest, first, rfl, rfl⟩ := ih closes
    refine ⟨c :: body, rest, ?_, rfl, by simp; omega⟩
    intro inside
    rcases (closes_cons_iff).mp inside with ⟨rfl, more, rfl⟩ | later
    · exact notEnd _ rfl rfl
    · exact first later

theorem commentEnd?_complete {count : Nat} {body : List Char}
    (first : ¬ ['*', '/'] <:+: body ++ ['*']) (rest : List Char) :
    commentEnd? count (body ++ '*' :: '/' :: rest) = some (count + body.length) := by
  induction body generalizing count with
  | nil => simp [commentEnd?]
  | cons c body ih =>
    rw [closes_cons_iff, not_or] at first
    rw [List.cons_append, commentEnd?, ih first.2, List.length_cons]
    · congr 1
      omega
    · intro more star slash
      cases body with
      | nil => simp at slash
      | cons d body =>
        obtain ⟨rfl, -⟩ := List.cons.inj slash
        exact first.1 ⟨star, body, rfl⟩

end BraceScript.Lexical
