import BraceScript.Proofs.Report
import BraceScript.Proofs.Scanner.Segments

/-!
# Strings and their literals

The scanner looks for the quote that closes a literal, and later the escapes of the literal are
resolved. Both walk over the text between the quotes, and have to agree on where each backslash
takes a character with it. They walk over the same *pieces*, which are plain characters and pairs of
a backslash and any character, so that a literal stands for what its pieces stand for.

Every string has a literal: the characters that do not stand for themselves between quotes are
written as pairs.
-/

namespace BraceScript

open Lexical Scanner

namespace Literal

/-! ## Pieces -/

/-- A piece of the text between the quotes of a literal. -/
inductive Piece where
  | plain (c : Char)
  | pair (c : Char)
  deriving DecidableEq, Repr

namespace Piece

/-- How a piece is written. -/
def text : Piece → List Char
  | plain c => [c]
  | pair c => ['\\', c]

/-- What a piece stands for. A pair that is no known escape stands for itself. -/
def meaning : Piece → List Char
  | plain c => [c]
  | pair c =>
    match escape? c with
    | some d => [d]
    | none => ['\\', c]

/-- A plain character is neither a quote nor a backslash. -/
def IsProper : Piece → Prop
  | plain c => c ≠ '"' ∧ c ≠ '\\'
  | pair _ => True

/-- The piece that stands for a character. -/
def ofChar : Char → Piece
  | '\\' => pair '\\'
  | '"' => pair '"'
  | '\n' => pair 'n'
  | '\t' => pair 't'
  | '\r' => pair 'r'
  | c => plain c

theorem isProper_ofChar (c : Char) : (ofChar c).IsProper := by
  unfold ofChar
  split
  case h_6 notBackslash notQuote _ _ _ => exact ⟨notQuote, notBackslash⟩
  all_goals exact trivial

theorem meaning_ofChar (c : Char) : (ofChar c).meaning = [c] := by
  unfold ofChar
  split <;> rfl

end Piece

/-- The pieces that the scanner passes until it finds the closing quote. -/
def pieces : List Char → List Piece
  | [] => []
  | '"' :: _ => []
  | '\\' :: c :: rest => .pair c :: pieces rest
  | c :: rest => .plain c :: pieces rest

/-- What is left of a text at each step of resolving its escapes. -/
def stages : List Char → List (List Char)
  | '\\' :: c :: rest => ('\\' :: c :: rest) :: stages rest
  | c :: rest => (c :: rest) :: stages rest
  | [] => []

/-- The text between the quotes of a string is made of the pieces that the scanner passes. -/
theorem text_pieces {body : List Char} (valid : StringBody body) (rest : List Char) :
    (pieces (body ++ '"' :: rest)).flatMap Piece.text = body ∧
      ∀ p ∈ pieces (body ++ '"' :: rest), p.IsProper := by
  induction valid with
  | nil => exact ⟨rfl, by simp [pieces]⟩
  | @plain c cs notQuote notBackslash _ ih =>
    have step : pieces (c :: cs ++ '"' :: rest) = .plain c :: pieces (cs ++ '"' :: rest) := by
      rw [List.cons_append, pieces]
      · exact notQuote
      · exact fun _ _ same _ => notBackslash same
    rw [step, List.flatMap_cons, ih.1]
    exact ⟨rfl, List.forall_mem_cons.mpr ⟨⟨notQuote, notBackslash⟩, ih.2⟩⟩
  | @escape c cs _ ih =>
    have step : pieces ('\\' :: c :: cs ++ '"' :: rest) =
        .pair c :: pieces (cs ++ '"' :: rest) := rfl
    rw [step, List.flatMap_cons, ih.1]
    exact ⟨rfl, List.forall_mem_cons.mpr ⟨trivial, ih.2⟩⟩

/-- Proper pieces one after the other can stand between quotes. -/
theorem stringBody_pieces {ps : List Piece} (proper : ∀ p ∈ ps, p.IsProper) :
    StringBody (ps.flatMap Piece.text) := by
  induction ps with
  | nil => exact .nil
  | cons p ps ih =>
    obtain ⟨first, others⟩ := List.forall_mem_cons.mp proper
    cases p with
    | plain c => exact .plain first.1 first.2 (ih others)
    | pair c => exact .escape (ih others)

/-! ## Resolving escapes -/

theorem unescape_plain {c : Char} (other : c ≠ '\\') (rest : List Char) :
    unescape (c :: rest) = c :: unescape rest := by
  rw [unescape]
  exact fun _ _ same _ => other same

theorem stages_plain {c : Char} (other : c ≠ '\\') (rest : List Char) :
    stages (c :: rest) = (c :: rest) :: stages rest := by
  rw [stages]
  exact fun _ _ same _ => other same

/-- Escapes are resolved piece by piece. -/
theorem unescape_pieces {ps : List Piece} (proper : ∀ p ∈ ps, p.IsProper) :
    unescape (ps.flatMap Piece.text) = ps.flatMap Piece.meaning := by
  induction ps with
  | nil => rfl
  | cons p ps ih =>
    obtain ⟨first, others⟩ := List.forall_mem_cons.mp proper
    rw [List.flatMap_cons, List.flatMap_cons, ← ih others]
    cases p with
    | plain c => exact unescape_plain first.2 _
    | pair c =>
      show unescape ('\\' :: c :: ps.flatMap Piece.text) = _
      rw [unescape, Piece.meaning]
      cases escape? c <;> rfl

/-- A backslash never stands alone at the end of what is left of proper pieces. -/
theorem lone_backslash_not_mem_stages {ps : List Piece} (proper : ∀ p ∈ ps, p.IsProper) :
    ['\\'] ∉ stages (ps.flatMap Piece.text) := by
  induction ps with
  | nil => simp [stages]
  | cons p ps ih =>
    obtain ⟨first, others⟩ := List.forall_mem_cons.mp proper
    rw [List.flatMap_cons]
    cases p with
    | plain c =>
      show ['\\'] ∉ stages (c :: ps.flatMap Piece.text)
      rw [stages_plain first.2]
      simp [first.2.symm, ih others]
    | pair c =>
      show ['\\'] ∉ stages ('\\' :: c :: ps.flatMap Piece.text)
      simp [stages, ih others]

/-- A text without backslashes has no escapes. -/
theorem unescape_eq_self {cs : List Char} (none : '\\' ∉ cs) : unescape cs = cs := by
  induction cs with
  | nil => rfl
  | cons c cs ih =>
    obtain ⟨first, others⟩ := List.ne_and_not_mem_of_not_mem_cons none
    rw [unescape_plain first.symm, ih others]

/-- A text that is taken as it is has no escapes to be resolved. -/
theorem decode_eq_unescape (raw : String) :
    decode raw = String.ofList (unescape (unquote raw.toList)) := by
  by_cases escaped : '\\' ∈ unquote raw.toList
  · simp only [decode, if_pos escaped]
  · simp only [decode, if_neg escaped, unescape_eq_self escaped]

theorem unquote_quotes (body : List Char) : unquote ('"' :: (body ++ ['"'])) = body := by
  obtain ⟨c, rest, more⟩ : ∃ c rest, body ++ ['"'] = c :: rest := by
    cases body <;> simp
  have last : (c :: rest).getLast? = some '"' := by
    rw [← more]
    exact List.getLast?_concat
  rw [more, unquote, if_pos last, ← more, List.dropLast_concat]

theorem decode_pieces {ps : List Piece} (proper : ∀ p ∈ ps, p.IsProper) :
    decode (String.ofList ('"' :: (ps.flatMap Piece.text ++ ['"']))) =
      String.ofList (ps.flatMap Piece.meaning) := by
  rw [decode_eq_unescape, String.toList_ofList, unquote_quotes, unescape_pieces proper]

/-! ## The literal of a string -/

/-- The literal of a string. -/
def quoted (v : String) : String :=
  String.ofList ('"' :: ((v.toList.map Piece.ofChar).flatMap Piece.text ++ ['"']))

/-- The program that prints the literal of a string. -/
def printing (v : String) : String := "print(" ++ quoted v ++ ");"

theorem proper_ofChar (cs : List Char) : ∀ p ∈ cs.map Piece.ofChar, p.IsProper := by
  intro p member
  obtain ⟨c, -, rfl⟩ := List.mem_map.mp member
  exact Piece.isProper_ofChar c

theorem decode_quoted (v : String) : decode (quoted v) = v := by
  have meaning : (v.toList.map Piece.ofChar).flatMap Piece.meaning = v.toList := by
    rw [List.flatMap_map]
    simp [Piece.meaning_ofChar]
  rw [quoted, decode_pieces (proper_ofChar _), meaning, String.ofList_toList]

/-- An operator of one character is an item where the scanner finds it. -/
theorem item_mark {c : Char} {rest : List Char} {kind : Kind} (digit : c.isDigit = false)
    (start : isWordStart c = false) (slash : c ≠ '/')
    (found : operator? (c :: rest) = some (String.ofList [c], kind)) :
    Item [c] rest (some kind) := by
  have longest : Longest kind [c] (c :: rest) := by
    simpa using longest_operator digit start found
  exact .longest (by simp [slash.symm]) (by simp [slash.symm]) longest

theorem item_print (rest : List Char) :
    Item ['p', 'r', 'i', 'n', 't'] (['('] ++ rest) (some .kwPrint) := by
  have letters : ∀ c ∈ ['p', 'r', 'i', 'n', 't'], isWordPart c = true := List.all_eq_true.mp rfl
  have measured : ('p' :: 'r' :: 'i' :: 'n' :: 't' :: '(' :: rest).takeWhile isWordPart =
      ['p', 'r', 'i', 'n', 't'] := takeWhile_eq letters (by simp; rfl)
  have longest := longest_word (c := 'p') ('r' :: 'i' :: 'n' :: 't' :: '(' :: rest) rfl
  rw [measured] at longest
  exact .longest (by simp) (by simp) longest

/-- The tokens of the program that prints the literal of a string. -/
def printingTokens (v : String) : List Token :=
  let behind := Position.after ⟨6, 1, 7⟩ (quoted v).toList
  [⟨.kwPrint, "print", .origin⟩, ⟨.openParen, "(", ⟨5, 1, 6⟩⟩, ⟨.string, quoted v, ⟨6, 1, 7⟩⟩,
    ⟨.closeParen, ")", behind⟩, ⟨.semicolon, ";", behind.after [')']⟩,
    ⟨.endOfInput, "", (behind.after [')']).after [';']⟩]

theorem scan_printing (v : String) : scan (printing v) = .ok (printingTokens v) := by
  have literal : Item (quoted v).toList [')', ';'] (some .string) := by
    rw [quoted, String.toList_ofList]
    exact .string (stringBody_pieces (proper_ofChar _))
  have segmented : Segmented .origin _ _ := .take (item_print _) <|
    .take (item_mark (c := '(') rfl rfl (by decide) rfl) <| .take literal <|
    .take (item_mark (c := ')') rfl rfl (by decide) rfl) <|
    .take (item_mark (c := ';') rfl rfl (by decide) rfl) .done
  have first : Position.origin.after ['p', 'r', 'i', 'n', 't'] = ⟨5, 1, 6⟩ := by decide
  have second : Position.after ⟨5, 1, 6⟩ ['('] = ⟨6, 1, 7⟩ := by decide
  rw [String.ofList_toList, first, second] at segmented
  have whole : (printing v).toList =
      ['p', 'r', 'i', 'n', 't'] ++ (['('] ++ ((quoted v).toList ++ [')', ';'])) := by
    simp [printing]
  rw [scan_eq_ok_iff, whole]
  exact segmented

theorem parse_printing (v : String) :
    parse (printingTokens v) = .ok (.branch .program [.branch .print
      [.leaf ⟨.token .string, quoted v, .ofPosition ⟨6, 1, 7⟩⟩]]) := rfl

/-- A program that prints a literal polls once and prints the string that it stands for. -/
theorem execute_print {settings : Settings} (recording : settings.recording = true)
    (running : settings.cancelAfter ≠ some 0) (scope : Scope) (raw : String) (place : Coordinates) :
    execute settings scope (.branch .program [.branch .print [.leaf ⟨.token .string, raw, place⟩]])
      = { scope, output := [.string (decode raw)], polls := 1 } := by
  obtain ⟨blockScoped, budget, _, loopFuel⟩ := settings
  cases recording
  cases budget with
  | none => rfl
  | some count =>
    cases count with
    | zero => exact absurd rfl running
    | succ count => rfl

theorem run_printing {settings : Settings} (recording : settings.recording = true)
    (running : settings.cancelAfter ≠ some 0) (scope : Scope) (v : String) :
    run settings scope (printing v) = { scope, output := [.string v], polls := 1 } := by
  have parsed : parseSource (printing v) = .ok (.branch .program [.branch .print
      [.leaf ⟨.token .string, quoted v, .ofPosition ⟨6, 1, 7⟩⟩]]) := by
    rw [parseSource, scan_printing]
    simp only [parse_printing]
  rw [run_of_parseSource parsed, execute_print recording running, decode_quoted]

/-- A string token stands in the text that it was read from, quotes around it. -/
theorem string_of_scan {source : String} {tokens : List Token} (scanned : scan source = .ok tokens)
    {t : Token} (member : t ∈ tokens) (isString : t.kind = .string) :
    ∃ before body after, StringBody body ∧ t.text.toList = '"' :: (body ++ ['"']) ∧
      source.toList = before ++ t.text.toList ++ after ∧
      t.start = Position.origin.after before := by
  obtain ⟨front, rfl, stand⟩ := (scan_eq_ok_iff.mp scanned).tokens
  rcases List.mem_append.mp member with inside | last
  · obtain ⟨lexeme, before, after, whole, place⟩ := stand t inside
    rw [isString] at lexeme
    obtain ⟨body, valid, quotes⟩ := lexeme.stringBody
    exact ⟨before, body, after, valid, quotes, whole, place⟩
  · obtain rfl := List.mem_singleton.mp last
    contradiction

end Literal

open Literal

/-- Every string has a literal that stands for it: the program that prints the literal is read with
    the literal as one token, and prints the string. The literal of every string token is read piece
    by piece, and its pieces are those that the scanner passed on its way to the closing quote, so
    that resolving escapes never comes to a backslash with nothing behind it. A literal without
    escapes is taken as it is, which makes no difference. -/
theorem literals_read_back :
    (∀ v, scan (printing v) = .ok (printingTokens v) ∧
      ∀ settings : Settings, settings.recording = true → settings.cancelAfter ≠ some 0 →
        ∀ scope, run settings scope (printing v) = { scope, output := [.string v], polls := 1 }) ∧
    (∀ source tokens, scan source = .ok tokens → ∀ t ∈ tokens, t.kind = .string →
      ∃ before body after, source.toList = before ++ t.text.toList ++ after ∧
        t.start = Position.origin.after before ∧ t.text.toList = '"' :: (body ++ ['"']) ∧
        closingQuote? 0 (body ++ '"' :: after) = some body.length ∧
        (pieces (body ++ '"' :: after)).flatMap Piece.text = body ∧
        (∀ p ∈ pieces (body ++ '"' :: after), p.IsProper) ∧
        decode t.text = String.ofList ((pieces (body ++ '"' :: after)).flatMap Piece.meaning) ∧
        ['\\'] ∉ stages (unquote t.text.toList)) ∧
    ∀ raw, decode raw = String.ofList (unescape (unquote raw.toList)) := by
  refine ⟨fun v => ⟨scan_printing v, fun settings recording running scope => ?_⟩, ?_,
    decode_eq_unescape⟩
  · exact run_printing recording running scope v
  intro source tokens scanned t member isString
  obtain ⟨before, body, after, valid, quotes, whole, place⟩ :=
    string_of_scan scanned member isString
  obtain ⟨texts, proper⟩ := text_pieces valid after
  have found : closingQuote? 0 (body ++ '"' :: after) = some body.length := by
    rw [closingQuote?_complete valid, Nat.zero_add]
  refine ⟨before, body, after, whole, place, quotes, found, texts, proper, ?_, ?_⟩
  · rw [decode_eq_unescape, quotes, unquote_quotes, ← unescape_pieces proper, texts]
  · rw [quotes, unquote_quotes, ← texts]
    exact lone_backslash_not_mem_stages proper

/-- A string of a quote, a backslash, a letter and a line feed. -/
theorem literals_read_back_backslash :
    let v := String.ofList ['"', '\\', 'n', '\n']
    quoted v = String.ofList ['"', '\\', '"', '\\', '\\', 'n', '\\', 'n', '"'] ∧
      run {} [[]] (printing v) = { scope := [[]], output := [.string v], polls := 1 } ∧
      ∃ t ∈ printingTokens v, t.kind = .string ∧ ['\\'] ∉ stages (unquote t.text.toList) := by
  intro v
  obtain ⟨every, tokens, -⟩ := literals_read_back
  have literal : quoted v = String.ofList ['"', '\\', '"', '\\', '\\', 'n', '\\', 'n', '"'] := by
    simp [quoted, v, Piece.ofChar, Piece.text]
  have string : ⟨.string, quoted v, ⟨6, 1, 7⟩⟩ ∈ printingTokens v := by
    simp [printingTokens]
  obtain ⟨-, -, -, -, -, -, -, -, -, -, never⟩ := tokens _ _ (every _).1 _ string rfl
  exact ⟨literal, (every _).2 {} rfl (by decide) _, _, string, rfl, never⟩

end BraceScript
