import BraceScript.Text.Letter
import BraceScript.Token

/-!
# Scanning

A `Scanner` reads a source text from left to right and emits tokens. Each scanning action reads
one kind of item and can be used on its own; an action that fails leaves the scanner where the
failure was found. Emitted tokens start at the place marked last, not at the current one.

Blanks and comments separate items and leave no token. Past its end the text reads as a run of
NUL characters, which no item contains, so that looking ahead never fails.
-/

namespace BraceScript

/-- Why a text cannot be split into tokens. -/
inductive ScanError where
  | unexpectedCharacter (c : Char) (place : Position)
  | unterminatedString (start : Position)
  | unterminatedComment (start : Position)
  deriving DecidableEq, Repr

/-- What the user is told about a scanning error. -/
def ScanError.notice : ScanError → Notice
  | unexpectedCharacter c place =>
    .atPlace ("Unexpected character " ++ Text.quoted (String.ofList [c])) (some place)
  | unterminatedString start => .atPlace "Unterminated string" (some start)
  | unterminatedComment start => .atPlace "Unterminated block comment" (some start)

/-- A source text being read: what is left of it, the current place, the mark at which the next
    token starts, and the tokens emitted so far. -/
structure Scanner where
  source : List Char
  rest : List Char
  here : Position
  start : Position
  tokens : Array Token
  deriving Repr

/-- An action on a scanner. -/
abbrev ScanM := EStateM ScanError Scanner

namespace Scanner

/-- A scanner at the first place of a text. -/
def ofSource (source : String) : Scanner :=
  ⟨source.toList, source.toList, .origin, .origin, #[]⟩

/-! ## Character classes -/

/-- The characters that only separate items. -/
def isLayout (c : Char) : Bool := c = ' ' || c = '\t' || c = '\r' || c = '\n'

/-- The characters that a word can start with. -/
def isWordStart (c : Char) : Bool := Text.isLetter c || c = '_'

/-- The characters that a word can go on with. -/
def isWordPart (c : Char) : Bool := Text.isLetter c || c.isDigit || c = '_'

/-- The characters of a line comment after its start. -/
def isCommentPart (c : Char) : Bool := c ≠ '\n' && c ≠ '\x00'

/-! ## Items at the front of a text -/

/-- The numeral at the front: digits and, if more digits follow it, a point with them. -/
def numeral (cs : List Char) : List Char :=
  cs.takeWhile Char.isDigit ++
    match cs.dropWhile Char.isDigit with
    | '.' :: d :: rest => if d.isDigit then '.' :: (d :: rest).takeWhile Char.isDigit else []
    | _ => []

/-- The operator at the front, with its kind. -/
def operator? (cs : List Char) : Option (String × Kind) :=
  Kind.operators.find? fun entry => entry.1.toList.isPrefixOf cs

/-- How many characters stand before the closing quote of a string, `count` more being counted
    already. A backslash takes the next character with it. -/
def closingQuote? (count : Nat) : List Char → Option Nat
  | [] => none
  | '"' :: _ => some count
  | '\\' :: _ :: rest => closingQuote? (count + 2) rest
  | _ :: rest => closingQuote? (count + 1) rest

/-- How many characters stand before the end mark of a block comment, `count` more being counted
    already. -/
def commentEnd? (count : Nat) : List Char → Option Nat
  | [] => none
  | '*' :: '/' :: _ => some count
  | _ :: rest => commentEnd? (count + 1) rest

/-! ## Moving -/

/-- The next `n` characters, NUL characters past the end. -/
def ahead (s : Scanner) (n : Nat) : List Char :=
  let taken := s.rest.take n
  taken ++ List.replicate (n - taken.length) '\x00'

/-- The scanner `n` characters further on. -/
def pass (s : Scanner) (n : Nat) : Scanner :=
  { s with rest := s.rest.drop n, here := s.here.after (s.ahead n) }

/-- Reads the next `n` characters. -/
def advance (n : Nat) : ScanM (List Char) :=
  modifyGet fun s => (s.ahead n, s.pass n)

/-- Marks the current place as the start of the next token. -/
def markStart : ScanM Unit :=
  modify fun s => { s with start := s.here }

/-- Emits a token that starts at the mark. -/
def emit (kind : Kind) (text : List Char) : ScanM Unit :=
  modify fun s => { s with tokens := s.tokens.push ⟨kind, String.ofList text, s.start⟩ }

/-! ## Scanning actions -/

/-- Skips layout characters and tells whether there were any. -/
def skipLayout : ScanM Bool := do
  let blanks ← advance ((← get).rest.takeWhile isLayout).length
  return !blanks.isEmpty

/-- Skips the rest of a line comment. A NUL character ends it as a line feed does. -/
def skipLineComment : ScanM Unit := do
  discard (advance ((← get).rest.takeWhile isCommentPart).length)

/-- Skips a block comment; block comments do not nest. -/
def skipBlockComment : ScanM Unit := do
  discard (advance 2)
  let s ← get
  match commentEnd? 0 s.rest with
  | some count => discard (advance (count + 2))
  | none =>
    discard (advance s.rest.length)
    throw (.unterminatedComment s.start)

/-- Reads a string; its text keeps the quotes and the escapes. -/
def scanString : ScanM Unit := do
  let opening ← advance 1
  let s ← get
  match closingQuote? 0 s.rest with
  | some count => emit .string (opening ++ (← advance (count + 1)))
  | none =>
    discard (advance s.rest.length)
    throw (.unterminatedString s.start)

/-- Reads a number. -/
def scanNumber : ScanM Unit := do
  emit .number (← advance (numeral (← get).rest).length)

/-- Reads an identifier or a keyword. -/
def scanWord : ScanM Unit := do
  let word ← advance ((← get).rest.takeWhile isWordPart).length
  emit (.ofWord (String.ofList word)) word

/-- Reads an operator or a punctuation mark. -/
def scanOperator : ScanM Unit := do
  let s ← get
  match operator? s.rest with
  | some (text, kind) => emit kind (← advance text.toList.length)
  | none => throw (.unexpectedCharacter (s.rest.headD '\x00') s.here)

/-- Reads the next item: layout, a comment, or a token. -/
def scanItem : ScanM Unit := do
  if ← skipLayout then return
  markStart
  match (← get).rest with
  | '/' :: '/' :: _ => skipLineComment
  | '/' :: '*' :: _ => skipBlockComment
  | '"' :: _ => scanString
  | c :: _ =>
    if c.isDigit then scanNumber
    else if isWordStart c then scanWord
    else scanOperator
  | [] => scanOperator

/-- Reads items until the text ends. Every item takes a character, so that as many items as there
    are characters are enough. -/
def scanItems : Nat → ScanM Unit
  | 0 => return
  | count + 1 => do
    if (← get).rest.isEmpty then return
    scanItem
    scanItems count

/-- Reads all that is left and emits the end of the input; gives every token emitted so far. -/
def finish : ScanM (List Token) := do
  scanItems (← get).rest.length
  markStart
  emit .endOfInput []
  return (← get).tokens.toList

end Scanner

/-- The tokens of a source text, the last of them the end of the input. -/
def scan (source : String) : Except ScanError (List Token) :=
  match Scanner.finish (.ofSource source) with
  | .ok tokens _ => .ok tokens
  | .error e _ => .error e

end BraceScript
