import BraceScript.Notice
import BraceScript.Text.Quoted

/-!
# Tokens

The kinds of token, their names in displays and their spellings in error messages, and tokens:
a kind, the text it was read from and the place where that text starts. The end of the input is
a token of its own, whose text is empty.
-/

namespace BraceScript

/-- The kinds of token. -/
inductive Kind where
  | number | string | identifier
  | kwVar | kwIf | kwElse | kwWhile | kwPrint
  | plus | minus | star | slash
  | equal | notEqual | less | lessEqual | greater | greaterEqual
  | and | or | not
  | assign
  | openParen | closeParen | openBrace | closeBrace | semicolon
  | endOfInput
  deriving DecidableEq, Repr, Inhabited

namespace Kind

/-- Every kind, in the order of the declaration. -/
def all : List Kind :=
  [number, string, identifier, kwVar, kwIf, kwElse, kwWhile, kwPrint, plus, minus, star, slash,
   equal, notEqual, less, lessEqual, greater, greaterEqual, and, or, not, assign, openParen,
   closeParen, openBrace, closeBrace, semicolon, endOfInput]

/-- The name of a kind in displays of tokens and leaves. -/
def name : Kind → String
  | number => "NUMBER"
  | string => "STRING"
  | identifier => "IDENT"
  | kwVar => "VAR"
  | kwIf => "IF"
  | kwElse => "ELSE"
  | kwWhile => "WHILE"
  | kwPrint => "PRINT"
  | plus => "PLUS"
  | minus => "MINUS"
  | star => "STAR"
  | slash => "SLASH"
  | equal => "EQ"
  | notEqual => "NEQ"
  | less => "LT"
  | lessEqual => "LTE"
  | greater => "GT"
  | greaterEqual => "GTE"
  | and => "AND"
  | or => "OR"
  | not => "NEG"
  | assign => "ASSIGN"
  | openParen => "LPAR"
  | closeParen => "RPAR"
  | openBrace => "LBRACE"
  | closeBrace => "RBRACE"
  | semicolon => "SEMI"
  | endOfInput => "EOF"

/-- The kind of a given name. -/
def ofName? (s : String) : Option Kind := all.find? fun kind => kind.name = s

/-- The keywords. -/
def keywords : List (String × Kind) :=
  [("var", kwVar), ("if", kwIf), ("else", kwElse), ("while", kwWhile), ("print", kwPrint)]

/-- The operators and punctuation marks; an operator of two characters comes before those that
    are its first character. -/
def operators : List (String × Kind) :=
  [("==", equal), ("!=", notEqual), ("<=", lessEqual), (">=", greaterEqual), ("&&", and),
   ("||", or), ("+", plus), ("-", minus), ("*", star), ("/", slash), ("<", less), (">", greater),
   ("!", not), ("=", assign), ("(", openParen), (")", closeParen), ("\x7b", openBrace),
   ("\x7d", closeBrace), (";", semicolon)]

/-- The kind of a word: a keyword or an identifier. -/
def ofWord (word : String) : Kind := (keywords.lookup word).getD identifier

/-- How error messages speak of a kind. -/
def spelling (kind : Kind) : String :=
  match kind with
  | number => "number"
  | string => "string"
  | identifier => "identifier"
  | endOfInput => "end of input"
  | kind =>
    match (keywords ++ operators).find? fun entry => entry.2 = kind with
    | some (text, _) => "'" ++ text ++ "'"
    | none => kind.name

end Kind

/-- A token: its kind, its text and the place where the text starts. -/
structure Token where
  kind : Kind
  text : String
  start : Position
  deriving DecidableEq, Repr, Inhabited

namespace Token

/-- The end of an input that was never in a text. -/
def bareEnd : Token := ⟨.endOfInput, "", .nowhere⟩

/-- How error messages speak of a token: literals and identifiers with their text. -/
def describe (t : Token) : String :=
  match t.kind with
  | .number | .string | .identifier => t.kind.spelling ++ " " ++ t.text
  | kind => kind.spelling

/-- The display of a token. -/
def display (t : Token) : String :=
  let text := if t.kind = .endOfInput then "None" else Text.quoted t.text
  s!"Tok({t.kind.name}, {text}, {t.start.line}:{t.start.column})"

end Token

end BraceScript
