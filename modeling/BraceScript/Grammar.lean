import BraceScript.Cursor
import BraceScript.Node

/-!
# The grammar

The rules that read a program from a token cursor, one for each production:

    program     := statement* end
    statement   := 'var' IDENT '=' expression terminator
                 | 'print' '(' expression ')' terminator
                 | 'if' '(' expression ')' block ('else' block)?
                 | 'while' '(' expression ')' block
                 | IDENT '=' expression terminator
                 | expression terminator
                 | ';'
    block       := '{' statement* '}'
    terminator  := ';', which may be left out before the end

Expressions have six levels of left-associative operators, then prefix operators, then numbers,
strings, identifiers and parentheses. Parentheses and the empty statement leave no node.

A rule that fails leaves the cursor at the token where the failure was found. Each rule is given
the number of rules that may still be entered inside one another, so that a program nested too
deeply is refused instead of exhausting the machine.
-/

namespace BraceScript

/-- What was being read when an unexpected token came. -/
inductive Context where
  | expression
  | statement
  | strayElse
  deriving DecidableEq, Repr

/-- How error messages speak of a context. -/
def Context.spelling : Context → String
  | expression => "expression"
  | statement => "statement"
  | strayElse => "statement ('else' without 'if')"

/-- Why tokens are not a program. -/
inductive ParseError where
  | expected (kind : Kind) (found : Token)
  | unexpected (found : Token) (context : Context)
  | unexpectedEnd (found : Token)
  | tooDeep (found : Token)
  deriving DecidableEq, Repr

/-- What the user is told about a parse error. -/
def ParseError.notice : ParseError → Notice
  | expected kind found =>
    .atPlace ("Expected " ++ kind.spelling ++ ", got " ++ found.describe) (some found.start)
  | unexpected found context =>
    .atPlace ("Unexpected " ++ found.describe ++ " in " ++ context.spelling) (some found.start)
  | unexpectedEnd found =>
    .atPlace ("Unexpected end of input, expected " ++ Context.expression.spelling)
      (some found.start)
  | tooDeep found => .atPlace "Program nested too deeply to parse" (some found.start)

/-- An action on a token cursor. -/
abbrev ParseM := EStateM ParseError Cursor

namespace Kind

/-- The level of a binary operator, from the loosest to the tightest. -/
def level? : Kind → Option Nat
  | or => some 1
  | and => some 2
  | equal | notEqual => some 3
  | less | greater | lessEqual | greaterEqual => some 4
  | plus | minus => some 5
  | star | slash => some 6
  | _ => none

/-- Whether a kind is a prefix operator. -/
def isUnary (kind : Kind) : Bool := kind = not || kind = minus

/-- Whether a kind is an expression by itself. -/
def isAtom (kind : Kind) : Bool := kind = number || kind = string || kind = identifier

end Kind

namespace Grammar

/-! ## Tokens -/

/-- The current token. -/
def current : ParseM Token := return (← get).current

/-- Takes the current token and moves on. -/
def advance : ParseM Token := modifyGet fun c => (c.current, c.next)

/-- Whether the current token is of one of the kinds. -/
def check (kinds : List Kind) : ParseM Bool := return kinds.contains (← current).kind

/-- Moves on if the current token is of one of the kinds, and tells whether it was. -/
def accept (kinds : List Kind) : ParseM Bool := do
  if ← check kinds then
    discard advance
    return true
  else
    return false

/-- Takes a token of a kind, or fails. -/
def expect (kind : Kind) : ParseM Token := do
  let token ← current
  if token.kind = kind then advance else throw (.expected kind token)

/-- The end of a simple statement: a semicolon, or nothing before the end of the input. -/
def terminator : ParseM Unit := do
  if (← current).kind = .endOfInput then return
  discard (expect .semicolon)

/-- Gives up a program nested too deeply, at the current token. -/
def giveUp {α : Type} : ParseM α := do throw (.tooDeep (← current))

/-! ## Repetitions -/

/-- Reads statements up to a token of kind `stop`, which is not taken, or the end of the input.
    Every round takes a token, so that a round for each of the tokens after the current one is
    enough: the last token is the end of the input. -/
def statementsUpTo (stop : Kind) (statement : ParseM Node) : List Token → ParseM (List Node)
  | [] => return []
  | _ :: rounds => do
    if ← check [stop, .endOfInput] then
      return []
    else if ← accept [.semicolon] then
      statementsUpTo stop statement rounds
    else
      let first ← statement
      let rest ← statementsUpTo stop statement rounds
      return first :: rest

/-- Reads operators of level `least` or tighter with their right operands, and folds them to the
    left. The right operand of an operator is read one level tighter, so that an operator of the
    same level that comes after it takes the whole of what was read as its left operand. A round
    for each of the tokens after the current one is enough. -/
def climb (least : Nat) (operand : Nat → ParseM Node) : List Token → Node → ParseM Node
  | [], left => return left
  | _ :: rounds, left => do
    match (← current).kind.level? with
    | none => return left
    | some level =>
      if level < least then
        return left
      else
        let op ← advance
        let right ← operand (level + 1)
        climb least operand rounds (.branch .binary [left, .ofToken op, right])

/-! ## Rules -/

mutual

/-- Statements up to a token of kind `stop`, which is not taken, or the end of the input. -/
def statements : Nat → Kind → ParseM (List Node)
  | 0, _ => giveUp
  | room + 1, stop => do
    statementsUpTo stop (statement room) (← get).after

/-- One statement; its first token selects the production. -/
def statement : Nat → ParseM Node
  | 0 => giveUp
  | room + 1 => do
    let token ← current
    match token.kind with
    | .kwVar => declaration room
    | .kwPrint => printStatement room
    | .kwIf => conditional room
    | .kwWhile => loop room
    | .kwElse => throw (.unexpected token .strayElse)
    | .closeBrace | .closeParen | .assign => throw (.unexpected token .statement)
    | _ =>
      if token.kind = .identifier && (← get).following.kind = .assign then
        discard advance
        discard advance
        let value ← expression room
        terminator
        return .branch .assignment [.ofToken token, value]
      else
        let value ← expression room
        terminator
        return .branch .expression [value]

/-- A declaration. -/
def declaration : Nat → ParseM Node
  | 0 => giveUp
  | room + 1 => do
    discard (expect .kwVar)
    let name ← expect .identifier
    discard (expect .assign)
    let value ← expression room
    terminator
    return .branch .declaration [.ofToken name, value]

/-- A print statement. -/
def printStatement : Nat → ParseM Node
  | 0 => giveUp
  | room + 1 => do
    discard (expect .kwPrint)
    discard (expect .openParen)
    let value ← expression room
    discard (expect .closeParen)
    terminator
    return .branch .print [value]

/-- A conditional. -/
def conditional : Nat → ParseM Node
  | 0 => giveUp
  | room + 1 => do
    discard (expect .kwIf)
    let test ← condition room
    let body ← block room
    if ← accept [.kwElse] then
      let alternative ← block room
      return .branch .conditional [test, body, alternative]
    else
      return .branch .conditional [test, body]

/-- A loop. -/
def loop : Nat → ParseM Node
  | 0 => giveUp
  | room + 1 => do
    discard (expect .kwWhile)
    let test ← condition room
    let body ← block room
    return .branch .loop [test, body]

/-- The condition of a conditional or a loop, with its parentheses. -/
def condition : Nat → ParseM Node
  | 0 => giveUp
  | room + 1 => do
    discard (expect .openParen)
    let test ← expression room
    discard (expect .closeParen)
    return test

/-- A block. -/
def block : Nat → ParseM Node
  | 0 => giveUp
  | room + 1 => do
    discard (expect .openBrace)
    let body ← statements room .closeBrace
    discard (expect .closeBrace)
    return .branch .block body

/-- An expression. -/
def expression : Nat → ParseM Node
  | 0 => giveUp
  | room + 1 => binary room 1

/-- An expression whose operators outside parentheses are of level `least` or tighter. -/
def binary : Nat → Nat → ParseM Node
  | 0, _ => giveUp
  | room + 1, least => do
    let left ← unary room
    climb least (binary room) (← get).after left

/-- Prefix operators and what they apply to. -/
def unary : Nat → ParseM Node
  | 0 => giveUp
  | room + 1 => do
    if (← current).kind.isUnary then
      let op ← advance
      let operand ← unary room
      return .branch .unary [.ofToken op, operand]
    else
      primary room

/-- A number, a string, an identifier or an expression in parentheses. -/
def primary : Nat → ParseM Node
  | 0 => giveUp
  | room + 1 => do
    let token ← current
    if token.kind.isAtom then
      return .ofToken (← advance)
    else if ← accept [.openParen] then
      let inner ← expression room
      discard (expect .closeParen)
      return inner
    else if token.kind = .endOfInput then
      throw (.unexpectedEnd token)
    else
      throw (.unexpected token .expression)

end

/-- How many rules a program may enter inside one another. -/
def depthLimit : Nat := 984

/-- A whole program. -/
def program : ParseM Node := do
  return .branch .program (← statements depthLimit .endOfInput)

end Grammar

/-- The program that tokens make up. -/
def parse (tokens : List Token) : Except ParseError Node :=
  match Grammar.program (.ofTokens tokens) with
  | .ok tree _ => .ok tree
  | .error e _ => .error e

end BraceScript
