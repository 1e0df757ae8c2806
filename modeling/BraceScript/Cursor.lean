import BraceScript.Token

/-!
# Token cursors

A cursor is a place in a list of tokens that ends with the end of the input: the tokens before
it, the nearest first, the current token and the tokens after it. It can move on but not past the
last token.
-/

namespace BraceScript

/-- A place in a list of tokens. -/
structure Cursor where
  before : List Token
  current : Token
  after : List Token
  deriving DecidableEq, Repr

namespace Cursor

/-- Adds the end of the input to a list of tokens that does not end with it. -/
def close (tokens : List Token) : List Token :=
  match tokens.getLast? with
  | some last => if last.kind = .endOfInput then tokens else tokens ++ [.bareEnd]
  | none => [.bareEnd]

/-- The cursor at the first of some tokens, the end of the input added if need be. -/
def ofTokens (tokens : List Token) : Cursor :=
  match close tokens with
  | first :: rest => ⟨[], first, rest⟩
  | [] => ⟨[], .bareEnd, []⟩

/-- All the tokens, wherever the cursor stands. -/
def tokens (c : Cursor) : List Token := c.before.reverse ++ c.current :: c.after

/-- How many tokens stand before the cursor. -/
def index (c : Cursor) : Nat := c.before.length

/-- The cursor one token further on, or where it is at the last token. -/
def next (c : Cursor) : Cursor :=
  match c.after with
  | [] => c
  | token :: rest => ⟨c.current :: c.before, token, rest⟩

/-- The token after the current one; the last token if there is none. -/
def following (c : Cursor) : Token := c.after.headD c.current

/-- The token at an offset from the current one. Past the end it is the last token. Places before
    the first token count from the end, as far as there are tokens. -/
def peek? (c : Cursor) (offset : Int) : Option Token :=
  let place := c.index + offset
  let place := if place < 0 then place + c.tokens.length else place
  if place < 0 then none else some (c.tokens.getD place.toNat (c.tokens.getLastD c.current))

end Cursor

end BraceScript
