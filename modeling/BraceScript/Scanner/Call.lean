import BraceScript.Scanner

/-!
# Scanner calls

Every action on a scanner as a value, so that histories of calls can be run and spoken about. A
call may come at any place of the text and after failures of earlier ones.
-/

namespace BraceScript.Scanner

/-- An action on a scanner. -/
inductive Call where
  | peek (offset : Int)
  | advance (count : Int)
  | skipLayout
  | scanItem
  | scanString
  | scanNumber
  | scanWord
  | scanOperator
  | skipLineComment
  | skipBlockComment
  | finish
  deriving DecidableEq, Repr

/-- What a call gives back. -/
inductive Reply where
  | nothing
  | text (s : String)
  | flag (b : Bool)
  | tokens (ts : List Token)
  deriving DecidableEq, Repr

/-- Why a call fails: a scanning error, a request to advance by a negative number, or one to look at
    a place that is not in the text. -/
inductive CallError where
  | scan (e : ScanError)
  | negativeCount (count : Int)
  | outOfRange
  deriving DecidableEq, Repr

/-- What the caller is told about a failed call. -/
def CallError.notice : CallError → Notice
  | scan e => e.notice
  | negativeCount count => { message := s!"advance() requires n >= 0, got {count}" }
  | outOfRange => { message := "string index out of range" }

/-- The character at an offset from the current place. Past the end there are NUL characters. Places
    before the text count from its end, as far as there are characters. -/
def peek? (s : Scanner) (offset : Int) : Option Char :=
  let index := s.here.offset + offset
  let place := if index < 0 then index + s.source.length else index
  if place < 0 then none else some (s.source.getD place.toNat '\x00')

/-- The outcome of a scanning action as the outcome of a call. -/
def reply {α : Type} (action : ScanM α) (wrap : α → Reply) (s : Scanner) :
    Except CallError Reply × Scanner :=
  match action s with
  | .ok a s => (.ok (wrap a), s)
  | .error e s => (.error (.scan e), s)

/-- Makes a call and gives its outcome and the scanner after it. -/
def call (s : Scanner) : Call → Except CallError Reply × Scanner
  | .peek offset =>
    match s.peek? offset with
    | some c => (.ok (.text (String.ofList [c])), s)
    | none => (.error .outOfRange, s)
  | .advance count =>
    if count < 0 then (.error (.negativeCount count), s)
    else reply (Scanner.advance count.toNat) (fun cs => .text (String.ofList cs)) s
  | .skipLayout => reply Scanner.skipLayout .flag s
  | .scanItem => reply Scanner.scanItem (fun _ => .nothing) s
  | .scanString => reply Scanner.scanString (fun _ => .nothing) s
  | .scanNumber => reply Scanner.scanNumber (fun _ => .nothing) s
  | .scanWord => reply Scanner.scanWord (fun _ => .nothing) s
  | .scanOperator => reply Scanner.scanOperator (fun _ => .nothing) s
  | .skipLineComment => reply Scanner.skipLineComment (fun _ => .nothing) s
  | .skipBlockComment => reply Scanner.skipBlockComment (fun _ => .nothing) s
  | .finish => reply Scanner.finish .tokens s

end BraceScript.Scanner
