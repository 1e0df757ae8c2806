/-!
# String literals

The text of a string literal stands between double quotes. A backslash and the character after it
stand for one character if the pair is a known escape, and for themselves otherwise.
-/

namespace BraceScript.Literal

/-- The character that a backslash and the given character stand for. -/
def escape? : Char → Option Char
  | '"' => some '"'
  | '\\' => some '\\'
  | 'n' => some '\n'
  | 't' => some '\t'
  | 'r' => some '\r'
  | _ => none

/-- Resolves the escapes of a text. A backslash at its very end stands for itself. -/
def unescape : List Char → List Char
  | '\\' :: c :: rest =>
    match escape? c with
    | some d => d :: unescape rest
    | none => '\\' :: c :: unescape rest
  | c :: rest => c :: unescape rest
  | [] => []

/-- Takes off the quotes of a text of two characters or more that starts and ends with one. -/
def unquote (cs : List Char) : List Char :=
  match cs with
  | '"' :: rest@(_ :: _) => if rest.getLast? = some '"' then rest.dropLast else cs
  | _ => cs

/-- The string that a literal stands for. A text without a backslash is taken as it is. -/
def decode (raw : String) : String :=
  let body := unquote raw.toList
  String.ofList (if '\\' ∈ body then unescape body else body)

end BraceScript.Literal
