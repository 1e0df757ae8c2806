/-!
# Line ends

Text read from a file or from standard input has its line ends made uniform: a carriage return
with a line feed after it, or one by itself, becomes a line feed.
-/

namespace BraceScript.Text

/-- Makes the line ends of a text uniform. -/
def uniformNewlines : List Char → List Char
  | '\r' :: '\n' :: rest => '\n' :: uniformNewlines rest
  | '\r' :: rest => '\n' :: uniformNewlines rest
  | c :: rest => c :: uniformNewlines rest
  | [] => []

end BraceScript.Text
