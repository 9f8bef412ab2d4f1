/-!
# Line endings

Carriage return with line feed, a lone carriage return and a lone line feed all end a line.
-/

namespace OpcodeForge.Text

/-- Writes every line ending as one line feed, from the left and taking a pair as one ending. -/
def unifyNewlineChars : List Char → List Char
  | [] => []
  | '\r' :: '\n' :: rest => '\n' :: unifyNewlineChars rest
  | '\r' :: rest => '\n' :: unifyNewlineChars rest
  | c :: rest => c :: unifyNewlineChars rest

/-- The text with every line ending as one line feed. -/
def unifyNewlines (s : String) : String := String.ofList (unifyNewlineChars s.toList)

end OpcodeForge.Text
