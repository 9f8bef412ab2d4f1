import OpcodeForge.Json.Value
import OpcodeForge.Text.Number

/-!
# Writing JSON

The pretty form: two spaces for each level, one item or member a line, and empty brackets for an
empty array or object.
-/

namespace OpcodeForge.Json

/-- How a character stands in a string: short escapes where there are any, a number for the other
control characters, and itself for the rest. -/
def escapedChar (c : Char) : List Char :=
  if c == '"' then ['\\', '"']
  else if c == '\\' then ['\\', '\\']
  else if c == '\x08' then ['\\', 'b']
  else if c == '\x0c' then ['\\', 'f']
  else if c == '\n' then ['\\', 'n']
  else if c == '\r' then ['\\', 'r']
  else if c == '\t' then ['\\', 't']
  else if c.toNat < 0x20 then ['\\', 'u'] ++ Text.hexDigits 4 c.toNat
  else [c]

/-- How an element of a string is written. -/
def CodeUnit.escaped : CodeUnit → List Char
  | .char c => escapedChar c
  | .code n => ['\\', 'u'] ++ Text.hexDigits 4 n

/-- A string between its quotes. -/
def Units.written (text : Units) : List Char := ['"'] ++ text.flatMap CodeUnit.escaped ++ ['"']

/-- A new line at a level. -/
def newline (level : Nat) : List Char := '\n' :: List.replicate (2 * level) ' '

mutual

/-- A document, its brackets closing at `level`. -/
def Value.pretty (level : Nat) : Value → List Char
  | .null => ['n', 'u', 'l', 'l']
  | .bool true => ['t', 'r', 'u', 'e']
  | .bool false => ['f', 'a', 'l', 's', 'e']
  | .number lexeme => lexeme
  | .string text => text.written
  | .array [] => ['[', ']']
  | .array (item :: items) =>
    ['['] ++ newline (level + 1) ++ item.pretty (level + 1) ++ prettyItems level items
  | .object [] => ['\x7b', '\x7d']
  | .object ((key, value) :: members) =>
    ['\x7b'] ++ newline (level + 1) ++ key.written ++ [':', ' '] ++ value.pretty (level + 1) ++
      prettyMembers level members

/-- The items after the first, and the closing bracket. -/
def prettyItems (level : Nat) : List Value → List Char
  | [] => newline level ++ [']']
  | item :: items =>
    [','] ++ newline (level + 1) ++ item.pretty (level + 1) ++ prettyItems level items

/-- The members after the first, and the closing brace. -/
def prettyMembers (level : Nat) : List (Units × Value) → List Char
  | [] => newline level ++ ['\x7d']
  | (key, value) :: members =>
    [','] ++ newline (level + 1) ++ key.written ++ [':', ' '] ++ value.pretty (level + 1) ++
      prettyMembers level members

end

/-- The number that spells a natural number. -/
def Value.ofNat (n : Nat) : Value := .number (Nat.toDigits 10 n)

/-- The string value of a text. -/
def Value.ofString (s : String) : Value := .string (Units.ofString s)

/-- The pretty text of a document. -/
def Value.print (value : Value) : String := String.ofList (value.pretty 0)

end OpcodeForge.Json
