import OpcodeForge.Text.Number
import OpcodeForge.Text.Unprintable

/-!
# Quoted text

A text between double quotes for a message. Quote, backslash, newline, carriage return, tab and NUL
have escapes of two characters; an unprintable character is shown by its code point.
-/

namespace OpcodeForge.Text

/-- How one character stands inside quotes. -/
def quotedChar (c : Char) : List Char :=
  if c == '"' then ['\\', '"']
  else if c == '\\' then ['\\', '\\']
  else if c == '\n' then ['\\', 'n']
  else if c == '\r' then ['\\', 'r']
  else if c == '\t' then ['\\', 't']
  else if c == '\x00' then ['\\', '0']
  else if isUnprintable c then ['\\', 'u', '\x7b'] ++ hexDigits 0 c.toNat ++ ['\x7d']
  else [c]

/-- The text between double quotes. -/
def quoted (s : String) : String :=
  String.ofList (['"'] ++ s.toList.flatMap quotedChar ++ ['"'])

end OpcodeForge.Text
