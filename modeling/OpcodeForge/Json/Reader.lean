import OpcodeForge.Json.Value
import OpcodeForge.Text.Number

/-!
# Reading JSON

The strict grammar: no comments, no trailing commas, no leading zeros, no control characters in
strings. Every reader takes a list of characters and gives back what it did not use.
-/

namespace OpcodeForge.Json

/-- White space between tokens. -/
def isGap (c : Char) : Bool := c == ' ' || c == '\t' || c == '\n' || c == '\r'

/-- Skips white space. -/
def skipGap (cs : List Char) : List Char := cs.dropWhile isGap

/-- The character that a one-letter escape stands for. -/
def shortEscape? (c : Char) : Option Char :=
  if c == '"' then some '"'
  else if c == '\\' then some '\\'
  else if c == '/' then some '/'
  else if c == 'b' then some '\x08'
  else if c == 'f' then some '\x0c'
  else if c == 'n' then some '\n'
  else if c == 'r' then some '\r'
  else if c == 't' then some '\t'
  else none

/-- The code unit that four hexadecimal digits give. -/
def codeUnit? (a b c d : Char) : Option Nat := do
  let a ← Text.hexValue? a
  let b ← Text.hexValue? b
  let c ← Text.hexValue? c
  let d ← Text.hexValue? d
  pure (((a * 16 + b) * 16 + c) * 16 + d)

/-- Reads the rest of a string after its opening quote. -/
def readText : List Char → Option (Units × List Char)
  | [] => none
  | '"' :: rest => some ([], rest)
  | '\\' :: 'u' :: a :: b :: c :: d :: rest => do
    let n ← codeUnit? a b c d
    let (text, rest) ← readText rest
    pure (.code n :: text, rest)
  | '\\' :: e :: rest => do
    let c ← shortEscape? e
    let (text, rest) ← readText rest
    pure (.char c :: text, rest)
  | c :: rest =>
    if c.toNat < 0x20 then none
    else do
      let (text, rest) ← readText rest
      pure (.char c :: text, rest)

/-- The characters that can stand in a number. -/
def isNumberChar (c : Char) : Bool :=
  c.isDigit || c == '-' || c == '+' || c == '.' || c == 'e' || c == 'E'

/-- One or more digits and nothing else. -/
def isDigits : List Char → Bool
  | [] => false
  | cs => cs.all Char.isDigit

/-- Nothing, or an exponent. -/
def isExponent : List Char → Bool
  | [] => true
  | e :: '+' :: rest => (e == 'e' || e == 'E') && isDigits rest
  | e :: '-' :: rest => (e == 'e' || e == 'E') && isDigits rest
  | e :: rest => (e == 'e' || e == 'E') && isDigits rest

/-- An optional fraction and an optional exponent. -/
def isFraction : List Char → Bool
  | '.' :: c :: rest => c.isDigit && isExponent (rest.dropWhile Char.isDigit)
  | rest => isExponent rest

/-- A number without its sign: no leading zero unless zero is the whole part. -/
def isMagnitude : List Char → Bool
  | [] => false
  | '0' :: rest => isFraction rest
  | c :: rest => c.isDigit && isFraction (rest.dropWhile Char.isDigit)

/-- The spelling of a number. -/
def isNumber : List Char → Bool
  | '-' :: rest => isMagnitude rest
  | cs => isMagnitude cs

/-- Reads a number. -/
def readNumber (cs : List Char) : Option (Value × List Char) :=
  let lexeme := cs.takeWhile isNumberChar
  if isNumber lexeme then some (.number lexeme, cs.dropWhile isNumberChar) else none

mutual

/-- Reads one document; `fuel` bounds the number of nested calls. -/
def readValue : Nat → List Char → Option (Value × List Char)
  | 0, _ => none
  | fuel + 1, cs =>
    match skipGap cs with
    | 'n' :: 'u' :: 'l' :: 'l' :: rest => some (.null, rest)
    | 't' :: 'r' :: 'u' :: 'e' :: rest => some (.bool true, rest)
    | 'f' :: 'a' :: 'l' :: 's' :: 'e' :: rest => some (.bool false, rest)
    | '"' :: rest => (readText rest).map fun (text, rest) => (.string text, rest)
    | '[' :: rest =>
      match skipGap rest with
      | ']' :: rest => some (.array [], rest)
      | rest => (readItems fuel rest).map fun (items, rest) => (.array items, rest)
    | '\x7b' :: rest =>
      match skipGap rest with
      | '\x7d' :: rest => some (.object [], rest)
      | rest => (readMembers fuel rest).map fun (members, rest) => (.object members, rest)
    | rest => readNumber rest

/-- Reads the items of an array that has one, and the closing bracket. -/
def readItems : Nat → List Char → Option (List Value × List Char)
  | 0, _ => none
  | fuel + 1, cs => do
    let (item, rest) ← readValue fuel cs
    match skipGap rest with
    | ',' :: rest => (readItems fuel rest).map fun (items, rest) => (item :: items, rest)
    | ']' :: rest => some ([item], rest)
    | _ => none

/-- Reads the members of an object that has one, and the closing brace. -/
def readMembers : Nat → List Char → Option (List (Units × Value) × List Char)
  | 0, _ => none
  | fuel + 1, cs => do
    let (key, value, rest) ← readMember fuel cs
    match skipGap rest with
    | ',' :: rest => (readMembers fuel rest).map fun (ms, rest) => ((key, value) :: ms, rest)
    | '\x7d' :: rest => some ([(key, value)], rest)
    | _ => none

/-- Reads a key, a colon and a value. -/
def readMember : Nat → List Char → Option (Units × Value × List Char)
  | 0, _ => none
  | fuel + 1, cs =>
    match skipGap cs with
    | '"' :: rest => do
      let (key, rest) ← readText rest
      match skipGap rest with
      | ':' :: rest => (readValue fuel rest).map fun (value, rest) => (key, value, rest)
      | _ => none
    | _ => none

end

/-- Reads a whole text as one document with white space around it. Every nested call uses at most
three steps of fuel for each character that it reads. -/
def parse (s : String) : Option Value :=
  let cs := s.toList
  match readValue (3 * cs.length + 3) cs with
  | some (value, rest) => if (skipGap rest).isEmpty then some value else none
  | none => none

/-- The value of a number that is spelled with digits alone. -/
def Value.natural? : Value → Option Nat
  | .number lexeme => if isDigits lexeme then some (Text.ofDigits lexeme) else none
  | _ => none

end OpcodeForge.Json
