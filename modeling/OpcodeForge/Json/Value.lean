/-!
# JSON documents

A document as its text says it: numbers keep their spelling and strings their escapes, so that a
value nobody looks at is only held to the grammar. `Units.decode` and `natural?` give the meaning of
a string and of a number where one is wanted.
-/

namespace OpcodeForge.Json

/-- One element of a string: a character, or a code unit given by number. -/
inductive CodeUnit where
  | char (c : Char)
  | code (n : Nat)
  deriving DecidableEq, Repr

/-- The content of a string, before its code units are paired up. -/
abbrev Units := List CodeUnit

/-- A document. -/
inductive Value where
  | null
  | bool (b : Bool)
  | number (lexeme : List Char)
  | string (text : Units)
  | array (items : List Value)
  | object (members : List (Units × Value))
  deriving Repr

/-- Whether a code unit is half of a surrogate pair. -/
def isSurrogate (n : Nat) : Bool := 0xD800 ≤ n && n ≤ 0xDFFF

/-- Whether two code units, in this order, make a surrogate pair. -/
def isPair (high low : Nat) : Bool := 0xD800 ≤ high && high < 0xDC00 && 0xDC00 ≤ low && low ≤ 0xDFFF

/-- The code point that a surrogate pair stands for. -/
def pairValue (high low : Nat) : Nat := 0x10000 + (high - 0xD800) * 0x400 + (low - 0xDC00)

/-- The characters of a string, unless half of a surrogate pair stands alone. -/
def Units.decode : Units → Option (List Char)
  | [] => some []
  | .char c :: rest => (Units.decode rest).map (c :: ·)
  | .code high :: .code low :: rest =>
    if isPair high low then (Units.decode rest).map (Char.ofNat (pairValue high low) :: ·)
    else if isSurrogate high then none
    else (Units.decode (.code low :: rest)).map (Char.ofNat high :: ·)
  | .code n :: rest =>
    if isSurrogate n then none else (Units.decode rest).map (Char.ofNat n :: ·)

/-- The string content that spells a text without any escape by number. -/
def Units.ofString (s : String) : Units := s.toList.map .char

/-- The text of a string value. -/
def Value.string? : Value → Option String
  | .string text => text.decode.map String.ofList
  | _ => none

/-- The truth value of a document. -/
def Value.bool? : Value → Option Bool
  | .bool b => some b
  | _ => none

/-- The items of an array, each read by `item`. -/
def Value.list? {α : Type} (item : Value → Option α) : Value → Option (List α)
  | .array items => items.mapM item
  | _ => none

end OpcodeForge.Json
