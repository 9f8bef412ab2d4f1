import OpcodeForge.Text.Number

/-!
# Assembly language of the sample

One statement a line. A keyword, in any letter case, starts a statement; spaces, tabs and comments
may stand between its parts. The whole text is read before any operand is held to its range.
-/

namespace OpcodeForge.Sample

/-- An instruction of the syntax tree. -/
inductive Instruction where
  | push (value : Int64)
  | jump (target : UInt16)
  | call (target : UInt16) (arity : UInt8)
  | nop
  | ret
  deriving DecidableEq, Repr

/-- Why a text is not assembled. -/
inductive AssemblyError where
  /-- The text is not a list of statements. -/
  | malformed
  /-- A number does not fit. -/
  | outOfRange (digits : String)
  deriving DecidableEq, Repr

/-- The wording of an error. -/
def AssemblyError.message : AssemblyError → String
  | .malformed => "parse error"
  | .outOfRange digits => s!"ast creation error: operand {digits} out of range"

namespace Assembly

/-- A statement, with the digits of its operands. -/
inductive Statement where
  | push (value : List Char)
  | jump (target : List Char)
  | call (target arity : List Char)
  | nop
  | ret
  deriving DecidableEq, Repr

/-- A space or a tab. -/
def isGap (c : Char) : Bool := c == ' ' || c == '\t'

/-- A character that ends a line. -/
def isLineEnd (c : Char) : Bool := c == '\n' || c == '\r'

/-- Skips spaces, tabs and a comment, which goes up to the end of its line. -/
def skip (cs : List Char) : List Char :=
  match cs.dropWhile isGap with
  | ';' :: rest => rest.dropWhile fun c => !isLineEnd c
  | rest => rest

/-- What follows a keyword, which is in lower case here and in any case in the text. -/
def keyword? : List Char → List Char → Option (List Char)
  | [], cs => some cs
  | k :: word, c :: cs => if c.toLower == k then keyword? word cs else none
  | _ :: _, [] => none

/-- Skips, then reads one or more digits. -/
def number? (cs : List Char) : Option (List Char × List Char) :=
  let cs := skip cs
  let digits := cs.takeWhile Char.isDigit
  if digits.isEmpty then none else some (digits, cs.dropWhile Char.isDigit)

/-- Skips, then reads a comma. -/
def comma? (cs : List Char) : Option (List Char) :=
  match skip cs with
  | ',' :: rest => some rest
  | _ => none

/-- Reads a push. -/
def push? (cs : List Char) : Option (Statement × List Char) := do
  let cs ← keyword? ['p', 'u', 's', 'h'] cs
  let (value, cs) ← number? cs
  pure (.push value, cs)

/-- Reads a jump. -/
def jump? (cs : List Char) : Option (Statement × List Char) := do
  let cs ← keyword? ['j', 'u', 'm', 'p'] cs
  let (target, cs) ← number? cs
  pure (.jump target, cs)

/-- Reads a call. -/
def call? (cs : List Char) : Option (Statement × List Char) := do
  let cs ← keyword? ['c', 'a', 'l', 'l'] cs
  let (target, cs) ← number? cs
  let cs ← comma? cs
  let (arity, cs) ← number? cs
  pure (.call target arity, cs)

/-- Reads a nop. -/
def nop? (cs : List Char) : Option (Statement × List Char) :=
  (keyword? ['n', 'o', 'p'] cs).map fun cs => (.nop, cs)

/-- Reads a ret. -/
def ret? (cs : List Char) : Option (Statement × List Char) :=
  (keyword? ['r', 'e', 't'] cs).map fun cs => (.ret, cs)

/-- Reads a statement: the first alternative that matches. -/
def statement? (cs : List Char) : Option (Statement × List Char) :=
  push? cs <|> jump? cs <|> call? cs <|> nop? cs <|> ret? cs

/-- Reads a statement if there is one. -/
def optionalStatement (cs : List Char) : List Statement × List Char :=
  match statement? cs with
  | some (statement, rest) => ([statement], rest)
  | none => ([], cs)

/-- What follows a line ending. -/
def newline? : List Char → Option (List Char)
  | '\r' :: '\n' :: rest => some rest
  | '\n' :: rest => some rest
  | '\r' :: rest => some rest
  | _ => none

/-- One turn of the repetition of lines: a statement if there is one, then a line ending. -/
def turn? (cs : List Char) : Option (List Statement × List Char) :=
  let (statement, rest) := optionalStatement cs
  (newline? (skip rest)).map fun rest => (statement, rest)

/-- The turns after the first one, with a skip before each; `fuel` bounds their number. The turn
that fails gives back what it has read, its skip included. -/
def laterTurns : Nat → List Char → List Statement × List Char
  | 0, cs => ([], cs)
  | fuel + 1, cs =>
    match turn? (skip cs) with
    | some (statement, rest) =>
      let (statements, rest) := laterTurns fuel rest
      (statement ++ statements, rest)
    | none => ([], cs)

/-- The repetition of lines. A line ending has at least one character, so that there are at most as
many turns as characters. -/
def turns (cs : List Char) : List Statement × List Char :=
  match turn? cs with
  | some (statement, rest) =>
    let (statements, rest) := laterTurns rest.length rest
    (statement ++ statements, rest)
  | none => ([], cs)

/-- What follows the repetition: a statement if there is one, then the end of the text. -/
def last? (cs : List Char) : Option (List Statement) :=
  let (statement, rest) := optionalStatement cs
  if (skip rest).isEmpty then some statement else none

/-- The statements of a text: lines with their endings, then a last line without one. -/
def program? (cs : List Char) : Option (List Statement) :=
  let (statements, rest) := turns (skip cs)
  (last? (skip rest)).map (statements ++ ·)

/-- The number that digits stand for, below a limit. -/
def bounded (limit : Nat) (digits : List Char) : Except AssemblyError Nat :=
  let n := Text.ofDigits digits
  if n < limit then .ok n else .error (.outOfRange (String.ofList digits))

/-- The instruction of a statement; operands are held to their range from the left. -/
def Statement.toInstruction : Statement → Except AssemblyError Instruction
  | .push value => do
    let value ← bounded 0x8000000000000000 value
    pure (.push (Int64.ofNat value))
  | .jump target => do
    let target ← bounded 0x10000 target
    pure (.jump (UInt16.ofNat target))
  | .call target arity => do
    let target ← bounded 0x10000 target
    let arity ← bounded 0x100 arity
    pure (.call (UInt16.ofNat target) (UInt8.ofNat arity))
  | .nop => .ok .nop
  | .ret => .ok .ret

end Assembly

/-- The instructions of a text. -/
def assemble (source : String) : Except AssemblyError (List Instruction) :=
  match Assembly.program? source.toList with
  | some statements => statements.mapM Assembly.Statement.toInstruction
  | none => .error .malformed

end OpcodeForge.Sample
