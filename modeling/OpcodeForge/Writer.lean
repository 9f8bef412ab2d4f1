import OpcodeForge.Text.Number
import OpcodeForge.Text.Word
import OpcodeForge.Width

/-!
# Operand writers

A writer says how one runtime operand is made from the builder operands. It passes builder operand
`n` through (`arg3`), narrows it (`arg3 as u8`), or is code of another kind, which is kept verbatim.
-/

namespace OpcodeForge

/-- How a runtime operand is made from the builder operands. -/
inductive Writer where
  /-- A builder operand, unchanged. -/
  | arg (index : Nat)
  /-- A builder operand, reduced to a width. -/
  | cast (index : Nat) (width : Width)
  /-- Code that is emitted as it stands. -/
  | verbatim (source : String)
  deriving DecidableEq, Repr

namespace Writer

/-- A lexical element of a writer. -/
inductive Token where
  | star
  | conversion
  | arg (index : Nat)
  | width (width : Width)
  deriving DecidableEq, Repr

/-- Operand indices are 64-bit numbers. -/
def indexLimit : Nat := 0x10000000000000000

/-- White space between the tokens of a writer. -/
def isGap (c : Char) : Bool := c == ' ' || c == '\t' || c == '\r' || c == '\n'

/-- The token that a text starts with, and the rest of the text. -/
def Token.first? : List Char → Option (Token × List Char)
  | '*' :: rest => some (.star, rest)
  | 'a' :: 's' :: rest => some (.conversion, rest)
  | 'u' :: '8' :: rest => some (.width .byte, rest)
  | 'u' :: '1' :: '6' :: rest => some (.width .word, rest)
  | 'a' :: 'r' :: 'g' :: rest =>
    let digits := rest.takeWhile Char.isDigit
    if !digits.isEmpty && Text.ofDigits digits < indexLimit then
      some (.arg (Text.ofDigits digits), rest.dropWhile Char.isDigit)
    else none
  | _ => none

/-- A token has at least one character. -/
theorem Token.length_lt_of_first? {cs rest : List Char} {token : Token}
    (h : Token.first? cs = some (token, rest)) : rest.length < cs.length := by
  unfold Token.first? at h
  split at h
  case h_5 r =>
    have := (List.dropWhile_suffix (l := r) Char.isDigit).length_le
    simp only [Option.ite_none_right_eq_some, Option.some.injEq, Prod.mk.injEq] at h
    simp only [← h.2.2, List.length_cons]
    omega
  all_goals simp_all
  all_goals grind

set_option linter.unusedVariables false in
/-- The tokens of a text, if it is made of tokens and white space alone. -/
def Token.scan? (cs : List Char) : Option (List Token) :=
  match hgap : cs.dropWhile isGap with
  | [] => some []
  | c :: cs' =>
    match hfirst : Token.first? (c :: cs') with
    | none => none
    | some (token, rest) => (Token.scan? rest).map (token :: ·)
termination_by cs.length
decreasing_by
  have := Token.length_lt_of_first? hfirst
  have := (List.dropWhile_suffix (l := cs) isGap).length_le
  simp_all only [List.length_cons]
  omega

/-- The writer that tokens without a leading star stand for. -/
def ofOperand? : List Token → Option Writer
  | [.arg index] => some (.arg index)
  | [.arg index, .conversion, .width width] => some (.cast index width)
  | _ => none

/-- The writer that tokens stand for; one leading star says nothing. -/
def ofTokens? : List Token → Option Writer
  | .star :: tokens => ofOperand? tokens
  | tokens => ofOperand? tokens

/-- Reads a writer; what is not a passthrough or a cast is kept verbatim without the white space
around it. -/
def parse (source : String) : Writer :=
  match (Token.scan? source.toList).bind ofTokens? with
  | some writer => writer
  | none => .verbatim (Text.trim source)

/-- The builder operand that a passthrough or a cast reads. -/
def argIndex? : Writer → Option Nat
  | .arg index => some index
  | .cast index _ => some index
  | .verbatim _ => none

/-- The name of builder operand `index` in a writer. -/
def argName (index : Nat) : String := "arg" ++ Nat.repr index

/-- The expression that makes the operand; builder operands are bound by reference. -/
def render : Writer → String
  | .arg index => "*" ++ argName index
  | .cast index width => "*" ++ argName index ++ " as " ++ width.typeName
  | .verbatim source => source

end Writer

end OpcodeForge
