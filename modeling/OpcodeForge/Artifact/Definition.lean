import OpcodeForge.Artifact.Code
import OpcodeForge.Config

/-!
# Instruction definitions

The enum of definitions with builder operands, the tables of sizes and terminal flags by ordinal,
and the function that writes a definition to bytecode.
-/

namespace OpcodeForge.Definition

/-- The name of the enum. -/
def enumName : String := "InstructionDef"

/-- The fields that definitions need. -/
def requirements : List Requirement :=
  [.defaulted .runtimeOperands, .required .operandWriters, .defaulted .builderOperands,
    .defaulted .terminal]

/-- A passthrough has the type that it writes. -/
def objection? (d : Descriptor) : Option Objection :=
  match d.passthroughFault? with
  | none => none
  | some (.needsCast _ position index type width) => some (.needsCast position index type width)
  | some fault => some (.other fault.message)

/-- Whether a word stands in a text, not as a part of a longer word; `before` is the character
before the text. -/
def mentions (word : List Char) (before : Option Char) : List Char → Bool
  | [] => false
  | c :: rest =>
    (word.isPrefixOf (c :: rest) && !before.any Text.isWordChar &&
      !((c :: rest).drop word.length).head?.any Text.isWordChar) ||
      mentions word (some c) rest

/-- Whether a writer reads a builder operand. -/
def reads (index : Nat) : Writer → Bool
  | .verbatim source => mentions (Writer.argName index).toList none source.toList
  | writer => writer.argIndex? == some index

/-- What a pattern binds for a builder operand: its name if some writer reads it. -/
def binding (d : Descriptor) (index : Nat) : String :=
  if d.operandWriters.any (reads index) then Writer.argName index else "_"

/-- The pattern for the builder operands. -/
def pattern (d : Descriptor) : String :=
  Code.tuple ((List.range d.builderOperands.length).map (binding d))

/-- The name of the function that writes an operand of a width. -/
def writeName (width : Width) : String := "write_" ++ width.typeName

/-- The statement that writes one operand. -/
def writeLine (writer : Writer) (width : Width) : Fragment :=
  .line ("bc." ++ writeName width ++ "(" ++ writer.render ++ ");")

/-- The entries of the tables by ordinal, so far. -/
structure Lookups where
  sizes : List String := []
  terminals : List String := []

/-- The entry of the table of sizes. -/
def sizeEntry (d : Descriptor) : String := Nat.repr d.wireSize

/-- The entry of the table of terminal flags. -/
def terminalEntry (d : Descriptor) : String := if d.isTerminal then "true" else "false"

/-- Makes the function from a definition to its opcode, and notes the size and the terminal flag of
each for the tables at the end. -/
def lookupEmitter (paths : CodePaths) : Emitter where
  requirements := requirements
  objection? := objection?
  State := Lookups
  start := {}
  header :=
    [.enter ("impl " ++ enumName ++ " \x7b"),
      .enter ("pub fn opcode(&self) -> " ++ Code.lastSegment paths.opcode ++ " \x7b"),
      .enter "match self \x7b"]
  opcode lookups d :=
    ([.line (enumName ++ "::" ++ d.name ++ Code.anyPayload (!d.builderOperands.isEmpty) ++ " => " ++
        Code.lastSegment paths.opcode ++ "::" ++ d.name ++ ",")],
      { sizes := lookups.sizes ++ [sizeEntry d]
        terminals := lookups.terminals ++ [terminalEntry d] })
  footer lookups :=
    [Code.closeBrace,
      Code.closeBrace,
      .line ("const RUNTIME_SIZE: &'static [usize] = &[" ++ Text.join ", " lookups.sizes ++ "];"),
      .line ("const IS_TERMINAL: &'static [bool] = &[" ++ Text.join ", " lookups.terminals ++ "];"),
      .line "/// Encoded size in bytes, opcode included",
      .enter "pub fn runtime_size(&self) -> usize \x7b",
      .line "Self::RUNTIME_SIZE[self.opcode().to_u8() as usize]",
      Code.closeBrace,
      .line "/// Whether this instruction ends a basic block",
      .enter "pub fn is_terminal(&self) -> bool \x7b",
      .line "Self::IS_TERMINAL[self.opcode().to_u8() as usize]",
      Code.closeBrace]

/-- The arm that writes the operands of an opcode. -/
def writeArm (d : Descriptor) : List Fragment :=
  let arm := enumName ++ "::" ++ d.name ++ pattern d ++ " =>"
  let writes := d.operandWriters.zipWith writeLine d.runtimeOperands
  if writes.isEmpty then [.line (arm ++ " \x7b\x7d")]
  else .enter (arm ++ " \x7b") :: writes ++ [Code.closeBrace]

/-- The function that writes a definition: the ordinal, then each operand. -/
def writeSection (paths : CodePaths) : Section where
  requirements := requirements
  header :=
    [.enter ("pub fn write(&self, bc: &mut " ++ Code.lastSegment paths.bytecode ++ ") \x7b"),
      .line "bc.write_u8(self.opcode().to_u8());",
      .enter "match self \x7b"]
  body := writeArm
  footer := [Code.closeBrace, Code.closeBrace, Code.closeBrace]

/-- The emitters of the definitions. -/
def emitters (paths : CodePaths) : List Emitter :=
  [(Code.importSection [paths.bytecode, paths.opcode]).emitter,
    (Code.enumSection "Debug, Clone" enumName Descriptor.builderOperands requirements).emitter,
    lookupEmitter paths,
    (writeSection paths).emitter]

end OpcodeForge.Definition
