import OpcodeForge.Artifact.Code
import OpcodeForge.Config

/-!
# The runtime decoder

The enum of instructions with wire operands, and the function that reads one at an offset and gives
the offset just past it.
-/

namespace OpcodeForge.Decoder

/-- The name of the enum. -/
def enumName : String := "RuntimeInstruction"

/-- The fields that the decoder needs. -/
def requirements : List Requirement := [.defaulted .runtimeOperands]

/-- The types of the wire operands. -/
def payload (d : Descriptor) : List String := d.runtimeOperands.map Width.typeName

/-- The name of the function that reads an operand of a width. -/
def readName (width : Width) : String := "read_" ++ width.typeName

/-- The statement that moves the offset. -/
def advanceLine (bytes : Nat) : Fragment := .line ("idx += " ++ Nat.repr bytes ++ ";")

/-- The statements that read one operand and move past it. -/
def readLines (index : Nat) (width : Width) : List Fragment :=
  [.line ("let " ++ Writer.argName index ++ " = bc." ++ readName width ++ "(idx);"),
    advanceLine width.size]

/-- The arm that reads the operands of an opcode. -/
def readArm (opcode : String) (d : Descriptor) : List Fragment :=
  let arm := opcode ++ "::" ++ d.name ++ " =>"
  let result := enumName ++ "::" ++ d.name ++
    Code.tuple ((List.range d.runtimeOperands.length).map Writer.argName)
  if d.runtimeOperands.isEmpty then [.line (arm ++ " Some((" ++ result ++ ", idx)),")]
  else
    [.enter (arm ++ " \x7b"),
      .enter ("if bc.len() < idx + " ++ Nat.repr d.operandSize ++ " \x7b"),
      .line "return None;",
      Code.closeBrace] ++
    d.runtimeOperands.zipIdx.flatMap (fun (width, index) => readLines index width) ++
    [.line ("Some((" ++ result ++ ", idx))"), Code.closeBrace]

/-- The function that reads an instruction. -/
def readSection (paths : CodePaths) : Section where
  requirements := requirements
  header :=
    [.enter ("impl " ++ enumName ++ " \x7b"),
      .line "/// Decode the instruction at `i`, with the offset just past it",
      .enter ("pub fn from_bytecode(bc: &" ++ Code.lastSegment paths.bytecode ++
        ", i: usize) -> Option<(" ++ enumName ++ ", usize)> \x7b"),
      .enter "if i >= bc.len() \x7b",
      .line "return None;",
      Code.closeBrace,
      .line "let mut idx = i;",
      .line ("let opcode = " ++ Code.lastSegment paths.opcode ++ "::from_u8(bc.read_u8(idx))?;"),
      advanceLine opcodeBytes,
      .enter "match opcode \x7b"]
  body := readArm (Code.lastSegment paths.opcode)
  footer :=
    [.line (Code.lastSegment paths.opcode ++ "::MAX => None,"),
      Code.closeBrace, Code.closeBrace, Code.closeBrace]

/-- The sections of the decoder. -/
def sections (paths : CodePaths) : List Section :=
  [Code.importSection [paths.bytecode, paths.opcode],
    Code.enumSection "Debug, Clone, PartialEq, Eq" enumName payload requirements,
    readSection paths]

end OpcodeForge.Decoder
