import OpcodeForge.Artifact.Kind
import OpcodeForge.Error
import OpcodeForge.Path

/-!
# Configuration

Where the table, the manifest and the artifacts are, and what the generated code calls the items it
refers to. Everything has a default.
-/

namespace OpcodeForge

/-- Where the artifacts go. -/
structure Outputs where
  grammar : Path := ⟨"assembler/src/ops.pest"⟩
  astEnum : Path := ⟨"assembler/src/ast/instructions/mod.rs"⟩
  astDispatch : Path := ⟨"assembler/src/ast/instructions/imp.rs"⟩
  lowering : Path := ⟨"assembler/src/lowering/instructions/mod.rs"⟩
  instructionDef : Path := ⟨"runtime/src/instruction_def.rs"⟩
  runtimeDecoder : Path := ⟨"runtime/src/instruction_runtime.rs"⟩
  opcodes : Path := ⟨"runtime/src/opcodes.rs"⟩
  deriving DecidableEq, Repr

namespace Outputs

/-- Where an artifact goes. -/
def path (outputs : Outputs) : ArtifactKind → Path
  | .grammar => outputs.grammar
  | .astEnum => outputs.astEnum
  | .astDispatch => outputs.astDispatch
  | .lowering => outputs.lowering
  | .instructionDef => outputs.instructionDef
  | .runtimeDecoder => outputs.runtimeDecoder
  | .opcodes => outputs.opcodes

/-- Where the artifacts go, in the order of generation. -/
def toList (outputs : Outputs) : List Path := ArtifactKind.all.map outputs.path

/-- Applies a function to every path. -/
def map (f : Path → Path) (outputs : Outputs) : Outputs where
  grammar := f outputs.grammar
  astEnum := f outputs.astEnum
  astDispatch := f outputs.astDispatch
  lowering := f outputs.lowering
  instructionDef := f outputs.instructionDef
  runtimeDecoder := f outputs.runtimeDecoder
  opcodes := f outputs.opcodes

end Outputs

/-- The items that the generated code refers to, as paths of the generated language. -/
structure CodePaths where
  /-- The byte buffer. -/
  bytecode : String := "crate::bytecode::Bytecode"
  /-- The ordinal enum. -/
  opcode : String := "crate::opcodes::Opcode"
  /-- The enum of grammar rules. -/
  rule : String := "crate::parser::Rule"
  /-- The result type of syntax tree construction. -/
  astResult : String := "crate::result::AssemblerResult"
  /-- The error type of syntax tree construction. -/
  astError : String := "crate::result::AssemblerError"
  /-- The instructions of the syntax tree. -/
  instruction : String := "crate::ast::instructions::Instruction"
  /-- The definitions that lowering makes. -/
  instructionDef : String := "runtime::instruction_def::InstructionDef"
  /-- The parsed module. -/
  sourceModule : String := "crate::ast::module::Module"
  /-- The module definition under construction. -/
  moduleDef : String := "runtime::module_definition::ModuleDef"
  /-- The bytecode builder. -/
  builder : String := "runtime::builder::Builder"
  /-- Further imports of the syntax tree. -/
  astImports : List String := []
  deriving DecidableEq, Repr

/-- The paths that need a name. -/
def CodePaths.named (paths : CodePaths) : List String :=
  [paths.bytecode, paths.opcode, paths.rule, paths.astResult, paths.astError, paths.instruction,
    paths.instructionDef, paths.sourceModule, paths.moduleDef, paths.builder]

/-- A configuration. -/
structure Config where
  table : Path := ⟨"ops.json"⟩
  manifest : Path := ⟨"ops.lock.json"⟩
  outputs : Outputs := {}
  paths : CodePaths := {}
  deriving DecidableEq, Repr

namespace Config

/-- Holds the outputs, in order, to differ from those before them and from the inputs. -/
def checkOutputs (c : Config) (seen : List Path) : List Path → Except ConfigError Unit
  | [] => .ok ()
  | output :: rest =>
    if seen.any output.same then .error .duplicateOutput
    else if output.same c.table || output.same c.manifest then .error .outputShadowsInput
    else checkOutputs c (output :: seen) rest

/-- Accepts a configuration whose outputs are files of their own and whose code paths have names. -/
def validate (c : Config) : Except ConfigError Unit := do
  c.checkOutputs [] c.outputs.toList
  if c.paths.named.any fun path => (Text.trim path).isEmpty then throw .emptyCodePath

/-- The configuration with its files seen from a directory. -/
def resolved (c : Config) (root : Path) : Config :=
  { c with
    table := root.join c.table
    manifest := root.join c.manifest
    outputs := c.outputs.map root.join }

end Config

end OpcodeForge
