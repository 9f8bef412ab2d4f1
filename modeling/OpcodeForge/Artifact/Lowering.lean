import OpcodeForge.Artifact.Code
import OpcodeForge.Config

/-!
# Lowering

The dispatch from instructions of the syntax tree to definitions. A trivial opcode becomes the
definition of the same name; the others go to a module of their own.
-/

namespace OpcodeForge.Lowering

/-- The fields that lowering needs. -/
def requirements : List Requirement :=
  [.required .trivialLowering, .defaulted .astArgs, .defaulted .builderOperands,
    .defaulted .runtimeOperands]

/-- A trivial opcode has no operands on either side. -/
def objection? (d : Descriptor) : Option Objection :=
  if !d.trivialLowering then none
  else if !d.astArgs.isEmpty then some .loweringPayload
  else if !d.builderOperands.isEmpty then some .loweringOperands
  else none

/-- Module declarations and imports. -/
def modulesSection (paths : CodePaths) : Section where
  requirements := requirements
  objection? := objection?
  body d := if d.trivialLowering then [] else [Code.moduleLine d.moduleName]
  footer :=
    [paths.instruction, paths.sourceModule, paths.instructionDef, paths.moduleDef].map Code.useLine

/-- The pairs of an instruction and a definition without payloads. -/
def trivialSection (paths : CodePaths) : Section where
  requirements := requirements
  header :=
    [.enter ("const TRIVIAL_LOWERING: &[(" ++ Code.lastSegment paths.instruction ++ ", " ++
      Code.lastSegment paths.instructionDef ++ ")] = &[")]
  body d :=
    if d.trivialLowering then
      [.line ("(" ++ Code.lastSegment paths.instruction ++ "::" ++ d.name ++ ", " ++
        Code.lastSegment paths.instructionDef ++ "::" ++ d.name ++ "),")]
    else []
  footer := [.leave "];"]

/-- The function from instructions to definitions. -/
def dispatchSection (paths : CodePaths) : Section where
  requirements := requirements
  header :=
    [.enter ("pub(crate) fn lower_instruction(ast: &" ++ Code.lastSegment paths.sourceModule ++
        ", mdef: &mut " ++ Code.lastSegment paths.moduleDef ++ ", input: &" ++
        Code.lastSegment paths.instruction ++ ", b: &mut " ++ paths.builder ++ ") -> Vec<" ++
        Code.lastSegment paths.instructionDef ++ "> \x7b"),
      .line "let tag = std::mem::discriminant(input);",
      .enter ("if let Some((_, def)) = TRIVIAL_LOWERING.iter()" ++
        ".find(|(candidate, _)| std::mem::discriminant(candidate) == tag) \x7b"),
      .line "return vec![def.clone()];",
      Code.closeBrace,
      .enter "match input \x7b"]
  body d :=
    if d.trivialLowering then []
    else
      [.line (Code.lastSegment paths.instruction ++ "::" ++ d.name ++
        Code.anyPayload (!d.astArgs.isEmpty) ++ " => " ++ d.moduleName ++
        "::lower_instruction(ast, mdef, input, b),")]
  footer :=
    [.line ("_ => panic!(\"instruction \x7b:?\x7d should have been handled but is not\", " ++
        "input),"),
      Code.closeBrace, Code.closeBrace]

/-- The sections of the lowering dispatch. -/
def sections (paths : CodePaths) : List Section :=
  [modulesSection paths, trivialSection paths, dispatchSection paths]

end OpcodeForge.Lowering
