import OpcodeForge.Artifact.Code
import OpcodeForge.Config

/-!
# The syntax tree

Two artifacts: the enum of instructions, and the dispatch from grammar rules to instructions. An
opcode with a trivial syntax tree is looked up in a list of pairs; the others go to a module of
their own.
-/

namespace OpcodeForge.Ast

/-- The module with the dispatch. -/
def dispatchModule : String := "imp"

/-- The fields that the enum needs. -/
def enumRequirements : List Requirement := [.defaulted .astArgs, .required .trivialAst]

/-- The fields that the dispatch needs. -/
def dispatchRequirements : List Requirement := [.required .trivialAst, .defaulted .astArgs]

/-- Module declarations and imports. -/
def modulesSection (paths : CodePaths) : Section where
  requirements := enumRequirements
  header := [Code.moduleLine dispatchModule]
  body d := if d.trivialAst then [] else [Code.moduleLine d.moduleName]
  footer := paths.astImports.map Code.useLine

/-- The sections of the enum. -/
def enumSections (paths : CodePaths) : List Section :=
  [modulesSection paths,
    Code.enumSection "Debug, Clone" "Instruction" Descriptor.astArgs enumRequirements]

/-- The pairs of a rule and an instruction without a payload. -/
def trivialSection (paths : CodePaths) : Section where
  requirements := dispatchRequirements
  objection? d := if d.trivialAst && !d.astArgs.isEmpty then some .astPayload else none
  header :=
    [Code.useLine paths.rule, Code.useLine paths.astError, Code.useLine paths.astResult,
      .enter ("const TRIVIAL_RULES: &[(" ++ Code.lastSegment paths.rule ++
        ", super::Instruction)] = &[")]
  body d :=
    if d.trivialAst then
      [.line ("(" ++ Code.lastSegment paths.rule ++ "::" ++ d.ruleName ++
        ", super::Instruction::" ++ d.name ++ "),")]
    else []
  footer := [.leave "];"]

/-- The function from rules to instructions. -/
def dispatchSection (paths : CodePaths) : Section where
  requirements := dispatchRequirements
  header :=
    [.enter "impl super::Instruction \x7b",
      .enter ("pub(crate) fn from_parse_tree(p: pest::iterators::Pair<'_, " ++
        Code.lastSegment paths.rule ++ ">) -> " ++ Code.lastSegment paths.astResult ++
        "<Self> \x7b"),
      .line "let rule = p.as_rule();",
      .enter ("if let Some((_, instruction)) = TRIVIAL_RULES.iter()" ++
        ".find(|(candidate, _)| *candidate == rule) \x7b"),
      .line "return Ok(instruction.clone());",
      Code.closeBrace,
      .enter "match rule \x7b"]
  body d :=
    if d.trivialAst then []
    else
      [.line (Code.lastSegment paths.rule ++ "::" ++ d.ruleName ++ " => super::" ++ d.moduleName ++
        "::from_parse_tree(p),")]
  footer :=
    [.line ("_ => Err(" ++ Code.lastSegment paths.astError ++ "::AstGenerationError(format!(" ++
        "\"invalid rule does not match an instruction \x7b:?\x7d\", rule))),"),
      Code.closeBrace, Code.closeBrace, Code.closeBrace]

/-- The sections of the dispatch. -/
def dispatchSections (paths : CodePaths) : List Section :=
  [trivialSection paths, dispatchSection paths]

end OpcodeForge.Ast
