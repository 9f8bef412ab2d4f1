import OpcodeForge.Config
import OpcodeForge.Json.Reader
import OpcodeForge.Json.Record

/-!
# Configuration documents

A configuration document is an open JSON record; what it leaves out has a default.
-/

namespace OpcodeForge

/-- Reads a path. -/
def Path.ofJson? (value : Json.Value) : Option Path := value.string?.map Path.mk

/-- Reads the outputs. -/
def Outputs.ofJson? (value : Json.Value) : Option Outputs := do
  let given ← Json.fields? .extensible
    ["grammar", "ast_enum", "ast_dispatch", "lowering", "instruction_def", "runtime_decoder",
      "opcodes"] value
  let default : Outputs := {}
  match given with
  | [grammar, astEnum, astDispatch, lowering, instructionDef, runtimeDecoder, opcodes] =>
    let grammar ← Json.withDefault default.grammar Path.ofJson? grammar
    let astEnum ← Json.withDefault default.astEnum Path.ofJson? astEnum
    let astDispatch ← Json.withDefault default.astDispatch Path.ofJson? astDispatch
    let lowering ← Json.withDefault default.lowering Path.ofJson? lowering
    let instructionDef ← Json.withDefault default.instructionDef Path.ofJson? instructionDef
    let runtimeDecoder ← Json.withDefault default.runtimeDecoder Path.ofJson? runtimeDecoder
    let opcodes ← Json.withDefault default.opcodes Path.ofJson? opcodes
    pure { grammar, astEnum, astDispatch, lowering, instructionDef, runtimeDecoder, opcodes }
  | _ => none

/-- Reads the code paths. -/
def CodePaths.ofJson? (value : Json.Value) : Option CodePaths := do
  let given ← Json.fields? .extensible
    ["bytecode", "opcode", "rule", "ast_result", "ast_error", "instruction", "instruction_def",
      "module", "module_def", "builder", "ast_imports"] value
  let default : CodePaths := {}
  let text := Json.Value.string?
  match given with
  | [bytecode, opcode, rule, astResult, astError, instruction, instructionDef, sourceModule,
      moduleDef, builder, astImports] =>
    let bytecode ← Json.withDefault default.bytecode text bytecode
    let opcode ← Json.withDefault default.opcode text opcode
    let rule ← Json.withDefault default.rule text rule
    let astResult ← Json.withDefault default.astResult text astResult
    let astError ← Json.withDefault default.astError text astError
    let instruction ← Json.withDefault default.instruction text instruction
    let instructionDef ← Json.withDefault default.instructionDef text instructionDef
    let sourceModule ← Json.withDefault default.sourceModule text sourceModule
    let moduleDef ← Json.withDefault default.moduleDef text moduleDef
    let builder ← Json.withDefault default.builder text builder
    let astImports ← Json.withDefault default.astImports (Json.Value.list? text) astImports
    pure {
      bytecode, opcode, rule, astResult, astError, instruction, instructionDef, sourceModule,
      moduleDef, builder, astImports }
  | _ => none

namespace Config

/-- Reads a configuration. -/
def ofJson? (value : Json.Value) : Option Config := do
  let given ← Json.fields? .extensible ["table", "manifest", "outputs", "paths"] value
  let default : Config := {}
  match given with
  | [table, manifest, outputs, paths] =>
    let table ← Json.withDefault default.table Path.ofJson? table
    let manifest ← Json.withDefault default.manifest Path.ofJson? manifest
    let outputs ← Json.withDefault default.outputs Outputs.ofJson? outputs
    let paths ← Json.withDefault default.paths CodePaths.ofJson? paths
    pure { table, manifest, outputs, paths }
  | _ => none

/-- The configuration of a document. -/
def ofText (text : String) : Except SpecError Config :=
  match (Json.parse text).bind ofJson? with
  | some c => .ok c
  | none => .error .malformed

end Config

end OpcodeForge
