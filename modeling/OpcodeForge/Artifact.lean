import OpcodeForge.Artifact.Ast
import OpcodeForge.Artifact.Decoder
import OpcodeForge.Artifact.Definition
import OpcodeForge.Artifact.Grammar
import OpcodeForge.Artifact.Lowering
import OpcodeForge.Artifact.Ordinals

/-!
# Artifacts

`generate` makes one artifact of a table and `generateAll` makes all seven or none.
-/

namespace OpcodeForge

/-- A generated source file and where it goes. -/
structure Artifact where
  kind : ArtifactKind
  path : Path
  text : String
  deriving DecidableEq, Repr

namespace Artifact

/-- The emitters of an artifact. -/
def emitters (kind : ArtifactKind) (paths : CodePaths) : List Emitter :=
  match kind with
  | .grammar => Grammar.emitters
  | .astEnum => (Ast.enumSections paths).map Section.emitter
  | .astDispatch => (Ast.dispatchSections paths).map Section.emitter
  | .lowering => (Lowering.sections paths).map Section.emitter
  | .instructionDef => Definition.emitters paths
  | .runtimeDecoder => (Decoder.sections paths).map Section.emitter
  | .opcodes => Ordinals.emitters paths

/-- The text of one artifact. -/
def generate (kind : ArtifactKind) (t : Table) (config : Config) : Except EmitError String :=
  if t.isEmpty then .error .emptyTable
  else renderEmitters kind t (emitters kind config.paths)

/-- All artifacts of a table, in order, unless the configuration or one of them has a fault. -/
def generateAll (t : Table) (config : Config) : Except EmitError (List Artifact) :=
  match config.validate with
  | .error cause => .error (.config cause)
  | .ok _ =>
    ArtifactKind.all.mapM fun kind => do
      let text ← generate kind t config
      pure { kind, path := config.outputs.path kind, text }

end Artifact

end OpcodeForge
