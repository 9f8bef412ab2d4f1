/-!
# The seven artifacts

Each artifact is one generated source file. `all` is the order in which they are generated.
-/

namespace OpcodeForge

/-- A kind of generated source file. -/
inductive ArtifactKind where
  | grammar
  | astEnum
  | astDispatch
  | lowering
  | instructionDef
  | runtimeDecoder
  | opcodes
  deriving DecidableEq, Repr

namespace ArtifactKind

/-- Every kind, in the order of generation. -/
def all : List ArtifactKind :=
  [.grammar, .astEnum, .astDispatch, .lowering, .instructionDef, .runtimeDecoder, .opcodes]

/-- The name of a kind in messages. -/
def title : ArtifactKind → String
  | .grammar => "grammar"
  | .astEnum => "ast enum"
  | .astDispatch => "ast dispatch"
  | .lowering => "lowering dispatch"
  | .instructionDef => "instruction definition"
  | .runtimeDecoder => "runtime decoder"
  | .opcodes => "opcode ordinals"

end ArtifactKind

end OpcodeForge
