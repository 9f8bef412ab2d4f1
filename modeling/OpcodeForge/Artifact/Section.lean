import OpcodeForge.Artifact.Kind
import OpcodeForge.Artifact.Layout
import OpcodeForge.Table

/-!
# Sections

A section has a header, a body for each opcode in table order and a footer; it names the fields it
reads and may object to an opcode.
-/

namespace OpcodeForge

/-- Why a section cannot be made for an opcode. -/
inductive Objection where
  | astPayload
  | loweringPayload
  | loweringOperands
  | needsCast (position index : Nat) (type : String) (width : Width)
  | reservedName (name : String)
  | other (reason : String)
  deriving DecidableEq, Repr

/-- The wording of an objection, as the end of a sentence about the opcode. -/
def Objection.reason : Objection → String
  | .astPayload => "has trivial_ast set but carries ast_args"
  | .loweringPayload => "has trivial_lowering set but carries ast_args"
  | .loweringOperands => "has trivial_lowering set but carries builder operands"
  | .needsCast position index type width => SpecError.castReason position index type width
  | .reservedName name => s!"uses the reserved name {name}"
  | .other reason => reason

/-- Why no artifact is generated. -/
inductive EmitError where
  | emptyTable
  | validation (artifact : ArtifactKind) (cause : SpecError)
  | unsupported (artifact : ArtifactKind) (opcode : String) (objection : Objection)
  | config (cause : ConfigError)
  deriving DecidableEq, Repr

/-- The wording of an error. -/
def EmitError.message : EmitError → String
  | .emptyTable => "Opcode table is empty"
  | .validation artifact cause => s!"{artifact.title}: {cause.message}"
  | .unsupported artifact opcode objection =>
    s!"{artifact.title}: opcode {opcode} {objection.reason}"
  | .config cause => s!"Invalid configuration: {cause.message}"

/-- What a part of an artifact asks of opcodes. -/
structure Demands where
  /-- The fields that the part reads. -/
  requirements : List Requirement := []
  /-- Why the part cannot be made for an opcode. -/
  objection? : Descriptor → Option Objection := fun _ => none

namespace Demands

/-- The fault of a descriptor: a missing field before an objection. -/
def descriptorFault? (s : Demands) (kind : ArtifactKind) (d : Descriptor) : Option EmitError :=
  match s.requirements.findSome? d.missing? with
  | some cause => some (.validation kind cause)
  | none => (s.objection? d).map (.unsupported kind d.name)

/-- The fault of the first descriptor that has one. -/
def fault? (s : Demands) (kind : ArtifactKind) (t : Table) : Option EmitError :=
  t.descriptors.findSome? (s.descriptorFault? kind)

end Demands

/-- A part of an artifact that says the same of an opcode whatever stands before it. -/
structure Section extends Demands where
  header : List Fragment := []
  body : Descriptor → List Fragment
  footer : List Fragment := []

end OpcodeForge
