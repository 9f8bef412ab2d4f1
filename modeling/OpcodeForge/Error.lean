import OpcodeForge.Text.Quoted
import OpcodeForge.Width

/-!
# What can be wrong with a specification

A specification is a configuration, an opcode table and a published manifest. Each fault is a
constructor of `SpecError`, and `message` gives its wording.
-/

namespace OpcodeForge

/-- Succeeds unless a fault was found. -/
def refuse {ε : Type} : Option ε → Except ε Unit
  | some fault => .error fault
  | none => .ok ()

/-- The optional fields of an opcode record. -/
inductive Field where
  | astArgs
  | grammarArgs
  | trivialAst
  | trivialLowering
  | runtimeOperands
  | operandWriters
  | builderOperands
  | terminal
  deriving DecidableEq, Repr

namespace Field

/-- The key of a field in a table document. -/
def key : Field → String
  | .astArgs => "ast_args"
  | .grammarArgs => "pest_args"
  | .trivialAst => "trivial_ast"
  | .trivialLowering => "trivial_lowering"
  | .runtimeOperands => "runtime_operands"
  | .operandWriters => "operand_writers"
  | .builderOperands => "builder_operands"
  | .terminal => "is_terminal"

/-- Every field, in the order of a record. -/
def all : List Field :=
  [.astArgs, .grammarArgs, .trivialAst, .trivialLowering, .runtimeOperands, .operandWriters,
    .builderOperands, .terminal]

end Field

/-- What can be wrong with a configuration. -/
inductive ConfigError where
  /-- Two artifacts would be written to one file. -/
  | duplicateOutput
  /-- An artifact would be written over the table or the manifest. -/
  | outputShadowsInput
  /-- The generated code would refer to a path without a name. -/
  | emptyCodePath
  deriving DecidableEq, Repr

/-- The wording of a configuration fault. -/
def ConfigError.message : ConfigError → String
  | .duplicateOutput => "two artifacts share one output path"
  | .outputShadowsInput => "an artifact output path equals the table or manifest path"
  | .emptyCodePath => "a generated code path is empty"

/-- One byte holds the ordinals below this and the sentinel after the last of them. -/
def maxOpcodes : Nat := 255

/-- What can be wrong with a specification. -/
inductive SpecError where
  | config (cause : ConfigError)
  /-- A document is not JSON of the expected shape. -/
  | malformed
  /-- A file cannot be read as text. -/
  | unreadable
  | invalidName (name : String)
  | duplicateName (name : String)
  | tooManyOpcodes (count : Nat)
  | ordinalMismatch (name : String) (pinned : UInt8) (position : Nat)
  | writerCount (name : String) (writers operands : Nat)
  | writerArg (name : String) (index available : Nat)
  | writerWidth (name : String) (position : Nat) (writer operand : Width)
  /-- A passthrough of an integer of another type than the wire has. -/
  | needsCast (name : String) (position index : Nat) (type : String) (width : Width)
  | missingField (opcode : String) (field : Field)
  | publishedRemoved (name : String) (ordinal : UInt8)
  | publishedRenamed (ordinal : UInt8) (expected found : String)
  | publishedOperands (name : String)
  deriving DecidableEq, Repr

namespace SpecError

/-- What a passthrough that needs a cast does, as the end of a sentence about its opcode. -/
def castReason (position index : Nat) (type : String) (width : Width) : String :=
  s!"writes {width.typeName} operand {position} from builder operand {index} of type {type} " ++
    "and needs a cast"

/-- The wording of a fault. -/
def message : SpecError → String
  | .config cause => s!"Invalid configuration: {cause.message}"
  | .malformed => "Malformed document"
  | .unreadable => "Unreadable file"
  | .invalidName name =>
    "Invalid opcode name " ++ Text.quoted name ++ ": must be a non-empty ASCII identifier"
  | .duplicateName name => s!"Duplicate opcode name: {name}"
  | .tooManyOpcodes count => s!"Too many opcodes: {count} (at most {maxOpcodes} fit in one byte)"
  | .ordinalMismatch name pinned position =>
    s!"Opcode {name} pins ordinal {pinned} but sits at position {position}"
  | .writerCount name writers operands =>
    s!"Opcode {name} has {writers} operand writers for {operands} runtime operands"
  | .writerArg name index available =>
    s!"Opcode {name}: writer references arg{index} but only {available} builder operands exist"
  | .writerWidth name position writer operand =>
    s!"Opcode {name}: writer {position} casts to {writer.typeName} but runtime operand " ++
      s!"{position} is {operand.typeName}"
  | .needsCast name position index type width =>
    s!"Opcode {name} " ++ castReason position index type width
  | .missingField opcode field => s!"Opcode {opcode} is missing required field `{field.key}`"
  | .publishedRemoved name ordinal =>
    s!"Published opcode {name} (ordinal {ordinal}) was removed or moved"
  | .publishedRenamed ordinal expected found =>
    s!"Ordinal {ordinal} was published as {expected} but the table now has {found}"
  | .publishedOperands name => s!"Published opcode {name} changed its wire operands"

/-- Whether bytecode that is already published would be decoded in another way. -/
def breaksBytecode : SpecError → Bool
  | .ordinalMismatch .. => true
  | .publishedRemoved .. => true
  | .publishedRenamed .. => true
  | .publishedOperands .. => true
  | _ => false

end SpecError

end OpcodeForge
