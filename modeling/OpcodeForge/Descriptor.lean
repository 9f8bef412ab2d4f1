import OpcodeForge.Error
import OpcodeForge.Text.Word
import OpcodeForge.Writer

/-!
# Opcode descriptors

A record of the opcode table, and the descriptor it becomes at its position. A record says little
more than a name; what it leaves out has a default, but an artifact may insist on a field.
-/

namespace OpcodeForge

/-- What a record says about an opcode beside its name. -/
structure Attributes where
  /-- Types of the operands in the syntax tree. -/
  astArgs : Option (List String) := none
  /-- Grammar of the operands after the keyword. -/
  grammarArgs : Option String := none
  /-- The syntax tree needs no constructor of its own. -/
  trivialAst : Option Bool := none
  /-- Lowering needs no function of its own. -/
  trivialLowering : Option Bool := none
  /-- Widths of the operands on the wire. -/
  runtimeOperands : Option (List Width) := none
  /-- How each runtime operand is made. -/
  operandWriters : Option (List Writer) := none
  /-- Types of the operands of a definition. -/
  builderOperands : Option (List String) := none
  /-- The instruction ends a basic block. -/
  terminal : Option Bool := none
  deriving DecidableEq, Repr

/-- A record of the opcode table. -/
structure Record where
  name : String
  /-- The position that the record insists on. -/
  pinned : Option UInt8 := none
  attributes : Attributes := {}
  deriving DecidableEq, Repr

/-- An opcode at its position in the table. -/
structure Descriptor where
  name : String
  /-- The byte that stands for the opcode on the wire. -/
  ordinal : UInt8
  attributes : Attributes
  deriving DecidableEq, Repr

/-- Whether an artifact can do without a field. -/
inductive Requirement where
  | defaulted (field : Field)
  | required (field : Field)
  deriving DecidableEq, Repr

/-- Words that the generated language keeps for itself. -/
def reservedWords : List String :=
  ["abstract", "as", "async", "await", "become", "box", "break", "const", "continue", "crate",
    "do", "dyn", "else", "enum", "extern", "false", "final", "fn", "for", "gen", "if", "impl",
    "in", "let", "loop", "macro", "match", "mod", "move", "mut", "override", "priv", "pub",
    "ref", "return", "self", "static", "struct", "super", "trait", "true", "try", "type",
    "typeof", "unsafe", "unsized", "use", "virtual", "where", "while", "yield"]

/-- The primitive integer types of the generated language. -/
def integerTypes : List String :=
  ["u8", "u16", "u32", "u64", "u128", "usize", "i8", "i16", "i32", "i64", "i128", "isize"]

/-- A letter or underscore, then letters, digits and underscores, all of ASCII. -/
def isWord : List Char → Bool
  | [] => false
  | c :: rest => (c.isAlpha || c == '_') && rest.all Text.isWordChar

/-- Whether a name can be a variant and, in lower case, a keyword and a module of the generated
code. -/
def isIdentifier (name : String) : Bool :=
  name != "_" && !reservedWords.contains (Text.lower name) && isWord name.toList

/-- Bytes that the ordinal takes on the wire. -/
def opcodeBytes : Nat := 1

namespace Descriptor

/-- Types of the operands in the syntax tree. -/
def astArgs (d : Descriptor) : List String := d.attributes.astArgs.getD []

/-- Grammar of the operands after the keyword; white space alone is none. -/
def grammarArgs? (d : Descriptor) : Option String :=
  (d.attributes.grammarArgs.map Text.trim).filter fun args => !args.isEmpty

/-- The syntax tree needs no constructor of its own. -/
def trivialAst (d : Descriptor) : Bool := d.attributes.trivialAst.getD false

/-- Lowering needs no function of its own. -/
def trivialLowering (d : Descriptor) : Bool := d.attributes.trivialLowering.getD false

/-- Widths of the operands on the wire. -/
def runtimeOperands (d : Descriptor) : List Width := d.attributes.runtimeOperands.getD []

/-- How each runtime operand is made. -/
def operandWriters (d : Descriptor) : List Writer := d.attributes.operandWriters.getD []

/-- Types of the operands of a definition; the wire types where the record does not say. -/
def builderOperands (d : Descriptor) : List String :=
  d.attributes.builderOperands.getD (d.runtimeOperands.map Width.typeName)

/-- The instruction ends a basic block. -/
def isTerminal (d : Descriptor) : Bool := d.attributes.terminal.getD false

/-- Bytes of the runtime operands. -/
def operandSize (d : Descriptor) : Nat := Width.totalSize d.runtimeOperands

/-- Bytes of the whole instruction. -/
def wireSize (d : Descriptor) : Nat := opcodeBytes + d.operandSize

/-- The word that starts the instruction in source text, in any letter case. -/
def keyword (d : Descriptor) : String := Text.lower d.name

/-- The grammar rule of the instruction. -/
def ruleName (d : Descriptor) : String := "stmt_" ++ Text.upper d.name

/-- The module with the hand-written code for the opcode. -/
def moduleName (d : Descriptor) : String := Text.lower d.name

/-- Whether the record gives a field. Writers are given when there is nothing to write. -/
def has (d : Descriptor) : Field → Bool
  | .astArgs => d.attributes.astArgs.isSome
  | .grammarArgs => d.attributes.grammarArgs.isSome
  | .trivialAst => d.attributes.trivialAst.isSome
  | .trivialLowering => d.attributes.trivialLowering.isSome
  | .runtimeOperands => d.attributes.runtimeOperands.isSome
  | .operandWriters => d.attributes.operandWriters.isSome || d.runtimeOperands.isEmpty
  | .builderOperands => d.attributes.builderOperands.isSome
  | .terminal => d.attributes.terminal.isSome

/-- The fault of a descriptor that does not meet a requirement. -/
def missing? (d : Descriptor) : Requirement → Option SpecError
  | .defaulted _ => none
  | .required field => if d.has field then none else some (.missingField d.name field)

/-- Each writer with its position and the width it writes. -/
def writes (d : Descriptor) : List ((Writer × Width) × Nat) :=
  (d.operandWriters.zip d.runtimeOperands).zipIdx

/-- The fault of one writer that passes an integer through as another type than it is. -/
def castFault? (d : Descriptor) : (Writer × Width) × Nat → Option SpecError
  | ((.arg index, width), position) =>
    match d.builderOperands[index]? with
    | some type =>
      if integerTypes.contains type && type != width.typeName then
        some (.needsCast d.name position index type width)
      else none
    | none => none
  | _ => none

/-- The first fault of a passthrough that needs a cast. Types that are no integers are left to the
compiler of the generated code. -/
def passthroughFault? (d : Descriptor) : Option SpecError := d.writes.findSome? d.castFault?

end Descriptor

end OpcodeForge
