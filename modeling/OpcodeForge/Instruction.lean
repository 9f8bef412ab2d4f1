import OpcodeForge.Bytecode
import OpcodeForge.Table

/-!
# Instructions

An instruction has the builder operands of an opcode; `write` makes its runtime operands with the
writers of the table and appends it to bytecode. `Decoded.read?` reads an instruction back with the
operands of the wire.
-/

namespace OpcodeForge

/-- Why an instruction is not built, written or read. -/
inductive CodecError where
  | spec (cause : SpecError)
  | unknownInstruction (name : String)
  | operandCount (name : String) (expected found : Nat)
  | operandRange (name : String) (index : Nat) (value : Int64) (width : Width)
  | verbatimWriter (name source : String)
  | missingOperand (name : String) (index : Nat)
  | unknownOpcode (offset : Nat) (byte : UInt8)
  | truncated (offset : Nat) (name : String)
  deriving DecidableEq, Repr

namespace CodecError

/-- The wording of an error. -/
def message : CodecError → String
  | .spec cause => s!"Spec error: {cause.message}"
  | .unknownInstruction name => s!"Unknown instruction: {name}"
  | .operandCount name expected found => s!"{name} takes {expected} operands, got {found}"
  | .operandRange name index value width =>
    s!"{name}: operand {index} value {value} does not fit in {width.typeName}"
  | .verbatimWriter name source =>
    s!"{name}: writer `{source}` is not a passthrough or cast and cannot be evaluated"
  | .missingOperand name index => s!"{name}: operand {index} is missing"
  | .unknownOpcode offset byte =>
    "Unknown opcode 0x" ++ String.ofList (Text.hexDigits 2 byte.toNat) ++ s!" at offset {offset}"
  | .truncated offset name => s!"Truncated instruction {name} at offset {offset}"

/-- Whether the error is in the bytecode that was read. -/
def isDecodeError : CodecError → Bool
  | .unknownOpcode .. => true
  | .truncated .. => true
  | _ => false

end CodecError

/-- An opcode with its builder operands. -/
structure Instruction where
  descriptor : Descriptor
  operands : List Int64
  deriving DecidableEq, Repr

namespace Instruction

/-- Why an opcode cannot have `count` operands: it has no writers, a passthrough needs a cast, or
it has another number of builder operands. -/
def buildFault? (d : Descriptor) (count : Nat) : Option CodecError :=
  match d.missing? (.required .operandWriters), d.passthroughFault? with
  | some fault, _ => some (.spec fault)
  | none, some fault => some (.spec fault)
  | none, none =>
    if count != d.builderOperands.length then
      some (.operandCount d.name d.builderOperands.length count)
    else none

/-- Looks up an opcode and takes its operands. -/
def build (t : Table) (name : String) (operands : List Int64) : Except CodecError Instruction :=
  match t.get? name with
  | none => .error (.unknownInstruction name)
  | some descriptor =>
    match buildFault? descriptor operands.length with
    | some fault => .error fault
    | none => .ok { descriptor, operands }

/-- The name of the opcode. -/
def name (i : Instruction) : String := i.descriptor.name

/-- The byte that stands for the opcode. -/
def opcode (i : Instruction) : UInt8 := i.descriptor.ordinal

/-- Bytes on the wire. -/
def wireSize (i : Instruction) : Nat := i.descriptor.wireSize

/-- Whether the instruction ends a basic block. -/
def isTerminal (i : Instruction) : Bool := i.descriptor.isTerminal

/-- The builder operand at an index. -/
def operand (i : Instruction) (index : Nat) : Except CodecError Int64 :=
  match i.operands[index]? with
  | some value => .ok value
  | none => .error (.missingOperand i.name index)

/-- A 64-bit integer reduced to a width, in two's complement. -/
def truncate (value : Int64) (width : Width) : UInt16 :=
  UInt16.ofNat (value.toInt % width.modulus).toNat

/-- The runtime operand that a writer makes for a width. A passthrough refuses a value that does not
fit; a cast keeps the low bits. -/
def evaluate (i : Instruction) (writer : Writer) (width : Width) : Except CodecError UInt16 :=
  match writer with
  | .arg index => do
    let value ← i.operand index
    if value.toInt < 0 || (width.modulus : Int) ≤ value.toInt then
      throw (.operandRange i.name index value width)
    pure (truncate value .word)
  | .cast index width => do
    let value ← i.operand index
    pure (truncate value width)
  | .verbatim source => .error (.verbatimWriter i.name source)

/-- The runtime operands, each with its width. -/
def wireOperands (i : Instruction) : Except CodecError (List (UInt16 × Width)) :=
  (i.descriptor.operandWriters.zip i.descriptor.runtimeOperands).mapM fun (writer, width) => do
    let value ← i.evaluate writer width
    pure (value, width)

/-- Appends the instruction to bytecode; on an error nothing is written. -/
def write (i : Instruction) (b : Bytecode) : Except CodecError Bytecode := do
  let operands ← i.wireOperands
  pure (operands.foldl (fun b (value, width) => b.write value width) (b.writeByte i.opcode))

end Instruction

/-- An instruction as it was read. -/
structure Decoded where
  descriptor : Descriptor
  operands : List UInt16
  deriving DecidableEq, Repr

namespace Decoded

/-- The name of the opcode. -/
def name (i : Decoded) : String := i.descriptor.name

/-- The byte that stands for the opcode. -/
def opcode (i : Decoded) : UInt8 := i.descriptor.ordinal

/-- Whether the instruction ends a basic block. -/
def isTerminal (i : Decoded) : Bool := i.descriptor.isTerminal

/-- Reads operands of the given widths, and gives the offset past the last. -/
def readOperands? (b : Bytecode) (offset : Nat) : List Width → Option (List UInt16 × Nat)
  | [] => some ([], offset)
  | width :: widths => do
    let value ← b.read? offset width
    let (values, next) ← readOperands? b (offset + width.size) widths
    pure (value :: values, next)

/-- Reads the instruction at an offset, and gives the offset past it. There is none at or past the
end, at a byte that is no ordinal, or where the bytes of an operand are missing. -/
def read? (t : Table) (b : Bytecode) (offset : Nat) : Option (Decoded × Nat) := do
  let byte ← b.readByte? offset
  let descriptor ← t.byOrdinal? byte
  if b.size < offset + descriptor.wireSize then none
  else
    let (operands, next) ← readOperands? b (offset + opcodeBytes) descriptor.runtimeOperands
    pure ({ descriptor, operands }, next)

/-- The name and the operands as text. -/
def render (i : Decoded) : String :=
  if i.operands.isEmpty then i.name
  else i.name ++ " " ++ Text.join ", " (i.operands.map fun value => Nat.repr value.toNat)

/-- Operands are read forwards. -/
theorem le_of_readOperands? {b : Bytecode} {widths : List Width} {offset next : Nat}
    {values : List UInt16} (h : readOperands? b offset widths = some (values, next)) :
    offset ≤ next := by
  induction widths generalizing offset values with
  | nil => simp_all [readOperands?]
  | cons width widths ih =>
    simp only [readOperands?, Option.bind_eq_bind, Option.pure_def, Option.bind_eq_some_iff,
      Option.some.injEq, Prod.mk.injEq] at h
    obtain ⟨_, _, ⟨values', next'⟩, hrest, _, rfl⟩ := h
    have := ih hrest
    omega

/-- Every instruction has at least one byte. -/
theorem lt_of_read? {t : Table} {b : Bytecode} {offset next : Nat} {i : Decoded}
    (h : read? t b offset = some (i, next)) : offset < next := by
  simp only [read?, Option.bind_eq_bind, Option.pure_def, Option.bind_eq_some_iff] at h
  obtain ⟨_, _, _, _, h⟩ := h
  split at h
  · simp at h
  · simp only [Option.bind_eq_some_iff, Option.some.injEq, Prod.mk.injEq] at h
    obtain ⟨⟨values, next'⟩, hrest, _, rfl⟩ := h
    have := le_of_readOperands? hrest
    simp only [opcodeBytes] at this
    omega

end Decoded

end OpcodeForge
