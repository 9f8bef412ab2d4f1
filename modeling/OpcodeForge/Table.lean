import OpcodeForge.Descriptor

/-!
# The opcode table

A table is a list of descriptors in which position is ordinal. `ofRecords` accepts a list of records
or gives the first fault, record by record in table order.
-/

namespace OpcodeForge

/-- Opcode descriptors in ordinal order. -/
structure Table where
  descriptors : List Descriptor
  deriving DecidableEq, Repr

namespace Table

/-- The fault of a writer: a cast to another width than its operand has, or an index past the
builder operands. -/
def writerFault? (d : Descriptor) : (Writer × Width) × Nat → Option SpecError
  | ((.cast index width, operand), position) =>
    if width != operand then some (.writerWidth d.name position width operand)
    else if d.builderOperands.length ≤ index then
      some (.writerArg d.name index d.builderOperands.length)
    else none
  | ((.arg index, _), _) =>
    if d.builderOperands.length ≤ index then
      some (.writerArg d.name index d.builderOperands.length)
    else none
  | ((.verbatim _, _), _) => none

/-- The first fault of the writers that a record gives. -/
def writersFault? (d : Descriptor) : Option SpecError :=
  match d.attributes.operandWriters with
  | none => none
  | some writers =>
    if writers.length != d.runtimeOperands.length then
      some (.writerCount d.name writers.length d.runtimeOperands.length)
    else d.writes.findSome? (writerFault? d)

/-- The fault of a record that insists on another position. -/
def pinFault? (position : Nat) (record : Record) : Option SpecError :=
  match record.pinned with
  | some pinned =>
    if pinned.toNat != position then some (.ordinalMismatch record.name pinned position) else none
  | none => none

/-- The descriptor of a record at a position. -/
def describe (position : Nat) (record : Record) : Descriptor :=
  { name := record.name, ordinal := UInt8.ofNat position, attributes := record.attributes }

/-- The first fault of a record that follows the descriptors `before`. -/
def recordFault? (before : List Descriptor) (record : Record) : Option SpecError :=
  if !isIdentifier record.name then some (.invalidName record.name)
  else if before.any fun d => Text.lower d.name == Text.lower record.name then
    some (.duplicateName record.name)
  else
    match pinFault? before.length record with
    | some fault => some fault
    | none => writersFault? (describe before.length record)

/-- The descriptors `before` followed by those of the records. -/
def extend (before : List Descriptor) : List Record → Except SpecError (List Descriptor)
  | [] => .ok before
  | record :: records =>
    match recordFault? before record with
    | some fault => .error fault
    | none => extend (before ++ [describe before.length record]) records

/-- The table of a list of records. -/
def ofRecords (records : List Record) : Except SpecError Table :=
  if maxOpcodes < records.length then .error (.tooManyOpcodes records.length)
  else (extend [] records).map Table.mk

/-- The number of opcodes. -/
def length (t : Table) : Nat := t.descriptors.length

/-- Whether there are no opcodes. -/
def isEmpty (t : Table) : Bool := t.descriptors.isEmpty

/-- One past the last ordinal. -/
def sentinel (t : Table) : UInt8 := UInt8.ofNat t.length

/-- The descriptor with a name. -/
def get? (t : Table) (name : String) : Option Descriptor :=
  t.descriptors.find? fun d => d.name == name

/-- The ordinal of a name. -/
def ordinal? (t : Table) (name : String) : Option UInt8 := (t.get? name).map Descriptor.ordinal

/-- The descriptor at an ordinal. -/
def byOrdinal? (t : Table) (ordinal : UInt8) : Option Descriptor := t.descriptors[ordinal.toNat]?

end Table

end OpcodeForge
