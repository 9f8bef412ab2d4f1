import OpcodeForge.Json.Printer
import OpcodeForge.Table.Document

/-!
# Published manifests

Ordinals are wire bytes: once bytecode is published, an opcode keeps its ordinal and its operand
widths. A manifest records what was published, and `check` accepts a table that only appends to it.
-/

namespace OpcodeForge

/-- A published opcode. -/
structure Manifest.Entry where
  name : String
  ordinal : UInt8
  operands : List Width
  deriving DecidableEq, Repr

/-- The opcodes as last published. -/
structure Manifest where
  entries : List Manifest.Entry := []
  deriving DecidableEq, Repr

namespace Manifest

/-- What a table would publish for an opcode. -/
def Entry.ofDescriptor (d : Descriptor) : Entry :=
  { name := d.name, ordinal := d.ordinal, operands := d.runtimeOperands }

/-- What a table would publish. -/
def ofTable (t : Table) : Manifest := { entries := t.descriptors.map Entry.ofDescriptor }

/-- The fault of a table that does not keep a published opcode. An opcode that is still there under
its name has moved; otherwise its place was given to another name. -/
def Entry.fault? (t : Table) (entry : Entry) : Option SpecError :=
  match t.byOrdinal? entry.ordinal with
  | none => some (.publishedRemoved entry.name entry.ordinal)
  | some d =>
    if d.name != entry.name then
      if (t.get? entry.name).isSome then some (.publishedRemoved entry.name entry.ordinal)
      else some (.publishedRenamed entry.ordinal entry.name d.name)
    else if d.runtimeOperands != entry.operands then some (.publishedOperands entry.name)
    else none

/-- Accepts a table that keeps every published opcode. -/
def check (m : Manifest) (t : Table) : Except SpecError Unit :=
  refuse (m.entries.findSome? (Entry.fault? t))

/-- The manifest after a table is published, if the table keeps what was published before. -/
def publish (m : Manifest) (t : Table) : Except SpecError Manifest :=
  (m.check t).map fun _ => ofTable t

/-- The number of published opcodes. -/
def length (m : Manifest) : Nat := m.entries.length

/-- Whether nothing was published. -/
def isEmpty (m : Manifest) : Bool := m.entries.isEmpty

/-- The document of an entry. -/
def Entry.toJson (entry : Entry) : Json.Value :=
  .object [
    (Json.Units.ofString "name", .ofString entry.name),
    (Json.Units.ofString "ordinal", .ofNat entry.ordinal.toNat),
    (Json.Units.ofString "operands",
      .array (entry.operands.map fun width => .ofString width.typeName))]

/-- The document of a manifest. -/
def toJson (m : Manifest) : Json.Value :=
  .object [(Json.Units.ofString "opcodes", .array (m.entries.map Entry.toJson))]

/-- The text of a manifest, which ends with a line feed. -/
def toText (m : Manifest) : String := m.toJson.print ++ "\n"

/-- Reads an entry. -/
def Entry.ofJson? (value : Json.Value) : Option Entry := do
  let given ← Json.fields? .extensible ["name", "ordinal", "operands"] value
  match given with
  | [name, ordinal, operands] =>
    let name ← Json.required Json.Value.string? name
    let ordinal ← Json.required byte? ordinal
    let operands ← Json.withDefault [] (Json.Value.list? Width.ofJson?) operands
    pure { name, ordinal, operands }
  | _ => none

/-- Reads a manifest. -/
def ofJson? (value : Json.Value) : Option Manifest := do
  let given ← Json.fields? .extensible ["opcodes"] value
  match given with
  | [entries] =>
    let entries ← Json.required (Json.Value.list? Entry.ofJson?) entries
    pure { entries }
  | _ => none

/-- The manifest of a document. -/
def ofText (text : String) : Except SpecError Manifest :=
  match (Json.parse text).bind ofJson? with
  | some m => .ok m
  | none => .error .malformed

end Manifest

end OpcodeForge
