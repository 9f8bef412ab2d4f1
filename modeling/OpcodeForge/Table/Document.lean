import OpcodeForge.Json.Reader
import OpcodeForge.Json.Record
import OpcodeForge.Table

/-!
# Table documents

A table document is a JSON array of closed records, in which every field but the name may be missing
or null.
-/

namespace OpcodeForge

/-- A byte in plain digits. -/
def byte? (value : Json.Value) : Option UInt8 :=
  value.natural?.bind fun n => if n < 256 then some (UInt8.ofNat n) else none

/-- A width: its type name, or an object with the type name for its one key and null for its
value. -/
def Width.ofJson? : Json.Value → Option Width
  | .object [(key, .null)] => key.decode.bind fun cs => Width.ofTypeName? (String.ofList cs)
  | value => value.string?.bind Width.ofTypeName?

namespace Record

/-- The keys of a record, in the order of its array form. -/
def keys : List String := ["name", "ordinal"] ++ Field.all.map Field.key

/-- Reads a record. -/
def ofJson? (value : Json.Value) : Option Record := do
  let given ← Json.fields? .closed keys value
  match given with
  | [name, ordinal, astArgs, grammarArgs, trivialAst, trivialLowering, runtimeOperands,
      operandWriters, builderOperands, terminal] =>
    let name ← Json.required Json.Value.string? name
    let pinned ← Json.nullable byte? ordinal
    let astArgs ← Json.nullable (Json.Value.list? Json.Value.string?) astArgs
    let grammarArgs ← Json.nullable Json.Value.string? grammarArgs
    let trivialAst ← Json.nullable Json.Value.bool? trivialAst
    let trivialLowering ← Json.nullable Json.Value.bool? trivialLowering
    let runtimeOperands ← Json.nullable (Json.Value.list? Width.ofJson?) runtimeOperands
    let operandWriters ←
      Json.nullable (Json.Value.list? fun v => v.string?.map Writer.parse) operandWriters
    let builderOperands ← Json.nullable (Json.Value.list? Json.Value.string?) builderOperands
    let terminal ← Json.nullable Json.Value.bool? terminal
    pure {
      name, pinned
      attributes := {
        astArgs, grammarArgs, trivialAst, trivialLowering, runtimeOperands, operandWriters,
        builderOperands, terminal } }
  | _ => none

end Record

/-- The table of a document. -/
def Table.ofText (text : String) : Except SpecError Table :=
  match (Json.parse text).bind (Json.Value.list? Record.ofJson?) with
  | some records => Table.ofRecords records
  | none => .error .malformed

end OpcodeForge
