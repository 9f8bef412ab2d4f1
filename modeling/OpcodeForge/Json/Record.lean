import OpcodeForge.Json.Value

/-!
# Records in JSON

A record is an object with its field names for keys, or an array of its fields in order. A closed
record refuses other keys and gives every field when written as an array; an open one ignores other
keys and may leave out fields at the end.
-/

namespace OpcodeForge.Json

/-- Whether a record may hold more, or its array form less, than its fields. -/
inductive Extent where
  | closed
  | extensible
  deriving DecidableEq, Repr

/-- The one member with the key, none if there is no such member, failure if there are two. -/
def single? (members : List (String × Value)) (key : String) : Option (Option Value) :=
  match members.filter fun member => member.1 == key with
  | [] => some none
  | [member] => some (some member.2)
  | _ => none

/-- The members with their keys as text. -/
def keyed? (members : List (Units × Value)) : Option (List (String × Value)) :=
  members.mapM fun (key, value) => key.decode.map fun cs => (String.ofList cs, value)

/-- The values given for the fields of a record, in the order of `keys`. -/
def fields? (extent : Extent) (keys : List String) : Value → Option (List (Option Value))
  | .object members => do
    let members ← keyed? members
    if extent == .closed && members.any fun member => !keys.contains member.1 then none
    else keys.mapM (single? members)
  | .array items =>
    if items.length == keys.length || extent == .extensible && items.length < keys.length then
      some (items.map some ++ List.replicate (keys.length - items.length) none)
    else none
  | _ => none

/-- A field that has to be given. -/
def required {α : Type} (read : Value → Option α) : Option Value → Option α
  | some value => read value
  | none => none

/-- A field with a default. -/
def withDefault {α : Type} (default : α) (read : Value → Option α) : Option Value → Option α
  | some value => read value
  | none => some default

/-- A field that may be missing or null. -/
def nullable {α : Type} (read : Value → Option α) : Option Value → Option (Option α)
  | none => some none
  | some .null => some none
  | some value => (read value).map some

end OpcodeForge.Json
