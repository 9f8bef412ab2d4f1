import OpcodeForge.Artifact.Emitter

/-!
# Pieces of generated code

What several artifacts have in common: payloads, the last segment of a path, and an enum with a
variant for each opcode.
-/

namespace OpcodeForge.Code

/-- A payload in parentheses; none is nothing. -/
def tuple (items : List String) : String :=
  if items.isEmpty then "" else "(" ++ Text.join ", " items ++ ")"

/-- The pattern for any payload. -/
def anyPayload (hasPayload : Bool) : String := if hasPayload then "(..)" else ""

/-- The characters of a reversed path before its first double colon. -/
def beforeColons : List Char → List Char
  | ':' :: ':' :: _ => []
  | c :: rest => c :: beforeColons rest
  | [] => []

/-- What stands after the last double colon of a path. -/
def lastSegment (path : String) : String :=
  String.ofList (beforeColons path.toList.reverse).reverse

/-- The line that brings a path into scope. -/
def useLine (path : String) : Fragment := .line ("use " ++ path ++ ";")

/-- The line that declares a module. -/
def moduleLine (name : String) : Fragment := .line ("mod " ++ name ++ ";")

/-- The line that closes a block with a brace. -/
def closeBrace : Fragment := .leave "\x7d"

/-- The line of a variant in an enum. -/
def variantLine (name : String) (payload : List String) : Fragment :=
  .line (name ++ tuple payload ++ ",")

/-- An enum with a variant for each opcode. -/
def enumSection (derives name : String) (payload : Descriptor → List String)
    (requirements : List Requirement) : Section where
  requirements := requirements
  header := [.line ("#[derive(" ++ derives ++ ")]"), .enter ("pub enum " ++ name ++ " \x7b")]
  body d := [variantLine d.name (payload d)]
  footer := [closeBrace]

/-- Lines that bring paths into scope, for all opcodes together. -/
def importSection (paths : List String) : Section where
  header := paths.map useLine
  body _ := []

end OpcodeForge.Code
