import OpcodeForge.Artifact.Code
import OpcodeForge.Config

/-!
# Opcode ordinals

The enum whose discriminants are table positions, with a sentinel one past the last opcode, and its
conversions from and to a byte.
-/

namespace OpcodeForge.Ordinals

/-- The variant one past the last opcode. -/
def sentinelName : String := "MAX"

/-- Names that the enum keeps for itself. -/
def reservedNames : List String := [sentinelName, "ALL"]

/-- An opcode may not take a name that the enum keeps for itself. -/
def objection? (d : Descriptor) : Option Objection :=
  if reservedNames.contains d.name then some (.reservedName d.name) else none

/-- The line of a variant with its discriminant. -/
def variantLine (name : String) (ordinal : Nat) : Fragment :=
  .line (name ++ " = " ++ Nat.repr ordinal ++ ",")

/-- The opcodes of the enum so far. -/
structure Progress where
  /-- One more than the last ordinal. -/
  next : Nat := 0
  names : List String := []

/-- The list of all opcodes by ordinal. -/
def allLine (name : String) (names : List String) : Fragment :=
  .line ("pub const ALL: &'static [" ++ name ++ "] = &[" ++ Text.join ", " names ++ "];")

/-- Makes the enum called `name`, and notes its opcodes for the sentinel and the list at the end. -/
def emitter (name : String) : Emitter where
  objection? := objection?
  State := Progress
  start := {}
  header :=
    [.line "#[repr(u8)]",
      .line "#[derive(Debug, Clone, Copy, PartialEq, Eq, Hash)]",
      .enter ("pub enum " ++ name ++ " \x7b")]
  opcode progress d :=
    ([variantLine d.name d.ordinal.toNat],
      { next := d.ordinal.toNat + 1
        names := progress.names ++ [name ++ "::" ++ d.name] })
  footer progress :=
    [variantLine sentinelName progress.next,
      Code.closeBrace,
      .enter ("impl " ++ name ++ " \x7b"),
      .line "/// Every real opcode, indexed by ordinal",
      allLine name progress.names,
      .line "/// Checked conversion; `None` at or past `MAX`",
      .enter "pub fn from_u8(value: u8) -> Option<Self> \x7b",
      .line "Self::ALL.get(value as usize).copied()",
      Code.closeBrace,
      .enter "pub const fn to_u8(self) -> u8 \x7b",
      .line "self as u8",
      Code.closeBrace,
      Code.closeBrace,
      .enter ("impl From<u8> for " ++ name ++ " \x7b"),
      .line ("/// Panics on a value at or past `MAX`; use `" ++ name ++
        "::from_u8` for untrusted input"),
      .enter "fn from(value: u8) -> Self \x7b",
      .enter "match Self::from_u8(value) \x7b",
      .line "Some(opcode) => opcode,",
      .line "None => panic!(\"invalid opcode \x7b\x7d\", value),",
      Code.closeBrace,
      Code.closeBrace,
      Code.closeBrace,
      .enter ("impl From<" ++ name ++ "> for u8 \x7b"),
      .enter ("fn from(opcode: " ++ name ++ ") -> u8 \x7b"),
      .line "opcode.to_u8()",
      Code.closeBrace,
      Code.closeBrace]

/-- The emitters of the ordinals. -/
def emitters (paths : CodePaths) : List Emitter := [emitter (Code.lastSegment paths.opcode)]

end OpcodeForge.Ordinals
