import OpcodeForge.Width

/-!
# Bytecode

A buffer of bytes. Words are written with the low byte first; a read past the end gives nothing.
-/

namespace OpcodeForge

/-- A buffer of bytes. -/
structure Bytecode where
  bytes : Array UInt8 := #[]
  deriving DecidableEq, Repr

namespace Bytecode

/-- The number of bytes. -/
def size (b : Bytecode) : Nat := b.bytes.size

/-- The bytes of a value on the wire; what does not fit in the width is cut off. -/
def wireBytes (value : UInt16) : Width → Array UInt8
  | .byte => #[value.toUInt8]
  | .word => #[value.toUInt8, UInt8.ofNat (value.toNat / 256)]

/-- Adds a value of a width at the end. -/
def write (b : Bytecode) (value : UInt16) (width : Width) : Bytecode :=
  ⟨b.bytes ++ wireBytes value width⟩

/-- Adds a byte at the end. -/
def writeByte (b : Bytecode) (value : UInt8) : Bytecode := b.write value.toUInt16 .byte

/-- The byte at an offset. -/
def readByte? (b : Bytecode) (offset : Nat) : Option UInt8 := b.bytes[offset]?

/-- The word at an offset. -/
def readWord? (b : Bytecode) (offset : Nat) : Option UInt16 := do
  let low ← b.readByte? offset
  let high ← b.readByte? (offset + 1)
  pure (UInt16.ofNat (low.toNat + 256 * high.toNat))

/-- The value of a width at an offset. -/
def read? (b : Bytecode) (offset : Nat) : Width → Option UInt16
  | .byte => (b.readByte? offset).map UInt8.toUInt16
  | .word => b.readWord? offset

end Bytecode

end OpcodeForge
