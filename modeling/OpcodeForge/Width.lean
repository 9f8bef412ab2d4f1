/-!
# Operand widths

A runtime operand takes one or two bytes of the wire, the low byte first.
-/

namespace OpcodeForge

/-- The size class of an operand on the wire. -/
inductive Width where
  | byte
  | word
  deriving DecidableEq, Repr

namespace Width

/-- Bytes on the wire. -/
def size : Width → Nat
  | .byte => 1
  | .word => 2

/-- Bytes that operands take one after the other. -/
def totalSize : List Width → Nat
  | [] => 0
  | width :: widths => width.size + totalSize widths

/-- One more than the largest value that fits. -/
def modulus : Width → Nat
  | .byte => 0x100
  | .word => 0x10000

/-- The name of the unsigned integer type of this width. -/
def typeName : Width → String
  | .byte => "u8"
  | .word => "u16"

/-- The width with a type name. -/
def ofTypeName? (name : String) : Option Width :=
  if name == "u8" then some .byte else if name == "u16" then some .word else none

end Width

end OpcodeForge
