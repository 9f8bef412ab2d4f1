import OpcodeForge.Bytecode
import OpcodeForge.Table

/-!
# A sample instruction set

Five opcodes with a codec of their own, in the form that the generated artifacts give it: an enum of
ordinals, definitions with builder operands, and wire instructions. `records` is the table that it
comes from.
-/

namespace OpcodeForge.Sample

/-- The opcode table of the sample. -/
def records : List Record :=
  [{ name := "Push"
     attributes := {
       astArgs := some ["Constant"], grammarArgs := some "num"
       trivialAst := some false, trivialLowering := some false
       builderOperands := some ["i64"], runtimeOperands := some [.byte]
       operandWriters := some [.cast 0 .byte], terminal := some false } },
   { name := "Jump"
     attributes := {
       astArgs := some ["u16"], grammarArgs := some "num"
       trivialAst := some false, trivialLowering := some false
       runtimeOperands := some [.word], operandWriters := some [.arg 0]
       terminal := some true } },
   { name := "Call"
     attributes := {
       astArgs := some ["u16", "u8"], grammarArgs := some "num ~ \",\" ~ num"
       trivialAst := some false, trivialLowering := some false
       builderOperands := some ["u16", "u8"], runtimeOperands := some [.byte, .word]
       operandWriters := some [.arg 1, .arg 0] } },
   { name := "Nop"
     attributes := { trivialAst := some true, trivialLowering := some true } },
   { name := "Ret"
     attributes := {
       trivialAst := some true, trivialLowering := some true, terminal := some true } }]

/-- The opcodes of the sample. -/
inductive Opcode where
  | push
  | jump
  | call
  | nop
  | ret
  deriving DecidableEq, Repr

namespace Opcode

/-- Every opcode by ordinal. -/
def all : List Opcode := [.push, .jump, .call, .nop, .ret]

/-- One past the last ordinal. -/
def sentinel : Nat := 5

/-- The name of an opcode. -/
def name : Opcode → String
  | .push => "Push"
  | .jump => "Jump"
  | .call => "Call"
  | .nop => "Nop"
  | .ret => "Ret"

/-- The byte that stands for an opcode. -/
def toByte : Opcode → UInt8
  | .push => 0
  | .jump => 1
  | .call => 2
  | .nop => 3
  | .ret => 4

/-- The opcode that a byte stands for. -/
def ofByte? (byte : UInt8) : Option Opcode := all[byte.toNat]?

/-- A byte that stands for no opcode. -/
structure Invalid where
  byte : UInt8
  deriving DecidableEq, Repr

/-- The wording of the error. -/
def Invalid.message (e : Invalid) : String := s!"invalid opcode {e.byte}"

/-- The opcode that a byte stands for, or an error. -/
def ofByte (byte : UInt8) : Except Invalid Opcode :=
  match ofByte? byte with
  | some opcode => .ok opcode
  | none => .error ⟨byte⟩

end Opcode

/-- An instruction with builder operands. -/
inductive Definition where
  | push (value : Int64)
  | jump (target : UInt16)
  | call (target : UInt16) (arity : UInt8)
  | nop
  | ret
  deriving DecidableEq, Repr

namespace Definition

/-- The opcode of a definition. -/
def opcode : Definition → Opcode
  | .push _ => .push
  | .jump _ => .jump
  | .call _ _ => .call
  | .nop => .nop
  | .ret => .ret

/-- The builder operands. -/
def operands : Definition → List Int
  | .push value => [value.toInt]
  | .jump target => [target.toNat]
  | .call target arity => [target.toNat, arity.toNat]
  | .nop => []
  | .ret => []

/-- Sizes by ordinal. -/
def sizes : List Nat := [2, 3, 4, 1, 1]

/-- Terminal flags by ordinal. -/
def terminals : List Bool := [false, true, false, false, true]

/-- Bytes on the wire. -/
def wireSize (d : Definition) : Nat := sizes.getD d.opcode.toByte.toNat 0

/-- Whether the instruction ends a basic block. -/
def isTerminal (d : Definition) : Bool := terminals.getD d.opcode.toByte.toNat false

/-- Appends the ordinal and the runtime operands. -/
def write (d : Definition) (b : Bytecode) : Bytecode :=
  let b := b.writeByte d.opcode.toByte
  match d with
  | .push value => b.write value.toUInt64.toUInt16 .byte
  | .jump target => b.write target .word
  | .call target arity => (b.write arity.toUInt16 .byte).write target .word
  | .nop => b
  | .ret => b

/-- The bytecode of definitions. -/
def writeAll (ds : List Definition) : Bytecode := ds.foldl (fun b d => d.write b) {}

end Definition

/-- An instruction with the operands of the wire. -/
inductive Wire where
  | push (value : UInt8)
  | jump (target : UInt16)
  | call (arity : UInt8) (target : UInt16)
  | nop
  | ret
  deriving DecidableEq, Repr

namespace Wire

/-- The opcode of an instruction. -/
def opcode : Wire → Opcode
  | .push _ => .push
  | .jump _ => .jump
  | .call _ _ => .call
  | .nop => .nop
  | .ret => .ret

/-- The operands of the wire. -/
def operands : Wire → List Nat
  | .push value => [value.toNat]
  | .jump target => [target.toNat]
  | .call arity target => [arity.toNat, target.toNat]
  | .nop => []
  | .ret => []

/-- Reads the operands of an opcode, each arm with a bound of its own. -/
def readArm? (b : Bytecode) (offset : Nat) : Opcode → Option (Wire × Nat)
  | .push =>
    if b.size < offset + 1 then none
    else do
      let value ← b.readByte? offset
      pure (.push value, offset + 1)
  | .jump =>
    if b.size < offset + 2 then none
    else do
      let target ← b.readWord? offset
      pure (.jump target, offset + 2)
  | .call =>
    if b.size < offset + 3 then none
    else do
      let arity ← b.readByte? offset
      let target ← b.readWord? (offset + 1)
      pure (.call arity target, offset + 1 + 2)
  | .nop => some (.nop, offset)
  | .ret => some (.ret, offset)

/-- Reads the instruction at an offset, and gives the offset past it. -/
def read? (b : Bytecode) (offset : Nat) : Option (Wire × Nat) :=
  if b.size ≤ offset then none
  else do
    let byte ← b.readByte? offset
    let opcode ← Opcode.ofByte? byte
    readArm? b (offset + 1) opcode

/-- Each arm reads forwards. -/
theorem le_of_readArm? {b : Bytecode} {offset next : Nat} {opcode : Opcode} {i : Wire}
    (h : readArm? b offset opcode = some (i, next)) : offset ≤ next := by
  cases opcode <;> simp only [readArm?] at h
  case nop => simp_all
  case ret => simp_all
  all_goals
    split at h
    · simp at h
    · simp only [Option.bind_eq_bind, Option.pure_def, Option.bind_eq_some_iff, Option.some.injEq,
        Prod.mk.injEq] at h
      grind

/-- An instruction starts before the end and has at least one byte. -/
theorem bounds_of_read? {b : Bytecode} {offset next : Nat} {i : Wire}
    (h : read? b offset = some (i, next)) : offset < b.size ∧ offset < next := by
  unfold read? at h
  split at h
  · simp at h
  · simp only [Option.bind_eq_bind, Option.bind_eq_some_iff] at h
    obtain ⟨_, _, _, _, h⟩ := h
    have := le_of_readArm? h
    omega

set_option linter.unusedVariables false in
/-- The instructions from an offset up to the first that cannot be read, each with its offset. -/
def readFrom (b : Bytecode) (offset : Nat) : List (Nat × Wire) :=
  match hread : read? b offset with
  | some (i, next) => (offset, i) :: readFrom b next
  | none => []
termination_by b.size - offset
decreasing_by
  have := bounds_of_read? hread
  omega

end Wire

end OpcodeForge.Sample
