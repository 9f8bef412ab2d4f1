import OpcodeForge.Sample.Assembly
import OpcodeForge.Sample.Codec

/-!
# Lowering of the sample

Every instruction becomes the definition of the same name, in order; calls are counted and jump
targets collected on the way. The lagging dispatch was made before the last opcode was added to the
table and does not know it.
-/

namespace OpcodeForge.Sample

/-- The name of an instruction. -/
def Instruction.name : Instruction → String
  | .push _ => "Push"
  | .jump _ => "Jump"
  | .call _ _ => "Call"
  | .nop => "Nop"
  | .ret => "Ret"

/-- The operands of an instruction. -/
def Instruction.operands : Instruction → List Int
  | .push value => [value.toInt]
  | .jump target => [target.toNat]
  | .call target arity => [target.toNat, arity.toNat]
  | .nop => []
  | .ret => []

/-- The result of lowering. -/
structure Lowered where
  definitions : Array Definition := #[]
  callSites : Nat := 0
  jumpTargets : Array UInt16 := #[]
  deriving DecidableEq, Repr

/-- An instruction that the dispatch does not know. -/
structure Unhandled where
  instruction : Instruction
  deriving DecidableEq, Repr

/-- The wording of the error. -/
def Unhandled.message (e : Unhandled) : String :=
  s!"instruction {e.instruction.name} should have been handled but is not"

namespace Lowered

/-- Adds a definition. -/
def define (l : Lowered) (d : Definition) : Lowered :=
  { l with definitions := l.definitions.push d }

/-- Lowers a push. -/
def push (l : Lowered) (value : Int64) : Lowered := l.define (.push value)

/-- Lowers a jump and remembers its target. -/
def jump (l : Lowered) (target : UInt16) : Lowered :=
  { l.define (.jump target) with jumpTargets := l.jumpTargets.push target }

/-- Lowers a call and counts it. -/
def call (l : Lowered) (target : UInt16) (arity : UInt8) : Lowered :=
  { l.define (.call target arity) with callSites := l.callSites + 1 }

end Lowered

/-- The dispatch of the table. -/
def lowerInstruction (l : Lowered) : Instruction → Lowered
  | .push value => l.push value
  | .jump target => l.jump target
  | .call target arity => l.call target arity
  | .nop => l.define .nop
  | .ret => l.define .ret

/-- The dispatch of the table without its last opcode. -/
def lowerLaggingInstruction (l : Lowered) : Instruction → Except Unhandled Lowered
  | .push value => .ok (l.push value)
  | .jump target => .ok (l.jump target)
  | .call target arity => .ok (l.call target arity)
  | .nop => .ok (l.define .nop)
  | .ret => .error ⟨.ret⟩

/-- Lowers a list of instructions. -/
def lower (instructions : List Instruction) : Lowered := instructions.foldl lowerInstruction {}

/-- Lowers a list of instructions with the lagging dispatch. -/
def lowerLagging (instructions : List Instruction) : Except Unhandled Lowered :=
  instructions.foldlM lowerLaggingInstruction {}

end OpcodeForge.Sample
