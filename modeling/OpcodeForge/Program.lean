import OpcodeForge.Instruction

/-!
# Programs

A program is a list of instructions: where each of them starts, its bytecode, the instructions of
bytecode with their offsets, and their listing.
-/

namespace OpcodeForge.Program

/-- The offsets of instructions when the first is at `start`. -/
def layoutFrom (start : Nat) : List Instruction → List Nat
  | [] => []
  | i :: rest => start :: layoutFrom (start + i.wireSize) rest

/-- The offset of each instruction. -/
def layout (program : List Instruction) : List Nat := layoutFrom 0 program

/-- The bytecode of a program. -/
def encode (program : List Instruction) : Except CodecError Bytecode :=
  program.foldlM (fun b i => i.write b) {}

/-- Why no instruction starts with a byte. -/
def decodeError (t : Table) (offset : Nat) (byte : UInt8) : CodecError :=
  match t.byOrdinal? byte with
  | some d => .truncated offset d.name
  | none => .unknownOpcode offset byte

/-- The instructions from an offset to the end, each with its offset. -/
def decodeFrom (t : Table) (b : Bytecode) (offset : Nat) :
    Except CodecError (List (Nat × Decoded)) :=
  if hsize : offset < b.bytes.size then
    match hread : Decoded.read? t b offset with
    | some (i, next) => do
      let rest ← decodeFrom t b next
      pure ((offset, i) :: rest)
    | none => .error (decodeError t offset b.bytes[offset])
  else .ok []
termination_by b.bytes.size - offset
decreasing_by
  have := Decoded.lt_of_read? hread
  omega

/-- The instructions of bytecode, each with its offset. -/
def decode (t : Table) (b : Bytecode) : Except CodecError (List (Nat × Decoded)) :=
  decodeFrom t b 0

/-- The line of an instruction: its offset in hexadecimal, its text, and a mark at the end of a
basic block. -/
def listingLine (offset : Nat) (i : Decoded) : String :=
  String.ofList ((Text.hexDigits 4 offset).map Char.toUpper) ++ ": " ++ i.render ++
    (if i.isTerminal then "  ; terminal" else "") ++ "\n"

/-- The listing of bytecode. -/
def listing (t : Table) (b : Bytecode) : Except CodecError String := do
  let instructions ← decode t b
  pure (String.join (instructions.map fun (offset, i) => listingLine offset i))

end OpcodeForge.Program
