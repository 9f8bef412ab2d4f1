import OpcodeForge.Proofs.Acceptance
import OpcodeForge.Proofs.Generated.WireFormat
import OpcodeForge.Sample.Codec

/-!
# The codec of the sample

The sample has a codec of its own, with one arm for each opcode. On the sample's table it writes and
reads what the codec that is driven by the table writes and reads, and both are what the generated
code of this table does.
-/

namespace OpcodeForge

theorem Json.parse_ofList (cs : List Char) :
    Json.parse (String.ofList cs) =
      (readValue (3 * cs.length + 3) cs).bind fun (value, rest) =>
        if (skipGap rest).isEmpty then some value else none := by
  simp only [Json.parse, String.toList_ofList]
  cases readValue (3 * cs.length + 3) cs <;> rfl

namespace Sample

/-! ## The table -/

/-- The table document of the sample. -/
def document : String :=
  "[
    \x7b\"name\": \"Push\", \"ast_args\": [\"Constant\"], \"pest_args\": \"num\",
     \"trivial_ast\": false, \"trivial_lowering\": false,
     \"builder_operands\": [\"i64\"], \"runtime_operands\": [\"u8\"],
     \"operand_writers\": [\"arg0 as u8\"], \"is_terminal\": false\x7d,
    \x7b\"name\": \"Jump\", \"ast_args\": [\"u16\"], \"pest_args\": \"num\",
     \"trivial_ast\": false, \"trivial_lowering\": false,
     \"runtime_operands\": [\"u16\"], \"operand_writers\": [\"arg0\"], \"is_terminal\": true\x7d,
    \x7b\"name\": \"Call\", \"ast_args\": [\"u16\", \"u8\"], \"pest_args\": \"num ~ \\\",\\\" ~ num\",
     \"trivial_ast\": false, \"trivial_lowering\": false,
     \"builder_operands\": [\"u16\", \"u8\"], \"runtime_operands\": [\"u8\", \"u16\"],
     \"operand_writers\": [\"arg1\", \"arg0\"]\x7d,
    \x7b\"name\": \"Nop\", \"trivial_ast\": true, \"trivial_lowering\": true\x7d,
    \x7b\"name\": \"Ret\", \"trivial_ast\": true, \"trivial_lowering\": true, \"is_terminal\": true\x7d
]
"

/-- The descriptor of an opcode: its record at its ordinal. -/
def Opcode.descriptor (opcode : Opcode) : Descriptor :=
  Table.describe opcode.toByte.toNat (records.getD opcode.toByte.toNat { name := "" })

/-- The table of the sample. -/
def table : Table := ⟨Opcode.all.map Opcode.descriptor⟩

set_option maxRecDepth 20000 in
theorem records_document :
    (Json.parse document).bind (Json.Value.list? Record.ofJson?) = some records := by
  -- the text as a list of characters first, which makes the evaluation cheap
  rw [document, Json.parse_ofList]
  decide +kernel

theorem ofText_document : Table.ofText document = .ok table := by
  rw [Table.ofText, records_document]
  decide +kernel

theorem wellFormed_table : table.WellFormed := .of_ofText ofText_document

theorem generable_table : ∀ d ∈ table.descriptors, d.Generable := by
  refine List.forall_mem_map.mpr fun opcode _ => ?_
  cases opcode <;> exact ⟨by decide, by decide, by decide, by decide, by decide, rfl, by decide⟩

theorem exists_generateAll_table : ∃ artifacts, Artifact.generateAll table {} = .ok artifacts :=
  Artifact.exists_generateAll_iff.mpr ⟨by decide +kernel, by decide, generable_table⟩

namespace Opcode

variable (opcode : Opcode)

theorem name_descriptor : opcode.descriptor.name = opcode.name := by cases opcode <;> rfl

/-- The widths of the operands on the wire. -/
def widths : Opcode → List Width
  | .push => [.byte]
  | .jump => [.word]
  | .call => [.byte, .word]
  | .nop => []
  | .ret => []

theorem runtimeOperands_descriptor : opcode.descriptor.runtimeOperands = opcode.widths := by
  cases opcode <;> rfl

theorem mem_integerTypes : ∀ type ∈ opcode.descriptor.builderOperands, type ∈ integerTypes := by
  cases opcode <;> decide

theorem mem_table : opcode.descriptor ∈ table.descriptors :=
  List.mem_map_of_mem (by cases opcode <;> decide)

theorem byOrdinal?_table (byte : UInt8) :
    table.byOrdinal? byte = (ofByte? byte).map descriptor := by
  simp [Table.byOrdinal?, table, ofByte?]

end Opcode

/-! ## Writing -/

theorem toInt_ofInt_natCast {n : Nat} (h : n < 0x10000) : (Int64.ofInt n).toInt = n :=
  Int64.toInt_ofInt_of_le (by omega) (by omega)

theorem toNat_toUInt64 (value : Int64) :
    (value.toUInt64.toNat : Int) = value.toInt % 0x10000000000000000 := by
  have hbits : value.toInt = Int.bmod value.toUInt64.toNat 0x10000000000000000 := by
    rw [← Int64.toInt_toBitVec, BitVec.toInt_eq_toNat_bmod]
    rfl
  have hlt := value.toUInt64.toNat_lt
  have hmod := @Int.bmod_emod value.toUInt64.toNat 0x10000000000000000
  rw [← hbits] at hmod
  omega

namespace Definition

/-- The definition as an instruction of the table. -/
def instruction (d : Definition) : OpcodeForge.Instruction :=
  ⟨d.opcode.descriptor, d.operands.map Int64.ofInt⟩

/-- The operands of the definition on the wire. -/
def wireOperands : Definition → List UInt16
  | .push value => [Instruction.truncate value .byte]
  | .jump target => [target]
  | .call target arity => [arity.toUInt16, target]
  | .nop => []
  | .ret => []

variable (d : Definition)

theorem built_instruction : d.instruction.Built table where
  mem := d.opcode.mem_table
  hasWriters := by cases d <;> rfl
  passthrough := by cases d <;> rfl
  count := by cases d <;> rfl

theorem build_instruction :
    Instruction.build table d.opcode.name (d.operands.map Int64.ofInt) = .ok d.instruction :=
  (Instruction.build_eq_ok_iff wellFormed_table).mpr
    ⟨d.built_instruction, d.opcode.name_descriptor, rfl⟩

/-- Each writer of the opcode stands for the operand that the definition puts on the wire. -/
theorem onWire_instruction : d.instruction.OnWire ⟨d.opcode.descriptor, d.wireOperands⟩ := by
  cases d with
  | push value =>
      have hwire := Instruction.toNat_truncate value .byte
      refine ⟨rfl, .cons (.cast rfl ?_) .nil, .cons ?_ .nil⟩
      · rw [Int64.ofInt_toInt]
        exact hwire
      · simp only [Width.Fits, Width.modulus] at hwire ⊢
        omega
  | jump target =>
      have hlt := target.toNat_lt
      exact ⟨rfl, .cons (.arg rfl (toInt_ofInt_natCast hlt).symm) .nil, .cons hlt .nil⟩
  | call target arity =>
      have hlt := target.toNat_lt
      have hlt' := arity.toNat_lt
      refine ⟨rfl, .cons (.arg rfl ?_) (.cons (.arg rfl (toInt_ofInt_natCast hlt).symm) .nil),
        .cons ?_ (.cons hlt .nil)⟩
      · rw [toInt_ofInt_natCast (by omega), UInt8.toNat_toUInt16]
      · simpa [Width.Fits, Width.modulus] using hlt'
  | nop => exact ⟨rfl, .nil, .nil⟩
  | ret => exact ⟨rfl, .nil, .nil⟩

/-- The low byte of a pushed value, as the arm takes it and as the cast does. -/
theorem littleEndian_push (value : Int64) :
    littleEndian 1 value.toUInt64.toUInt16.toNat =
      littleEndian 1 (Instruction.truncate value .byte).toNat := by
  have hwide := toNat_toUInt64 value
  have hwire := Instruction.toNat_truncate value .byte
  simp only [Width.modulus] at hwire
  simp only [littleEndian, List.cons.injEq, and_true]
  apply UInt8.toNat_inj.mp
  simp only [UInt8.toNat_ofNat', UInt64.toNat_toUInt16]
  omega

/-- The arm of a definition appends the ordinal and the operands on the wire. -/
theorem toList_write (b : Bytecode) :
    (d.write b).bytes.toList =
      b.bytes.toList ++ d.opcode.toByte :: operandBytes d.opcode.widths d.wireOperands := by
  have hbyte := Bytecode.toList_writeByte b d.opcode.toByte
  cases d with
  | push value =>
      rw [write, Bytecode.toList_write, hbyte, Width.size, littleEndian_push]
      simp [opcode, Opcode.widths, wireOperands, operandBytes, Width.size]
  | jump target =>
      rw [write, Bytecode.toList_write, hbyte]
      simp [opcode, Opcode.widths, wireOperands, operandBytes]
  | call target arity =>
      rw [write, Bytecode.toList_write, Bytecode.toList_write, hbyte]
      simp [opcode, Opcode.widths, wireOperands, operandBytes]
  | nop => exact hbyte
  | ret => exact hbyte

theorem write_instruction (b : Bytecode) : d.instruction.write b = .ok (d.write b) := by
  refine (Instruction.write_eq_ok_iff (d.built_instruction.writerOk wellFormed_table)).mpr
    ⟨_, d.onWire_instruction, ?_⟩
  rw [toList_write, Decoded.wire, Opcode.runtimeOperands_descriptor]
  cases d <;> rfl

/-- One turn of the encoder for each definition, from any buffer. -/
theorem foldlM_write_instruction (ds : List Definition) (b : Bytecode) :
    (ds.map instruction).foldlM (fun b i => i.write b) b =
      .ok (ds.foldl (fun b d => d.write b) b) := by
  induction ds generalizing b with
  | nil => rfl
  | cons d ds ih =>
      rw [List.map_cons, List.foldlM_cons, write_instruction]
      exact ih (d.write b)

theorem encode_instruction (ds : List Definition) :
    Program.encode (ds.map instruction) = .ok (writeAll ds) :=
  foldlM_write_instruction ds {}

/-- The instruction of the table has the name and the operands of the definition, and says of itself
what the definition does. -/
structure Agrees (d : Definition) (i : OpcodeForge.Instruction) : Prop where
  build : Instruction.build table d.opcode.name (d.operands.map Int64.ofInt) = .ok i
  opcode : d.opcode.toByte = i.opcode
  wireSize : d.wireSize = i.wireSize
  isTerminal : d.isTerminal = i.isTerminal

theorem agrees_instruction : Agrees d d.instruction where
  build := d.build_instruction
  opcode := by cases d <;> rfl
  wireSize := by cases d <;> rfl
  isTerminal := by cases d <;> rfl

end Definition

/-! ## Reading -/

namespace Wire

variable {b : Bytecode} {offset : Nat}

/-- What a reader of the instruction sees, and the offset past it. -/
def observe (read : Wire × Nat) : String × List Nat × Nat :=
  (read.1.opcode.name, read.1.operands, read.2)

/-- What the codec of the table reads, in the same form. -/
def observeDecoded (read : Decoded × Nat) : String × List Nat × Nat :=
  (read.1.name, read.1.operands.map UInt16.toNat, read.2)

/-- The arm of an opcode reads the operands of its widths. Its own bound and the bound of the whole
instruction are the same one byte further, and an arm without operands needs none. -/
theorem observe_readArm? (hbyte : offset < b.size) (opcode : Opcode) :
    (readArm? b (offset + opcodeBytes) opcode).map observe =
      (if b.size < offset + opcode.descriptor.wireSize then none
        else (Decoded.readOperands? b (offset + opcodeBytes) opcode.widths).map
          fun (values, next) => (opcode.name, values.map UInt16.toNat, next)) := by
  have hsize : offset + opcode.descriptor.wireSize =
      offset + opcodeBytes + Width.totalSize opcode.widths := by
    rw [← Opcode.runtimeOperands_descriptor, Nat.add_assoc]
    rfl
  rw [hsize]
  cases opcode with
  | push =>
      simp only [readArm?, Opcode.widths, Width.totalSize, Width.size, Decoded.readOperands?]
      split
      · rfl
      · cases hvalue : b.readByte? (offset + opcodeBytes) with
        | none => simp [Bytecode.read?, hvalue]
        | some value => simp [Bytecode.read?, hvalue, observe, opcode, operands]
  | jump =>
      simp only [readArm?, Opcode.widths, Width.totalSize, Width.size, Decoded.readOperands?]
      split
      · rfl
      · cases htarget : b.readWord? (offset + opcodeBytes) with
        | none => simp [Bytecode.read?, htarget]
        | some target => simp [Bytecode.read?, htarget, observe, opcode, operands]
  | call =>
      simp only [readArm?, Opcode.widths, Width.totalSize, Width.size, Decoded.readOperands?]
      split
      · rfl
      · cases harity : b.readByte? (offset + opcodeBytes) with
        | none => simp [Bytecode.read?, harity]
        | some arity =>
            cases htarget : b.readWord? (offset + opcodeBytes + 1) with
            | none => simp [Bytecode.read?, harity, htarget]
            | some target => simp [Bytecode.read?, harity, htarget, observe, opcode, operands]
  | nop =>
      rw [if_neg (by simp only [Opcode.widths, Width.totalSize, opcodeBytes]; omega)]
      rfl
  | ret =>
      rw [if_neg (by simp only [Opcode.widths, Width.totalSize, opcodeBytes]; omega)]
      rfl

theorem observe_read? :
    (read? b offset).map observe = (Decoded.read? table b offset).map observeDecoded := by
  unfold read? Decoded.read?
  by_cases hsize : b.size ≤ offset
  · have hnone : b.readByte? offset = none := Array.getElem?_eq_none hsize
    rw [if_pos hsize, hnone]
    rfl
  · have hlt : offset < b.size := Nat.lt_of_not_le hsize
    obtain ⟨byte, hbyte⟩ : ∃ byte, b.readByte? offset = some byte :=
      ⟨_, Array.getElem?_eq_getElem hlt⟩
    rw [if_neg hsize, hbyte]
    simp only [Option.bind_eq_bind, Option.bind_some, Opcode.byOrdinal?_table]
    cases Opcode.ofByte? byte with
    | none => rfl
    | some opcode =>
        simp only [Option.bind_some, Option.map_some]
        rw [show offset + 1 = offset + opcodeBytes from rfl, observe_readArm? hlt,
          Opcode.runtimeOperands_descriptor]
        split
        · rfl
        · cases Decoded.readOperands? b (offset + opcodeBytes) opcode.widths with
          | none => rfl
          | some p =>
              simp only [Option.bind_some, Option.map_some, observeDecoded, Decoded.name,
                Opcode.name_descriptor, Option.pure_def]

end Wire

/-! ## The generated code -/

/-- The generated arm of a definition appends the operands that the sample writes after the
ordinal. -/
theorem runArm_writeArm_descriptor (d : Definition) :
    Generated.runArm d.opcode.name
        (Generated.typedOperands d.opcode.descriptor (d.operands.map Int64.ofInt))
        (OpcodeForge.Definition.writeArm d.opcode.descriptor) =
      some (operandBytes d.opcode.widths d.wireOperands) := by
  have hbuilt := d.built_instruction
  have hok := hbuilt.writerOk wellFormed_table
  have hpass := Generated.passthroughOk_of_passthroughFault? hok hbuilt.passthrough
    d.opcode.mem_integerTypes
  have hname := Generated.isName_of_isIdentifier (wellFormed_table.identifier _ hbuilt.mem)
  have hrun := Generated.runArm_writeArm hname
    (List.Forall₂.mp (fun _ _ h h' => And.intro h h') hok hpass) hbuilt.count
    d.onWire_instruction.operands
  simp only [Definition.instruction, Opcode.name_descriptor,
    Opcode.runtimeOperands_descriptor] at hrun
  exact hrun

/-- The generated reader reads what the sample reads. -/
theorem runReader_readSection_table (paths : CodePaths) (b : Bytecode) (offset : Nat) :
    ∃ reading,
      Generated.runReader ⟨Code.lastSegment paths.opcode, Opcode.all.map Opcode.name⟩ b offset
          ((Decoder.readSection paths).fragments table) = some reading ∧
      reading.map (fun (name, values, next) => (name, values.map UInt16.toNat, next)) =
        (Wire.read? b offset).map Wire.observe := by
  have hnames : table.descriptors.map Descriptor.name = Opcode.all.map Opcode.name := by decide
  have hrun := @Generated.runReader_readSection b offset paths table wellFormed_table
  rw [hnames] at hrun
  refine ⟨_, hrun, ?_⟩
  rw [Wire.observe_read?, Option.map_map]
  rfl

/-! ## One codec -/

/-- The codec of the sample is the codec of its table. Definitions are written as the instructions
with their names and operands are encoded, and have their ordinals, sizes and terminal flags; at any
offset of any buffer both read the same instruction and next offset, or none. The generated arms and
the generated reader of the table do the same. -/
theorem codec_eq_table_codec :
    Table.ofText document = .ok table ∧
    (∀ ds : List Definition, ∃ program, List.Forall₂ Definition.Agrees ds program ∧
      Program.encode program = .ok (Definition.writeAll ds)) ∧
    (∀ (b : Bytecode) (offset : Nat),
      (Wire.read? b offset).map Wire.observe =
        (Decoded.read? table b offset).map Wire.observeDecoded) ∧
    (∀ (d : Definition) (b : Bytecode), ∃ bytes,
      Generated.runArm d.opcode.name
          (Generated.typedOperands d.opcode.descriptor (d.operands.map Int64.ofInt))
          (OpcodeForge.Definition.writeArm d.opcode.descriptor) = some bytes ∧
      (d.write b).bytes.toList = b.bytes.toList ++ d.opcode.toByte :: bytes) ∧
    ∀ (paths : CodePaths) (b : Bytecode) (offset : Nat), ∃ reading,
      Generated.runReader ⟨Code.lastSegment paths.opcode, Opcode.all.map Opcode.name⟩ b offset
          ((Decoder.readSection paths).fragments table) = some reading ∧
      reading.map (fun (name, values, next) => (name, values.map UInt16.toNat, next)) =
        (Wire.read? b offset).map Wire.observe := by
  refine ⟨ofText_document, ?_, fun b offset => Wire.observe_read?, ?_, runReader_readSection_table⟩
  · intro ds
    refine ⟨ds.map Definition.instruction, ?_, Definition.encode_instruction ds⟩
    rw [List.forall₂_map_right_iff]
    exact List.forall₂_same.mpr fun d _ => d.agrees_instruction
  · intro d b
    exact ⟨_, runArm_writeArm_descriptor d, d.toList_write b⟩

end Sample

end OpcodeForge
