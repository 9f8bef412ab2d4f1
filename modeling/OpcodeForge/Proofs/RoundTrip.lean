import OpcodeForge.Proofs.Encoding

/-!
# Round trip

A program that was built on a loaded table and encoded is decoded again: one entry for each
instruction, at the offset that the layout gives it, with the operands that its writers stand for.
Where the writers pass all operands through, what was decoded can be built and encoded again, and the
bytes are the same.
-/

namespace OpcodeForge.Program

open Instruction

variable {t : Table}

theorem length_layoutFrom (start : Nat) (program : List Instruction) :
    (layoutFrom start program).length = program.length := by
  induction program generalizing start with
  | nil => rfl
  | cons i program ih => simp [layoutFrom, ih]

/-- What stands on the wire for built instructions is listed at their layout. -/
theorem listed_layoutFrom {program : List Instruction} {out : List Decoded}
    (hbuilt : ∀ i ∈ program, i.Built t) (hout : List.Forall₂ OnWire program out) (start : Nat) :
    Listed t start ((layoutFrom start program).zip out) := by
  induction hout generalizing start with
  | nil => trivial
  | @cons i d program out hd _ ih =>
      have hmem := (hbuilt i List.mem_cons_self).mem
      refine ⟨rfl, ⟨?_, ?_⟩, ?_⟩
      · rw [hd.descriptor]; exact hmem
      · rw [hd.descriptor]; exact hd.fits
      · rw [hd.descriptor]
        exact ih (fun j hj => hbuilt j (List.mem_cons_of_mem _ hj)) _

/-- The decoded instruction says of itself what the built one does, and each operand is what its
writer stands for. -/
structure Restores (i : Instruction) (d : Decoded) : Prop where
  name : d.name = i.name
  opcode : d.opcode = i.opcode
  isTerminal : d.isTerminal = i.isTerminal
  operands : List.Forall₂ (Writer.Yields i.operands) i.descriptor.operandWriters d.operands

theorem Restores.of_onWire {i : Instruction} {d : Decoded} (h : i.OnWire d) : Restores i d where
  name := congrArg Descriptor.name h.descriptor
  opcode := congrArg Descriptor.ordinal h.descriptor
  isTerminal := congrArg Descriptor.isTerminal h.descriptor
  operands := h.operands

theorem forall_built (ht : t.WellFormed) {program : List Instruction}
    (h : ∀ i ∈ program, ∃ name operands, Instruction.build t name operands = .ok i) :
    ∀ i ∈ program, i.Built t := by
  intro i hi
  obtain ⟨name, operands, hbuild⟩ := h i hi
  exact ((build_eq_ok_iff ht).mp hbuild).1

/-- An encoded program decodes to what its instructions put on the wire, at their layout. -/
theorem exists_decode_of_encode (ht : t.WellFormed) {program : List Instruction} {b : Bytecode}
    (hbuilt : ∀ i ∈ program, i.Built t) (hb : encode program = .ok b) :
    ∃ out, decode t b = .ok out ∧ out.map Prod.fst = layout program ∧
      List.Forall₂ OnWire program (out.map Prod.snd) := by
  obtain ⟨wire, hwire, hbytes⟩ := (encode_eq_ok_iff fun i hi => (hbuilt i hi).writerOk ht).mp hb
  have hlen : (layout program).length = wire.length := by
    rw [layout, length_layoutFrom, hwire.length_eq]
  have hsnd : ((layout program).zip wire).map Prod.snd = wire :=
    List.map_snd_zip (Nat.le_of_eq hlen.symm)
  refine ⟨(layout program).zip wire, ?_, List.map_fst_zip (Nat.le_of_eq hlen), ?_⟩
  · exact (decode_eq_ok_iff ht).mpr ⟨listed_layoutFrom hbuilt hwire 0, by rw [hsnd, hbytes]⟩
  · rw [hsnd]
    exact hwire

/-- Decoding undoes encoding. -/
theorem decode_encode {text : String} {t : Table} {program : List Instruction} {b : Bytecode}
    (ht : Table.ofText text = .ok t)
    (hprogram : ∀ i ∈ program, ∃ name operands, Instruction.build t name operands = .ok i)
    (hb : encode program = .ok b) :
    ∃ out, decode t b = .ok out ∧ out.map Prod.fst = layout program ∧
      List.Forall₂ Restores program (out.map Prod.snd) := by
  have hwf := Table.WellFormed.of_ofText ht
  obtain ⟨out, hout, hfst, hwire⟩ := exists_decode_of_encode hwf (forall_built hwf hprogram) hb
  exact ⟨out, hout, hfst, hwire.imp fun _ _ hd => .of_onWire hd⟩

/-- The negative operand of a cast comes back modulo 256. -/
theorem decode_encode_push_jump :
    Table.ofText Table.pushJumpText = .ok ⟨[Table.push, Table.jump]⟩ ∧
    encode [⟨Table.push, [-2]⟩, ⟨Table.jump, [300]⟩] = .ok ⟨#[0, 254, 1, 44, 1]⟩ ∧
    ∃ out, decode ⟨[Table.push, Table.jump]⟩ ⟨#[0, 254, 1, 44, 1]⟩ = .ok out ∧
      out.map Prod.fst = layout [⟨Table.push, [-2]⟩, ⟨Table.jump, [300]⟩] ∧
      List.Forall₂ Restores [⟨Table.push, [-2]⟩, ⟨Table.jump, [300]⟩] (out.map Prod.snd) := by
  have hb : encode [⟨Table.push, [-2]⟩, ⟨Table.jump, [300]⟩] = .ok ⟨#[0, 254, 1, 44, 1]⟩ := by
    decide +kernel
  refine ⟨Table.ofText_pushJumpText, hb, decode_encode Table.ofText_pushJumpText ?_ hb⟩
  intro i hi
  simp only [List.mem_cons, List.not_mem_nil, or_false] at hi
  rcases hi with rfl | rfl
  · exact ⟨"Push", [-2], by decide +kernel⟩
  · exact ⟨"Jump", [300], by decide +kernel⟩

/-! ## Encoding what was decoded -/

/-- The builder operands are those of the wire, and each is written at its own position. -/
structure PassesThrough (d : Descriptor) : Prop where
  builderOperands : d.attributes.builderOperands = none
  operandWriters : d.operandWriters = (List.range d.runtimeOperands.length).map Writer.arg

/-- The operands of a decoded instruction as builder operands. -/
def asOperands (i : Decoded) : List Int64 := i.operands.map fun value => Int64.ofNat value.toNat

variable {d : Descriptor} {i : Decoded}

theorem PassesThrough.hasWriters (h : PassesThrough d) : d.has .operandWriters = true := by
  cases hw : d.attributes.operandWriters with
  | some writers => simp [Descriptor.has, hw]
  | none =>
      have hnil : d.runtimeOperands = [] := by
        simpa [Descriptor.operandWriters, hw] using h.operandWriters.symm
      simp [Descriptor.has, hnil]

/-- The type of each builder operand is the type that it is written as. -/
theorem PassesThrough.passthroughFault? (h : PassesThrough d) : d.passthroughFault? = none := by
  refine List.findSome?_eq_none_iff.mpr ?_
  rintro ⟨⟨writer, width⟩, k⟩ hmem
  have hpair := List.mk_mem_zipIdx_iff_getElem?.mp hmem
  rw [List.getElem?_zip_eq_some] at hpair
  obtain ⟨hwriter, hwidth⟩ := hpair
  have hk : k < d.runtimeOperands.length := (List.getElem?_eq_some_iff.mp hwidth).1
  obtain rfl : writer = .arg k := by
    rw [h.operandWriters, List.getElem?_map, List.getElem?_range hk] at hwriter
    exact (Option.some.inj hwriter).symm
  have htype : d.builderOperands[k]? = some width.typeName := by
    simp [Descriptor.builderOperands, h.builderOperands, hwidth]
  simp [Descriptor.castFault?, htype]

theorem PassesThrough.built (h : PassesThrough i.descriptor) (hvalid : i.Valid t) :
    Built t ⟨i.descriptor, asOperands i⟩ where
  mem := hvalid.1
  hasWriters := h.hasWriters
  passthrough := h.passthroughFault?
  count := by
    simp [asOperands, Descriptor.builderOperands, h.builderOperands, hvalid.2.length_eq]

/-- Operands that were read are written again as they are. -/
theorem PassesThrough.onWire (h : PassesThrough i.descriptor) (hvalid : i.Valid t) :
    OnWire ⟨i.descriptor, asOperands i⟩ i where
  descriptor := rfl
  operands := by
    rw [h.operandWriters]
    refine List.forall₂_iff_get.mpr ⟨by simp [hvalid.2.length_eq], fun k hk hk' => ?_⟩
    simp only [List.get_eq_getElem, List.getElem_map, List.getElem_range]
    have hget : (asOperands i)[k]? = some (Int64.ofNat i.operands[k].toNat) := by
      simp [asOperands, List.getElem?_eq_getElem hk']
    have hlt := i.operands[k].toNat_lt
    exact .arg hget (Int64.toInt_ofNat_of_lt (by omega)).symm
  fits := hvalid.2

theorem valid_of_listed {start : Nat} {out : List (Nat × Decoded)} (h : Listed t start out) :
    ∀ entry ∈ out, entry.2.Valid t := by
  induction out generalizing start with
  | nil => exact fun _ hmem => absurd hmem List.not_mem_nil
  | cons entry out ih =>
      obtain ⟨-, hvalid, hrest⟩ := h
      intro entry' hmem
      rcases List.mem_cons.mp hmem with rfl | hmem
      · exact hvalid
      · exact ih hrest entry' hmem

/-- Encoding undoes decoding, where the writers pass all operands through in order. -/
theorem encode_decoded {document : String} {t : Table} {b : Bytecode}
    {out : List (Nat × Decoded)} (ht : Table.ofText document = .ok t)
    (hpasses : ∀ d ∈ t.descriptors, PassesThrough d) (hout : decode t b = .ok out) :
    ∃ program,
      out.mapM (fun entry => Instruction.build t entry.2.name (asOperands entry.2)) = .ok program ∧
      encode program = .ok b := by
  have hwf := Table.WellFormed.of_ofText ht
  obtain ⟨hlisted, hbytes⟩ := (decode_eq_ok_iff hwf).mp hout
  have hvalid := valid_of_listed hlisted
  have hbuilt : ∀ entry ∈ out, Built t ⟨entry.2.descriptor, asOperands entry.2⟩ :=
    fun entry hentry => (hpasses _ (hvalid entry hentry).1).built (hvalid entry hentry)
  refine ⟨out.map fun entry => ⟨entry.2.descriptor, asOperands entry.2⟩, ?_, ?_⟩
  · rw [mapM_eq_ok_iff, List.forall₂_map_right_iff, List.forall₂_same]
    exact fun entry hentry => (build_eq_ok_iff hwf).mpr ⟨hbuilt entry hentry, rfl, rfl⟩
  · refine (encode_eq_ok_iff ?_).mpr ⟨out.map Prod.snd, ?_, hbytes⟩
    · intro i hi
      obtain ⟨entry, hentry, rfl⟩ := List.mem_map.mp hi
      exact (hbuilt entry hentry).writerOk hwf
    · rw [List.forall₂_map_left_iff, List.forall₂_map_right_iff, List.forall₂_same]
      exact fun entry hentry => (hpasses _ (hvalid entry hentry).1).onWire (hvalid entry hentry)

/-- A document with an opcode without operands and one with operands of both widths. -/
def nopLoadText : String :=
  "[\x7b\"name\": \"Nop\"\x7d, \x7b\"name\": \"Load\", " ++
    "\"runtime_operands\": [\"u8\", \"u16\"], \"operand_writers\": [\"arg0\", \"*arg1\"]\x7d]"

def nop : Descriptor where
  name := "Nop"
  ordinal := 0
  attributes := {}

def load : Descriptor where
  name := "Load"
  ordinal := 1
  attributes := {
    runtimeOperands := some [.byte, .word], operandWriters := some [.arg 0, .arg 1] }

/-- A load and an instruction of one byte. -/
theorem encode_decoded_load_nop :
    Table.ofText nopLoadText = .ok ⟨[nop, load]⟩ ∧
    decode ⟨[nop, load]⟩ ⟨#[1, 7, 44, 1, 0]⟩ = .ok [(0, ⟨load, [7, 300]⟩), (4, ⟨nop, []⟩)] ∧
    ∃ program,
      [(0, (⟨load, [7, 300]⟩ : Decoded)), (4, ⟨nop, []⟩)].mapM
          (fun entry => Instruction.build ⟨[nop, load]⟩ entry.2.name (asOperands entry.2)) =
        .ok program ∧
      encode program = .ok ⟨#[1, 7, 44, 1, 0]⟩ := by
  have ht : Table.ofText nopLoadText = .ok ⟨[nop, load]⟩ := by decide +kernel
  have hout : decode ⟨[nop, load]⟩ ⟨#[1, 7, 44, 1, 0]⟩ =
      .ok [(0, ⟨load, [7, 300]⟩), (4, ⟨nop, []⟩)] := by decide +kernel
  refine ⟨ht, hout, encode_decoded ht ?_ hout⟩
  intro d hd
  simp only [List.mem_cons, List.not_mem_nil, or_false] at hd
  rcases hd with rfl | rfl
  · exact ⟨rfl, rfl⟩
  · exact ⟨rfl, rfl⟩

end OpcodeForge.Program
