import OpcodeForge.Proofs.Wire

/-!
# Encoding

What an instruction that was built puts on the wire. `Writer.Yields` says which runtime operand a
writer stands for, `Instruction.OnWire` says the same of all writers of an opcode, and
`Instruction.write` succeeds exactly when there are such operands.
-/

namespace OpcodeForge

theorem bind_eq_ok_iff {ε α β : Type} {x : Except ε α} {f : α → Except ε β} {y : β} :
    x >>= f = .ok y ↔ ∃ a, x = .ok a ∧ f a = .ok y := by
  cases x with
  | error e => exact ⟨fun h => (by cases h), fun ⟨_, h, _⟩ => (by cases h)⟩
  | ok a => exact ⟨fun h => ⟨a, rfl, h⟩, fun ⟨_, h, h'⟩ => (by cases h; exact h')⟩

theorem pure_eq_ok_iff {ε α : Type} {x y : α} : (pure x : Except ε α) = .ok y ↔ x = y :=
  ⟨fun h => Except.ok.inj h, fun h => congrArg Except.ok h⟩

theorem mapM_eq_ok_iff {ε α β : Type} {f : α → Except ε β} {xs : List α} {ys : List β} :
    xs.mapM f = .ok ys ↔ List.Forall₂ (fun x y => f x = .ok y) xs ys := by
  induction xs generalizing ys with
  | nil =>
      rw [List.mapM_nil, pure_eq_ok_iff, List.forall₂_nil_left_iff]
      exact eq_comm
  | cons x xs ih =>
      simp only [List.mapM_cons, bind_eq_ok_iff, pure_eq_ok_iff, ih, List.forall₂_cons_left_iff]
      constructor
      · rintro ⟨y, hy, ys', hys, rfl⟩
        exact ⟨y, ys', hy, hys, rfl⟩
      · rintro ⟨y, ys', hy, hys, rfl⟩
        exact ⟨y, hy, ys', hys, rfl⟩

/-! ## Writers -/

/-- The runtime operand that a writer stands for: a builder operand as it is, or reduced modulo the
width of a cast. -/
inductive Writer.Yields (operands : List Int64) : Writer → UInt16 → Prop where
  | arg {index : Nat} {value : Int64} {wire : UInt16} (hget : operands[index]? = some value)
      (hwire : (wire.toNat : Int) = value.toInt) : Yields operands (.arg index) wire
  | cast {index : Nat} {width : Width} {value : Int64} {wire : UInt16}
      (hget : operands[index]? = some value)
      (hwire : (wire.toNat : Int) = value.toInt % width.modulus) :
      Yields operands (.cast index width) wire

namespace Instruction

theorem toNat_truncate (value : Int64) (width : Width) :
    ((truncate value width).toNat : Int) = value.toInt % width.modulus := by
  unfold truncate
  rw [UInt16.toNat_ofNat']
  cases width <;> simp only [Width.modulus] <;> omega

theorem eq_truncate_iff {value : Int64} {width : Width} {wire : UInt16} :
    truncate value width = wire ↔ (wire.toNat : Int) = value.toInt % width.modulus := by
  rw [← toNat_truncate, ← UInt16.toNat_inj, Int.ofNat_inj, eq_comm]

theorem operand_eq_ok_iff {i : Instruction} {index : Nat} {value : Int64} :
    i.operand index = .ok value ↔ i.operands[index]? = some value := by
  unfold operand
  cases i.operands[index]? <;> simp

theorem evaluate_arg_eq_ok_iff {i : Instruction} {index : Nat} {width : Width} {wire : UInt16} :
    i.evaluate (.arg index) width = .ok wire ↔
      (Writer.arg index).Yields i.operands wire ∧ width.Fits wire := by
  have hmod : (width.modulus : Int) ≤ (Width.word.modulus : Int) := by
    cases width <;> simp [Width.modulus]
  simp only [evaluate, bind_eq_ok_iff, operand_eq_ok_iff]
  constructor
  · rintro ⟨value, hget, hrest⟩
    split at hrest
    · cases hrest
    · rename_i hrange
      simp only [Bool.or_eq_true, decide_eq_true_eq, not_or, Int.not_lt, Int.not_le] at hrange
      have hwire := eq_truncate_iff.mp (pure_eq_ok_iff.mp hrest)
      rw [Int.emod_eq_of_lt hrange.1 (by omega)] at hwire
      exact ⟨.arg hget hwire, by unfold Width.Fits; omega⟩
  · rintro ⟨⟨hget, hwire⟩, hfit⟩
    unfold Width.Fits at hfit
    refine ⟨_, hget, ?_⟩
    rw [if_neg (by simp only [Bool.or_eq_true, decide_eq_true_eq]; omega)]
    refine pure_eq_ok_iff.mpr (eq_truncate_iff.mpr ?_)
    rw [Int.emod_eq_of_lt (by omega) (by omega), hwire]

theorem evaluate_cast_eq_ok_iff {i : Instruction} {index : Nat} {width : Width} {wire : UInt16} :
    i.evaluate (.cast index width) width = .ok wire ↔
      (Writer.cast index width).Yields i.operands wire ∧ width.Fits wire := by
  simp only [evaluate, bind_eq_ok_iff, operand_eq_ok_iff, pure_eq_ok_iff, eq_truncate_iff]
  constructor
  · rintro ⟨value, hget, hwire⟩
    refine ⟨.cast hget hwire, ?_⟩
    have hlt : value.toInt % (width.modulus : Int) < width.modulus :=
      Int.emod_lt_of_pos _ (by cases width <;> simp [Width.modulus])
    unfold Width.Fits
    omega
  · rintro ⟨hyield, -⟩
    cases hyield with
    | cast hget hwire => exact ⟨_, hget, hwire⟩

/-- A writer gives exactly the value it stands for, if that fits the width. -/
theorem evaluate_eq_ok_iff {i : Instruction} {writer : Writer} {width : Width} {wire : UInt16}
    (hok : i.descriptor.WriterOk writer width) :
    i.evaluate writer width = .ok wire ↔ writer.Yields i.operands wire ∧ width.Fits wire := by
  cases writer with
  | arg index => exact evaluate_arg_eq_ok_iff
  | cast index w =>
      cases hok.1 index w rfl
      exact evaluate_cast_eq_ok_iff
  | verbatim source =>
      refine ⟨fun h => (by cases h), ?_⟩
      rintro ⟨h, -⟩
      cases h

/-! ## Built instructions -/

/-- What `build` has checked. -/
structure Built (t : Table) (i : Instruction) : Prop where
  mem : i.descriptor ∈ t.descriptors
  hasWriters : i.descriptor.has .operandWriters = true
  passthrough : i.descriptor.passthroughFault? = none
  count : i.operands.length = i.descriptor.builderOperands.length

theorem buildFault?_eq_none_iff {d : Descriptor} {count : Nat} :
    buildFault? d count = none ↔
      d.has .operandWriters = true ∧ d.passthroughFault? = none ∧
        count = d.builderOperands.length := by
  have hmissing : d.missing? (.required .operandWriters) = none ↔ d.has .operandWriters = true := by
    simp [Descriptor.missing?]
  rw [← hmissing]
  unfold buildFault?
  cases d.missing? (.required .operandWriters) with
  | some fault => simp
  | none => cases d.passthroughFault? <;> simp

theorem build_eq_ok_iff {t : Table} (ht : t.WellFormed) {name : String} {operands : List Int64}
    {i : Instruction} :
    build t name operands = .ok i ↔ i.Built t ∧ i.name = name ∧ i.operands = operands := by
  unfold build
  cases hget : t.get? name with
  | none =>
      refine ⟨fun h => (by cases h), ?_⟩
      rintro ⟨hbuilt, hname, -⟩
      rw [ht.get?_eq_some_iff.mpr ⟨hbuilt.mem, hname⟩] at hget
      cases hget
  | some d =>
      obtain ⟨hmem, hname⟩ := ht.get?_eq_some_iff.mp hget
      simp only
      cases hfault : buildFault? d operands.length with
      | none =>
          obtain ⟨hwriters, hpass, hcount⟩ := buildFault?_eq_none_iff.mp hfault
          constructor
          · intro h
            cases h
            exact ⟨⟨hmem, hwriters, hpass, hcount⟩, hname, rfl⟩
          · rintro ⟨hbuilt, hname', rfl⟩
            rw [ht.eq_of_name hmem hbuilt.mem (hname.trans hname'.symm)]
      | some fault =>
          refine ⟨fun h => (by cases h), ?_⟩
          rintro ⟨hbuilt, hname', rfl⟩
          have hd : i.descriptor = d := ht.eq_of_name hbuilt.mem hmem (hname'.trans hname.symm)
          have hnone := buildFault?_eq_none_iff.mpr
            ⟨hbuilt.hasWriters, hbuilt.passthrough, hbuilt.count⟩
          rw [hd, hfault] at hnone
          cases hnone

/-- Where there are writers or nothing to write, each runtime operand has its writer. -/
theorem forall₂_writerOk {d : Descriptor} (haligned : d.Aligned)
    (hwriters : d.has .operandWriters = true) :
    List.Forall₂ d.WriterOk d.operandWriters d.runtimeOperands := by
  unfold Descriptor.operandWriters
  cases hw : d.attributes.operandWriters with
  | some writers => exact haligned writers hw
  | none =>
      have hnil : d.runtimeOperands = [] := by simpa [Descriptor.has, hw] using hwriters
      rw [hnil]
      exact .nil

theorem Built.writerOk {t : Table} {i : Instruction} (h : i.Built t) (ht : t.WellFormed) :
    List.Forall₂ i.descriptor.WriterOk i.descriptor.operandWriters i.descriptor.runtimeOperands :=
  forall₂_writerOk (ht.aligned _ h.mem) h.hasWriters

/-! ## Writing -/

/-- The decoded instruction has the opcode of the built one and the operands that its writers stand
for. -/
structure OnWire (i : Instruction) (d : Decoded) : Prop where
  descriptor : d.descriptor = i.descriptor
  operands : List.Forall₂ (Writer.Yields i.operands) i.descriptor.operandWriters d.operands
  fits : List.Forall₂ Width.Fits i.descriptor.runtimeOperands d.operands

/-- Writers give their values one by one, each with its width. -/
theorem forall₂_evaluate_iff {i : Instruction} {writers : List Writer} {widths : List Width}
    {pairs : List (UInt16 × Width)} (hok : List.Forall₂ i.descriptor.WriterOk writers widths) :
    List.Forall₂ (fun (x : Writer × Width) y => i.evaluate x.1 x.2 = .ok y.1 ∧ y.2 = x.2)
        (writers.zip widths) pairs ↔
      ∃ values, pairs = values.zip widths ∧
        List.Forall₂ (Writer.Yields i.operands) writers values ∧
        List.Forall₂ Width.Fits widths values := by
  induction hok generalizing pairs with
  | nil =>
      simp only [List.zip_nil_left, List.forall₂_nil_left_iff]
      exact ⟨fun h => ⟨[], h, rfl, rfl⟩, fun ⟨_, h, rfl, _⟩ => h⟩
  | cons hhead _ ih =>
      simp only [List.zip_cons_cons, List.forall₂_cons_left_iff, evaluate_eq_ok_iff hhead, ih]
      constructor
      · rintro ⟨⟨value, _⟩, _, ⟨⟨hyield, hfit⟩, rfl⟩, ⟨values, rfl, hyields, hfits⟩, rfl⟩
        exact ⟨value :: values, rfl, ⟨value, values, hyield, hyields, rfl⟩,
          ⟨value, values, hfit, hfits, rfl⟩⟩
      · rintro ⟨_, rfl, ⟨value, values, hyield, hyields, rfl⟩, ⟨_, _, hfit, hfits, he⟩⟩
        cases he
        exact ⟨(value, _), _, ⟨⟨hyield, hfit⟩, rfl⟩, ⟨values, rfl, hyields, hfits⟩, rfl⟩

theorem wireOperands_eq_ok_iff {i : Instruction} {pairs : List (UInt16 × Width)}
    (hok : List.Forall₂ i.descriptor.WriterOk i.descriptor.operandWriters
      i.descriptor.runtimeOperands) :
    i.wireOperands = .ok pairs ↔
      ∃ values, pairs = values.zip i.descriptor.runtimeOperands ∧
        i.OnWire ⟨i.descriptor, values⟩ := by
  have hstep : ∀ (writer : Writer) (width : Width) (pair : UInt16 × Width),
      (do let value ← i.evaluate writer width; pure (value, width) : Except CodecError _) =
        .ok pair ↔ i.evaluate writer width = .ok pair.1 ∧ pair.2 = width := by
    rintro writer width ⟨value, width'⟩
    simp only [bind_eq_ok_iff, pure_eq_ok_iff, Prod.mk.injEq]
    constructor
    · rintro ⟨_, h, rfl, rfl⟩
      exact ⟨h, rfl⟩
    · rintro ⟨h, rfl⟩
      exact ⟨_, h, rfl, rfl⟩
  unfold wireOperands
  rw [mapM_eq_ok_iff]
  simp only [hstep]
  rw [forall₂_evaluate_iff hok]
  constructor
  · rintro ⟨values, rfl, hyields, hfits⟩
    exact ⟨values, rfl, rfl, hyields, hfits⟩
  · rintro ⟨values, rfl, -, hyields, hfits⟩
    exact ⟨values, rfl, hyields, hfits⟩

theorem toList_foldl_write {widths : List Width} {values : List UInt16}
    (h : List.Forall₂ Width.Fits widths values) (b : Bytecode) :
    ((values.zip widths).foldl (fun b (value, width) => b.write value width) b).bytes.toList =
      b.bytes.toList ++ operandBytes widths values := by
  induction h generalizing b with
  | nil => simp [operandBytes]
  | cons _ _ ih => simp [operandBytes, ih, Bytecode.toList_write]

theorem write_eq_ok_iff {i : Instruction} {b b' : Bytecode}
    (hok : List.Forall₂ i.descriptor.WriterOk i.descriptor.operandWriters
      i.descriptor.runtimeOperands) :
    i.write b = .ok b' ↔ ∃ d, i.OnWire d ∧ b'.bytes.toList = b.bytes.toList ++ d.wire := by
  have hbytes : ∀ values, i.OnWire ⟨i.descriptor, values⟩ →
      ((values.zip i.descriptor.runtimeOperands).foldl
        (fun b (value, width) => b.write value width) (b.writeByte i.opcode)).bytes.toList =
      b.bytes.toList ++ (Decoded.mk i.descriptor values).wire := by
    intro values hw
    rw [toList_foldl_write hw.fits, Bytecode.toList_writeByte]
    simp [Decoded.wire, Decoded.opcode, opcode]
  simp only [write, bind_eq_ok_iff, pure_eq_ok_iff, wireOperands_eq_ok_iff hok]
  constructor
  · rintro ⟨_, ⟨values, rfl, hw⟩, rfl⟩
    exact ⟨_, hw, hbytes values hw⟩
  · rintro ⟨⟨d, values⟩, hw, hb'⟩
    cases hw.descriptor
    refine ⟨_, ⟨values, rfl, hw⟩, Bytecode.toList_inj.mp ?_⟩
    rw [hbytes values hw, hb']

end Instruction

/-! ## Programs -/

namespace Program

open Instruction

/-- Writing goes on from any buffer, so the induction is over the buffer as well. -/
theorem foldlM_write_eq_ok_iff {program : List Instruction} {start b : Bytecode}
    (hok : ∀ i ∈ program, List.Forall₂ i.descriptor.WriterOk i.descriptor.operandWriters
      i.descriptor.runtimeOperands) :
    program.foldlM (fun b i => i.write b) start = .ok b ↔
      ∃ out, List.Forall₂ OnWire program out ∧
        b.bytes.toList = start.bytes.toList ++ out.flatMap Decoded.wire := by
  induction program generalizing start with
  | nil =>
      simp only [List.foldlM_nil, pure_eq_ok_iff, List.forall₂_nil_left_iff]
      constructor
      · rintro rfl
        exact ⟨[], rfl, by simp⟩
      · rintro ⟨_, rfl, h⟩
        exact Bytecode.toList_inj.mp (by simpa using h.symm)
  | cons i program ih =>
      have hrest : ∀ j ∈ program, List.Forall₂ j.descriptor.WriterOk j.descriptor.operandWriters
          j.descriptor.runtimeOperands := fun j hj => hok j (List.mem_cons_of_mem _ hj)
      simp only [List.foldlM_cons, bind_eq_ok_iff, write_eq_ok_iff (hok i List.mem_cons_self),
        ih hrest, List.forall₂_cons_left_iff]
      constructor
      · rintro ⟨next, ⟨d, hd, hnext⟩, out, hout, hb⟩
        exact ⟨d :: out, ⟨d, out, hd, hout, rfl⟩, by simpa [hnext] using hb⟩
      · rintro ⟨_, ⟨d, out, hd, hout, rfl⟩, hb⟩
        refine ⟨⟨start.bytes ++ d.wire.toArray⟩, ⟨d, hd, by simp⟩, out, hout, ?_⟩
        simpa using hb

theorem encode_eq_ok_iff {program : List Instruction} {b : Bytecode}
    (hok : ∀ i ∈ program, List.Forall₂ i.descriptor.WriterOk i.descriptor.operandWriters
      i.descriptor.runtimeOperands) :
    encode program = .ok b ↔
      ∃ out, List.Forall₂ OnWire program out ∧ b.bytes.toList = out.flatMap Decoded.wire := by
  rw [encode, foldlM_write_eq_ok_iff hok]
  rfl

end Program

end OpcodeForge
