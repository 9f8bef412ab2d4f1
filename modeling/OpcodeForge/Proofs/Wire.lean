import OpcodeForge.Program
import OpcodeForge.Proofs.Table

/-!
# The wire format

An instruction on the wire is its ordinal and then each operand with the low byte first. Reading and
decoding are described by the bytes that stand in the buffer: `Decoded.read?_eq_some_iff` for one
instruction and `Program.decodeFrom_eq_ok_iff` for the rest of a buffer.
-/

namespace OpcodeForge

/-- The `size` low bytes of a number, the lowest first. -/
def littleEndian : Nat → Nat → List UInt8
  | 0, _ => []
  | size + 1, n => UInt8.ofNat n :: littleEndian size (n / 256)

@[simp] theorem length_littleEndian (size n : Nat) : (littleEndian size n).length = size := by
  induction size generalizing n with
  | zero => rfl
  | succ size ih => simp [littleEndian, ih]

/-! ## Bytes in a buffer -/

namespace Bytecode

variable {b : Bytecode} {offset : Nat}

theorem toList_inj {b b' : Bytecode} : b.bytes.toList = b'.bytes.toList ↔ b = b' := by
  cases b
  cases b'
  simp

/-- The bytes stand in the buffer at an offset. -/
def Holds (b : Bytecode) (offset : Nat) (bytes : List UInt8) : Prop :=
  bytes <+: b.bytes.toList.drop offset

theorem holds_nil : b.Holds offset [] := List.nil_prefix

theorem holds_append {xs ys : List UInt8} :
    b.Holds offset (xs ++ ys) ↔ b.Holds offset xs ∧ b.Holds (offset + xs.length) ys := by
  unfold Holds
  rw [← List.drop_drop]
  constructor
  · rintro ⟨rest, h⟩
    rw [← h, List.append_assoc]
    exact ⟨List.prefix_append _ _, by simp⟩
  · rintro ⟨⟨rest, h⟩, h'⟩
    rw [← h, List.drop_left] at h'
    rw [← h]
    exact (List.prefix_append_right_inj xs).mpr h'

theorem holds_singleton {byte : UInt8} : b.Holds offset [byte] ↔ b.readByte? offset = some byte := by
  have hget : b.readByte? offset = (b.bytes.toList.drop offset)[0]? := by
    simp [readByte?]
  rw [hget]
  unfold Holds
  cases b.bytes.toList.drop offset with
  | nil => simp
  | cons byte' rest => simp [eq_comm]

theorem holds_cons {byte : UInt8} {bytes : List UInt8} :
    b.Holds offset (byte :: bytes) ↔ b.readByte? offset = some byte ∧ b.Holds (offset + 1) bytes := by
  rw [← List.singleton_append, holds_append, holds_singleton]
  rfl

theorem Holds.le_size {bytes : List UInt8} (h : b.Holds offset bytes) (hne : bytes ≠ []) :
    offset + bytes.length ≤ b.size := by
  have hlen := h.length_le
  have hpos := List.length_pos_iff.mpr hne
  simp only [List.length_drop, Array.length_toList] at hlen
  unfold size
  omega

theorem holds_of_drop_eq {xs ys : List UInt8} (h : b.bytes.toList.drop offset = xs ++ ys) :
    b.Holds offset xs := ⟨ys, h.symm⟩

theorem drop_eq_of_holds {bytes : List UInt8} (h : b.Holds offset bytes) :
    b.bytes.toList.drop offset = bytes ++ b.bytes.toList.drop (offset + bytes.length) := by
  obtain ⟨rest, h⟩ := h
  rw [← List.drop_drop, ← h, List.drop_left]

/-! ## Operands -/

theorem toList_wireBytes (value : UInt16) (width : Width) :
    (wireBytes value width).toList = littleEndian width.size value.toNat := by
  have hlow : UInt8.ofNat value.toNat = value.toUInt8 := by
    apply UInt8.toNat_inj.mp
    simp
  cases width <;> simp only [wireBytes, littleEndian, Width.size, hlow]

theorem toList_write (b : Bytecode) (value : UInt16) (width : Width) :
    (b.write value width).bytes.toList =
      b.bytes.toList ++ littleEndian width.size value.toNat := by
  simp [write, toList_wireBytes]

theorem toList_writeByte (b : Bytecode) (byte : UInt8) :
    (b.writeByte byte).bytes.toList = b.bytes.toList ++ [byte] := by
  simp [writeByte, toList_write, Width.size, littleEndian]

end Bytecode

def Width.Fits (width : Width) (value : UInt16) : Prop := value.toNat < width.modulus

instance (width : Width) (value : UInt16) : Decidable (width.Fits value) :=
  inferInstanceAs (Decidable (_ < _))

theorem Width.size_inj {width width' : Width} : width.size = width'.size ↔ width = width' := by
  cases width <;> cases width' <;> decide

namespace Bytecode

variable {b : Bytecode} {offset : Nat}

theorem readWord?_eq_some_iff {value : UInt16} :
    b.readWord? offset = some value ↔ b.Holds offset (littleEndian 2 value.toNat) := by
  simp only [littleEndian, holds_cons, readWord?, Option.bind_eq_bind, Option.pure_def,
    Option.bind_eq_some_iff, Option.some.injEq]
  constructor
  · rintro ⟨low, hlow, high, hhigh, rfl⟩
    have hl := low.toNat_lt
    have hh := high.toNat_lt
    have hn : (UInt16.ofNat (low.toNat + 256 * high.toNat)).toNat = low.toNat + 256 * high.toNat := by
      rw [UInt16.toNat_ofNat']
      exact Nat.mod_eq_of_lt (by omega)
    have e1 : UInt8.ofNat (low.toNat + 256 * high.toNat) = low := by
      apply UInt8.toNat_inj.mp
      rw [UInt8.toNat_ofNat']
      omega
    have e2 : UInt8.ofNat ((low.toNat + 256 * high.toNat) / 256) = high := by
      apply UInt8.toNat_inj.mp
      rw [UInt8.toNat_ofNat']
      omega
    rw [hn, e1, e2]
    exact ⟨hlow, hhigh, holds_nil⟩
  · rintro ⟨hlow, hhigh, -⟩
    refine ⟨_, hlow, _, hhigh, ?_⟩
    have hv := value.toNat_lt
    apply UInt16.toNat_inj.mp
    rw [UInt16.toNat_ofNat', UInt8.toNat_ofNat', UInt8.toNat_ofNat']
    omega

theorem read?_eq_some_iff {width : Width} {value : UInt16} :
    b.read? offset width = some value ↔
      width.Fits value ∧ b.Holds offset (littleEndian width.size value.toNat) := by
  cases width with
  | byte =>
      simp only [read?, Option.map_eq_some_iff, Width.Fits, Width.modulus, Width.size, littleEndian,
        holds_singleton]
      constructor
      · rintro ⟨byte, hbyte, rfl⟩
        refine ⟨by simpa using byte.toNat_lt, ?_⟩
        simpa using hbyte
      · rintro ⟨hlt, hbyte⟩
        refine ⟨_, hbyte, UInt16.toNat_inj.mp ?_⟩
        simp only [UInt8.toNat_toUInt16, UInt8.toNat_ofNat']
        exact Nat.mod_eq_of_lt hlt
  | word =>
      simp only [read?, Width.Fits, Width.modulus, Width.size, readWord?_eq_some_iff]
      exact (and_iff_right value.toNat_lt).symm

theorem exists_read? {width : Width} (h : offset + width.size ≤ b.size) :
    ∃ value, b.read? offset width = some value := by
  have hbyte : ∀ {k : Nat}, k < b.size → ∃ byte, b.readByte? k = some byte := fun hk =>
    ⟨_, Array.getElem?_eq_getElem hk⟩
  cases width with
  | byte =>
      obtain ⟨byte, hlow⟩ := hbyte (Nat.lt_of_succ_le h)
      exact ⟨byte.toUInt16, by simp [read?, hlow]⟩
  | word =>
      simp only [Width.size] at h
      obtain ⟨low, hlow⟩ := hbyte (by omega : offset < b.size)
      obtain ⟨high, hhigh⟩ := hbyte (by omega : offset + 1 < b.size)
      exact ⟨_, by simp only [read?, readWord?, hlow, hhigh]; rfl⟩

end Bytecode

/-- The bytes of operands of the given widths, one after the other. -/
def operandBytes : List Width → List UInt16 → List UInt8
  | width :: widths, value :: values =>
      littleEndian width.size value.toNat ++ operandBytes widths values
  | _, _ => []

theorem length_operandBytes {widths : List Width} {values : List UInt16}
    (h : List.Forall₂ Width.Fits widths values) :
    (operandBytes widths values).length = Width.totalSize widths := by
  induction h with
  | nil => rfl
  | cons _ _ ih => simp [operandBytes, Width.totalSize, ih]

namespace Decoded

theorem readOperands?_eq_some_iff {b : Bytecode} {offset next : Nat} {widths : List Width}
    {values : List UInt16} :
    readOperands? b offset widths = some (values, next) ↔
      List.Forall₂ Width.Fits widths values ∧ b.Holds offset (operandBytes widths values) ∧
        next = offset + Width.totalSize widths := by
  induction widths generalizing offset next values with
  | nil =>
      simp only [readOperands?, Option.some.injEq, Prod.mk.injEq, List.forall₂_nil_left_iff,
        Width.totalSize, Nat.add_zero]
      constructor
      · rintro ⟨rfl, rfl⟩
        exact ⟨rfl, Bytecode.holds_nil, rfl⟩
      · rintro ⟨rfl, -, rfl⟩
        exact ⟨rfl, rfl⟩
  | cons width widths ih =>
      simp only [readOperands?, Option.bind_eq_bind, Option.pure_def, Option.bind_eq_some_iff,
        Option.some.injEq, Prod.mk.injEq, Prod.exists, ih, Bytecode.read?_eq_some_iff,
        Width.totalSize]
      constructor
      · rintro ⟨value, ⟨hfit, hhold⟩, values, _, ⟨hfits, hholds, rfl⟩, rfl, rfl⟩
        refine ⟨.cons hfit hfits, ?_, by omega⟩
        exact Bytecode.holds_append.mpr ⟨hhold, by simpa using hholds⟩
      · rintro ⟨hfits, hholds, rfl⟩
        cases hfits with
        | cons hfit hfits =>
            obtain ⟨hhold, hholds⟩ := Bytecode.holds_append.mp hholds
            exact ⟨_, ⟨hfit, hhold⟩, _, _, ⟨hfits, by simpa using hholds, by omega⟩, rfl, rfl⟩

theorem exists_readOperands? {b : Bytecode} {offset : Nat} {widths : List Width}
    (h : offset + Width.totalSize widths ≤ b.size) :
    ∃ values next, readOperands? b offset widths = some (values, next) := by
  induction widths generalizing offset with
  | nil => exact ⟨[], offset, rfl⟩
  | cons width widths ih =>
      simp only [Width.totalSize] at h
      obtain ⟨value, hvalue⟩ := Bytecode.exists_read? (by omega : offset + width.size ≤ b.size)
      obtain ⟨values, next, hvalues⟩ := ih (by omega : offset + width.size + _ ≤ b.size)
      exact ⟨value :: values, next, by simp [readOperands?, hvalue, hvalues]⟩

/-! ## Instructions -/

def wire (i : Decoded) : List UInt8 :=
  i.opcode :: operandBytes i.descriptor.runtimeOperands i.operands

/-- An opcode of the table with operands that fit its widths. -/
def Valid (t : Table) (i : Decoded) : Prop :=
  i.descriptor ∈ t.descriptors ∧ List.Forall₂ Width.Fits i.descriptor.runtimeOperands i.operands

variable {t : Table} {b : Bytecode} {offset next : Nat} {i : Decoded}

theorem Valid.length_wire (h : i.Valid t) : i.wire.length = i.descriptor.wireSize := by
  simp [wire, length_operandBytes h.2, Descriptor.wireSize, Descriptor.operandSize, opcodeBytes,
    Nat.add_comm]

/-- An instruction is read exactly where its bytes stand. -/
theorem read?_eq_some_iff (ht : t.WellFormed) :
    read? t b offset = some (i, next) ↔
      i.Valid t ∧ b.Holds offset i.wire ∧ next = offset + i.descriptor.wireSize := by
  simp only [read?, Option.bind_eq_bind, Option.pure_def, Option.bind_eq_some_iff]
  constructor
  · rintro ⟨byte, hbyte, d, hd, h⟩
    obtain ⟨hmem, rfl⟩ := ht.byOrdinal?_eq_some_iff.mp hd
    split at h
    · cases h
    · simp only [Option.bind_eq_some_iff, Option.some.injEq, Prod.mk.injEq, Prod.exists] at h
      obtain ⟨operands, next', hread, rfl, rfl⟩ := h
      obtain ⟨hfits, hholds, rfl⟩ := readOperands?_eq_some_iff.mp hread
      refine ⟨⟨hmem, hfits⟩, Bytecode.holds_cons.mpr ⟨hbyte, hholds⟩, ?_⟩
      simp only [Descriptor.wireSize, Descriptor.operandSize]
      omega
  · rintro ⟨hvalid, hholds, rfl⟩
    obtain ⟨hbyte, hrest⟩ := Bytecode.holds_cons.mp hholds
    refine ⟨_, hbyte, i.descriptor, ht.byOrdinal?_eq_some_iff.mpr ⟨hvalid.1, rfl⟩, ?_⟩
    have hsize := hholds.le_size (by simp [wire])
    rw [hvalid.length_wire] at hsize
    rw [if_neg (by omega)]
    have hread := readOperands?_eq_some_iff.mpr
      ⟨hvalid.2, hrest, (rfl : offset + 1 + _ = _)⟩
    simp only [opcodeBytes, hread, Option.bind_some, Descriptor.wireSize, Descriptor.operandSize,
      Nat.add_assoc]

end Decoded

/-! ## Programs -/

namespace Program

variable {t : Table} {b : Bytecode} {offset next : Nat} {i : Decoded}

theorem decodeFrom_of_size_le (h : b.size ≤ offset) : decodeFrom t b offset = .ok [] := by
  rw [decodeFrom, dif_neg (by simpa [Bytecode.size] using h)]

theorem decodeFrom_of_read? (h : Decoded.read? t b offset = some (i, next)) :
    decodeFrom t b offset = (decodeFrom t b next).map fun rest => (offset, i) :: rest := by
  have hsize : offset < b.bytes.size := by
    simp only [Decoded.read?, Option.bind_eq_bind, Option.bind_eq_some_iff] at h
    obtain ⟨byte, hbyte, -⟩ := h
    exact (Array.getElem?_eq_some_iff.mp hbyte).1
  rw [decodeFrom, dif_pos hsize]
  split
  · rename_i h'
    rw [h] at h'
    cases h'
    cases decodeFrom t b next <;> rfl
  · rename_i h'
    rw [h] at h'
    cases h'

theorem decodeFrom_of_read?_none (hsize : offset < b.bytes.size)
    (h : Decoded.read? t b offset = none) :
    decodeFrom t b offset = .error (decodeError t offset b.bytes[offset]) := by
  rw [decodeFrom, dif_pos hsize]
  split
  · rename_i h'
    rw [h] at h'
    cases h'
  · rfl

/-- Decoding that succeeds is at the end of the buffer, or reads an instruction and goes on. -/
theorem decodeFrom_eq_ok {out : List (Nat × Decoded)} (h : decodeFrom t b offset = .ok out) :
    (b.size ≤ offset ∧ out = []) ∨
      ∃ i next rest, Decoded.read? t b offset = some (i, next) ∧
        decodeFrom t b next = .ok rest ∧ out = (offset, i) :: rest := by
  by_cases hsize : offset < b.bytes.size
  · right
    cases hread : Decoded.read? t b offset with
    | none =>
        rw [decodeFrom_of_read?_none hsize hread] at h
        cases h
    | some p =>
        obtain ⟨i, next⟩ := p
        rw [decodeFrom_of_read? hread] at h
        cases hrest : decodeFrom t b next with
        | error e => rw [hrest] at h; cases h
        | ok rest =>
            rw [hrest] at h
            cases h
            exact ⟨i, next, rest, rfl, hrest, rfl⟩
  · left
    have hle : b.size ≤ offset := by simpa [Bytecode.size] using hsize
    rw [decodeFrom_of_size_le hle] at h
    cases h
    exact ⟨hle, rfl⟩

/-- Valid instructions with their offsets, the first at `offset`. -/
def Listed (t : Table) : Nat → List (Nat × Decoded) → Prop
  | _, [] => True
  | offset, (start, i) :: rest =>
      start = offset ∧ i.Valid t ∧ Listed t (offset + i.descriptor.wireSize) rest

/-- Decoding succeeds exactly on the bytes of valid instructions one after the other. -/
theorem decodeFrom_eq_ok_iff (ht : t.WellFormed) {out : List (Nat × Decoded)} :
    decodeFrom t b offset = .ok out ↔
      Listed t offset out ∧ b.bytes.toList.drop offset = (out.map Prod.snd).flatMap Decoded.wire := by
  constructor
  · intro h
    -- every turn of the loop gives one entry, so the induction is on the entries
    induction out generalizing offset with
    | nil =>
        rcases decodeFrom_eq_ok h with ⟨hsize, -⟩ | ⟨_, _, _, _, _, he⟩
        · exact ⟨trivial, by simpa [Bytecode.size] using hsize⟩
        · cases he
    | cons entry out ih =>
        rcases decodeFrom_eq_ok h with ⟨-, he⟩ | ⟨i, next, rest, hread, hrest, he⟩
        · cases he
        · cases he
          obtain ⟨hvalid, hholds, rfl⟩ := (Decoded.read?_eq_some_iff ht).mp hread
          obtain ⟨hlisted, hdrop⟩ := ih hrest
          refine ⟨⟨rfl, hvalid, hlisted⟩, ?_⟩
          rw [Bytecode.drop_eq_of_holds hholds, hvalid.length_wire, hdrop]
          rfl
  · rintro ⟨hlisted, hdrop⟩
    induction out generalizing offset with
    | nil =>
        apply decodeFrom_of_size_le
        simpa [Bytecode.size] using hdrop
    | cons entry out ih =>
        obtain ⟨start, i⟩ := entry
        obtain ⟨rfl, hvalid, hlisted⟩ := hlisted
        have hholds : b.Holds start i.wire := Bytecode.holds_of_drop_eq hdrop
        have hread := (Decoded.read?_eq_some_iff ht).mpr ⟨hvalid, hholds, rfl⟩
        have hrest : decodeFrom t b (start + i.descriptor.wireSize) = .ok out := by
          apply ih hlisted
          rw [Bytecode.drop_eq_of_holds hholds, hvalid.length_wire] at hdrop
          simpa using hdrop
        rw [decodeFrom_of_read? hread, hrest]
        rfl

theorem decode_eq_ok_iff (ht : t.WellFormed) {out : List (Nat × Decoded)} :
    decode t b = .ok out ↔
      Listed t 0 out ∧ b.bytes.toList = (out.map Prod.snd).flatMap Decoded.wire := by
  rw [decode, decodeFrom_eq_ok_iff ht, List.drop_zero]

end Program

end OpcodeForge
