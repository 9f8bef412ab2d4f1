import OpcodeForge.Proofs.Encoding

/-!
# What decoding accepts

Decoding succeeds exactly on instructions one after the other. Otherwise it stops at the one offset
up to which the buffer decodes and at which no instruction can be read, and says why. The same loop
with reads that fail past the end and with a bound on its turns never fails and never reaches the
bound.
-/

namespace OpcodeForge

/-- The first bytes of a buffer. -/
def Bytecode.take (b : Bytecode) (count : Nat) : Bytecode := ⟨b.bytes.take count⟩

namespace Program

variable {t : Table} {b : Bytecode} {offset next : Nat}

/-! ## Where decoding stops -/

/-- The bytes before the offset decode, and the buffer goes on, but not with an instruction. -/
structure Stuck (t : Table) (b : Bytecode) (offset : Nat) : Prop where
  lt_size : offset < b.size
  before : ∃ out, decode t (b.take offset) = .ok out
  unreadable : Decoded.read? t b offset = none

/-- The error says why there is no instruction at the offset: its byte is no ordinal, or the opcode
that it names takes more bytes than remain. -/
inductive Explains (t : Table) (b : Bytecode) (offset : Nat) : CodecError → Prop where
  | unknownOpcode {byte : UInt8} (hbyte : b.readByte? offset = some byte)
      (hpast : t.length ≤ byte.toNat) : Explains t b offset (.unknownOpcode offset byte)
  | truncated {d : Descriptor} (hbyte : b.readByte? offset = some d.ordinal)
      (hmem : d ∈ t.descriptors) (hshort : b.size - offset < d.wireSize) :
      Explains t b offset (.truncated offset d.name)

theorem byOrdinal?_eq_none_iff {byte : UInt8} : t.byOrdinal? byte = none ↔ t.length ≤ byte.toNat :=
  List.getElem?_eq_none_iff

/-- An instruction is read wherever the byte is an ordinal and its bytes are there. -/
theorem read?_eq_none_iff {byte : UInt8} (hbyte : b.readByte? offset = some byte) :
    Decoded.read? t b offset = none ↔
      ∀ d, t.byOrdinal? byte = some d → b.size - offset < d.wireSize := by
  have hsize : offset < b.size := (Array.getElem?_eq_some_iff.mp hbyte).1
  simp only [Decoded.read?, hbyte, Option.bind_eq_bind, Option.bind_some]
  cases hd : t.byOrdinal? byte with
  | none => simp
  | some d =>
      simp only [Option.bind_some, Option.some.injEq, forall_eq']
      constructor
      · intro h
        by_contra hlong
        have hfit : offset + opcodeBytes + Width.totalSize d.runtimeOperands ≤ b.size := by
          simp only [Descriptor.wireSize, Descriptor.operandSize] at hlong
          omega
        obtain ⟨values, next, hread⟩ := Decoded.exists_readOperands? hfit
        rw [if_neg (by omega), hread] at h
        cases h
      · intro hshort
        rw [if_pos (by omega)]

theorem explains_iff (ht : t.WellFormed) {byte : UInt8} (hbyte : b.readByte? offset = some byte)
    {e : CodecError} :
    Explains t b offset e ↔ Decoded.read? t b offset = none ∧ e = decodeError t offset byte := by
  rw [read?_eq_none_iff hbyte]
  unfold decodeError
  cases hd : t.byOrdinal? byte with
  | none =>
      constructor
      · intro h
        cases h with
        | unknownOpcode hbyte' _ =>
            cases hbyte.symm.trans hbyte'
            exact ⟨by simp, rfl⟩
        | truncated hbyte' hmem _ =>
            cases hbyte.symm.trans hbyte'
            rw [ht.byOrdinal?_eq_some_iff.mpr ⟨hmem, rfl⟩] at hd
            cases hd
      · rintro ⟨-, rfl⟩
        exact .unknownOpcode hbyte (byOrdinal?_eq_none_iff.mp hd)
  | some d =>
      obtain ⟨hmem, rfl⟩ := ht.byOrdinal?_eq_some_iff.mp hd
      constructor
      · intro h
        cases h with
        | unknownOpcode hbyte' hpast =>
            cases hbyte.symm.trans hbyte'
            rw [byOrdinal?_eq_none_iff.mpr hpast] at hd
            cases hd
        | @truncated d' hbyte' hmem' hshort =>
            have hord : d'.ordinal = d.ordinal := Option.some.inj (hbyte'.symm.trans hbyte)
            rw [ht.byOrdinal?_eq_some_iff.mpr ⟨hmem', hord⟩] at hd
            cases hd
            exact ⟨fun _ h => (by cases h; exact hshort), rfl⟩
      · rintro ⟨hshort, rfl⟩
        exact .truncated hbyte hmem (hshort d rfl)

/-- An error says at which offset it is. -/
theorem Explains.cases_offset {e : CodecError} (h : Explains t b offset e) :
    (∃ byte, e = .unknownOpcode offset byte) ∨ ∃ name, e = .truncated offset name := by
  cases h with
  | unknownOpcode _ _ => exact .inl ⟨_, rfl⟩
  | truncated _ _ _ => exact .inr ⟨_, rfl⟩

/-! ## The loop up to an offset -/

/-- The entries stand in the buffer one after the other, from `offset` up to `stop`. -/
structure Reaches (t : Table) (b : Bytecode) (offset stop : Nat) (out : List (Nat × Decoded)) :
    Prop where
  listed : Listed t offset out
  holds : b.Holds offset ((out.map Prod.snd).flatMap Decoded.wire)
  stop_eq : stop = offset + ((out.map Prod.snd).flatMap Decoded.wire).length

theorem Reaches.nil : Reaches t b offset offset [] := ⟨trivial, Bytecode.holds_nil, rfl⟩

/-- One turn of the loop. -/
theorem reaches_cons_iff (ht : t.WellFormed) {stop start : Nat} {i : Decoded}
    {out : List (Nat × Decoded)} :
    Reaches t b offset stop ((start, i) :: out) ↔
      start = offset ∧ ∃ next, Decoded.read? t b offset = some (i, next) ∧
        Reaches t b next stop out := by
  simp only [Decoded.read?_eq_some_iff ht]
  constructor
  · rintro ⟨⟨rfl, hvalid, hlisted⟩, hholds, hstop⟩
    simp only [List.map_cons, List.flatMap_cons, Bytecode.holds_append, List.length_append,
      hvalid.length_wire] at hholds hstop
    exact ⟨rfl, _, ⟨hvalid, hholds.1, rfl⟩, hlisted, hholds.2, by omega⟩
  · rintro ⟨rfl, _, ⟨hvalid, hhold, rfl⟩, hlisted, hholds, hstop⟩
    refine ⟨⟨rfl, hvalid, hlisted⟩, ?_, ?_⟩
    · simp only [List.map_cons, List.flatMap_cons, Bytecode.holds_append, hvalid.length_wire]
      exact ⟨hhold, hholds⟩
    · simp only [List.map_cons, List.flatMap_cons, List.length_append, hvalid.length_wire]
      omega

/-- The loop fails where it does after any instructions that it reads. -/
theorem decodeFrom_of_reaches (ht : t.WellFormed) {stop : Nat} {out : List (Nat × Decoded)}
    (h : Reaches t b offset stop out) :
    decodeFrom t b offset = (decodeFrom t b stop).map fun rest => out ++ rest := by
  induction out generalizing offset with
  | nil =>
      obtain rfl : stop = offset := h.stop_eq
      cases decodeFrom t b stop <;> rfl
  | cons entry out ih =>
      obtain ⟨start, i⟩ := entry
      obtain ⟨rfl, next, hread, hrest⟩ := (reaches_cons_iff ht).mp h
      rw [decodeFrom_of_read? hread, ih hrest]
      cases decodeFrom t b stop <;> rfl

/-- The loop that fails has come to an offset where no instruction can be read. -/
theorem exists_reaches_of_error (ht : t.WellFormed) {offset : Nat} {e : CodecError}
    (h : decodeFrom t b offset = .error e) :
    ∃ stop out byte, Reaches t b offset stop out ∧ b.readByte? stop = some byte ∧
      Decoded.read? t b stop = none ∧ e = decodeError t stop byte := by
  have hsize : offset < b.bytes.size := by
    by_contra hle
    rw [decodeFrom_of_size_le (by simpa [Bytecode.size] using hle)] at h
    cases h
  cases hread : Decoded.read? t b offset with
  | none =>
      rw [decodeFrom_of_read?_none hsize hread] at h
      cases h
      exact ⟨offset, [], _, .nil, Array.getElem?_eq_getElem hsize, hread, rfl⟩
  | some p =>
      obtain ⟨i, next⟩ := p
      have hlt := Decoded.lt_of_read? hread
      rw [decodeFrom_of_read? hread] at h
      cases hrest : decodeFrom t b next with
      | ok rest => rw [hrest] at h; cases h
      | error e' =>
          rw [hrest] at h
          cases h
          obtain ⟨stop, out, byte, hreach, hstop⟩ := exists_reaches_of_error ht hrest
          exact ⟨stop, (offset, i) :: out, byte,
            (reaches_cons_iff ht).mpr ⟨rfl, next, hread, hreach⟩, hstop⟩
termination_by b.bytes.size - offset

/-- The bytes before an offset decode exactly when instructions reach up to it. -/
theorem decode_take_eq_ok_iff (ht : t.WellFormed) (hle : offset ≤ b.size)
    {out : List (Nat × Decoded)} :
    decode t (b.take offset) = .ok out ↔ Reaches t b 0 offset out := by
  have hbytes : (b.take offset).bytes.toList = b.bytes.toList.take offset := by
    simp [Bytecode.take]
  have hlen : (b.bytes.toList.take offset).length = offset := by
    rw [List.length_take, Array.length_toList]
    exact Nat.min_eq_left hle
  rw [decode_eq_ok_iff ht, hbytes]
  constructor
  · rintro ⟨hlisted, heq⟩
    refine ⟨hlisted, ?_, ?_⟩
    · rw [Bytecode.Holds, List.drop_zero, ← heq]
      exact List.take_prefix _ _
    · rw [← heq, hlen, Nat.zero_add]
  · rintro ⟨hlisted, hholds, hstop⟩
    rw [Bytecode.Holds, List.drop_zero] at hholds
    refine ⟨hlisted, ?_⟩
    rw [List.prefix_iff_eq_take.mp hholds, hstop, Nat.zero_add]

theorem decode_eq_error_iff (ht : t.WellFormed) {e : CodecError} :
    decode t b = .error e ↔ ∃ k, Stuck t b k ∧ Explains t b k e := by
  constructor
  · intro h
    obtain ⟨k, out, byte, hreach, hbyte, hread, he⟩ := exists_reaches_of_error ht h
    have hsize : k < b.size := (Array.getElem?_eq_some_iff.mp hbyte).1
    have hbefore := (decode_take_eq_ok_iff ht (Nat.le_of_lt hsize)).mpr hreach
    exact ⟨k, ⟨hsize, ⟨out, hbefore⟩, hread⟩, (explains_iff ht hbyte).mpr ⟨hread, he⟩⟩
  · rintro ⟨k, ⟨hsize, ⟨out, hbefore⟩, hread⟩, he⟩
    have hreach := (decode_take_eq_ok_iff ht (Nat.le_of_lt hsize)).mp hbefore
    rw [decode, decodeFrom_of_reaches ht hreach, decodeFrom_of_read?_none hsize hread,
      ((explains_iff ht (Array.getElem?_eq_getElem hsize)).mp he).2]
    rfl

/-- There is at most one offset at which decoding can be stuck. -/
theorem Stuck.unique (ht : t.WellFormed) {k k' : Nat} (h : Stuck t b k) (h' : Stuck t b k') :
    k = k' := by
  have hexplains : ∀ {k}, Stuck t b k → ∃ e, Explains t b k e := fun h =>
    ⟨_, (explains_iff ht (Array.getElem?_eq_getElem h.lt_size)).mpr ⟨h.unreadable, rfl⟩⟩
  obtain ⟨e, he⟩ := hexplains h
  obtain ⟨e', he'⟩ := hexplains h'
  have heq : e = e' := by
    have hdecode := (decode_eq_error_iff ht).mpr ⟨k, h, he⟩
    rw [(decode_eq_error_iff ht).mpr ⟨k', h', he'⟩] at hdecode
    exact (Except.error.inj hdecode).symm
  rcases he.cases_offset with ⟨byte, rfl⟩ | ⟨name, rfl⟩
  · rcases he'.cases_offset with ⟨byte', h⟩ | ⟨name', h⟩ <;> cases heq.trans h
    rfl
  · rcases he'.cases_offset with ⟨byte', h⟩ | ⟨name', h⟩ <;> cases heq.trans h
    rfl

theorem Explains.isDecodeError {e : CodecError} (h : Explains t b offset e) :
    e.isDecodeError = true := by
  rcases h.cases_offset with ⟨byte, rfl⟩ | ⟨name, rfl⟩ <;> rfl

end Program

/-! ## Reads that fail past the end -/

/-- A read at an index past the end of a buffer. -/
structure OutOfBounds where
  index : Nat

namespace Bytecode

/-- The byte at an index that the caller takes to be in the buffer. -/
def byteAt (b : Bytecode) (index : Nat) : Except OutOfBounds UInt8 :=
  if h : index < b.bytes.size then .ok b.bytes[index] else .error ⟨index⟩

/-- The value of a width at an index that the caller takes to be in the buffer. -/
def valueAt (b : Bytecode) (index : Nat) : Width → Except OutOfBounds UInt16
  | .byte => do
    let byte ← b.byteAt index
    pure byte.toUInt16
  | .word => do
    let low ← b.byteAt index
    let high ← b.byteAt (index + 1)
    pure (UInt16.ofNat (low.toNat + 256 * high.toNat))

variable {b : Bytecode} {index : Nat}

theorem byteAt_eq_ok_iff {byte : UInt8} :
    b.byteAt index = .ok byte ↔ b.readByte? index = some byte := by
  unfold byteAt readByte?
  split
  · rename_i h
    simp [Array.getElem?_eq_getElem h]
  · rename_i h
    simp [Array.getElem?_eq_none (Nat.le_of_not_lt h)]

theorem valueAt_eq_ok_iff {width : Width} {value : UInt16} :
    b.valueAt index width = .ok value ↔ b.read? index width = some value := by
  cases width with
  | byte =>
      simp only [valueAt, read?, bind_eq_ok_iff, pure_eq_ok_iff, byteAt_eq_ok_iff,
        Option.map_eq_some_iff]
  | word =>
      simp only [valueAt, read?, readWord?, bind_eq_ok_iff, pure_eq_ok_iff, byteAt_eq_ok_iff,
        Option.bind_eq_bind, Option.pure_def, Option.bind_eq_some_iff, Option.some.injEq]

end Bytecode

namespace Decoded

/-- Operands of the given widths, and the index past the last. -/
def operandsAt (b : Bytecode) (index : Nat) : List Width → Except OutOfBounds (List UInt16 × Nat)
  | [] => pure ([], index)
  | width :: widths => do
    let value ← b.valueAt index width
    let (values, next) ← operandsAt b (index + width.size) widths
    pure (value :: values, next)

/-- The instruction at an index: nothing is read past the end, at a byte that is no ordinal, or
where too few bytes remain. -/
def instructionAt (t : Table) (b : Bytecode) (index : Nat) :
    Except OutOfBounds (Option (Decoded × Nat)) :=
  if b.size ≤ index then pure none
  else do
    let byte ← b.byteAt index
    match t.byOrdinal? byte with
    | none => pure none
    | some descriptor =>
      if b.size < index + descriptor.wireSize then pure none
      else do
        let (operands, next) ← operandsAt b (index + opcodeBytes) descriptor.runtimeOperands
        pure (some ({ descriptor, operands }, next))

variable {t : Table} {b : Bytecode} {index : Nat}

theorem operandsAt_eq_ok_iff {widths : List Width} {result : List UInt16 × Nat} :
    operandsAt b index widths = .ok result ↔ readOperands? b index widths = some result := by
  induction widths generalizing index result with
  | nil => simp only [operandsAt, readOperands?, pure_eq_ok_iff, Option.some.injEq]
  | cons width widths ih =>
      simp only [operandsAt, readOperands?, bind_eq_ok_iff, pure_eq_ok_iff,
        Bytecode.valueAt_eq_ok_iff, ih, Option.bind_eq_bind, Option.pure_def,
        Option.bind_eq_some_iff, Option.some.injEq]

/-- Every read of an instruction is in the buffer. -/
theorem instructionAt_eq_ok : instructionAt t b index = .ok (read? t b index) := by
  unfold instructionAt
  by_cases hsize : b.size ≤ index
  · have hnone : b.readByte? index = none := Array.getElem?_eq_none hsize
    rw [if_pos hsize]
    simp only [read?, hnone]
    rfl
  · obtain ⟨byte, hbyte⟩ : ∃ byte, b.readByte? index = some byte :=
      ⟨_, Array.getElem?_eq_getElem (Nat.lt_of_not_le hsize)⟩
    rw [if_neg hsize, Bytecode.byteAt_eq_ok_iff.mpr hbyte]
    simp only [read?, hbyte, Option.bind_eq_bind, Option.bind_some]
    show (match t.byOrdinal? byte with | none => _ | some descriptor => _) = _
    cases t.byOrdinal? byte with
    | none => rfl
    | some d =>
        simp only [Option.bind_some]
        by_cases hshort : b.size < index + d.wireSize
        · rw [if_pos hshort, if_pos hshort]
          rfl
        · have hfit : index + opcodeBytes + Width.totalSize d.runtimeOperands ≤ b.size := by
            simp only [Descriptor.wireSize, Descriptor.operandSize] at hshort
            omega
          obtain ⟨values, next, hread⟩ := exists_readOperands? hfit
          rw [if_neg hshort, if_neg hshort, hread, operandsAt_eq_ok_iff.mpr hread]
          rfl

end Decoded

namespace Program

/-- The decoding loop from an index, with the entries so far: `none` if it has not ended after so
many turns. -/
def loop (t : Table) (b : Bytecode) :
    Nat → Nat → List (Nat × Decoded) →
      Except OutOfBounds (Option (Except CodecError (List (Nat × Decoded))))
  | turns, index, out =>
    if b.size ≤ index then pure (some (.ok out))
    else
      match turns with
      | 0 => pure none
      | turns + 1 => do
        match ← Decoded.instructionAt t b index with
        | some (i, next) => loop t b turns next (out ++ [(index, i)])
        | none => do
          let byte ← b.byteAt index
          pure (some (.error (decodeError t index byte)))

variable {t : Table} {b : Bytecode}

/-- An instruction has at least one byte, so that the loop ends after as many turns as there are
bytes left. -/
theorem loop_eq_ok {turns index : Nat} {out : List (Nat × Decoded)}
    (hturns : b.size - index ≤ turns) :
    loop t b turns index out = .ok (some ((decodeFrom t b index).map fun rest => out ++ rest)) := by
  induction turns generalizing index out with
  | zero =>
      have hsize : b.size ≤ index := by omega
      rw [loop, if_pos hsize, decodeFrom_of_size_le hsize]
      simp [Except.map, pure, Except.pure]
  | succ turns ih =>
      rw [loop]
      by_cases hsize : b.size ≤ index
      · rw [if_pos hsize, decodeFrom_of_size_le hsize]
        simp [Except.map, pure, Except.pure]
      · rw [if_neg hsize, Decoded.instructionAt_eq_ok]
        have hlt : index < b.bytes.size := Nat.lt_of_not_le hsize
        cases hread : Decoded.read? t b index with
        | none =>
            have hbyte := Bytecode.byteAt_eq_ok_iff.mpr (Array.getElem?_eq_getElem hlt)
            rw [decodeFrom_of_read?_none hlt hread]
            show (b.byteAt index >>= _) = _
            rw [hbyte]
            rfl
        | some p =>
            obtain ⟨i, next⟩ := p
            have hnext := Decoded.lt_of_read? hread
            rw [decodeFrom_of_read? hread]
            show loop t b turns next (out ++ [(index, i)]) = _
            rw [ih (by omega)]
            cases decodeFrom t b next <;> simp [Except.map]

/-! ## The format -/

/-- Decoding accepts exactly the format. It gives a list exactly where the buffer is the encoding of
its instructions and the offsets are the running sums of their sizes; otherwise it gives the error
of the first offset at which it is stuck. Every read is in bounds, and the loop ends. -/
theorem decode_exact_format {document : String} {t : Table} (ht : Table.ofText document = .ok t)
    (b : Bytecode) :
    (∀ out, decode t b = .ok out ↔
      Listed t 0 out ∧ b.bytes.toList = (out.map Prod.snd).flatMap Decoded.wire) ∧
    (∀ e, decode t b = .error e ↔
      ∃ k, Stuck t b k ∧ (∀ k', Stuck t b k' → k ≤ k') ∧ Explains t b k e) ∧
    (∀ e, decode t b = .error e → e.isDecodeError = true) ∧
    loop t b b.size 0 [] = .ok (some (decode t b)) := by
  have hwf := Table.WellFormed.of_ofText ht
  refine ⟨fun out => decode_eq_ok_iff hwf, ?_, ?_, ?_⟩
  · intro e
    rw [decode_eq_error_iff hwf]
    constructor
    · rintro ⟨k, hstuck, hexplains⟩
      exact ⟨k, hstuck, fun k' h => Nat.le_of_eq (hstuck.unique hwf h), hexplains⟩
    · rintro ⟨k, hstuck, -, hexplains⟩
      exact ⟨k, hstuck, hexplains⟩
  · intro e he
    obtain ⟨k, -, hexplains⟩ := (decode_eq_error_iff hwf).mp he
    exact hexplains.isDecodeError
  · rw [loop_eq_ok (by omega), decode]
    cases decodeFrom t b 0 <;> simp [Except.map]

/-- A jump without its last byte, after a push. -/
theorem decode_exact_format_cut_jump :
    Table.ofText Table.pushJumpText = .ok ⟨[Table.push, Table.jump]⟩ ∧
    ∃ k, Stuck ⟨[Table.push, Table.jump]⟩ ⟨#[0, 254, 1, 44]⟩ k ∧
      (∀ k', Stuck ⟨[Table.push, Table.jump]⟩ ⟨#[0, 254, 1, 44]⟩ k' → k ≤ k') ∧
      Explains ⟨[Table.push, Table.jump]⟩ ⟨#[0, 254, 1, 44]⟩ k (.truncated 2 "Jump") := by
  obtain ⟨-, herror, -, -⟩ :=
    decode_exact_format Table.ofText_pushJumpText ⟨#[0, 254, 1, 44]⟩
  exact ⟨Table.ofText_pushJumpText, (herror _).mp (by decide +kernel)⟩

end Program

end OpcodeForge
