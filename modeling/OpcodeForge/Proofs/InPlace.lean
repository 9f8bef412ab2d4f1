import OpcodeForge.Proofs.Acceptance

/-!
# Writing in place

An instruction that was built is written to a buffer as a whole or not at all. It is refused at the
first writer that is verbatim or passes a value through that does not fit; otherwise as many bytes
are added as the descriptor counts, the ordinal first. No writer reads past the operands.
-/

namespace OpcodeForge

/-- The first position at which a step fails gives the error. -/
theorem mapM_eq_error_iff_getElem? {ε α β : Type} {f : α → Except ε β} {xs : List α} {e : ε} :
    xs.mapM f = .error e ↔
      ∃ (k : Nat) (x : α), xs[k]? = some x ∧ f x = .error e ∧
        ∀ j < k, ∀ y, xs[j]? = some y → ∃ b, f y = .ok b := by
  rw [mapM_eq_error_iff]
  constructor
  · rintro ⟨before, x, after, rfl, hbefore, hx⟩
    refine ⟨before.length, x, by simp, hx, fun j hj y hy => ?_⟩
    rw [List.getElem?_append_left hj] at hy
    exact hbefore y (List.mem_of_getElem? hy)
  · rintro ⟨k, x, hget, hx, hbefore⟩
    obtain ⟨hk, rfl⟩ := List.getElem?_eq_some_iff.mp hget
    refine ⟨xs.take k, _, xs.drop (k + 1), ?_, fun y hy => ?_, hx⟩
    · rw [← List.drop_eq_getElem_cons hk, List.take_append_drop]
    · obtain ⟨j, hj, rfl⟩ := List.mem_take_iff_getElem.mp hy
      exact hbefore j (by omega) _ (List.getElem?_eq_getElem (by omega))

namespace Instruction

variable {t : Table} {i : Instruction} {b b' : Bytecode} {e : CodecError}

/-! ## Refused writers -/

/-- The error of a writer that has no value for a width: it is verbatim, or it passes an operand
through that is negative or too large. -/
inductive Refuses (i : Instruction) : Writer → Width → CodecError → Prop where
  | verbatim (source : String) (width : Width) :
      Refuses i (.verbatim source) width (.verbatimWriter i.name source)
  | range {index : Nat} {width : Width} {value : Int64} (hget : i.operands[index]? = some value)
      (hrange : ¬(0 ≤ value.toInt ∧ value.toInt < width.modulus)) :
      Refuses i (.arg index) width (.operandRange i.name index value width)

theorem evaluate_arg_eq_error_iff {index : Nat} {width : Width} {value : Int64}
    (hget : i.operands[index]? = some value) :
    i.evaluate (.arg index) width = .error e ↔ i.Refuses (.arg index) width e := by
  have hvalue := operand_eq_ok_iff.mpr hget
  by_cases hrange : 0 ≤ value.toInt ∧ value.toInt < width.modulus
  · have hok : i.evaluate (.arg index) width = .ok (truncate value .word) := by
      simp only [evaluate, hvalue, bind, Except.bind]
      rw [if_neg (by simp only [Bool.or_eq_true, decide_eq_true_eq]; omega)]
      rfl
    rw [hok]
    constructor
    · intro h
      cases h
    · intro h
      cases h with
      | range hget' hrange' =>
          rw [hget] at hget'
          cases hget'
          exact absurd hrange hrange'
  · have herror : i.evaluate (.arg index) width =
        .error (.operandRange i.name index value width) := by
      simp only [evaluate, hvalue, bind, Except.bind]
      rw [if_pos (by simp only [Bool.or_eq_true, decide_eq_true_eq]; omega)]
      rfl
    rw [herror]
    constructor
    · intro h
      cases h
      exact .range hget hrange
    · intro h
      cases h with
      | range hget' _ =>
          rw [hget] at hget'
          cases hget'
          rfl

/-- A writer that reads an operand that is there fails exactly where it has no value. -/
theorem evaluate_eq_error_iff {writer : Writer} {width : Width}
    (hbound : ∀ index, writer.argIndex? = some index → index < i.operands.length) :
    i.evaluate writer width = .error e ↔ i.Refuses writer width e := by
  cases writer with
  | arg index =>
      have hget := List.getElem?_eq_getElem (hbound index rfl)
      exact evaluate_arg_eq_error_iff hget
  | cast index w =>
      have hvalue := operand_eq_ok_iff.mpr (List.getElem?_eq_getElem (hbound index rfl))
      simp only [evaluate, hvalue, bind, Except.bind]
      constructor
      · intro h
        cases h
      · intro h
        cases h
  | verbatim source =>
      constructor
      · intro h
        cases h
        exact .verbatim source width
      · intro h
        cases h
        rfl

/-! ## Positions -/

/-- The writer at a position with the width that it writes. -/
def WriterAt (i : Instruction) (position : Nat) (writer : Writer) (width : Width) : Prop :=
  i.descriptor.operandWriters[position]? = some writer ∧
    i.descriptor.runtimeOperands[position]? = some width

/-- The first position with a writer that has no value, and its error. -/
def FirstRefused (i : Instruction) (e : CodecError) : Prop :=
  ∃ position writer width, i.WriterAt position writer width ∧ i.Refuses writer width e ∧
    ∀ earlier < position, ∀ writer' width', i.WriterAt earlier writer' width' →
      ∀ e', ¬i.Refuses writer' width' e'

/-- No writer is verbatim, and what is passed through is between zero and the largest value of the
width at its position. -/
structure Writable (i : Instruction) : Prop where
  typed : ∀ writer ∈ i.descriptor.operandWriters, ∀ source, writer ≠ .verbatim source
  inRange : ∀ position index width, i.WriterAt position (.arg index) width →
    ∃ value, i.operands[index]? = some value ∧ 0 ≤ value.toInt ∧ value.toInt < width.modulus

/-- Every operand that a writer reads is there. -/
def InBounds (i : Instruction) : Prop :=
  ∀ writer ∈ i.descriptor.operandWriters, ∀ index, writer.argIndex? = some index →
    index < i.operands.length

theorem getElem?_writers {position : Nat} {writer : Writer} {width : Width} :
    (i.descriptor.operandWriters.zip i.descriptor.runtimeOperands)[position]? =
      some (writer, width) ↔ i.WriterAt position writer width :=
  List.getElem?_zip_eq_some

theorem Built.inBounds (h : i.Built t) (ht : t.WellFormed) : i.InBounds := by
  intro writer hwriter index hindex
  obtain ⟨position, hposition, rfl⟩ := List.getElem_of_mem hwriter
  have hok := h.writerOk ht
  rw [h.count]
  exact (hok.get hposition (hok.length_eq ▸ hposition)).2 index hindex

/-- A built instruction can be written exactly where no writer is refused. -/
theorem writable_iff (hbounds : i.InBounds)
    (hlength : i.descriptor.operandWriters.length = i.descriptor.runtimeOperands.length) :
    i.Writable ↔
      ∀ position writer width, i.WriterAt position writer width →
        ∀ e, ¬i.Refuses writer width e := by
  constructor
  · rintro ⟨htyped, hrange⟩ position writer width hat e hrefuses
    cases hrefuses with
    | verbatim source width => exact htyped _ (List.mem_of_getElem? hat.1) source rfl
    | range hget hnot =>
        obtain ⟨value, hvalue, hfits⟩ := hrange position _ width hat
        rw [hget] at hvalue
        cases hvalue
        exact hnot hfits
  · intro h
    refine ⟨?_, ?_⟩
    · rintro _ hwriter source rfl
      obtain ⟨position, hposition, hget⟩ := List.getElem_of_mem hwriter
      have hat : i.WriterAt position (.verbatim source) _ :=
        ⟨hget ▸ List.getElem?_eq_getElem hposition,
          List.getElem?_eq_getElem (hlength ▸ hposition)⟩
      exact h position _ _ hat _ (.verbatim source _)
    · intro position index width hat
      have hbound := hbounds _ (List.mem_of_getElem? hat.1) index rfl
      refine ⟨_, List.getElem?_eq_getElem hbound, ?_⟩
      by_contra hnot
      exact h position _ width hat _ (.range (List.getElem?_eq_getElem hbound) hnot)

/-! ## Operands of the wire -/

theorem wireOperands_eq_error_iff (hbounds : i.InBounds) :
    i.wireOperands = .error e ↔ i.FirstRefused e := by
  have hstep : ∀ {position : Nat} {writer : Writer} {width : Width} {e : CodecError},
      i.WriterAt position writer width →
      ((do let value ← i.evaluate writer width; pure (value, width) : Except CodecError _) =
        .error e ↔ i.Refuses writer width e) := by
    intro position writer width e hat
    rw [← evaluate_eq_error_iff (hbounds writer (List.mem_of_getElem? hat.1))]
    cases i.evaluate writer width <;> simp [bind, Except.bind, pure, Except.pure]
  unfold wireOperands
  rw [mapM_eq_error_iff_getElem?]
  constructor
  · rintro ⟨position, ⟨writer, width⟩, hget, herror, hbefore⟩
    have hat := getElem?_writers.mp hget
    refine ⟨position, writer, width, hat, (hstep hat).mp herror, ?_⟩
    intro earlier hlt writer' width' hat' e' hrefuses
    obtain ⟨pair, hok⟩ := hbefore earlier hlt _ (getElem?_writers.mpr hat')
    cases ((hstep hat').mpr hrefuses).symm.trans hok
  · rintro ⟨position, writer, width, hat, hrefuses, hfirst⟩
    refine ⟨position, _, getElem?_writers.mpr hat, (hstep hat).mpr hrefuses, ?_⟩
    rintro earlier hlt ⟨writer', width'⟩ hget
    have hat' := getElem?_writers.mp hget
    -- An error here would be that of an earlier writer.
    cases hresult : (do let value ← i.evaluate writer' width'; pure (value, width') :
        Except CodecError _) with
    | ok pair => exact ⟨pair, hresult⟩
    | error e' => exact absurd ((hstep hat').mp hresult) (hfirst earlier hlt _ _ hat' e')

theorem exists_wireOperands_iff (hbounds : i.InBounds)
    (hlength : i.descriptor.operandWriters.length = i.descriptor.runtimeOperands.length) :
    (∃ operands, i.wireOperands = .ok operands) ↔ i.Writable := by
  rw [writable_iff hbounds hlength]
  constructor
  · rintro ⟨operands, hok⟩ position
    -- The first refused writer up to a refused one would have made the error.
    induction position using Nat.strongRecOn with
    | _ position ih =>
        intro writer width hat e hrefuses
        have herror := (wireOperands_eq_error_iff hbounds).mpr
          ⟨position, writer, width, hat, hrefuses, fun earlier hlt => ih earlier hlt⟩
        rw [hok] at herror
        cases herror
  · intro h
    cases hresult : i.wireOperands with
    | ok operands => exact ⟨operands, rfl⟩
    | error e =>
        obtain ⟨position, writer, width, hat, hrefuses, -⟩ :=
          (wireOperands_eq_error_iff hbounds).mp hresult
        exact absurd hrefuses (h position writer width hat e)

/-! ## Writing in place -/

/-- Writes to the buffer in hand: the operands are made first, then the ordinal and each operand are
added. -/
def writeInPlace (i : Instruction) : ExceptT CodecError (StateM Bytecode) Unit := do
  let operands ← ExceptT.mk (pure i.wireOperands)
  modify fun b => b.writeByte i.opcode
  operands.forM fun (value, width) => modify fun b => b.write value width

/-- What an action on the buffer in hand gives, and the buffer after it. -/
def onBuffer {α : Type} (action : ExceptT CodecError (StateM Bytecode) α) (b : Bytecode) :
    Except CodecError α × Bytecode :=
  Id.run (StateT.run (ExceptT.run action) b)

theorem onBuffer_forM_write (operands : List (UInt16 × Width)) (b : Bytecode) :
    onBuffer (operands.forM fun (value, width) => modify fun b => b.write value width) b =
      (.ok (), operands.foldl (fun b (value, width) => b.write value width) b) := by
  induction operands generalizing b with
  | nil => rfl
  | cons operand operands ih => exact ih _

/-- Writing in place keeps the buffer on an error and leaves what `write` gives otherwise. -/
theorem onBuffer_writeInPlace (i : Instruction) (b : Bytecode) :
    onBuffer i.writeInPlace b =
      match i.write b with
      | .ok b' => (.ok (), b')
      | .error e => (.error e, b) := by
  cases hoperands : i.wireOperands with
  | error e =>
      simp only [write, hoperands, writeInPlace]
      rfl
  | ok operands =>
      simp only [write, hoperands, writeInPlace]
      exact onBuffer_forM_write operands _

/-! ## Whole or not at all -/

theorem write_eq_error_iff (hbounds : i.InBounds) : i.write b = .error e ↔ i.FirstRefused e := by
  rw [← wireOperands_eq_error_iff hbounds, write]
  cases i.wireOperands <;> simp [bind, Except.bind, pure, Except.pure]

theorem exists_write_iff (hbounds : i.InBounds)
    (hlength : i.descriptor.operandWriters.length = i.descriptor.runtimeOperands.length) :
    (∃ b', i.write b = .ok b') ↔ i.Writable := by
  rw [← exists_wireOperands_iff hbounds hlength, write]
  cases i.wireOperands <;> simp [bind, Except.bind, pure, Except.pure]

/-- What is written is the ordinal and as many bytes as the descriptor counts after it. -/
theorem Built.appended_of_write (h : i.Built t) (ht : t.WellFormed) (hwrite : i.write b = .ok b') :
    (∃ bytes, b'.bytes.toList = b.bytes.toList ++ i.opcode :: bytes) ∧
      b'.size = b.size + i.wireSize := by
  obtain ⟨d, hd, hbytes⟩ := (write_eq_ok_iff (h.writerOk ht)).mp hwrite
  have hvalid : d.Valid t := ⟨hd.descriptor ▸ h.mem, hd.descriptor ▸ hd.fits⟩
  have hlength := congrArg List.length hbytes
  rw [List.length_append, hvalid.length_wire, hd.descriptor] at hlength
  refine ⟨⟨operandBytes d.descriptor.runtimeOperands d.operands, ?_⟩, hlength⟩
  rw [hbytes, Decoded.wire, Decoded.opcode, hd.descriptor]
  rfl

/-- A built instruction is written exactly where no writer is refused, with the bytes that its
descriptor counts after what was there; otherwise the error is that of the first refused writer and
the buffer in hand stays as it was. Every operand that is read is there. -/
theorem write_whole_or_refused {text name : String} {operands : List Int64}
    (ht : Table.ofText text = .ok t) (hbuild : build t name operands = .ok i) (b : Bytecode) :
    i.InBounds ∧
    ((∃ b', i.write b = .ok b') ↔ i.Writable) ∧
    (∀ b', i.write b = .ok b' →
      (∃ bytes, b'.bytes.toList = b.bytes.toList ++ i.opcode :: bytes) ∧
        b'.size = b.size + i.wireSize) ∧
    (∀ e, i.write b = .error e ↔ i.FirstRefused e) ∧
    onBuffer i.writeInPlace b =
      match i.write b with
      | .ok b' => (.ok (), b')
      | .error e => (.error e, b) := by
  have hwf := Table.WellFormed.of_ofText ht
  have hbuilt := ((build_eq_ok_iff hwf).mp hbuild).1
  have hbounds := hbuilt.inBounds hwf
  refine ⟨hbounds, exists_write_iff hbounds (hbuilt.writerOk hwf).length_eq, ?_, ?_, ?_⟩
  · exact fun b' hwrite => hbuilt.appended_of_write hwf hwrite
  · exact fun e => write_eq_error_iff hbounds
  · exact onBuffer_writeInPlace i b

/-- A document with an opcode of two operands that are passed through. -/
def storeText : String :=
  "[[\"Store\", null, null, null, null, null, [\"u8\", \"u16\"], [\"arg1\", \"arg0\"], " ++
    "[\"Slot\", \"Value\"], null]]"

/-- The opcode of the document. -/
def store : Descriptor where
  name := "Store"
  ordinal := 0
  attributes := {
    runtimeOperands := some [.byte, .word], operandWriters := some [.arg 1, .arg 0]
    builderOperands := some ["Slot", "Value"] }

/-- The second writer is refused although the first has a value, and nothing is written. -/
theorem write_refused_store :
    Table.ofText storeText = .ok ⟨[store]⟩ ∧
    build ⟨[store]⟩ "Store" [70000, 3] = .ok ⟨store, [70000, 3]⟩ ∧
    ¬Writable ⟨store, [70000, 3]⟩ ∧
    onBuffer (writeInPlace ⟨store, [70000, 3]⟩) ⟨#[9]⟩ =
      (.error (.operandRange "Store" 0 70000 .word), ⟨#[9]⟩) := by
  have ht : Table.ofText storeText = .ok ⟨[store]⟩ := by decide +kernel
  have hbuild : build ⟨[store]⟩ "Store" [70000, 3] = .ok ⟨store, [70000, 3]⟩ := by decide +kernel
  have hwrite : write ⟨store, [70000, 3]⟩ ⟨#[9]⟩ =
      .error (.operandRange "Store" 0 70000 .word) := by decide +kernel
  obtain ⟨-, hwritable, -, -, hplace⟩ := write_whole_or_refused ht hbuild ⟨#[9]⟩
  refine ⟨ht, hbuild, ?_, ?_⟩
  · rw [← hwritable, hwrite]
    rintro ⟨b', h⟩
    cases h
  · rw [hplace, hwrite]

end Instruction

end OpcodeForge
