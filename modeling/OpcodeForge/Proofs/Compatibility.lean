import OpcodeForge.Manifest
import OpcodeForge.Proofs.Wire

/-!
# Wire compatibility

A new table passes the check against the manifest of an old one exactly when every buffer that
decodes under the old table decodes to the same instructions under the new one. That it passes is
put as `Table.Keeps`; where it does not, one instruction of the opcode in question tells the two
tables apart.
-/

namespace OpcodeForge

/-! ## The check -/

/-- The table has the published opcode at its ordinal, with its name and its operands. -/
def Manifest.Entry.KeptBy (t : Table) (entry : Manifest.Entry) : Prop :=
  ∃ d, t.byOrdinal? entry.ordinal = some d ∧ d.name = entry.name ∧
    d.runtimeOperands = entry.operands

/-- The new table has every opcode of the old one at its ordinal, with its name and its operands. -/
def Table.Keeps (new old : Table) : Prop :=
  ∀ d ∈ old.descriptors, (Manifest.Entry.ofDescriptor d).KeptBy new

namespace Manifest

theorem Entry.fault?_eq_none_iff {t : Table} {entry : Entry} :
    entry.fault? t = none ↔ entry.KeptBy t := by
  unfold Entry.fault? Entry.KeptBy
  cases t.byOrdinal? entry.ordinal with
  | none => simp
  | some d =>
      by_cases hname : d.name = entry.name
      · by_cases hops : d.runtimeOperands = entry.operands <;> simp [hname, hops]
      · by_cases hget : (t.get? entry.name).isSome = true <;> simp [hname, hget]

theorem Entry.breaksBytecode_of_fault? {t : Table} {entry : Entry} {fault : SpecError}
    (h : entry.fault? t = some fault) : fault.breaksBytecode = true := by
  unfold Entry.fault? at h
  split at h
  · cases h; rfl
  · split at h
    · split at h
      · cases h; rfl
      · cases h; rfl
    · split at h
      · cases h; rfl
      · cases h

theorem check_eq_ok_iff {m : Manifest} {t : Table} :
    m.check t = .ok () ↔ ∀ entry ∈ m.entries, entry.KeptBy t := by
  unfold check
  simp only [← Entry.fault?_eq_none_iff, ← List.findSome?_eq_none_iff]
  cases m.entries.findSome? (Entry.fault? t) <;> simp [refuse]

theorem breaksBytecode_of_check {m : Manifest} {t : Table} {fault : SpecError}
    (h : m.check t = .error fault) : fault.breaksBytecode = true := by
  unfold check at h
  cases hf : m.entries.findSome? (Entry.fault? t) with
  | none => rw [hf] at h; cases h
  | some fault' =>
      rw [hf] at h
      cases h
      obtain ⟨entry, _, hentry⟩ := List.exists_of_findSome?_eq_some hf
      exact Entry.breaksBytecode_of_fault? hentry

theorem check_ofTable_eq_ok_iff {old new : Table} :
    (ofTable old).check new = .ok () ↔ new.Keeps old := by
  rw [check_eq_ok_iff]
  simp [ofTable, Table.Keeps]

end Manifest

/-! ## Decoding under two tables -/

namespace Program

variable {old new : Table}

/-- What a reader of a listing sees of an entry. -/
def observe (entry : Nat × Decoded) : Nat × String × UInt8 × List UInt16 :=
  (entry.1, entry.2.name, entry.2.opcode, entry.2.operands)

/-- Every buffer that decodes under the old table decodes in the same way under the new one. -/
def Compatible (old new : Table) : Prop :=
  ∀ b out, decode old b = .ok out →
    ∃ out', decode new b = .ok out' ∧ out'.map observe = out.map observe

/-- An instruction of the old table stands in the new one with the same bytes. -/
theorem exists_valid_of_keeps (hnew : new.WellFormed) (hkeep : new.Keeps old) {i : Decoded}
    (h : i.Valid old) :
    ∃ i' : Decoded, i'.Valid new ∧ i'.wire = i.wire ∧
      ∀ offset, observe (offset, i') = observe (offset, i) := by
  obtain ⟨d, hd, hname, hops⟩ := hkeep _ h.1
  obtain ⟨hmem, hord⟩ := hnew.byOrdinal?_eq_some_iff.mp hd
  replace hname : d.name = i.descriptor.name := hname
  replace hord : d.ordinal = i.descriptor.ordinal := hord
  replace hops : d.runtimeOperands = i.descriptor.runtimeOperands := hops
  refine ⟨⟨d, i.operands⟩, ⟨hmem, ?_⟩, ?_, ?_⟩
  · rw [hops]; exact h.2
  · simp only [Decoded.wire, Decoded.opcode, hops, hord]
  · intro offset
    simp only [observe, Decoded.name, Decoded.opcode, hname, hord]

theorem exists_listed_of_keeps (hnew : new.WellFormed) (hkeep : new.Keeps old)
    {out : List (Nat × Decoded)} {offset : Nat} (h : Listed old offset out) :
    ∃ out', Listed new offset out' ∧ out'.map observe = out.map observe ∧
      (out'.map Prod.snd).flatMap Decoded.wire = (out.map Prod.snd).flatMap Decoded.wire := by
  induction out generalizing offset with
  | nil => exact ⟨[], trivial, rfl, rfl⟩
  | cons entry out ih =>
      obtain ⟨start, i⟩ := entry
      obtain ⟨rfl, hvalid, hrest⟩ := h
      obtain ⟨i', hvalid', hwire, hobs⟩ := exists_valid_of_keeps hnew hkeep hvalid
      have hsize : i'.descriptor.wireSize = i.descriptor.wireSize := by
        rw [← hvalid'.length_wire, ← hvalid.length_wire, hwire]
      obtain ⟨out', hlisted', hobs', hwires⟩ := ih hrest
      refine ⟨(start, i') :: out', ⟨rfl, hvalid', ?_⟩, ?_, ?_⟩
      · rw [hsize]; exact hlisted'
      · rw [List.map_cons, List.map_cons, hobs, hobs']
      · simp only [List.map_cons, List.flatMap_cons, hwire, hwires]

theorem compatible_of_keeps (hold : old.WellFormed) (hnew : new.WellFormed)
    (hkeep : new.Keeps old) : Compatible old new := by
  intro b out hout
  obtain ⟨hlisted, hbytes⟩ := (decode_eq_ok_iff hold).mp hout
  obtain ⟨out', hlisted', hobs, hwires⟩ := exists_listed_of_keeps hnew hkeep hlisted
  exact ⟨out', (decode_eq_ok_iff hnew).mpr ⟨hlisted', by rw [hbytes, hwires]⟩, hobs⟩

/-! ## Telling two tables apart -/

/-- A value that tells its width: one that takes two bytes does not fit in one. -/
def probeValue : Width → UInt16
  | .byte => 1
  | .word => 256

/-- The instruction of an opcode that tells its widths. -/
def probe (d : Descriptor) : Decoded := ⟨d, d.runtimeOperands.map probeValue⟩

theorem fits_probeValue (widths : List Width) :
    List.Forall₂ Width.Fits widths (widths.map probeValue) := by
  induction widths with
  | nil => exact .nil
  | cons width widths ih => exact .cons (by cases width <;> decide) ih

theorem size_le_of_fits_probeValue {width width' : Width} (h : width'.Fits (probeValue width)) :
    width.size ≤ width'.size := by
  cases width with
  | byte => cases width' <;> decide
  | word =>
      cases width' with
      | byte => exact absurd h (by decide)
      | word => exact Nat.le_refl _

theorem totalSize_le_of_fits_probeValue {widths widths' : List Width}
    (h : List.Forall₂ Width.Fits widths' (widths.map probeValue)) :
    Width.totalSize widths ≤ Width.totalSize widths' := by
  induction widths generalizing widths' with
  | nil => exact Nat.zero_le _
  | cons width widths ih =>
      cases h with
      | cons hhead htail =>
          exact Nat.add_le_add (size_le_of_fits_probeValue hhead) (ih htail)

/-- Widths that hold the probe and take as many bytes are the widths it was made for. -/
theorem eq_of_fits_probeValue {widths widths' : List Width}
    (h : List.Forall₂ Width.Fits widths' (widths.map probeValue))
    (hsize : Width.totalSize widths' = Width.totalSize widths) : widths' = widths := by
  induction widths generalizing widths' with
  | nil => cases h; rfl
  | cons width widths ih =>
      cases h with
      | @cons width' _ widths' _ hhead htail =>
          have h1 := size_le_of_fits_probeValue hhead
          have h2 := totalSize_le_of_fits_probeValue htail
          simp only [Width.totalSize] at hsize
          have hwidth : width' = width := Width.size_inj.mp (by omega)
          rw [hwidth, ih htail (by omega)]

theorem keeps_of_compatible (hold : old.WellFormed) (hnew : new.WellFormed)
    (h : Compatible old new) : new.Keeps old := by
  intro d hd
  have hvalid : (probe d).Valid old := ⟨hd, fits_probeValue _⟩
  -- a buffer with the probe alone
  have hdecode : decode old ⟨(probe d).wire.toArray⟩ = .ok [(0, probe d)] :=
    (decode_eq_ok_iff hold).mpr ⟨⟨rfl, hvalid, trivial⟩, by simp⟩
  obtain ⟨out, hout, hobs⟩ := h _ _ hdecode
  obtain ⟨hlisted, hbytes⟩ := (decode_eq_ok_iff hnew).mp hout
  obtain ⟨⟨start, i⟩, rest, rfl, hhead, hrest⟩ := List.map_eq_cons_iff.mp hobs
  obtain rfl := List.map_eq_nil_iff.mp hrest
  simp only [observe, Prod.mk.injEq] at hhead
  obtain ⟨-, hname, hopcode, hoperands⟩ := hhead
  obtain ⟨-, hvalid', -⟩ := hlisted
  have hwire : i.wire = (probe d).wire := by simpa using hbytes.symm
  have hsize : i.descriptor.wireSize = d.wireSize := by
    rw [← hvalid'.length_wire, hwire, hvalid.length_wire]
    rfl
  have hfits := hvalid'.2
  rw [hoperands] at hfits
  refine ⟨i.descriptor, hnew.byOrdinal?_eq_some_iff.mpr ⟨hvalid'.1, hopcode⟩, hname, ?_⟩
  refine eq_of_fits_probeValue hfits (Nat.add_left_cancel (?_ : opcodeBytes + _ = opcodeBytes + _))
  exact hsize

end Program

/-! ## The check is wire compatibility -/

/-- The check passes exactly for compatible tables, and its errors say that bytecode breaks. -/
theorem Manifest.check_ofTable_iff_compatible {oldText newText : String} {old new : Table}
    (hold : Table.ofText oldText = .ok old) (hnew : Table.ofText newText = .ok new) :
    ((Manifest.ofTable old).check new = .ok () ↔ Program.Compatible old new) ∧
      ∀ fault, (Manifest.ofTable old).check new = .error fault → fault.breaksBytecode = true := by
  have hold := Table.WellFormed.of_ofText hold
  have hnew := Table.WellFormed.of_ofText hnew
  refine ⟨?_, fun fault h => Manifest.breaksBytecode_of_check h⟩
  rw [Manifest.check_ofTable_eq_ok_iff]
  exact ⟨Program.compatible_of_keeps hold hnew, Program.keeps_of_compatible hold hnew⟩

def Table.call (operands : List Width) : Table :=
  ⟨[{ name := "Call", ordinal := 0, attributes := { runtimeOperands := some operands } }]⟩

/-- Operands that change places break bytecode, although the instruction keeps its size. -/
theorem Manifest.check_ofTable_swapped_operands :
    Table.ofText "[\x7b\"name\":\"Call\",\"runtime_operands\":[\"u8\",\"u16\"]\x7d]" =
      .ok (Table.call [.byte, .word]) ∧
    Table.ofText "[\x7b\"name\":\"Call\",\"runtime_operands\":[\"u16\",\"u8\"]\x7d]" =
      .ok (Table.call [.word, .byte]) ∧
    ¬ Program.Compatible (Table.call [.byte, .word]) (Table.call [.word, .byte]) ∧
    ∀ fault, (Manifest.ofTable (Table.call [.byte, .word])).check (Table.call [.word, .byte]) =
      .error fault → fault.breaksBytecode = true := by
  have hold : Table.ofText "[\x7b\"name\":\"Call\",\"runtime_operands\":[\"u8\",\"u16\"]\x7d]" =
      .ok (Table.call [.byte, .word]) := by decide +kernel
  have hnew : Table.ofText "[\x7b\"name\":\"Call\",\"runtime_operands\":[\"u16\",\"u8\"]\x7d]" =
      .ok (Table.call [.word, .byte]) := by decide +kernel
  obtain ⟨hiff, hbreaks⟩ := Manifest.check_ofTable_iff_compatible hold hnew
  refine ⟨hold, hnew, ?_, hbreaks⟩
  rw [← hiff]
  decide

end OpcodeForge
