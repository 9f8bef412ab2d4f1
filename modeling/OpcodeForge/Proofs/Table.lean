import Mathlib.Data.List.Forall2
import Mathlib.Data.List.Nodup
import OpcodeForge.Table.Document

/-!
# Loaded tables

What holds of every table that `Table.ofText` accepts. The invariant is a property of the
descriptors read so far, and `Table.extend` keeps it record by record.
-/

namespace OpcodeForge

/-! ## Writers -/

/-- A cast has the width at its position, and an index is below the number of builder operands. -/
def Descriptor.WriterOk (d : Descriptor) (writer : Writer) (width : Width) : Prop :=
  (∀ index w, writer = .cast index w → w = width) ∧
    ∀ index, writer.argIndex? = some index → index < d.builderOperands.length

/-- The writers, where the record gives them, line up with the runtime operands. -/
def Descriptor.Aligned (d : Descriptor) : Prop :=
  ∀ writers, d.attributes.operandWriters = some writers →
    List.Forall₂ d.WriterOk writers d.runtimeOperands

theorem Table.writerFault?_eq_none_iff {d : Descriptor} {writer : Writer} {width : Width}
    {position : Nat} :
    Table.writerFault? d ((writer, width), position) = none ↔ d.WriterOk writer width := by
  cases writer with
  | arg index => simp [Table.writerFault?, Descriptor.WriterOk, Writer.argIndex?]
  | cast index w =>
      by_cases hw : w = width
      · simp [Table.writerFault?, Descriptor.WriterOk, Writer.argIndex?, hw]
      · simp [Table.writerFault?, Descriptor.WriterOk, hw]
  | verbatim source => simp [Table.writerFault?, Descriptor.WriterOk, Writer.argIndex?]

theorem Table.writersFault?_eq_none_iff {d : Descriptor} :
    Table.writersFault? d = none ↔ d.Aligned := by
  unfold Table.writersFault? Descriptor.Aligned
  cases hw : d.attributes.operandWriters with
  | none => simp
  | some writers =>
      have hget : d.operandWriters = writers := by simp [Descriptor.operandWriters, hw]
      have hall : d.writes.findSome? (Table.writerFault? d) = none ↔
          ∀ {a b}, (a, b) ∈ writers.zip d.runtimeOperands → d.WriterOk a b := by
        simp only [List.findSome?_eq_none_iff, Descriptor.writes, hget]
        constructor
        · intro h a b hab
          obtain ⟨k, hk, he⟩ := List.getElem_of_mem hab
          exact Table.writerFault?_eq_none_iff.mp (h ((a, b), k) (by
            rw [List.mk_mem_zipIdx_iff_getElem?, List.getElem?_eq_getElem hk, he]))
        · rintro h ⟨⟨a, b⟩, k⟩ hk
          rw [List.mk_mem_zipIdx_iff_getElem?] at hk
          exact Table.writerFault?_eq_none_iff.mpr (h (List.mem_of_getElem? hk))
      by_cases hlen : writers.length = d.runtimeOperands.length
      · simp [hlen, hall, List.forall₂_iff_zip]
      · simp [hlen, List.forall₂_iff_zip]

/-! ## Records -/

theorem Table.pinFault?_eq_none_iff {position : Nat} {record : Record} :
    Table.pinFault? position record = none ↔
      ∀ pinned, record.pinned = some pinned → pinned.toNat = position := by
  unfold Table.pinFault?
  cases record.pinned <;> simp

theorem Table.recordFault?_eq_none_iff {before : List Descriptor} {record : Record} :
    Table.recordFault? before record = none ↔
      isIdentifier record.name = true ∧
      (∀ d ∈ before, Text.lower d.name ≠ Text.lower record.name) ∧
      (∀ pinned, record.pinned = some pinned → pinned.toNat = before.length) ∧
      (Table.describe before.length record).Aligned := by
  rw [← Table.pinFault?_eq_none_iff, ← Table.writersFault?_eq_none_iff]
  unfold Table.recordFault?
  have hany : (∀ d ∈ before, Text.lower d.name ≠ Text.lower record.name) ↔
      (before.any fun d => Text.lower d.name == Text.lower record.name) = false := by
    simp
  rw [hany]
  cases isIdentifier record.name with
  | false => simp
  | true =>
      cases before.any fun d => Text.lower d.name == Text.lower record.name with
      | true => simp
      | false => cases Table.pinFault? before.length record <;> simp

/-! ## Tables -/

/-- What holds of every loaded table. -/
structure Table.WellFormed (t : Table) : Prop where
  length_le : t.descriptors.length ≤ maxOpcodes
  /-- Position is ordinal. -/
  ordinal : ∀ (k : Nat) (d : Descriptor), t.descriptors[k]? = some d → d.ordinal.toNat = k
  keywords : (t.descriptors.map Descriptor.keyword).Nodup
  identifier : ∀ d ∈ t.descriptors, isIdentifier d.name = true
  aligned : ∀ d ∈ t.descriptors, d.Aligned

theorem Table.WellFormed.nil : Table.WellFormed ⟨[]⟩ where
  length_le := by simp
  ordinal := by simp
  keywords := .nil
  identifier := by simp
  aligned := by simp

/-- A record without fault keeps the invariant. -/
theorem Table.WellFormed.snoc {before : List Descriptor} {record : Record}
    (h : Table.WellFormed ⟨before⟩) (hlt : before.length < maxOpcodes)
    (hr : Table.recordFault? before record = none) :
    Table.WellFormed ⟨before ++ [Table.describe before.length record]⟩ := by
  obtain ⟨hname, hdup, _, halign⟩ := Table.recordFault?_eq_none_iff.mp hr
  refine ⟨?_, ?_, ?_, ?_, ?_⟩
  · simp only [List.length_append, List.length_singleton]
    exact hlt
  · intro k d hk
    rcases Nat.lt_trichotomy k before.length with hk' | rfl | hk'
    · rw [List.getElem?_append_left hk'] at hk
      exact h.ordinal k d hk
    · simp only [List.getElem?_concat_length, Option.some.injEq] at hk
      subst hk
      simp only [Table.describe, UInt8.toNat_ofNat']
      exact Nat.mod_eq_of_lt (by simp only [maxOpcodes] at hlt; omega)
    · rw [List.getElem?_eq_none (by simp; omega)] at hk
      cases hk
  · simp only [List.map_append, List.map_cons, List.map_nil]
    refine List.nodup_append.mpr ⟨h.keywords, List.nodup_singleton _, ?_⟩
    intro word hword word' hword'
    obtain ⟨d, hd, rfl⟩ := List.mem_map.mp hword
    rw [List.mem_singleton.mp hword']
    exact hdup d hd
  · intro d hd
    rcases List.mem_append.mp hd with hd | hd
    · exact h.identifier d hd
    · rw [List.mem_singleton.mp hd]; exact hname
  · intro d hd
    rcases List.mem_append.mp hd with hd | hd
    · exact h.aligned d hd
    · rw [List.mem_singleton.mp hd]; exact halign

theorem Table.WellFormed.extend {records : List Record} {before descriptors : List Descriptor}
    (h : Table.WellFormed ⟨before⟩) (hlen : before.length + records.length ≤ maxOpcodes)
    (hext : Table.extend before records = .ok descriptors) : Table.WellFormed ⟨descriptors⟩ := by
  induction records generalizing before with
  | nil =>
      simp only [Table.extend, Except.ok.injEq] at hext
      exact hext ▸ h
  | cons record records ih =>
      simp only [Table.extend] at hext
      simp only [List.length_cons] at hlen
      split at hext
      · cases hext
      · rename_i hr
        exact ih (h.snoc (by omega) hr) (by simp; omega) hext

theorem Table.WellFormed.of_ofRecords {records : List Record} {t : Table}
    (h : Table.ofRecords records = .ok t) : t.WellFormed := by
  unfold Table.ofRecords at h
  split at h
  · cases h
  · rename_i hlen
    cases hext : Table.extend [] records with
    | error e => rw [hext] at h; cases h
    | ok descriptors =>
        rw [hext] at h
        cases h
        exact Table.WellFormed.nil.extend (by simpa using hlen) hext

theorem Table.WellFormed.of_ofText {text : String} {t : Table} (h : Table.ofText text = .ok t) :
    t.WellFormed := by
  unfold Table.ofText at h
  split at h
  · exact .of_ofRecords h
  · cases h

namespace Table.WellFormed

variable {t : Table}

/-! ## Looking up -/

theorem byOrdinal?_eq_some_iff (h : t.WellFormed) {byte : UInt8} {d : Descriptor} :
    t.byOrdinal? byte = some d ↔ d ∈ t.descriptors ∧ d.ordinal = byte := by
  unfold Table.byOrdinal?
  constructor
  · intro hd
    exact ⟨List.mem_of_getElem? hd, UInt8.toNat_inj.mp (h.ordinal _ _ hd)⟩
  · rintro ⟨hd, rfl⟩
    obtain ⟨k, hk, rfl⟩ := List.getElem_of_mem hd
    have hget := List.getElem?_eq_getElem hk
    rw [h.ordinal k _ hget, hget]

theorem eq_of_name (h : t.WellFormed) {d e : Descriptor} (hd : d ∈ t.descriptors)
    (he : e ∈ t.descriptors) (hne : d.name = e.name) : d = e :=
  List.inj_on_of_nodup_map h.keywords hd he (congrArg Text.lower hne)

theorem get?_eq_some_iff (h : t.WellFormed) {name : String} {d : Descriptor} :
    t.get? name = some d ↔ d ∈ t.descriptors ∧ d.name = name := by
  unfold Table.get?
  constructor
  · intro hd
    exact ⟨List.mem_of_find?_eq_some hd, by simpa using List.find?_some hd⟩
  · rintro ⟨hd, rfl⟩
    cases hf : t.descriptors.find? fun e => e.name == d.name with
    | none => simpa using List.find?_eq_none.mp hf d hd
    | some e =>
        have he : e.name = d.name := by simpa using List.find?_some hf
        rw [h.eq_of_name (List.mem_of_find?_eq_some hf) hd he]

end Table.WellFormed

/-! ## A small table -/

namespace Table

/-- A document with a cast of a signed operand and a passthrough. -/
def pushJumpText : String :=
  "[\x7b\"name\": \"Push\", \"builder_operands\": [\"i64\"], \"runtime_operands\": [\"u8\"], " ++
    "\"operand_writers\": [\"arg0 as u8\"]\x7d, " ++
    "\x7b\"name\": \"Jump\", \"runtime_operands\": [\"u16\"], \"operand_writers\": [\"arg0\"], " ++
    "\"is_terminal\": true\x7d]"

/-- The first opcode of the document. -/
def push : Descriptor where
  name := "Push"
  ordinal := 0
  attributes := {
    builderOperands := some ["i64"], runtimeOperands := some [.byte]
    operandWriters := some [.cast 0 .byte] }

/-- The second opcode of the document. -/
def jump : Descriptor where
  name := "Jump"
  ordinal := 1
  attributes := {
    runtimeOperands := some [.word], operandWriters := some [.arg 0], terminal := some true }

theorem ofText_pushJumpText : ofText pushJumpText = .ok ⟨[push, jump]⟩ := by decide +kernel

end Table

end OpcodeForge
