import OpcodeForge.Proofs.Decoding

/-!
# Records that are accepted

What is asked of a list of records, said without the loader: of each name, of the names together, of
pins and of writers. A document loads exactly when its records are of this kind, and the table that
comes of them can be looked up by name, by position and by ordinal with the same result.
-/

namespace OpcodeForge

/-! ## Names -/

/-- An ASCII letter. -/
def IsLetter (c : Char) : Prop := ('A' ≤ c ∧ c ≤ 'Z') ∨ ('a' ≤ c ∧ c ≤ 'z')

/-- An ASCII digit. -/
def IsDigit (c : Char) : Prop := '0' ≤ c ∧ c ≤ '9'

/-- An ASCII identifier, not the underscore alone, and in lower case no reserved word. -/
structure ValidName (name : String) : Prop where
  identifier : ∃ c rest, name.toList = c :: rest ∧ (IsLetter c ∨ c = '_') ∧
    ∀ c ∈ rest, IsLetter c ∨ IsDigit c ∨ c = '_'
  ne_underscore : name ≠ "_"
  unreserved : Text.lower name ∉ reservedWords

theorem isUpper_iff {c : Char} : c.isUpper = true ↔ 'A' ≤ c ∧ c ≤ 'Z' :=
  decide_eq_true_iff

theorem isLower_iff {c : Char} : c.isLower = true ↔ 'a' ≤ c ∧ c ≤ 'z' :=
  Bool.and_eq_true_iff.trans (and_congr decide_eq_true_iff decide_eq_true_iff)

theorem isAlpha_iff {c : Char} : c.isAlpha = true ↔ IsLetter c :=
  Bool.or_eq_true_iff.trans (or_congr isUpper_iff isLower_iff)

theorem isDigit_iff {c : Char} : c.isDigit = true ↔ IsDigit c := by
  simp [Char.isDigit, IsDigit, Char.le_def]

theorem isWordChar_iff {c : Char} :
    Text.isWordChar c = true ↔ IsLetter c ∨ IsDigit c ∨ c = '_' := by
  simp [Text.isWordChar, Char.isAlphanum, isAlpha_iff, isDigit_iff, or_assoc]

theorem isWord_iff {cs : List Char} :
    isWord cs = true ↔
      ∃ c rest, cs = c :: rest ∧ (IsLetter c ∨ c = '_') ∧
        ∀ c ∈ rest, IsLetter c ∨ IsDigit c ∨ c = '_' := by
  cases cs with
  | nil => simp [isWord]
  | cons c rest => simp [isWord, isAlpha_iff, isWordChar_iff]

theorem isIdentifier_iff {name : String} : isIdentifier name = true ↔ ValidName name := by
  have hsplit : isIdentifier name = true ↔
      name ≠ "_" ∧ Text.lower name ∉ reservedWords ∧ isWord name.toList = true := by
    simp [isIdentifier, and_assoc]
  rw [hsplit, isWord_iff]
  exact ⟨fun ⟨hne, hfree, hword⟩ => ⟨hword, hne, hfree⟩,
    fun h => ⟨h.ne_underscore, h.unreserved, h.identifier⟩⟩

/-! ## Writers -/

/-- The widths of the runtime operands, if any. -/
def Attributes.widths (a : Attributes) : List Width := a.runtimeOperands.getD []

/-- The number of builder operands: as many as are given, or one for each runtime operand. -/
def Attributes.builderCount (a : Attributes) : Nat :=
  match a.builderOperands with
  | some types => types.length
  | none => a.widths.length

/-- There is one writer for each runtime operand; a cast has the width at its position, and an index
is below the number of builder operands. -/
structure Attributes.WritersFit (a : Attributes) (writers : List Writer) : Prop where
  length_eq : writers.length = a.widths.length
  width_eq : ∀ (k index : Nat) (width : Width),
    writers[k]? = some (.cast index width) → a.widths[k]? = some width
  index_lt : ∀ writer ∈ writers, ∀ index, writer.argIndex? = some index → index < a.builderCount

theorem Descriptor.length_builderOperands (d : Descriptor) :
    d.builderOperands.length = d.attributes.builderCount := by
  unfold Descriptor.builderOperands Attributes.builderCount
  cases d.attributes.builderOperands with
  | some types => rfl
  | none => simp [Descriptor.runtimeOperands, Attributes.widths]

theorem Descriptor.forall₂_writerOk_iff {d : Descriptor} {writers : List Writer} :
    List.Forall₂ d.WriterOk writers d.runtimeOperands ↔ d.attributes.WritersFit writers := by
  rw [List.forall₂_iff_get]
  constructor
  · rintro ⟨hlen, hok⟩
    refine ⟨hlen, ?_, ?_⟩
    · intro k index width hk
      obtain ⟨hlt, hget⟩ := List.getElem?_eq_some_iff.mp hk
      have hwidth := (hok k hlt (hlen ▸ hlt)).1 index width hget
      rw [List.getElem?_eq_some_iff]
      exact ⟨hlen ▸ hlt, hwidth.symm⟩
    · intro writer hwriter index hindex
      obtain ⟨k, hlt, rfl⟩ := List.getElem_of_mem hwriter
      rw [← d.length_builderOperands]
      exact (hok k hlt (hlen ▸ hlt)).2 index hindex
  · rintro ⟨hlen, hwidth, hindex⟩
    refine ⟨hlen, fun k hlt hlt' => ⟨?_, ?_⟩⟩
    · intro index width hget
      have hk := hwidth k index width (List.getElem?_eq_some_iff.mpr ⟨hlt, hget⟩)
      exact ((List.getElem?_eq_some_iff.mp hk).2).symm
    · intro index hget
      rw [d.length_builderOperands]
      exact hindex _ (List.getElem_mem hlt) index hget

theorem Descriptor.aligned_iff {d : Descriptor} :
    d.Aligned ↔ ∀ writers, d.attributes.operandWriters = some writers →
      d.attributes.WritersFit writers := by
  simp only [Descriptor.Aligned, Descriptor.forall₂_writerOk_iff]

/-! ## Lists of records -/

/-- What is asked of the records of a table. -/
structure Record.ValidList (records : List Record) : Prop where
  length_le : records.length ≤ 255
  name : ∀ record ∈ records, ValidName record.name
  /-- No two names are the same up to letter case. -/
  distinct : records.Pairwise fun r s => Text.lower r.name ≠ Text.lower s.name
  pinned : ∀ (k : Nat) (record : Record) (pinned : UInt8),
    records[k]? = some record → record.pinned = some pinned → pinned.toNat = k
  writers : ∀ record ∈ records, ∀ writers,
    record.attributes.operandWriters = some writers → record.attributes.WritersFit writers

namespace Table

variable {before descriptors : List Descriptor} {record : Record} {records more : List Record}

/-- The descriptors of records from a position on. -/
def described (position : Nat) : List Record → List Descriptor
  | [] => []
  | record :: records => describe position record :: described (position + 1) records

theorem getElem?_described (position k : Nat) :
    (described position records)[k]? = records[k]?.map (describe (position + k)) := by
  induction records generalizing position k with
  | nil => simp [described]
  | cons record records ih =>
      cases k with
      | zero => rfl
      | succ k =>
          simp only [described, List.getElem?_cons_succ, ih]
          rw [show position + 1 + k = position + (k + 1) by omega]

theorem length_described (position : Nat) :
    (described position records).length = records.length := by
  induction records generalizing position with
  | nil => rfl
  | cons record records ih => simp [described, ih]

/-- No record has a fault after the descriptors of those before it. -/
def Faultless (before : List Descriptor) : List Record → Prop
  | [] => True
  | record :: records =>
      recordFault? before record = none ∧
        Faultless (before ++ [describe before.length record]) records

theorem extend_eq_ok_iff :
    extend before records = .ok descriptors ↔
      Faultless before records ∧ descriptors = before ++ described before.length records := by
  induction records generalizing before with
  | nil => simp [extend, Faultless, described, eq_comm]
  | cons record records ih =>
      cases hfault : recordFault? before record with
      | some fault => simp [extend, Faultless, hfault]
      | none =>
          simp only [extend, Faultless, hfault, ih, described, true_and, List.length_append,
            List.length_singleton, List.append_assoc, List.singleton_append]

theorem recordFault?_eq_none_iff_valid :
    recordFault? before record = none ↔
      ValidName record.name ∧
      (∀ d ∈ before, Text.lower d.name ≠ Text.lower record.name) ∧
      (∀ pinned, record.pinned = some pinned → pinned.toNat = before.length) ∧
      ∀ writers, record.attributes.operandWriters = some writers →
        record.attributes.WritersFit writers := by
  rw [recordFault?_eq_none_iff, isIdentifier_iff, Descriptor.aligned_iff]
  rfl

/-- The conditions record by record are those on the list, where names have to differ from those
before as well and positions count from there. -/
theorem faultless_iff :
    Faultless before records ↔
      (∀ record ∈ records, ValidName record.name) ∧
      (∀ d ∈ before, ∀ record ∈ records, Text.lower d.name ≠ Text.lower record.name) ∧
      (records.Pairwise fun r s => Text.lower r.name ≠ Text.lower s.name) ∧
      (∀ (k : Nat) (record : Record) (pinned : UInt8), records[k]? = some record →
        record.pinned = some pinned → pinned.toNat = before.length + k) ∧
      ∀ record ∈ records, ∀ writers, record.attributes.operandWriters = some writers →
        record.attributes.WritersFit writers := by
  induction records generalizing before with
  | nil => simp [Faultless]
  | cons record records ih =>
      rw [Faultless, recordFault?_eq_none_iff_valid, ih]
      simp only [List.length_append, List.length_singleton, List.forall_mem_append,
        List.forall_mem_singleton, List.forall_mem_cons, List.pairwise_cons]
      constructor
      · rintro ⟨⟨hname, hbefore, hpin, hwriters⟩, hnames, ⟨hbefores, hrecord⟩, hdistinct, hpins,
          hall⟩
        refine ⟨⟨hname, hnames⟩, fun d hd => ⟨hbefore d hd, hbefores d hd⟩, ⟨hrecord, hdistinct⟩,
          fun k r pinned hk hr => ?_, hwriters, hall⟩
        cases k with
        | zero =>
            cases hk
            exact hpin pinned hr
        | succ k =>
            rw [hpins k r pinned hk hr]
            omega
      · rintro ⟨⟨hname, hnames⟩, hbefore, ⟨hrecord, hdistinct⟩, hpins, hwriters, hall⟩
        refine ⟨⟨hname, fun d hd => (hbefore d hd).1, fun pinned hr => ?_, hwriters⟩, hnames,
          ⟨fun d hd => (hbefore d hd).2, hrecord⟩, hdistinct, fun k r pinned hk hr => ?_, hall⟩
        · exact hpins 0 record pinned rfl hr
        · rw [hpins (k + 1) r pinned hk hr]
          omega

theorem ofRecords_eq_ok_iff {t : Table} :
    ofRecords records = .ok t ↔
      records.length ≤ 255 ∧ Faultless [] records ∧ t.descriptors = described 0 records := by
  unfold ofRecords
  split
  · rename_i hlen
    exact ⟨fun h => (by cases h), fun h => absurd hlen (Nat.not_lt.mpr h.1)⟩
  · rename_i hlen
    have hextend := @extend_eq_ok_iff [] t.descriptors records
    rw [List.nil_append, List.length_nil] at hextend
    rw [← hextend]
    cases extend [] records with
    | error fault => simp [Except.map]
    | ok descriptors =>
        simp only [Except.map, Except.ok.injEq]
        exact ⟨fun h => ⟨Nat.not_lt.mp hlen, h ▸ rfl⟩, fun h => by rw [h.2]⟩

theorem exists_ofRecords_iff :
    (∃ t, ofRecords records = .ok t) ↔ Record.ValidList records := by
  simp only [ofRecords_eq_ok_iff]
  constructor
  · rintro ⟨t, hlen, hfaultless, -⟩
    obtain ⟨hname, -, hdistinct, hpinned, hwriters⟩ := faultless_iff.mp hfaultless
    exact ⟨hlen, hname, hdistinct, by simpa using hpinned, hwriters⟩
  · intro h
    exact ⟨⟨described 0 records⟩, h.length_le,
      faultless_iff.mpr ⟨h.name, by simp, h.distinct, by simpa using h.pinned, h.writers⟩, rfl⟩

/-! ## Looking up -/

/-- The table has the records in order, and looking up by name, by position and by ordinal agree. -/
structure Indexes (t : Table) (records : List Record) : Prop where
  length_eq : t.length = records.length
  at_position : ∀ (k : Nat) (record : Record), records[k]? = some record →
    ∃ d, t.descriptors[k]? = some d ∧ d.ordinal.toNat = k ∧ d.name = record.name ∧
      d.attributes = record.attributes
  sentinel : t.sentinel.toNat = t.length
  get? : ∀ (name : String) (d : Descriptor),
    t.get? name = some d ↔ d ∈ t.descriptors ∧ d.name = name
  byOrdinal?_ordinal? : ∀ (name : String) (d : Descriptor), t.get? name = some d →
    ∃ ordinal, t.ordinal? name = some ordinal ∧ t.byOrdinal? ordinal = some d
  byOrdinal?_eq_none : ∀ byte : UInt8, t.byOrdinal? byte = none ↔ t.sentinel ≤ byte

theorem WellFormed.toNat_sentinel {t : Table} (h : t.WellFormed) : t.sentinel.toNat = t.length := by
  have hlen := h.length_le
  simp only [maxOpcodes] at hlen
  rw [sentinel, UInt8.toNat_ofNat']
  exact Nat.mod_eq_of_lt (by simp only [Table.length]; omega)

theorem indexes_of_ofRecords {t : Table} (h : ofRecords records = .ok t) : t.Indexes records := by
  have hwf := WellFormed.of_ofRecords h
  obtain ⟨-, -, hdescriptors⟩ := ofRecords_eq_ok_iff.mp h
  refine {
    length_eq := by rw [Table.length, hdescriptors, length_described]
    at_position := fun k record hk => ?_
    sentinel := hwf.toNat_sentinel
    get? := fun name d => hwf.get?_eq_some_iff
    byOrdinal?_ordinal? := fun name d hd => ?_
    byOrdinal?_eq_none := fun byte => ?_ }
  · have hget : t.descriptors[k]? = some (describe k record) := by
      rw [hdescriptors, getElem?_described, hk, Option.map_some, Nat.zero_add]
    exact ⟨_, hget, hwf.ordinal k _ hget, rfl, rfl⟩
  · refine ⟨d.ordinal, by rw [ordinal?, hd, Option.map_some], ?_⟩
    exact hwf.byOrdinal?_eq_some_iff.mpr ⟨(hwf.get?_eq_some_iff.mp hd).1, rfl⟩
  · rw [Program.byOrdinal?_eq_none_iff, UInt8.le_iff_toNat_le, hwf.toNat_sentinel]

/-! ## Documents -/

/-- The records of a document. -/
def records? (text : String) : Option (List Record) :=
  (Json.parse text).bind (Json.Value.list? Record.ofJson?)

theorem ofText_of_records? {text : String} (h : records? text = some records) :
    ofText text = ofRecords records := by
  unfold records? at h
  rw [ofText, h]

/-- A document loads exactly when its records are valid, and its table indexes them. -/
theorem ofText_exact {text : String} (h : records? text = some records) :
    ((∃ t, ofText text = .ok t) ↔ Record.ValidList records) ∧
      ∀ t, ofText text = .ok t → t.Indexes records := by
  rw [ofText_of_records? h]
  exact ⟨exists_ofRecords_iff, fun t ht => indexes_of_ofRecords ht⟩

/-- Two records, the second of which insists on its position. -/
def pinnedRecords : List Record :=
  [{ name := "Loops", attributes := {
      runtimeOperands := some [.word], operandWriters := some [.cast 0 .word] } },
    { name := "Loop_", pinned := some 1 }]

/-- A document of the two records. -/
def pinnedText : String :=
  "[\x7b\"name\": \"Loops\", \"runtime_operands\": [\"u16\"], " ++
    "\"operand_writers\": [\"arg0 as u16\"]\x7d, \x7b\"name\": \"Loop_\", \"ordinal\": 1\x7d]"

/-- The pin is kept, and both names are free although a reserved word begins them. -/
theorem ofText_exact_pinned :
    records? pinnedText = some pinnedRecords ∧ Record.ValidList pinnedRecords ∧
      ∃ t, ofText pinnedText = .ok t ∧ t.Indexes pinnedRecords := by
  have hrecords : records? pinnedText = some pinnedRecords := by decide +kernel
  have hload : ofText pinnedText = .ok ⟨described 0 pinnedRecords⟩ := by decide +kernel
  obtain ⟨hvalid, hindexes⟩ := ofText_exact hrecords
  exact ⟨hrecords, hvalid.mp ⟨_, hload⟩, _, hload, hindexes _ hload⟩

end Table

end OpcodeForge
