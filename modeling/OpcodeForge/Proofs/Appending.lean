import OpcodeForge.Proofs.Compatibility
import OpcodeForge.Proofs.Generated.Positions
import OpcodeForge.Proofs.Loading

/-!
# Appending records

Records that are put after others leave what was loaded of these as it is. A list with more records
loads to a table that begins with the smaller one, and a fault of the first records is the fault of
all of them. So a smaller table is published, and its ordinals are generated, as a part of the larger
one.
-/

namespace OpcodeForge

/-! ## Tables that begin with a table -/

namespace Table

variable {small large : Table} {before : List Descriptor} {records more : List Record}

theorem extend_append :
    extend before (records ++ more) =
      (extend before records).bind fun descriptors => extend descriptors more := by
  induction records generalizing before with
  | nil => rfl
  | cons record records ih =>
      simp only [List.cons_append, extend]
      cases recordFault? before record with
      | some fault => rfl
      | none => exact ih

theorem ofRecords_append (hcount : (records ++ more).length ≤ maxOpcodes) :
    ofRecords (records ++ more) =
      (ofRecords records).bind fun t => (extend t.descriptors more).map Table.mk := by
  have hfirst : records.length ≤ maxOpcodes := by
    rw [List.length_append] at hcount
    omega
  rw [ofRecords, if_neg (Nat.not_lt.mpr hcount), ofRecords, if_neg (Nat.not_lt.mpr hfirst),
    extend_append]
  cases extend [] records <;> rfl

theorem ofRecords_append_of_error {fault : SpecError}
    (hcount : (records ++ more).length ≤ maxOpcodes) (h : ofRecords records = .error fault) :
    ofRecords (records ++ more) = .error fault := by
  rw [ofRecords_append hcount, h]
  rfl

theorem exists_prefix_of_append (hcount : (records ++ more).length ≤ maxOpcodes)
    (h : ofRecords (records ++ more) = .ok large) :
    ∃ small, ofRecords records = .ok small ∧ small.descriptors <+: large.descriptors := by
  rw [ofRecords_append hcount] at h
  cases hsmall : ofRecords records with
  | error fault =>
      rw [hsmall] at h
      cases h
  | ok small =>
      rw [hsmall] at h
      cases hextend : extend small.descriptors more with
      | error fault =>
          simp only [Except.bind, hextend, Except.map] at h
          cases h
      | ok descriptors =>
          simp only [Except.bind, hextend, Except.map, Except.ok.injEq] at h
          refine ⟨small, rfl, ?_⟩
          rw [← h, (extend_eq_ok_iff.mp hextend).2]
          exact List.prefix_append _ _

theorem keeps_of_prefix (hlarge : large.WellFormed)
    (h : small.descriptors <+: large.descriptors) : large.Keeps small := fun d hd =>
  ⟨d, hlarge.byOrdinal?_eq_some_iff.mpr ⟨h.subset hd, rfl⟩, rfl, rfl⟩

theorem WellFormed.ordinal?_name {t : Table} (ht : t.WellFormed) {d : Descriptor}
    (hd : d ∈ t.descriptors) : t.ordinal? d.name = some d.ordinal := by
  rw [ordinal?, ht.get?_eq_some_iff.mpr ⟨hd, rfl⟩, Option.map_some]

/-- What is generated for a table is generated for a table that it begins with. -/
theorem exists_generate_of_prefix {kind : ArtifactKind} {config : Config} {text : String}
    (h : small.descriptors <+: large.descriptors) (hne : small.descriptors ≠ [])
    (hgenerate : Artifact.generate kind large config = .ok text) :
    ∃ text, Artifact.generate kind small config = .ok text := by
  obtain ⟨-, hmeets⟩ := Artifact.exists_generate_iff_meets.mp ⟨text, hgenerate⟩
  exact Artifact.exists_generate_iff_meets.mpr ⟨hne, fun d hd => hmeets d (h.subset hd)⟩

end Table

/-! ## The ordinals -/

namespace Generated

/-- The lines of the ordinal enum: one for each opcode, and the sentinel. -/
def ordinalLines (t : Table) (paths : CodePaths) : List String :=
  linesIn ["pub enum " ++ Code.lastSegment paths.opcode ++ " \x7b"] [] (code .opcodes t paths)

theorem length_ordinalLines (t : Table) (paths : CodePaths) :
    (ordinalLines t paths).length = t.length + 1 := by
  simp [ordinalLines, linesIn_ordinalEnum, Table.length]

theorem ordinalLines_of_prefix {small large : Table} (hsmall : small.WellFormed)
    (h : small.descriptors <+: large.descriptors) (paths : CodePaths) :
    ordinalLines small paths = (ordinalLines large paths).take small.length ++
      ["MAX = " ++ Nat.repr small.length ++ ","] := by
  obtain ⟨rest, hrest⟩ := h
  rw [ordinalLines, ordinalLines, linesIn_ordinalEnum, linesIn_ordinalEnum, sentinel_eq hsmall,
    ← hrest, List.map_append, List.append_assoc, Table.length]
  rw [List.take_left' (List.length_map _)]

end Generated

/-! ## Loading more records -/

/-- More records leave the first ones as they are: their descriptors, their ordinals, what is
published of them and their lines in the ordinal enum, or their fault. -/
theorem Table.append_keeps_loaded {records more : List Record}
    (hcount : (records ++ more).length ≤ 255) :
    (∀ large, Table.ofRecords (records ++ more) = .ok large →
      ∃ small, Table.ofRecords records = .ok small ∧
        small.descriptors = large.descriptors.take records.length ∧
        (∀ record ∈ records, ∃ ordinal, small.ordinal? record.name = some ordinal ∧
          large.ordinal? record.name = some ordinal) ∧
        (Manifest.ofTable small).check large = .ok () ∧
        (∀ paths, (Generated.ordinalLines large paths).length = (records ++ more).length + 1 ∧
          Generated.ordinalLines small paths =
            (Generated.ordinalLines large paths).take records.length ++
              ["MAX = " ++ Nat.repr records.length ++ ","]) ∧
        ∀ config text, records ≠ [] → Artifact.generate .opcodes large config = .ok text →
          ∃ text, Artifact.generate .opcodes small config = .ok text) ∧
    ∀ fault, Table.ofRecords records = .error fault →
      Table.ofRecords (records ++ more) = .error fault := by
  refine ⟨fun large hlarge => ?_, fun fault h => Table.ofRecords_append_of_error hcount h⟩
  obtain ⟨small, hsmall, hbegin⟩ := Table.exists_prefix_of_append hcount hlarge
  have hwf := Table.WellFormed.of_ofRecords hsmall
  have hwf' := Table.WellFormed.of_ofRecords hlarge
  have hindexes := Table.indexes_of_ofRecords hsmall
  have hlength := hindexes.length_eq
  refine ⟨small, hsmall, ?_, fun record hrecord => ?_, ?_, fun paths => ⟨?_, ?_⟩, ?_⟩
  · rw [← hlength]
    exact List.prefix_iff_eq_take.mp hbegin
  · obtain ⟨k, hk, rfl⟩ := List.getElem_of_mem hrecord
    obtain ⟨d, hd, -, hname, -⟩ := hindexes.at_position k _ (List.getElem?_eq_getElem hk)
    have hmem := List.mem_of_getElem? hd
    rw [← hname]
    exact ⟨d.ordinal, hwf.ordinal?_name hmem, hwf'.ordinal?_name (hbegin.subset hmem)⟩
  · exact Manifest.check_ofTable_eq_ok_iff.mpr (Table.keeps_of_prefix hwf' hbegin)
  · rw [Generated.length_ordinalLines, (Table.indexes_of_ofRecords hlarge).length_eq]
  · rw [← hlength]
    exact Generated.ordinalLines_of_prefix hwf hbegin paths
  · intro config text hne hgenerate
    refine Table.exists_generate_of_prefix hbegin (fun hnil => hne ?_) hgenerate
    rw [Table.length, hnil] at hlength
    exact List.length_eq_zero_iff.mp hlength.symm

/-- A third record leaves the pinned two as they are; a third after two that clash does not help. -/
theorem Table.append_keeps_loaded_pinned :
    (∃ large, Table.ofRecords (Table.pinnedRecords ++ [{ name := "Ret" }]) = .ok large ∧
      ∃ small, Table.ofRecords Table.pinnedRecords = .ok small ∧
        small.descriptors = large.descriptors.take 2 ∧
        (Manifest.ofTable small).check large = .ok ()) ∧
    Table.ofRecords ([{ name := "Nop" }, { name := "NOP" }] ++ [{ name := "Ret" }]) =
      .error (.duplicateName "NOP") := by
  constructor
  · have hlarge : Table.ofRecords (Table.pinnedRecords ++ [{ name := "Ret" }]) =
        .ok ⟨Table.described 0 (Table.pinnedRecords ++ [{ name := "Ret" }])⟩ := by decide +kernel
    obtain ⟨small, hsmall, htake, -, hcheck, -⟩ :=
      (Table.append_keeps_loaded (by decide)).1 _ hlarge
    exact ⟨_, hlarge, small, hsmall, htake, hcheck⟩
  · exact (Table.append_keeps_loaded (by decide)).2 _ (by decide +kernel)

end OpcodeForge
