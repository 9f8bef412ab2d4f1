import OpcodeForge.Proofs.Emission

/-!
# When an artifact is generated

A section is held to every descriptor of the table before any text is made. An artifact is generated
exactly when the table is not empty and no section has a fault with any descriptor.
-/

namespace OpcodeForge

/-- An opcode has the fields that a section asks for, and there is no objection. -/
def Demands.Admits (s : Demands) (d : Descriptor) : Prop :=
  (∀ requirement ∈ s.requirements, d.missing? requirement = none) ∧ s.objection? d = none

theorem Demands.descriptorFault?_eq_none_iff {s : Demands} {kind : ArtifactKind} {d : Descriptor} :
    s.descriptorFault? kind d = none ↔ s.Admits d := by
  unfold Demands.descriptorFault? Demands.Admits
  rw [← List.findSome?_eq_none_iff]
  cases s.requirements.findSome? d.missing? with
  | some cause => simp
  | none => simp

theorem Demands.fault?_eq_none_iff {s : Demands} (kind : ArtifactKind) {t : Table} :
    s.fault? kind t = none ↔ ∀ d ∈ t.descriptors, s.Admits d := by
  unfold Demands.fault?
  rw [List.findSome?_eq_none_iff]
  simp only [Demands.descriptorFault?_eq_none_iff]

theorem Artifact.exists_generate_iff {kind : ArtifactKind} {t : Table} {config : Config} :
    (∃ text, Artifact.generate kind t config = .ok text) ↔
      t.descriptors ≠ [] ∧
        ∀ s ∈ Artifact.sections kind t config.paths, ∀ d ∈ t.descriptors, s.Admits d := by
  simp only [← Demands.fault?_eq_none_iff kind]
  rw [← List.findSome?_eq_none_iff, Artifact.generate_eq, Table.isEmpty]
  by_cases hnil : t.descriptors = []
  · simp [hnil]
  · rw [if_neg (by simpa using hnil)]
    cases (Artifact.sections kind t config.paths).findSome? fun s => s.fault? kind t with
    | some fault => simp
    | none => simp [hnil]

theorem Artifact.eq_render_of_generate {kind : ArtifactKind} {t : Table} {config : Config}
    {text : String} (h : Artifact.generate kind t config = .ok text) :
    text = (({} : Layout).append
      (assembleFragments (Artifact.emitters kind config.paths) t)).render := by
  rw [Artifact.generate_eq] at h
  split at h
  · cases h
  · split at h
    · cases h
    · exact (Except.ok.inj h).symm

/-! ## Definitions -/

theorem Definition.objection?_eq_none_iff {d : Descriptor} :
    Definition.objection? d = none ↔ d.passthroughFault? = none := by
  unfold Definition.objection?
  cases d.passthroughFault? with
  | none => simp
  | some fault => cases fault <;> simp

/-- A table with definitions has all its writers, and no passthrough needs a cast. -/
theorem Definition.of_generate {t : Table} {config : Config} {text : String}
    (h : Artifact.generate .instructionDef t config = .ok text) {d : Descriptor}
    (hd : d ∈ t.descriptors) :
    d.has .operandWriters = true ∧ d.passthroughFault? = none := by
  obtain ⟨-, hadmits⟩ := Artifact.exists_generate_iff.mp ⟨text, h⟩
  obtain ⟨hfields, hobjection⟩ := hadmits (Definition.lookupSection config.paths t)
    (by simp [Artifact.sections, Definition.sections]) d hd
  refine ⟨?_, Definition.objection?_eq_none_iff.mp hobjection⟩
  have hwriters := hfields (.required .operandWriters)
    (by simp [Definition.lookupSection, Emitter.sectionAt, Definition.lookupEmitter,
      Definition.requirements])
  simpa [Descriptor.missing?] using hwriters

end OpcodeForge
