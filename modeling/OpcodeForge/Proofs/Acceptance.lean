import OpcodeForge.Proofs.Encoding
import OpcodeForge.Proofs.Generation

/-!
# Tables that are accepted

What each artifact asks of the descriptors of a table, and what all artifacts ask together. All of
them are generated or none, and the error is that of the first artifact with a fault. The definitions
are generated for the tables whose instructions can all be built.
-/

namespace OpcodeForge

theorem mapM_eq_error_iff {ε α β : Type} {f : α → Except ε β} {xs : List α} {e : ε} :
    xs.mapM f = .error e ↔
      ∃ before x after, xs = before ++ x :: after ∧ (∀ y ∈ before, ∃ b, f y = .ok b) ∧
        f x = .error e := by
  induction xs with
  | nil => simp [pure, Except.pure]
  | cons x xs ih =>
      rw [List.mapM_cons]
      cases hx : f x with
      | error e' =>
          constructor
          · intro h
            cases h
            exact ⟨[], x, xs, rfl, by simp, hx⟩
          · rintro ⟨before, y, after, hxs, hbefore, hy⟩
            cases before with
            | nil =>
                cases hxs
                rw [hx] at hy
                cases hy
                rfl
            | cons z before =>
                cases hxs
                obtain ⟨b, hb⟩ := hbefore x List.mem_cons_self
                rw [hx] at hb
                cases hb
      | ok b =>
          have hrest : (do let y ← Except.ok b; let ys ← xs.mapM f; pure (y :: ys)) = .error e ↔
              xs.mapM f = .error e := by
            cases xs.mapM f <;> simp [bind, Except.bind, pure, Except.pure]
          rw [hrest, ih]
          constructor
          · rintro ⟨before, y, after, rfl, hbefore, hy⟩
            exact ⟨x :: before, y, after, rfl, List.forall_mem_cons.mpr ⟨⟨b, hx⟩, hbefore⟩, hy⟩
          · rintro ⟨before, y, after, hxs, hbefore, hy⟩
            cases before with
            | nil =>
                cases hxs
                rw [hx] at hy
                cases hy
            | cons z before =>
                cases hxs
                exact ⟨before, y, after, rfl, (List.forall_mem_cons.mp hbefore).2, hy⟩

/-! ## Fields and objections -/

section Descriptor

variable {d : Descriptor}

theorem Descriptor.has_operandWriters_iff :
    d.has .operandWriters = true ↔
      (d.attributes.operandWriters = none → d.runtimeOperands = []) := by
  cases h : d.attributes.operandWriters <;> simp [Descriptor.has, h]

theorem Ast.enumRequirements_iff :
    (∀ requirement ∈ Ast.enumRequirements, d.missing? requirement = none) ↔
      d.attributes.trivialAst ≠ none := by
  simp [Ast.enumRequirements, Descriptor.missing?, Descriptor.has, Option.isSome_iff_ne_none]

theorem Ast.dispatchRequirements_iff :
    (∀ requirement ∈ Ast.dispatchRequirements, d.missing? requirement = none) ↔
      d.attributes.trivialAst ≠ none := by
  simp [Ast.dispatchRequirements, Descriptor.missing?, Descriptor.has, Option.isSome_iff_ne_none]

theorem Lowering.requirements_iff :
    (∀ requirement ∈ Lowering.requirements, d.missing? requirement = none) ↔
      d.attributes.trivialLowering ≠ none := by
  simp [Lowering.requirements, Descriptor.missing?, Descriptor.has, Option.isSome_iff_ne_none]

theorem Definition.requirements_iff :
    (∀ requirement ∈ Definition.requirements, d.missing? requirement = none) ↔
      (d.attributes.operandWriters = none → d.runtimeOperands = []) := by
  rw [← Descriptor.has_operandWriters_iff]
  simp [Definition.requirements, Descriptor.missing?]

theorem Decoder.requirements_met :
    ∀ requirement ∈ Decoder.requirements, d.missing? requirement = none := by
  simp [Decoder.requirements, Descriptor.missing?]

theorem Ast.objection?_eq_none_iff {paths : CodePaths} :
    (Ast.trivialSection paths).objection? d = none ↔ (d.trivialAst = true → d.astArgs = []) := by
  simp [Ast.trivialSection]

theorem Lowering.objection?_eq_none_iff :
    Lowering.objection? d = none ↔
      (d.trivialLowering = true → d.astArgs = [] ∧ d.builderOperands = []) := by
  unfold Lowering.objection?
  cases d.trivialLowering with
  | false => simp
  | true => cases d.astArgs <;> cases d.builderOperands <;> simp

theorem Ordinals.objection?_eq_none_iff :
    Ordinals.objection? d = none ↔ d.name ≠ "MAX" ∧ d.name ≠ "ALL" := by
  simp [Ordinals.objection?, Ordinals.reservedNames, Ordinals.sentinelName]

end Descriptor

/-! ## One artifact -/

/-- What an artifact asks of a descriptor. -/
def Descriptor.Meets (d : Descriptor) : ArtifactKind → Prop
  | .grammar => True
  | .astEnum => d.attributes.trivialAst ≠ none
  | .astDispatch => d.attributes.trivialAst ≠ none ∧ (d.trivialAst = true → d.astArgs = [])
  | .lowering =>
      d.attributes.trivialLowering ≠ none ∧
        (d.trivialLowering = true → d.astArgs = [] ∧ d.builderOperands = [])
  | .instructionDef =>
      (d.attributes.operandWriters = none → d.runtimeOperands = []) ∧ d.passthroughFault? = none
  | .runtimeDecoder => True
  | .opcodes => d.name ≠ "MAX" ∧ d.name ≠ "ALL"

theorem Artifact.forall_admits_iff {kind : ArtifactKind} {t : Table} {paths : CodePaths}
    {d : Descriptor} : (∀ s ∈ Artifact.sections kind t paths, s.Admits d) ↔ d.Meets kind := by
  -- Several sections of one artifact ask for the same fields; one of them may object as well.
  cases kind with
  | grammar => simp [Artifact.sections, Grammar.sections, Emitter.sectionAt, Grammar.emitter,
      Demands.Admits, Descriptor.missing?, Descriptor.Meets]
  | astEnum =>
      simp only [Artifact.sections, Ast.enumSections, List.forall_mem_cons, Demands.Admits,
        Ast.modulesSection, Code.enumSection, Ast.enumRequirements_iff]
      simp [Descriptor.Meets]
  | astDispatch =>
      simp only [Artifact.sections, Ast.dispatchSections, List.forall_mem_cons, Demands.Admits,
        Ast.objection?_eq_none_iff]
      simp only [Ast.trivialSection, Ast.dispatchSection, Ast.dispatchRequirements_iff]
      exact ⟨fun h => h.1, fun h => ⟨h, ⟨h.1, trivial⟩, by simp⟩⟩
  | lowering =>
      simp only [Artifact.sections, Lowering.sections, List.forall_mem_cons, Demands.Admits,
        Lowering.modulesSection, Lowering.trivialSection, Lowering.dispatchSection,
        Lowering.requirements_iff, Lowering.objection?_eq_none_iff]
      exact ⟨fun h => h.1, fun h => ⟨h, ⟨h.1, trivial⟩, ⟨h.1, trivial⟩, by simp⟩⟩
  | instructionDef =>
      simp only [Artifact.sections, Definition.sections, List.forall_mem_cons, Demands.Admits,
        Code.importSection, Code.enumSection, Definition.lookupSection, Emitter.sectionAt,
        Definition.lookupEmitter, Definition.writeSection, Definition.requirements_iff,
        Definition.objection?_eq_none_iff]
      exact ⟨fun h => h.2.2.1, fun h => ⟨by simp, ⟨h.1, trivial⟩, h, ⟨h.1, trivial⟩, by simp⟩⟩
  | runtimeDecoder =>
      simp only [Artifact.sections, Decoder.sections, List.forall_mem_cons, Demands.Admits,
        Code.importSection, Code.enumSection, Decoder.readSection]
      simpa [Descriptor.Meets] using Decoder.requirements_met
  | opcodes =>
      simp [Artifact.sections, Ordinals.sections, Ordinals.enumSection, Emitter.sectionAt,
        Ordinals.emitter, Ordinals.objection?_eq_none_iff, Demands.Admits, Descriptor.Meets]

theorem Artifact.exists_generate_iff_meets {kind : ArtifactKind} {t : Table} {config : Config} :
    (∃ text, Artifact.generate kind t config = .ok text) ↔
      t.descriptors ≠ [] ∧ ∀ d ∈ t.descriptors, d.Meets kind := by
  have hadmits := @Artifact.forall_admits_iff kind t config.paths
  simp only [Artifact.exists_generate_iff, ← hadmits]
  exact and_congr_right fun _ => ⟨fun h d hd s hs => h s hs d hd, fun h s hs d hd => h d hd s hs⟩

/-- The artifact that an error names. -/
def EmitError.artifact? : EmitError → Option ArtifactKind
  | .validation artifact _ => some artifact
  | .unsupported artifact _ _ => some artifact
  | .emptyTable => none
  | .config _ => none

theorem Demands.artifact?_of_descriptorFault? {s : Demands} {kind : ArtifactKind} {d : Descriptor}
    {e : EmitError} (h : s.descriptorFault? kind d = some e) : e.artifact? = some kind := by
  unfold Demands.descriptorFault? at h
  split at h
  · cases h
    rfl
  · obtain ⟨objection, -, rfl⟩ := Option.map_eq_some_iff.mp h
    rfl

theorem Artifact.artifact?_of_generate {kind : ArtifactKind} {t : Table} {config : Config}
    {e : EmitError} (hne : t.descriptors ≠ []) (h : Artifact.generate kind t config = .error e) :
    e.artifact? = some kind := by
  rw [Artifact.generate_eq, if_neg (by simpa [Table.isEmpty] using hne)] at h
  split at h
  · rename_i fault hfault
    cases h
    obtain ⟨s, -, hs⟩ := List.exists_of_findSome?_eq_some hfault
    obtain ⟨d, -, hd⟩ := List.exists_of_findSome?_eq_some hs
    exact Demands.artifact?_of_descriptorFault? hd
  · cases h

/-! ## All artifacts -/

/-- What all artifacts together ask of a descriptor. -/
structure Descriptor.Generable (d : Descriptor) : Prop where
  trivialAst : d.attributes.trivialAst ≠ none
  trivialLowering : d.attributes.trivialLowering ≠ none
  operandWriters : d.attributes.operandWriters ≠ none ∨ d.runtimeOperands = []
  astPayload : d.trivialAst = true → d.astArgs = []
  loweringPayload : d.trivialLowering = true → d.astArgs = [] ∧ d.builderOperands = []
  passthrough : d.passthroughFault? = none
  name : d.name ≠ "MAX" ∧ d.name ≠ "ALL"

theorem ArtifactKind.mem_all (kind : ArtifactKind) : kind ∈ ArtifactKind.all := by
  cases kind <;> decide

theorem Descriptor.generable_iff {d : Descriptor} : d.Generable ↔ ∀ kind, d.Meets kind := by
  constructor
  · intro h kind
    cases kind with
    | grammar => trivial
    | astEnum => exact h.trivialAst
    | astDispatch => exact ⟨h.trivialAst, h.astPayload⟩
    | lowering => exact ⟨h.trivialLowering, h.loweringPayload⟩
    | instructionDef => exact ⟨fun hw => h.operandWriters.resolve_left (fun hne => hne hw), h.passthrough⟩
    | runtimeDecoder => trivial
    | opcodes => exact h.name
  · intro h
    exact {
      trivialAst := h .astEnum
      trivialLowering := (h .lowering).1
      operandWriters := by
        by_cases hw : d.attributes.operandWriters = none
        · exact .inr ((h .instructionDef).1 hw)
        · exact .inl hw
      astPayload := (h .astDispatch).2
      loweringPayload := (h .lowering).2
      passthrough := (h .instructionDef).2
      name := h .opcodes }

namespace Artifact

variable {t : Table} {config : Config} {kind : ArtifactKind} {a : Artifact} {e : EmitError}

/-- One turn of `generateAll`. -/
def make (t : Table) (config : Config) (kind : ArtifactKind) : Except EmitError Artifact := do
  let text ← generate kind t config
  pure { kind, path := config.outputs.path kind, text }

theorem generateAll_of_validate (h : config.validate = .ok ()) :
    generateAll t config = ArtifactKind.all.mapM (make t config) := by
  rw [generateAll, h]
  rfl

theorem make_eq_ok_iff :
    make t config kind = .ok a ↔
      a.kind = kind ∧ a.path = config.outputs.path kind ∧ generate kind t config = .ok a.text := by
  simp only [make, bind_eq_ok_iff, pure_eq_ok_iff]
  constructor
  · rintro ⟨text, htext, rfl⟩
    exact ⟨rfl, rfl, htext⟩
  · rintro ⟨rfl, hpath, htext⟩
    exact ⟨a.text, htext, by rw [← hpath]⟩

theorem make_eq_error_iff : make t config kind = .error e ↔ generate kind t config = .error e := by
  unfold make
  cases generate kind t config <;> simp [bind, Except.bind, pure, Except.pure]

theorem exists_make_iff :
    (∃ a, make t config kind = .ok a) ↔ ∃ text, generate kind t config = .ok text := by
  constructor
  · rintro ⟨a, ha⟩
    exact ⟨a.text, (make_eq_ok_iff.mp ha).2.2⟩
  · rintro ⟨text, htext⟩
    exact ⟨⟨kind, _, text⟩, make_eq_ok_iff.mpr ⟨rfl, rfl, htext⟩⟩

theorem generateAll_eq_ok_iff {artifacts : List Artifact} :
    generateAll t config = .ok artifacts ↔
      config.validate = .ok () ∧
        List.Forall₂ (fun kind a => make t config kind = .ok a) ArtifactKind.all artifacts := by
  cases hvalid : config.validate with
  | error cause => simp [generateAll, hvalid]
  | ok _ => simp only [generateAll_of_validate hvalid, mapM_eq_ok_iff, true_and]

/-- Of the artifacts that fail, the first in order gives the error. -/
theorem generateAll_eq_error_iff (hvalid : config.validate = .ok ()) :
    generateAll t config = .error e ↔
      ∃ before kind after, ArtifactKind.all = before ++ kind :: after ∧
        (∀ k ∈ before, ∃ text, generate k t config = .ok text) ∧
        generate kind t config = .error e := by
  simp only [generateAll_of_validate hvalid, mapM_eq_error_iff, exists_make_iff, make_eq_error_iff]

theorem exists_generateAll_iff_generate :
    (∃ artifacts, generateAll t config = .ok artifacts) ↔
      config.validate = .ok () ∧ ∀ kind, ∃ text, generate kind t config = .ok text := by
  constructor
  · rintro ⟨artifacts, h⟩
    obtain ⟨hvalid, hmade⟩ := generateAll_eq_ok_iff.mp h
    refine ⟨hvalid, fun kind => ?_⟩
    obtain ⟨k, hk, rfl⟩ := List.getElem_of_mem (ArtifactKind.mem_all kind)
    exact exists_make_iff.mp ⟨_, hmade.get hk (hmade.length_eq ▸ hk)⟩
  · rintro ⟨hvalid, hall⟩
    cases h : generateAll t config with
    | ok artifacts => exact ⟨artifacts, rfl⟩
    | error e =>
        obtain ⟨_, kind, _, _, _, herror⟩ := (generateAll_eq_error_iff hvalid).mp h
        obtain ⟨text, htext⟩ := hall kind
        rw [htext] at herror
        cases herror

theorem exists_generateAll_iff :
    (∃ artifacts, generateAll t config = .ok artifacts) ↔
      config.validate = .ok () ∧ t.descriptors ≠ [] ∧ ∀ d ∈ t.descriptors, d.Generable := by
  simp only [exists_generateAll_iff_generate, exists_generate_iff_meets, Descriptor.generable_iff]
  constructor
  · rintro ⟨hvalid, hall⟩
    exact ⟨hvalid, (hall .grammar).1, fun d hd kind => (hall kind).2 d hd⟩
  · rintro ⟨hvalid, hne, hmeets⟩
    exact ⟨hvalid, fun kind => ⟨hne, fun d hd => hmeets d hd kind⟩⟩

/-- The artifacts are generated together, exactly where the configuration is valid, the table has an
opcode and every descriptor is generable. Where the configuration is valid and the table has an
opcode, an error is that of the first artifact in order that is not generated, and names it. -/
theorem generateAll_exact (t : Table) (config : Config) :
    ((∃ artifacts, generateAll t config = .ok artifacts ∧ artifacts.length = 7 ∧
        List.Forall₂ (fun kind a => a.kind = kind ∧ a.path = config.outputs.path kind ∧
          generate kind t config = .ok a.text) ArtifactKind.all artifacts) ↔
      config.validate = .ok () ∧ t.descriptors ≠ [] ∧ ∀ d ∈ t.descriptors, d.Generable) ∧
    (config.validate = .ok () → t.descriptors ≠ [] → ∀ e, generateAll t config = .error e ↔
      ∃ before kind after, ArtifactKind.all = before ++ kind :: after ∧
        (∀ k ∈ before, ∃ text, generate k t config = .ok text) ∧
        generate kind t config = .error e ∧ e.artifact? = some kind) := by
  constructor
  · constructor
    · rintro ⟨artifacts, h, -, -⟩
      exact exists_generateAll_iff.mp ⟨artifacts, h⟩
    · intro hgenerable
      obtain ⟨artifacts, h⟩ := exists_generateAll_iff.mpr hgenerable
      have hmade := (generateAll_eq_ok_iff.mp h).2
      exact ⟨artifacts, h, hmade.length_eq.symm, hmade.imp fun _ _ ha => make_eq_ok_iff.mp ha⟩
  · intro hvalid hne e
    rw [generateAll_eq_error_iff hvalid]
    constructor
    · rintro ⟨before, kind, after, hsplit, hbefore, herror⟩
      exact ⟨before, kind, after, hsplit, hbefore, herror, artifact?_of_generate hne herror⟩
    · rintro ⟨before, kind, after, hsplit, hbefore, herror, -⟩
      exact ⟨before, kind, after, hsplit, hbefore, herror⟩

end Artifact

/-! ## Definitions and instructions -/

/-- An instruction is built from operands of the right number, of an opcode that has a definition. -/
theorem Instruction.exists_build_iff {t : Table} (ht : t.WellFormed) {d : Descriptor}
    (hd : d ∈ t.descriptors) {operands : List Int64} :
    (∃ i, Instruction.build t d.name operands = .ok i) ↔
      d.Meets .instructionDef ∧ operands.length = d.builderOperands.length := by
  simp only [Instruction.build_eq_ok_iff ht, Descriptor.Meets, ← Descriptor.has_operandWriters_iff]
  constructor
  · rintro ⟨i, hbuilt, hname, rfl⟩
    obtain rfl := ht.eq_of_name hbuilt.mem hd hname
    exact ⟨⟨hbuilt.hasWriters, hbuilt.passthrough⟩, hbuilt.count⟩
  · rintro ⟨⟨hwriters, hpassthrough⟩, hcount⟩
    exact ⟨⟨d, operands⟩, ⟨hd, hwriters, hpassthrough, hcount⟩, rfl, rfl⟩

/-- The definitions are generated exactly where each opcode takes some operands, which is where it
takes all that are as many as it has builder operands. -/
theorem Artifact.generate_instructionDef_iff_build {text : String} {t : Table}
    (ht : Table.ofText text = .ok t) (hne : t.descriptors ≠ []) (config : Config) :
    ((∃ code, Artifact.generate .instructionDef t config = .ok code) ↔
      ∀ d ∈ t.descriptors, ∃ operands i, Instruction.build t d.name operands = .ok i) ∧
    ((∃ code, Artifact.generate .instructionDef t config = .ok code) ↔
      ∀ d ∈ t.descriptors, ∀ operands : List Int64,
        operands.length = d.builderOperands.length →
          ∃ i, Instruction.build t d.name operands = .ok i) := by
  have hbuild := @Instruction.exists_build_iff t (.of_ofText ht)
  rw [Artifact.exists_generate_iff_meets, and_iff_right hne]
  constructor
  · refine forall₂_congr fun d hd => ?_
    simp only [hbuild hd]
    exact ⟨fun h => ⟨List.replicate d.builderOperands.length 0, h, List.length_replicate⟩,
      fun ⟨_, h, _⟩ => h⟩
  · refine forall₂_congr fun d hd => ?_
    simp only [hbuild hd]
    exact ⟨fun h _ hlength => ⟨h, hlength⟩,
      fun h => (h (List.replicate d.builderOperands.length 0) List.length_replicate).1⟩

/-- A table with a cast and a passthrough has definitions, and a jump takes any one operand. -/
theorem Artifact.generate_instructionDef_push_jump :
    Table.ofText Table.pushJumpText = .ok ⟨[Table.push, Table.jump]⟩ ∧
    (∃ code, Artifact.generate .instructionDef ⟨[Table.push, Table.jump]⟩ {} = .ok code) ∧
    ∀ operand : Int64, ∃ i, Instruction.build ⟨[Table.push, Table.jump]⟩ "Jump" [operand] = .ok i := by
  obtain ⟨hsome, hevery⟩ := Artifact.generate_instructionDef_iff_build Table.ofText_pushJumpText
    (List.cons_ne_nil _ _) {}
  have hcode := hsome.mpr (by
    intro d hd
    have hcases : d = Table.push ∨ d = Table.jump := by simpa using hd
    rcases hcases with rfl | rfl
    · exact ⟨[0], _, rfl⟩
    · exact ⟨[0], _, rfl⟩)
  refine ⟨Table.ofText_pushJumpText, hcode, fun operand => ?_⟩
  exact hevery.mp hcode Table.jump (by simp) [operand] rfl

end OpcodeForge
