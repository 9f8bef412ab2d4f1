import OpcodeForge.Proofs.Generated.Dispatch

/-!
# Every opcode once

The rules of the generated grammar, the dispatch from these rules and the dispatch of lowering all
split the same table. Each of them knows every opcode once, and what a dispatch goes to is there.
-/

namespace OpcodeForge.Generated

/-! ## The rules of the grammar -/

/-- The rule that a line of a grammar defines. -/
def definedRule? (text : String) : Option String :=
  if " = \x7b".toList.isPrefixOf (word text.toList).2 then some (word text.toList).1 else none

/-- The rules that a grammar defines, in order. -/
def definedRules? (grammar : List Fragment) : Option (List String) :=
  ((linesIn [] [] grammar).filter fun line => !isComment line.toList).mapM definedRule?

/-- The alternatives of the `statement` rule, in order. -/
def statement? (grammar : List Fragment) : Option (List String) := do
  let line ← (linesIn [] [] grammar).find? fun line => definedRule? line == some "statement"
  match rule? line.toList with
  | some (_, .choice rules) => some rules
  | _ => none

section Grammar

variable {t : Table} {paths : CodePaths} {d : Descriptor}

theorem definedRule?_production (ht : t.WellFormed) (hd : d ∈ t.descriptors) :
    definedRule? (Grammar.production d) = some d.ruleName := by
  obtain ⟨rest, hline⟩ : ∃ rest, (Grammar.production d).toList =
      d.ruleName.toList ++ (" = \x7b".toList ++ rest) := by
    unfold Grammar.production
    exact ⟨_, by simp only [String.toList_append, List.append_assoc]; rfl⟩
  rw [definedRule?, hline, word_append (isName_ruleName ht hd) _ rfl]
  exact if_pos (List.isPrefixOf_iff_prefix.mpr (List.prefix_append _ _))

theorem definedRule?_statement : definedRule? (Grammar.statement t) = some "statement" := by
  obtain ⟨rest, hline⟩ : ∃ rest, (Grammar.statement t).toList =
      "statement".toList ++ (" = \x7b".toList ++ rest) := by
    unfold Grammar.statement Grammar.choice
    exact ⟨_, by simp only [String.toList_append, List.append_assoc]; rfl⟩
  rw [definedRule?, hline, word_append (isName_of_literal (by decide)) _ rfl]
  exact if_pos (List.isPrefixOf_iff_prefix.mpr (List.prefix_append _ _))

theorem linesIn_grammar :
    linesIn [] [] (code .grammar t paths) = linesIn [] [] banner ++ grammarLines t := by
  have hbody : t.descriptors.flatMap (fun d => [Fragment.line (Grammar.production d)]) =
      (t.descriptors.map Grammar.production).map .line := flatMap_line
  simp only [code_eq, Artifact.sections, Grammar.sections, List.flatMap_cons,
    List.flatMap_nil, List.append_nil, linesIn_append, opened_banner, Section.fragments_eq,
    Emitter.sectionAt, Grammar.emitter, hbody, List.nil_append, linesIn_lines, opened_lines,
    grammarLines]
  rfl

theorem filter_grammarLines :
    (grammarLines t).filter (fun line => !isComment line.toList) = grammarLines t := by
  rw [List.filter_eq_self]
  intro line hline
  obtain ⟨cs, hcs⟩ := exists_toList_grammarLine hline
  rw [isComment, hcs]
  rfl

theorem definedRules?_code (ht : t.WellFormed) :
    definedRules? (code .grammar t paths) =
      some (t.descriptors.map Descriptor.ruleName ++ ["statement"]) := by
  have hbanner : (linesIn [] [] banner).filter (fun line => !isComment line.toList) = [] := by decide
  rw [definedRules?, linesIn_grammar, List.filter_append, hbanner, filter_grammarLines,
    List.nil_append, grammarLines, List.mapM_append,
    mapM_map_eq_some fun d hd => definedRule?_production ht hd]
  simp [definedRule?_statement]

theorem nodup_definedRules (ht : t.WellFormed) :
    (t.descriptors.map Descriptor.ruleName ++ ["statement"]).Nodup := by
  simpa [grammarRules, Function.comp_def] using nodup_grammarRules ht

theorem statement?_code (ht : t.WellFormed) (hne : t.descriptors ≠ []) :
    statement? (code .grammar t paths) = some (t.descriptors.map Descriptor.ruleName) := by
  have hbanner : (linesIn [] [] banner).find? (fun line => definedRule? line == some "statement") =
      none := by decide
  have hproductions : (t.descriptors.map Grammar.production).find?
      (fun line => definedRule? line == some "statement") = none := by
    rw [List.find?_eq_none, List.forall_mem_map]
    intro d hd
    simp [definedRule?_production ht hd, ruleName_ne_statement]
  have hfind : (linesIn [] [] (code .grammar t paths)).find?
      (fun line => definedRule? line == some "statement") = some (Grammar.statement t) := by
    rw [linesIn_grammar, grammarLines, List.find?_append, List.find?_append, hbanner, hproductions]
    simp [definedRule?_statement]
  rw [statement?, hfind]
  simp only [Option.bind_eq_bind, Option.bind_some, rule?_statement ht hne]

end Grammar

/-! ## Every opcode once -/

/-- The grammar, the dispatch from its rules and the dispatch of lowering know every opcode once. A
trivial opcode stands for its variant, which has no payload; each of the others goes to a module that
is declared, and lowering leaves out a payload exactly where the variant has one. -/
theorem dispatch_covers_opcodes {document : String} {t : Table} {config : Config}
    {artifacts : List Artifact} (ht : Table.ofText document = .ok t)
    (hgenerate : Artifact.generateAll t config = .ok artifacts) :
    List.Forall₂ (fun kind a => a.kind = kind ∧
        a.text = (({} : Layout).append (code kind t config.paths)).render)
      ArtifactKind.all artifacts ∧
    (t.descriptors.map Descriptor.ruleName ++ ["statement"]).Nodup ∧
    definedRules? (code .grammar t config.paths) =
      some (t.descriptors.map Descriptor.ruleName ++ ["statement"]) ∧
    statement? (code .grammar t config.paths) = some (t.descriptors.map Descriptor.ruleName) ∧
    ∃ instructions definitions rules lowering,
      variants? "Instruction" (code .astEnum t config.paths) = some instructions ∧
      variants? "InstructionDef" (code .instructionDef t config.paths) = some definitions ∧
      ruleDispatch? config.paths (fun kind => code kind t config.paths) = some rules ∧
      loweringDispatch? config.paths (fun kind => code kind t config.paths) = some lowering ∧
      rules.Covers (t.descriptors.map Descriptor.ruleName) ∧
      lowering.Covers (instructions.map Variant.name) ∧
      (∀ d ∈ t.descriptors, rules.target? d.ruleName ≠ none ∧ lowering.target? d.name ≠ none) ∧
      ∀ d ∈ t.descriptors,
        (d.trivialAst = true →
          (d.ruleName, d.name) ∈ rules.pairs ∧ ⟨d.name, false⟩ ∈ instructions) ∧
        (d.trivialAst = false →
          ⟨d.ruleName, false, d.moduleName⟩ ∈ rules.arms ∧ d.moduleName ∈ rules.modules) ∧
        (d.trivialLowering = true →
          (d.name, d.name) ∈ lowering.pairs ∧ ⟨d.name, false⟩ ∈ instructions ∧
            ⟨d.name, false⟩ ∈ definitions) ∧
        (d.trivialLowering = false → ∃ payload,
          ⟨d.name, payload⟩ ∈ instructions ∧ ⟨d.name, payload, d.moduleName⟩ ∈ lowering.arms ∧
            d.moduleName ∈ lowering.modules) := by
  have hwf := Table.WellFormed.of_ofText ht
  obtain ⟨-, hne, hgenerable⟩ := Artifact.exists_generateAll_iff.mp ⟨artifacts, hgenerate⟩
  have hnames : ((t.descriptors.map fun d => (⟨d.name, !d.astArgs.isEmpty⟩ : Variant)).map
      Variant.name) = t.descriptors.map Descriptor.name := by
    rw [List.map_map]
    rfl
  have hrules := @Dispatch.covers_ofTable t Descriptor.ruleName Descriptor.trivialAst
    (fun _ => false) ["imp"] (nodup_ruleNames hwf)
  have hlowering := @Dispatch.covers_ofTable t Descriptor.name Descriptor.trivialLowering
    (fun d => !d.astArgs.isEmpty) [] (nodup_names hwf)
  refine ⟨forall₂_text_of_generateAll hgenerate, nodup_definedRules hwf, definedRules?_code hwf,
    statement?_code hwf hne, _, _, _, _, @variants?_of_lines t hwf "Instruction" _ _ linesIn_astEnum,
    @variants?_of_lines t hwf "InstructionDef" _ _ linesIn_definitionEnum, ruleDispatch?_code hwf,
    loweringDispatch?_code hwf, hrules, hnames ▸ hlowering, ?_, fun d hd => ⟨?_, ?_, ?_, ?_⟩⟩
  · intro d hd
    exact ⟨hrules.target?_ne_none (List.mem_map_of_mem hd),
      hlowering.target?_ne_none (List.mem_map_of_mem hd)⟩
  · intro htrivial
    refine ⟨Dispatch.pair_mem_ofTable hd htrivial, List.mem_map.mpr ⟨d, hd, ?_⟩⟩
    rw [(hgenerable d hd).astPayload htrivial]
    rfl
  · intro htrivial
    exact Dispatch.arm_mem_ofTable hd htrivial
  · intro htrivial
    obtain ⟨hargs, hoperands⟩ := (hgenerable d hd).loweringPayload htrivial
    refine ⟨Dispatch.pair_mem_ofTable hd htrivial, List.mem_map.mpr ⟨d, hd, ?_⟩,
      List.mem_map.mpr ⟨d, hd, ?_⟩⟩
    · rw [hargs]
      rfl
    · rw [hoperands]
      rfl
  · intro htrivial
    obtain ⟨harm, hmodule⟩ := Dispatch.arm_mem_ofTable hd htrivial
    exact ⟨!d.astArgs.isEmpty, List.mem_map_of_mem hd, harm, hmodule⟩

/-- In the sample, a call goes to a module of its own with a payload. -/
theorem dispatch_covers_opcodes_sample :
    Table.ofText Sample.document = .ok Sample.table ∧
    (∃ artifacts, Artifact.generateAll Sample.table {} = .ok artifacts) ∧
    statement? (code .grammar Sample.table {}) =
      some ["stmt_PUSH", "stmt_JUMP", "stmt_CALL", "stmt_NOP", "stmt_RET"] ∧
    ∃ rules lowering,
      ruleDispatch? {} (fun kind => code kind Sample.table {}) = some rules ∧
      loweringDispatch? {} (fun kind => code kind Sample.table {}) = some lowering ∧
      ("stmt_NOP", "Nop") ∈ rules.pairs ∧
      lowering.Covers ["Push", "Jump", "Call", "Nop", "Ret"] ∧
      ∃ payload, ⟨"Call", payload, "call"⟩ ∈ lowering.arms := by
  obtain ⟨artifacts, hgenerate⟩ := Sample.exists_generateAll_table
  obtain ⟨-, -, -, hstatement, instructions, definitions, rules, lowering, hinstructions, -, hrules,
    hlowering, -, hcovers, -, heach⟩ := dispatch_covers_opcodes Sample.ofText_document hgenerate
  have hnames : instructions.map Variant.name = ["Push", "Jump", "Call", "Nop", "Ret"] := by
    rw [@variants?_of_lines Sample.table Sample.wellFormed_table "Instruction" _ _ linesIn_astEnum]
      at hinstructions
    cases hinstructions
    decide
  obtain ⟨payload, -, harm, -⟩ := (heach _ Sample.Opcode.call.mem_table).2.2.2 rfl
  exact ⟨Sample.ofText_document, ⟨artifacts, hgenerate⟩, hstatement, rules, lowering, hrules,
    hlowering, ((heach _ Sample.Opcode.nop.mem_table).1 rfl).1, hnames ▸ hcovers, payload, harm⟩

end OpcodeForge.Generated
