import OpcodeForge.Proofs.Generated.Grammar
import OpcodeForge.Proofs.Generated.Positions

/-!
# Running the generated dispatch

A dispatch looks a name up in a list of pairs first and then in the arms of a match, each of which
goes to a module. The dispatch from grammar rules and the dispatch of lowering are both read from
the generated code, and both know every opcode of the table once.
-/

namespace OpcodeForge.Generated

/-! ## Running a dispatch -/

/-- An arm that hands a name, with any payload or with none, to a module. -/
structure Arm where
  name : String
  anyPayload : Bool
  module : String
  deriving DecidableEq, Repr

/-- A dispatch, and the modules that are declared for it. -/
structure Dispatch where
  pairs : List (String × String)
  arms : List Arm
  modules : List String
  deriving DecidableEq, Repr

/-- Where a dispatch goes: a variant without a payload or a module. -/
inductive Target where
  | variant (name : String)
  | module (name : String)
  deriving DecidableEq, Repr

namespace Dispatch

/-- Where the dispatch goes for a name; nowhere is the arm that catches all. -/
def target? (x : Dispatch) (name : String) : Option Target :=
  match x.pairs.lookup name with
  | some variant => some (.variant variant)
  | none => (x.arms.find? fun arm => arm.name == name).map fun arm => .module arm.module

/-- The dispatch knows each of these names once, and no other. -/
structure Covers (x : Dispatch) (names : List String) : Prop where
  nodup : names.Nodup
  once : (x.pairs.map Prod.fst ++ x.arms.map Arm.name).Perm names

variable {x : Dispatch} {names : List String} {name : String}

theorem Covers.target?_pair (h : x.Covers names) {variant : String}
    (hpair : (name, variant) ∈ x.pairs) : x.target? name = some (.variant variant) := by
  have hnodup := (List.nodup_append.mp (h.once.nodup_iff.mpr h.nodup)).1
  have hlookup : x.pairs.lookup name = some variant :=
    lookup_of_unique hpair fun variant' hpair' =>
      congrArg Prod.snd (List.inj_on_of_nodup_map hnodup hpair' hpair rfl)
  rw [target?, hlookup]

theorem Covers.target?_arm (h : x.Covers names) {arm : Arm} (harm : arm ∈ x.arms) :
    x.target? arm.name = some (.module arm.module) := by
  obtain ⟨-, hnodup, hdisjoint⟩ := List.nodup_append.mp (h.once.nodup_iff.mpr h.nodup)
  have hlookup : x.pairs.lookup arm.name = none := by
    rw [List.lookup_eq_none_iff]
    intro pair hpair
    have hne := hdisjoint _ (List.mem_map_of_mem hpair) _ (List.mem_map_of_mem harm)
    simpa using Ne.symm hne
  have hfind : x.arms.find? (fun other => other.name == arm.name) = some arm := by
    cases hf : x.arms.find? fun other => other.name == arm.name with
    | none => simpa using List.find?_eq_none.mp hf arm harm
    | some other =>
        have hname : other.name = arm.name := by simpa using List.find?_some hf
        rw [List.inj_on_of_nodup_map hnodup (List.mem_of_find?_eq_some hf) harm hname]
  rw [target?, hlookup, hfind]
  rfl

/-- The arm that catches all is never reached. -/
theorem Covers.target?_ne_none (h : x.Covers names) (hname : name ∈ names) :
    x.target? name ≠ none := by
  rcases List.mem_append.mp (h.once.mem_iff.mpr hname) with hmem | hmem
  · obtain ⟨pair, hpair, rfl⟩ := List.mem_map.mp hmem
    rw [h.target?_pair hpair]
    exact Option.some_ne_none _
  · obtain ⟨arm, harm, rfl⟩ := List.mem_map.mp hmem
    rw [h.target?_arm harm]
    exact Option.some_ne_none _

end Dispatch

/-! ## Reading a dispatch -/

/-- A pair of a variant of one enum and a variant of another. -/
def pair? (left right text : String) : Option (String × String) := do
  let cs ← text.toList.dropPrefix? ['(']
  let (name, cs) ← member? left cs
  let cs ← cs.dropPrefix? ", ".toList
  let (variant, cs) ← member? right cs
  if cs = "),".toList then some (name, variant) else none

/-- An arm for a variant of an enum; `before` and `after` stand around the name of the module. -/
def delegation? (enum before after text : String) : Option Arm := do
  let (name, cs) ← member? enum text.toList
  let (hasPayload, cs) := anyPayload cs
  let cs ← cs.dropPrefix? (" => " ++ before).toList
  let (module, cs) := word cs
  if cs = after.toList then some { name, anyPayload := hasPayload, module } else none

/-- The arms of a match, of which the last one catches all. -/
def delegations? (enum before after : String) (lines : List String) : Option (List Arm) :=
  if lines.getLast?.any fun line => "_ => ".toList.isPrefixOf line.toList then
    lines.dropLast.mapM (delegation? enum before after)
  else none

/-- The module that a line declares. -/
def module? (text : String) : Option String := do
  let cs ← text.toList.dropPrefix? "mod ".toList
  let (module, cs) := word cs
  if cs = [';'] then some module else none

/-- The modules that code declares. -/
def modules (code : List Fragment) : List String := (linesIn [] [] code).filterMap module?

theorem pair?_pairLine {left right name variant : String} (hname : IsName name)
    (hvariant : IsName variant) :
    pair? left right ("(" ++ left ++ "::" ++ name ++ ", " ++ right ++ "::" ++ variant ++ "),") =
      some (name, variant) := by
  have hright := @member?_append right variant hvariant "),".toList rfl
  have hleft := @member?_append left name hname
    (", ".toList ++ (right.toList ++ ("::".toList ++ (variant.toList ++ "),".toList)))) rfl
  simp only [String.toList_append, List.append_assoc] at hleft hright
  unfold pair?
  simp only [String.toList_append, List.append_assoc]
  rw [show "(".toList = ['('] from rfl, dropPrefix?_append]
  simp only [Option.bind_eq_bind, Option.bind_some, hleft, hright, dropPrefix?_append, if_true]

theorem delegation?_arm {enum before after name module : String} (hasPayload : Bool)
    (hname : IsName name) (hmodule : IsName module)
    (hafter : after.toList.takeWhile Text.isWordChar = []) :
    delegation? enum before after (enum ++ "::" ++ name ++ Code.anyPayload hasPayload ++ " => " ++
      before ++ module ++ after) = some ⟨name, hasPayload, module⟩ := by
  have hpayload := @anyPayload_append hasPayload (" => ".toList ++ (before.toList ++
    (module.toList ++ after.toList))) rfl
  have hmember := @member?_append enum name hname _ (@takeWhile_anyPayload hasPayload
    (" => ".toList ++ (before.toList ++ (module.toList ++ after.toList))) rfl)
  have hword := word_append hmodule after.toList hafter
  unfold delegation?
  simp only [String.toList_append, List.append_assoc] at hmember ⊢
  simp only [hmember, hpayload, Option.bind_eq_bind, Option.bind_some]
  rw [← List.append_assoc, dropPrefix?_append]
  simp only [Option.bind_some, hword, if_true]

theorem module?_moduleLine {module : String} (hmodule : IsName module) :
    module? ("mod " ++ module ++ ";") = some module := by
  have hword := word_append hmodule [';'] rfl
  unfold module?
  simp only [String.toList_append, List.append_assoc, dropPrefix?_append, Option.bind_eq_bind,
    Option.bind_some]
  rw [show ";".toList = [';'] from rfl, hword]
  exact if_pos rfl

theorem module?_useLine (path : String) : module? ("use " ++ path ++ ";") = none := by
  simp [module?, List.dropPrefix?]

/-- The head of the pairs of a rule and an instruction. -/
def trivialRules (paths : CodePaths) : String :=
  "const TRIVIAL_RULES: &[(" ++ Code.lastSegment paths.rule ++ ", super::Instruction)] = &["

/-- The head of the function from rules to instructions. -/
def fromParseTree (paths : CodePaths) : String :=
  "pub(crate) fn from_parse_tree(p: pest::iterators::Pair<'_, " ++ Code.lastSegment paths.rule ++
    ">) -> " ++ Code.lastSegment paths.astResult ++ "<Self> \x7b"

/-- The head of the block for a rule that is found among the pairs. -/
def ruleSearch : String :=
  "if let Some((_, instruction)) = TRIVIAL_RULES.iter()" ++
    ".find(|(candidate, _)| *candidate == rule) \x7b"

/-- The dispatch from grammar rules to instructions. -/
def ruleDispatch? (paths : CodePaths) (code : ArtifactKind → List Fragment) : Option Dispatch := do
  let rule := Code.lastSegment paths.rule
  let function := [fromParseTree paths, "impl super::Instruction \x7b"]
  if linesIn function [] (code .astDispatch) =
        ["let rule = p.as_rule();", ruleSearch, "match rule \x7b"] ∧
      linesIn (ruleSearch :: function) [] (code .astDispatch) =
        ["return Ok(instruction.clone());"] then
    let pairs ← (linesIn [trivialRules paths] [] (code .astDispatch)).mapM
      (pair? rule "super::Instruction")
    let arms ← delegations? rule "super::" "::from_parse_tree(p),"
      (linesIn ("match rule \x7b" :: function) [] (code .astDispatch))
    some { pairs, arms, modules := modules (code .astEnum) }
  else none

/-- The head of the pairs of an instruction and a definition. -/
def trivialLowering (paths : CodePaths) : String :=
  "const TRIVIAL_LOWERING: &[(" ++ Code.lastSegment paths.instruction ++ ", " ++
    Code.lastSegment paths.instructionDef ++ ")] = &["

/-- The head of the function from instructions to definitions. -/
def lowerInstruction (paths : CodePaths) : String :=
  "pub(crate) fn lower_instruction(ast: &" ++ Code.lastSegment paths.sourceModule ++
    ", mdef: &mut " ++ Code.lastSegment paths.moduleDef ++ ", input: &" ++
    Code.lastSegment paths.instruction ++ ", b: &mut " ++ paths.builder ++ ") -> Vec<" ++
    Code.lastSegment paths.instructionDef ++ "> \x7b"

/-- The head of the block for an instruction that is found among the pairs. -/
def loweringSearch : String :=
  "if let Some((_, def)) = TRIVIAL_LOWERING.iter()" ++
    ".find(|(candidate, _)| std::mem::discriminant(candidate) == tag) \x7b"

/-- The dispatch from instructions to definitions. -/
def loweringDispatch? (paths : CodePaths) (code : ArtifactKind → List Fragment) :
    Option Dispatch := do
  let instruction := Code.lastSegment paths.instruction
  let definition := Code.lastSegment paths.instructionDef
  let function := [lowerInstruction paths]
  if linesIn function [] (code .lowering) =
        ["let tag = std::mem::discriminant(input);", loweringSearch, "match input \x7b"] ∧
      linesIn (loweringSearch :: function) [] (code .lowering) = ["return vec![def.clone()];"] then
    let pairs ← (linesIn [trivialLowering paths] [] (code .lowering)).mapM
      (pair? instruction definition)
    let arms ← delegations? instruction "" "::lower_instruction(ast, mdef, input, b),"
      (linesIn ("match input \x7b" :: function) [] (code .lowering))
    some { pairs, arms, modules := modules (code .lowering) }
  else none

/-! ## The blocks of the dispatches -/

section Blocks

variable {t : Table} {paths : CodePaths}

theorem body_trivialRules :
    t.descriptors.flatMap (Ast.trivialSection paths).body =
      ((t.descriptors.filter Descriptor.trivialAst).map fun d =>
        "(" ++ Code.lastSegment paths.rule ++ "::" ++ d.ruleName ++ ", super::Instruction::" ++
          d.name ++ "),").map .line :=
  flatMap_line_of

theorem body_ruleArms :
    t.descriptors.flatMap (Ast.dispatchSection paths).body =
      ((t.descriptors.filter fun d => !d.trivialAst).map fun d =>
        Code.lastSegment paths.rule ++ "::" ++ d.ruleName ++ " => super::" ++ d.moduleName ++
          "::from_parse_tree(p),").map .line :=
  flatMap_line_of_not

theorem linesIn_ruleDispatch {block : List String} (hne : block ≠ []) :
    linesIn block [] (code .astDispatch t paths) =
      linesIn block [] ((Ast.trivialSection paths).fragments t) ++
        linesIn block [] ((Ast.dispatchSection paths).fragments t) := by
  have hopened : opened [] ((Ast.trivialSection paths).fragments t) = [] := by
    rw [opened_fragments (body_trivialRules ▸ balanced_lines _)]
    rfl
  simp only [code_eq, Artifact.sections, Ast.dispatchSections, List.flatMap_cons,
    List.flatMap_nil, List.append_nil, linesIn_append, linesIn_banner hne, opened_banner, hopened,
    List.nil_append]

theorem header_trivialRules :
    (Ast.trivialSection paths).header =
      [Code.useLine paths.rule, Code.useLine paths.astError, Code.useLine paths.astResult,
        .enter (trivialRules paths)] :=
  rfl

theorem header_ruleDispatch :
    (Ast.dispatchSection paths).header =
      [.enter "impl super::Instruction \x7b", .enter (fromParseTree paths),
        .line "let rule = p.as_rule();", .enter ruleSearch,
        .line "return Ok(instruction.clone());", .leave "\x7d", .enter "match rule \x7b"] :=
  rfl

theorem linesIn_trivialRules :
    linesIn [trivialRules paths] [] (code .astDispatch t paths) =
      (t.descriptors.filter Descriptor.trivialAst).map fun d =>
        "(" ++ Code.lastSegment paths.rule ++ "::" ++ d.ruleName ++ ", super::Instruction::" ++
          d.name ++ ")," := by
  have himpl : "impl super::Instruction \x7b" ≠ trivialRules paths := by
    unfold trivialRules
    simp [← String.toList_inj]
  rw [linesIn_ruleDispatch (List.cons_ne_nil _ _), linesIn_fragments body_trivialRules,
    linesIn_fragments body_ruleArms, header_trivialRules, header_ruleDispatch]
  simp [Ast.trivialSection, Ast.dispatchSection, Code.useLine, linesIn, opened, Code.closeBrace,
    himpl]

theorem linesIn_ruleArms :
    ∃ catchAll : String, "_ => ".toList.isPrefixOf catchAll.toList = true ∧
      linesIn ["match rule \x7b", fromParseTree paths, "impl super::Instruction \x7b"] []
          (code .astDispatch t paths) =
        ((t.descriptors.filter fun d => !d.trivialAst).map fun d =>
          Code.lastSegment paths.rule ++ "::" ++ d.ruleName ++ " => super::" ++ d.moduleName ++
            "::from_parse_tree(p),") ++ [catchAll] := by
  refine ⟨"_ => Err(" ++ Code.lastSegment paths.astError ++ "::AstGenerationError(format!(" ++
    "\"invalid rule does not match an instruction \x7b:?\x7d\", rule))),", by simp, ?_⟩
  have hsearch : ruleSearch ≠ "match rule \x7b" := by decide
  rw [linesIn_ruleDispatch (List.cons_ne_nil _ _), linesIn_fragments body_trivialRules,
    linesIn_fragments body_ruleArms, header_trivialRules, header_ruleDispatch]
  simp [Ast.trivialSection, Ast.dispatchSection, Code.useLine, linesIn, opened, Code.closeBrace,
    hsearch]

theorem linesIn_fromParseTree :
    linesIn [fromParseTree paths, "impl super::Instruction \x7b"] [] (code .astDispatch t paths) =
        ["let rule = p.as_rule();", ruleSearch, "match rule \x7b"] ∧
      linesIn [ruleSearch, fromParseTree paths, "impl super::Instruction \x7b"] []
          (code .astDispatch t paths) = ["return Ok(instruction.clone());"] := by
  have hsearch : "match rule \x7b" ≠ ruleSearch := by decide
  simp only [linesIn_ruleDispatch (List.cons_ne_nil _ _), linesIn_fragments body_trivialRules,
    linesIn_fragments body_ruleArms, header_trivialRules, header_ruleDispatch]
  simp [Ast.trivialSection, Ast.dispatchSection, Code.useLine, linesIn, opened, Code.closeBrace,
    hsearch]

theorem body_loweringModules :
    t.descriptors.flatMap (Lowering.modulesSection paths).body =
      ((t.descriptors.filter fun d => !d.trivialLowering).map fun d =>
        "mod " ++ d.moduleName ++ ";").map .line :=
  flatMap_line_of_not

theorem body_trivialLowering :
    t.descriptors.flatMap (Lowering.trivialSection paths).body =
      ((t.descriptors.filter Descriptor.trivialLowering).map fun d =>
        "(" ++ Code.lastSegment paths.instruction ++ "::" ++ d.name ++ ", " ++
          Code.lastSegment paths.instructionDef ++ "::" ++ d.name ++ "),").map .line :=
  flatMap_line_of

theorem body_loweringArms :
    t.descriptors.flatMap (Lowering.dispatchSection paths).body =
      ((t.descriptors.filter fun d => !d.trivialLowering).map fun d =>
        Code.lastSegment paths.instruction ++ "::" ++ d.name ++
          Code.anyPayload (!d.astArgs.isEmpty) ++ " => " ++ d.moduleName ++
          "::lower_instruction(ast, mdef, input, b),").map .line :=
  flatMap_line_of_not

theorem header_trivialLowering :
    (Lowering.trivialSection paths).header = [.enter (trivialLowering paths)] :=
  rfl

theorem header_loweringDispatch :
    (Lowering.dispatchSection paths).header =
      [.enter (lowerInstruction paths), .line "let tag = std::mem::discriminant(input);",
        .enter loweringSearch, .line "return vec![def.clone()];", .leave "\x7d",
        .enter "match input \x7b"] :=
  rfl

theorem trivialLowering_ne_lowerInstruction : trivialLowering paths ≠ lowerInstruction paths := by
  unfold trivialLowering lowerInstruction
  simp [← String.toList_inj]

theorem linesIn_lowering {block : List String} :
    linesIn block [] (code .lowering t paths) =
      linesIn block [] banner ++ linesIn block [] ((Lowering.modulesSection paths).fragments t) ++
        linesIn block [] ((Lowering.trivialSection paths).fragments t) ++
        linesIn block [] ((Lowering.dispatchSection paths).fragments t) := by
  have hmodules : opened [] ((Lowering.modulesSection paths).fragments t) = [] := by
    rw [opened_fragments (body_loweringModules ▸ balanced_lines _)]
    exact opened_useLines _
  have htrivial : opened [] ((Lowering.trivialSection paths).fragments t) = [] := by
    rw [opened_fragments (body_trivialLowering ▸ balanced_lines _)]
    rfl
  simp only [code_eq, Artifact.sections, Lowering.sections, List.flatMap_cons,
    List.flatMap_nil, List.append_nil, linesIn_append, opened_banner, hmodules, htrivial,
    List.append_assoc]

theorem linesIn_loweringBlock {block : List String} (hne : block ≠ []) :
    linesIn block [] (code .lowering t paths) =
      linesIn block [] ((Lowering.trivialSection paths).fragments t) ++
        linesIn block [] ((Lowering.dispatchSection paths).fragments t) := by
  have hmodules : linesIn block [] ((Lowering.modulesSection paths).fragments t) = [] := by
    rw [linesIn_fragments body_loweringModules]
    simp only [Lowering.modulesSection, linesIn_useLines]
    simp [linesIn, opened, Ne.symm hne]
  rw [linesIn_lowering, linesIn_banner hne, hmodules]
  rfl

theorem linesIn_trivialLowering :
    linesIn [trivialLowering paths] [] (code .lowering t paths) =
      (t.descriptors.filter Descriptor.trivialLowering).map fun d =>
        "(" ++ Code.lastSegment paths.instruction ++ "::" ++ d.name ++ ", " ++
          Code.lastSegment paths.instructionDef ++ "::" ++ d.name ++ ")," := by
  rw [linesIn_loweringBlock (List.cons_ne_nil _ _), linesIn_fragments body_trivialLowering,
    linesIn_fragments body_loweringArms, header_trivialLowering, header_loweringDispatch]
  simp [Lowering.trivialSection, Lowering.dispatchSection, linesIn, opened, Code.closeBrace,
    trivialLowering_ne_lowerInstruction.symm]

theorem linesIn_loweringArms :
    ∃ catchAll : String, "_ => ".toList.isPrefixOf catchAll.toList = true ∧
      linesIn ["match input \x7b", lowerInstruction paths] [] (code .lowering t paths) =
        ((t.descriptors.filter fun d => !d.trivialLowering).map fun d =>
          Code.lastSegment paths.instruction ++ "::" ++ d.name ++
            Code.anyPayload (!d.astArgs.isEmpty) ++ " => " ++ d.moduleName ++
            "::lower_instruction(ast, mdef, input, b),") ++ [catchAll] := by
  refine ⟨"_ => panic!(\"instruction \x7b:?\x7d should have been handled but is not\", " ++
    "input),", by decide, ?_⟩
  have hsearch : loweringSearch ≠ "match input \x7b" := by decide
  rw [linesIn_loweringBlock (List.cons_ne_nil _ _), linesIn_fragments body_trivialLowering,
    linesIn_fragments body_loweringArms, header_trivialLowering, header_loweringDispatch]
  simp [Lowering.trivialSection, Lowering.dispatchSection, linesIn, opened, Code.closeBrace,
    hsearch]

theorem linesIn_lowerInstruction :
    linesIn [lowerInstruction paths] [] (code .lowering t paths) =
        ["let tag = std::mem::discriminant(input);", loweringSearch, "match input \x7b"] ∧
      linesIn [loweringSearch, lowerInstruction paths] [] (code .lowering t paths) =
        ["return vec![def.clone()];"] := by
  have hsearch : "match input \x7b" ≠ loweringSearch := by decide
  simp only [linesIn_loweringBlock (List.cons_ne_nil _ _), linesIn_fragments body_trivialLowering,
    linesIn_fragments body_loweringArms, header_trivialLowering, header_loweringDispatch]
  simp [Lowering.trivialSection, Lowering.dispatchSection, linesIn, opened, Code.closeBrace,
    hsearch, trivialLowering_ne_lowerInstruction]

theorem filterMap_moduleLine {ds : List Descriptor} (hds : ∀ d ∈ ds, IsName d.moduleName) :
    (ds.map fun d => "mod " ++ d.moduleName ++ ";").filterMap module? =
      ds.map Descriptor.moduleName := by
  induction ds with
  | nil => rfl
  | cons d ds ih =>
      rw [List.map_cons, List.filterMap_cons, module?_moduleLine (hds d List.mem_cons_self),
        ih fun e he => hds e (List.mem_cons_of_mem _ he), List.map_cons]

theorem filterMap_useLine (imports : List String) :
    (imports.map fun path => "use " ++ path ++ ";").filterMap module? = [] := by
  rw [List.filterMap_eq_nil_iff, List.forall_mem_map]
  exact fun path _ => module?_useLine path

theorem filterMap_banner : (linesIn [] [] banner).filterMap module? = [] := by
  simp [banner, linesIn, module?, List.dropPrefix?]

theorem isName_moduleName (ht : t.WellFormed) {d : Descriptor} (hd : d ∈ t.descriptors) :
    IsName d.moduleName :=
  isName_keyword ht hd

theorem linesIn_astEnum_top :
    linesIn [] [] (code .astEnum t paths) =
      linesIn [] [] banner ++ ["mod imp;"] ++
        ((t.descriptors.filter fun d => !d.trivialAst).map fun d => "mod " ++ d.moduleName ++ ";") ++
        (paths.astImports.map fun path => "use " ++ path ++ ";") ++
        ["#[derive(Debug, Clone)]", "pub enum Instruction \x7b"] := by
  simp only [code_eq, Artifact.sections, Ast.enumSections,
    List.flatMap_cons, List.flatMap_nil, List.append_nil, linesIn_append, opened_banner,
    linesIn_fragments body_astModules, linesIn_fragments body_enumSection,
    opened_fragments (body_astModules ▸ balanced_lines _)]
  simp [Ast.modulesSection, Ast.dispatchModule, Code.enumSection, linesIn, opened, Code.moduleLine,
    Code.closeBrace, linesIn_useLines, opened_useLines]

theorem modules_astEnum (ht : t.WellFormed) :
    modules (code .astEnum t paths) =
      ["imp"] ++ (t.descriptors.filter fun d => !d.trivialAst).map Descriptor.moduleName := by
  have himp : ["mod imp;"].filterMap module? = ["imp"] := by decide
  have henum : ["#[derive(Debug, Clone)]", "pub enum Instruction \x7b"].filterMap module? = [] := by
    decide
  rw [modules, linesIn_astEnum_top]
  simp only [List.filterMap_append, filterMap_banner, himp, filterMap_useLine, henum,
    filterMap_moduleLine fun d hd => isName_moduleName ht (List.mem_of_mem_filter hd),
    List.nil_append, List.append_nil]

theorem linesIn_lowering_top :
    linesIn [] [] (code .lowering t paths) =
      linesIn [] [] banner ++
        ((t.descriptors.filter fun d => !d.trivialLowering).map fun d =>
          "mod " ++ d.moduleName ++ ";") ++
        ([paths.instruction, paths.sourceModule, paths.instructionDef, paths.moduleDef].map
          fun path => "use " ++ path ++ ";") ++
        [trivialLowering paths, lowerInstruction paths] := by
  rw [linesIn_lowering, linesIn_fragments body_loweringModules,
    linesIn_fragments body_trivialLowering, linesIn_fragments body_loweringArms,
    header_trivialLowering, header_loweringDispatch]
  simp [Lowering.modulesSection, Lowering.trivialSection, Lowering.dispatchSection, Code.useLine,
    linesIn, opened, Code.closeBrace]

theorem modules_lowering (ht : t.WellFormed) :
    modules (code .lowering t paths) =
      (t.descriptors.filter fun d => !d.trivialLowering).map Descriptor.moduleName := by
  have hheads : [trivialLowering paths, lowerInstruction paths].filterMap module? = [] := by
    unfold trivialLowering lowerInstruction
    simp [module?, List.dropPrefix?]
  rw [modules, linesIn_lowering_top]
  simp only [List.filterMap_append, filterMap_banner, filterMap_useLine, hheads,
    filterMap_moduleLine fun d hd => isName_moduleName ht (List.mem_of_mem_filter hd),
    List.nil_append, List.append_nil]

end Blocks

/-! ## The dispatches of a table -/

theorem nodup_names {t : Table} (ht : t.WellFormed) : (t.descriptors.map Descriptor.name).Nodup :=
  List.Nodup.map_on (fun _ hd _ he h => ht.eq_of_name hd he h) (.of_map _ ht.keywords)

/-- The dispatch that has the trivial opcodes of a table as pairs and hands the others to modules of
their own. -/
def Dispatch.ofTable (t : Table) (key : Descriptor → String) (trivial payload : Descriptor → Bool)
    (declared : List String) : Dispatch where
  pairs := (t.descriptors.filter trivial).map fun d => (key d, d.name)
  arms := (t.descriptors.filter fun d => !trivial d).map fun d => ⟨key d, payload d, d.moduleName⟩
  modules := declared ++ (t.descriptors.filter fun d => !trivial d).map Descriptor.moduleName

section Table

variable {t : Table} {paths : CodePaths}

section OfTable

variable {key : Descriptor → String} {trivial payload : Descriptor → Bool} {declared : List String}
  {d : Descriptor}

theorem Dispatch.covers_ofTable (hnodup : (t.descriptors.map key).Nodup) :
    (Dispatch.ofTable t key trivial payload declared).Covers (t.descriptors.map key) where
  nodup := hnodup
  once := by
    have hsplit := (List.filter_append_perm trivial t.descriptors).map key
    simpa [Dispatch.ofTable, Function.comp_def] using hsplit

theorem Dispatch.pair_mem_ofTable (hd : d ∈ t.descriptors) (htrivial : trivial d = true) :
    (key d, d.name) ∈ (Dispatch.ofTable t key trivial payload declared).pairs :=
  List.mem_map.mpr ⟨d, List.mem_filter.mpr ⟨hd, htrivial⟩, rfl⟩

theorem Dispatch.arm_mem_ofTable (hd : d ∈ t.descriptors) (htrivial : trivial d = false) :
    ⟨key d, payload d, d.moduleName⟩ ∈
        (Dispatch.ofTable t key trivial payload declared).arms ∧
      d.moduleName ∈ (Dispatch.ofTable t key trivial payload declared).modules := by
  have hmem : d ∈ t.descriptors.filter fun d => !trivial d :=
    List.mem_filter.mpr ⟨hd, by simp [htrivial]⟩
  exact ⟨List.mem_map.mpr ⟨d, hmem, rfl⟩, List.mem_append_right _ (List.mem_map_of_mem hmem)⟩

end OfTable

theorem delegations?_of_catchAll {enum before after catchAll : String} {lines : List String}
    (h : "_ => ".toList.isPrefixOf catchAll.toList = true) :
    delegations? enum before after (lines ++ [catchAll]) =
      lines.mapM (delegation? enum before after) := by
  rw [delegations?, if_pos (by simpa using h), List.dropLast_concat]

theorem ruleDispatch?_code (ht : t.WellFormed) :
    ruleDispatch? paths (fun kind => code kind t paths) =
      some (Dispatch.ofTable t Descriptor.ruleName Descriptor.trivialAst (fun _ => false)
        ["imp"]) := by
  have hpairs : ((t.descriptors.filter Descriptor.trivialAst).map fun d =>
      "(" ++ Code.lastSegment paths.rule ++ "::" ++ d.ruleName ++ ", super::Instruction::" ++
        d.name ++ "),").mapM (pair? (Code.lastSegment paths.rule) "super::Instruction") =
      some ((t.descriptors.filter Descriptor.trivialAst).map fun d => (d.ruleName, d.name)) := by
    refine mapM_map_eq_some fun d hd => ?_
    have hmem := List.mem_of_mem_filter hd
    have hpair := @pair?_pairLine (Code.lastSegment paths.rule) "super::Instruction" _ _
      (isName_ruleName ht hmem) (isName_name ht hmem)
    rw [show ", super::Instruction::" = ", " ++ "super::Instruction" ++ "::" by decide,
      ← String.append_assoc, ← String.append_assoc]
    exact hpair
  have harms : ((t.descriptors.filter fun d => !d.trivialAst).map fun d =>
      Code.lastSegment paths.rule ++ "::" ++ d.ruleName ++ " => super::" ++ d.moduleName ++
        "::from_parse_tree(p),").mapM
          (delegation? (Code.lastSegment paths.rule) "super::" "::from_parse_tree(p),") =
      some ((t.descriptors.filter fun d => !d.trivialAst).map fun d =>
        ⟨d.ruleName, false, d.moduleName⟩) := by
    refine mapM_map_eq_some fun d hd => ?_
    have hmem := List.mem_of_mem_filter hd
    have harm := @delegation?_arm (Code.lastSegment paths.rule) "super::" "::from_parse_tree(p)," _ _
      false (isName_ruleName ht hmem) (isName_moduleName ht hmem) rfl
    rw [show " => super::" = " => " ++ "super::" by decide, ← String.append_assoc]
    simpa [Code.anyPayload] using harm
  obtain ⟨catchAll, hcatch, hlines⟩ := @linesIn_ruleArms t paths
  unfold ruleDispatch?
  rw [if_pos linesIn_fromParseTree]
  simp only [linesIn_trivialRules, hpairs, hlines, delegations?_of_catchAll hcatch, harms,
    modules_astEnum ht, Option.bind_eq_bind, Option.bind_some]
  rfl

theorem loweringDispatch?_code (ht : t.WellFormed) :
    loweringDispatch? paths (fun kind => code kind t paths) =
      some (Dispatch.ofTable t Descriptor.name Descriptor.trivialLowering
        (fun d => !d.astArgs.isEmpty) []) := by
  have hpairs : ((t.descriptors.filter Descriptor.trivialLowering).map fun d =>
      "(" ++ Code.lastSegment paths.instruction ++ "::" ++ d.name ++ ", " ++
        Code.lastSegment paths.instructionDef ++ "::" ++ d.name ++ "),").mapM
          (pair? (Code.lastSegment paths.instruction) (Code.lastSegment paths.instructionDef)) =
      some ((t.descriptors.filter Descriptor.trivialLowering).map fun d => (d.name, d.name)) := by
    refine mapM_map_eq_some fun d hd => ?_
    have hname := isName_name ht (List.mem_of_mem_filter hd)
    exact pair?_pairLine hname hname
  have harms : ((t.descriptors.filter fun d => !d.trivialLowering).map fun d =>
      Code.lastSegment paths.instruction ++ "::" ++ d.name ++
        Code.anyPayload (!d.astArgs.isEmpty) ++ " => " ++ d.moduleName ++
        "::lower_instruction(ast, mdef, input, b),").mapM
          (delegation? (Code.lastSegment paths.instruction) ""
            "::lower_instruction(ast, mdef, input, b),") =
      some ((t.descriptors.filter fun d => !d.trivialLowering).map fun d =>
        ⟨d.name, !d.astArgs.isEmpty, d.moduleName⟩) := by
    refine mapM_map_eq_some fun d hd => ?_
    have hmem := List.mem_of_mem_filter hd
    have harm := @delegation?_arm (Code.lastSegment paths.instruction) ""
      "::lower_instruction(ast, mdef, input, b)," _ _ (!d.astArgs.isEmpty) (isName_name ht hmem)
      (isName_moduleName ht hmem) rfl
    rw [String.append_empty] at harm
    exact harm
  obtain ⟨catchAll, hcatch, hlines⟩ := @linesIn_loweringArms t paths
  unfold loweringDispatch?
  rw [if_pos linesIn_lowerInstruction]
  simp only [linesIn_trivialLowering, hpairs, hlines, delegations?_of_catchAll hcatch, harms,
    modules_lowering ht, Option.bind_eq_bind, Option.bind_some]
  rfl

end Table

end OpcodeForge.Generated
