import OpcodeForge.Proofs.Acceptance
import OpcodeForge.Proofs.Generated.Writing

/-!
# The structure of generated code

Generated code is read by place: `linesIn` gives the lines of one block, or those outside of all
blocks, in order. The head of a block is a line of the block around it.
-/

namespace OpcodeForge.Generated

/-- The heads of the blocks that are open after code, the innermost first. -/
def opened : List String → List Fragment → List String
  | around, [] => around
  | around, .line _ :: rest => opened around rest
  | around, .enter head :: rest => opened (head :: around) rest
  | around, .leave _ :: rest => opened around.tail rest

/-- The lines of a block in code that stands in the blocks `around`. A block is known by its head
and those of the blocks around it, the innermost first. -/
def linesIn (block : List String) : List String → List Fragment → List String
  | _, [] => []
  | around, .line text :: rest =>
      (if around = block then [text] else []) ++ linesIn block around rest
  | around, .enter head :: rest =>
      (if around = block then [head] else []) ++ linesIn block (head :: around) rest
  | around, .leave _ :: rest => linesIn block around.tail rest

/-- The code of an artifact. -/
def code (kind : ArtifactKind) (t : Table) (paths : CodePaths) : List Fragment :=
  assembleFragments (Artifact.emitters kind paths) t

theorem code_eq {kind : ArtifactKind} {t : Table} {paths : CodePaths} :
    code kind t paths =
      banner ++ (Artifact.sections kind t paths).flatMap fun s => s.fragments t :=
  Artifact.assembleFragments_eq

/-- The text of each artifact is that of its code. -/
theorem forall₂_text_of_generateAll {t : Table} {config : Config} {artifacts : List Artifact}
    (h : Artifact.generateAll t config = .ok artifacts) :
    List.Forall₂ (fun kind a => a.kind = kind ∧
        a.text = (({} : Layout).append (code kind t config.paths)).render)
      ArtifactKind.all artifacts := by
  refine (Artifact.generateAll_eq_ok_iff.mp h).2.imp fun kind a hmake => ?_
  obtain ⟨hkind, -, htext⟩ := Artifact.make_eq_ok_iff.mp hmake
  exact ⟨hkind, Artifact.eq_render_of_generate htext⟩

theorem opened_append {around : List String} {xs ys : List Fragment} :
    opened around (xs ++ ys) = opened (opened around xs) ys := by
  induction xs generalizing around with
  | nil => rfl
  | cons fragment xs ih => cases fragment <;> exact ih

theorem linesIn_append {block around : List String} {xs ys : List Fragment} :
    linesIn block around (xs ++ ys) =
      linesIn block around xs ++ linesIn block (opened around xs) ys := by
  induction xs generalizing around with
  | nil => rfl
  | cons fragment xs ih => cases fragment <;> simp [linesIn, opened, ih]

/-! ## Lines and blocks -/

theorem opened_lines {around texts : List String} : opened around (texts.map .line) = around := by
  induction texts with
  | nil => rfl
  | cons text texts ih => exact ih

theorem linesIn_lines {block around texts : List String} :
    linesIn block around (texts.map .line) = if around = block then texts else [] := by
  induction texts with
  | nil => simp [linesIn]
  | cons text texts ih =>
      rw [List.map_cons, linesIn, ih]
      split <;> rfl

/-- Code that leaves every block it enters, and no other. -/
inductive Balanced : List Fragment → Prop where
  | nil : Balanced []
  | line {text : String} {rest : List Fragment} (hrest : Balanced rest) :
      Balanced (.line text :: rest)
  | block {head close : String} {body rest : List Fragment} (hbody : Balanced body)
      (hrest : Balanced rest) : Balanced (.enter head :: (body ++ .leave close :: rest))

theorem Balanced.append {xs ys : List Fragment} (hxs : Balanced xs) (hys : Balanced ys) :
    Balanced (xs ++ ys) := by
  induction hxs with
  | nil => exact hys
  | line _ ih => exact .line ih
  | block hbody _ _ ih =>
      rw [List.cons_append, List.append_assoc]
      exact .block hbody ih

theorem Balanced.flatMap {α : Type} {f : α → List Fragment} (h : ∀ a, Balanced (f a))
    (as : List α) : Balanced (as.flatMap f) := by
  induction as with
  | nil => exact .nil
  | cons a as ih => exact (h a).append ih

theorem balanced_lines (texts : List String) : Balanced (texts.map .line) := by
  induction texts with
  | nil => exact .nil
  | cons text texts ih => exact .line ih

theorem Balanced.opened {xs : List Fragment} (h : Balanced xs) (around : List String) :
    opened around xs = around := by
  induction h generalizing around with
  | nil => rfl
  | line _ ih => exact ih around
  | @block head _ _ _ _ _ ihbody ihrest =>
      rw [Generated.opened, opened_append, ihbody]
      exact ihrest around

/-- Code inside of a block has no lines of a block that is not inside of it. -/
theorem Balanced.linesIn {xs : List Fragment} (h : Balanced xs) {block around : List String}
    (hblock : ¬ around <:+ block) : linesIn block around xs = [] := by
  have hne : around ≠ block := fun he => hblock (he ▸ List.suffix_rfl)
  induction h generalizing around with
  | nil => rfl
  | line _ ih =>
      rw [Generated.linesIn, if_neg hne]
      exact ih hblock hne
  -- A block inside of `around` has `around` behind its own head, so it is not `block` either.
  | @block head _ body _ hbody _ ihbody ihrest =>
      have hinner : ¬ head :: around <:+ block := fun hs =>
        hblock ((List.suffix_cons head around).trans hs)
      rw [Generated.linesIn, if_neg hne, linesIn_append,
        ihbody hinner (fun he => hinner (he ▸ List.suffix_rfl)), hbody.opened]
      exact ihrest hblock hne

/-! ## Sections -/

section Sections

variable {s : Section} {t : Table} {block around texts : List String}

theorem opened_fragments (hbody : Balanced (t.descriptors.flatMap s.body)) :
    opened around (s.fragments t) = opened (opened around s.header) s.footer := by
  rw [Section.fragments_eq, opened_append, opened_append, hbody.opened]

theorem linesIn_fragments (hbody : t.descriptors.flatMap s.body = texts.map .line) :
    linesIn block around (s.fragments t) =
      linesIn block around s.header ++ (if opened around s.header = block then texts else []) ++
        linesIn block (opened around s.header) s.footer := by
  rw [Section.fragments_eq, linesIn_append, linesIn_append, hbody, linesIn_lines, opened_append,
    opened_lines]

/-- A block that a section does not have open holds nothing of what the section says of opcodes. -/
theorem linesIn_fragments_of_not_suffix (hbody : Balanced (t.descriptors.flatMap s.body))
    (hblock : ¬ opened around s.header <:+ block) :
    linesIn block around (s.fragments t) =
      linesIn block around s.header ++ linesIn block (opened around s.header) s.footer := by
  rw [Section.fragments_eq, linesIn_append, linesIn_append, hbody.linesIn hblock, opened_append,
    hbody.opened, List.append_nil]

end Sections

section Body

variable {ds : List Descriptor} {p : Descriptor → Bool} {g : Descriptor → String}

theorem flatMap_line : (ds.flatMap fun d => [Fragment.line (g d)]) = (ds.map g).map .line := by
  rw [List.map_map, List.map_eq_flatMap]
  rfl

theorem flatMap_line_of : (ds.flatMap fun d => if p d = true then [Fragment.line (g d)] else []) =
    ((ds.filter p).map g).map .line := by
  induction ds with
  | nil => rfl
  | cons d ds ih => cases h : p d <;> simp [h, ih]

theorem flatMap_line_of_not :
    (ds.flatMap fun d => if p d = true then [] else [Fragment.line (g d)]) =
      ((ds.filter fun d => !p d).map g).map .line := by
  induction ds with
  | nil => rfl
  | cons d ds ih => cases h : p d <;> simp [h, ih]

end Body

/-! ## The sections of the artifacts -/

section Artifacts

variable {t : Table} {paths : CodePaths} {block around : List String}

theorem linesIn_banner (h : block ≠ []) : linesIn block [] banner = [] := by
  simp [banner, linesIn, Ne.symm h]

theorem opened_banner : opened [] banner = [] := rfl

theorem map_useLine (imports : List String) :
    imports.map Code.useLine = (imports.map fun path => "use " ++ path ++ ";").map .line := by
  rw [List.map_map]
  rfl

theorem opened_useLines (imports : List String) :
    opened around (imports.map Code.useLine) = around := by
  rw [map_useLine, opened_lines]

theorem linesIn_useLines (imports : List String) :
    linesIn block around (imports.map Code.useLine) =
      if around = block then imports.map fun path => "use " ++ path ++ ";" else [] := by
  rw [map_useLine, linesIn_lines]

theorem body_importSection {imports : List String} :
    t.descriptors.flatMap (Code.importSection imports).body = ([] : List String).map .line := by
  simp [Code.importSection]

theorem body_enumSection {derives name : String} {payload : Descriptor → List String}
    {requirements : List Requirement} :
    t.descriptors.flatMap (Code.enumSection derives name payload requirements).body =
      (t.descriptors.map fun d => d.name ++ Code.tuple (payload d) ++ ",").map .line :=
  flatMap_line

theorem body_astModules :
    t.descriptors.flatMap (Ast.modulesSection paths).body =
      ((t.descriptors.filter fun d => !d.trivialAst).map fun d =>
        "mod " ++ d.moduleName ++ ";").map .line :=
  flatMap_line_of_not

theorem body_lookupSection :
    t.descriptors.flatMap (Definition.lookupSection paths t).body =
      (t.descriptors.map fun d => Definition.enumName ++ "::" ++ d.name ++
        Code.anyPayload (!d.builderOperands.isEmpty) ++ " => " ++ Code.lastSegment paths.opcode ++
        "::" ++ d.name ++ ",").map .line :=
  flatMap_line

theorem body_ordinals {name : String} :
    t.descriptors.flatMap (Ordinals.enumSection name t).body =
      (t.descriptors.map fun d => d.name ++ " = " ++ Nat.repr d.ordinal.toNat ++ ",").map .line :=
  flatMap_line

theorem balanced_writeArm (d : Descriptor) : Balanced (Definition.writeArm d) := by
  have hwrites : d.operandWriters.zipWith Definition.writeLine d.runtimeOperands =
      (d.operandWriters.zipWith (fun writer width =>
        "bc." ++ Definition.writeName width ++ "(" ++ writer.render ++ ");")
        d.runtimeOperands).map .line := by
    rw [List.map_zipWith]
    rfl
  unfold Definition.writeArm
  simp only
  split
  · exact .line .nil
  · rw [hwrites]
    exact .block (balanced_lines _) .nil

theorem balanced_readArm (opcode : String) (d : Descriptor) :
    Balanced (Decoder.readArm opcode d) := by
  have hread : ∀ (index : Nat) (width : Width), Balanced (Decoder.readLines index width) :=
    fun index width => .line (.line .nil)
  unfold Decoder.readArm
  simp only
  split
  · exact .line .nil
  · have hreads := Balanced.flatMap (fun (p : Width × Nat) => hread p.2 p.1) d.runtimeOperands.zipIdx
    have hguard : ∀ guard, Balanced [.enter guard, .line "return None;", Code.closeBrace] :=
      fun guard => @Balanced.block guard _ [_] [] (.line .nil) .nil
    have hbody := fun guard result =>
      ((hguard guard).append hreads).append (@Balanced.line result [] .nil)
    simpa [Code.closeBrace] using @Balanced.block _ _ _ [] (hbody _ _) .nil

end Artifacts

/-! ## The blocks of the artifacts -/

section Blocks

variable {t : Table} {paths : CodePaths}

theorem linesIn_astEnum :
    linesIn ["pub enum Instruction \x7b"] [] (code .astEnum t paths) =
      t.descriptors.map fun d => d.name ++ Code.tuple d.astArgs ++ "," := by
  simp only [code_eq, Artifact.sections, Ast.enumSections, List.flatMap_cons,
    List.flatMap_nil, List.append_nil, linesIn_append, linesIn_banner (List.cons_ne_nil _ _),
    opened_banner, linesIn_fragments body_astModules, linesIn_fragments body_enumSection,
    opened_fragments (body_astModules ▸ balanced_lines _)]
  simp [Ast.modulesSection, Code.enumSection, linesIn, opened, Code.moduleLine, Code.closeBrace,
    linesIn_useLines, opened_useLines]

theorem linesIn_runtimeEnum :
    linesIn ["pub enum RuntimeInstruction \x7b"] [] (code .runtimeDecoder t paths) =
      t.descriptors.map fun d => d.name ++ Code.tuple (Decoder.payload d) ++ "," := by
  have hnone : linesIn ["pub enum RuntimeInstruction \x7b"] []
      ((Decoder.readSection paths).fragments t) = [] := by
    rw [linesIn_fragments_of_not_suffix (Balanced.flatMap (balanced_readArm _) t.descriptors)]
    · simp [Decoder.readSection, Decoder.enumName, linesIn, opened, Decoder.advanceLine,
        Code.closeBrace]
    · simp [Decoder.readSection, opened, List.suffix_cons_iff, Decoder.advanceLine,
        Code.closeBrace]
  simp only [code_eq, Artifact.sections, Decoder.sections, List.flatMap_cons,
    List.flatMap_nil, List.append_nil, linesIn_append, linesIn_banner (List.cons_ne_nil _ _),
    opened_banner, linesIn_fragments body_importSection, linesIn_fragments body_enumSection,
    opened_fragments (body_importSection ▸ balanced_lines _),
    opened_fragments (body_enumSection ▸ balanced_lines _)]
  simp [Code.importSection, Code.enumSection, Decoder.enumName, linesIn, opened, Code.useLine,
    Code.closeBrace, hnone]

/-- The blocks of the definitions outside of the arms that write operands. -/
theorem linesIn_definitions {block : List String} (hne : block ≠ [])
    (hblock : ¬ ["match self \x7b", "pub fn write(&self, bc: &mut " ++
      Code.lastSegment paths.bytecode ++ ") \x7b", "impl InstructionDef \x7b"] <:+ block) :
    linesIn block [] (code .instructionDef t paths) =
      (if ["pub enum InstructionDef \x7b"] = block then
        t.descriptors.map fun d => d.name ++ Code.tuple d.builderOperands ++ "," else []) ++
      linesIn block [] ((Definition.lookupSection paths t).fragments t) ++
      linesIn block ["impl InstructionDef \x7b"] (Definition.writeSection paths).header := by
  have hopened : opened [] ((Definition.lookupSection paths t).fragments t) =
      ["impl InstructionDef \x7b"] := by
    rw [opened_fragments (body_lookupSection ▸ balanced_lines _)]
    simp [Definition.lookupSection, Emitter.sectionAt, Definition.lookupEmitter,
      Definition.enumName, opened, Code.closeBrace]
  have hwrite := @linesIn_fragments_of_not_suffix (Definition.writeSection paths) t block
    ["impl InstructionDef \x7b"] (Balanced.flatMap balanced_writeArm t.descriptors)
    (by simpa [Definition.writeSection, opened] using hblock)
  have hfooter : ∀ around, linesIn block around (Definition.writeSection paths).footer = [] :=
    fun _ => rfl
  simp only [code_eq, Artifact.sections, Definition.sections, List.flatMap_cons,
    List.flatMap_nil, List.append_nil, linesIn_append, linesIn_banner hne,
    opened_banner, linesIn_fragments body_importSection, linesIn_fragments body_enumSection,
    opened_fragments (body_importSection ▸ balanced_lines _),
    opened_fragments (body_enumSection ▸ balanced_lines _)]
  simp [Code.importSection, Code.enumSection, Definition.enumName, linesIn, opened, Code.useLine,
    Code.closeBrace, hopened, hwrite, hfooter, Ne.symm hne]

theorem linesIn_definitionEnum :
    linesIn ["pub enum InstructionDef \x7b"] [] (code .instructionDef t paths) =
      t.descriptors.map fun d => d.name ++ Code.tuple d.builderOperands ++ "," := by
  rw [linesIn_definitions (List.cons_ne_nil _ _) (by simp [List.suffix_cons_iff]),
    linesIn_fragments body_lookupSection]
  simp [Definition.lookupSection, Emitter.sectionAt, Definition.lookupEmitter,
    Definition.writeSection, Definition.enumName, linesIn, opened, Code.closeBrace]

theorem linesIn_definitionImpl :
    linesIn ["impl InstructionDef \x7b"] [] (code .instructionDef t paths) =
      ["pub fn opcode(&self) -> " ++ Code.lastSegment paths.opcode ++ " \x7b",
        "const RUNTIME_SIZE: &'static [usize] = &[" ++
          Text.join ", " (Definition.sizes t) ++ "];",
        "const IS_TERMINAL: &'static [bool] = &[" ++
          Text.join ", " (Definition.terminals t) ++ "];",
        "/// Encoded size in bytes, opcode included",
        "pub fn runtime_size(&self) -> usize \x7b",
        "/// Whether this instruction ends a basic block",
        "pub fn is_terminal(&self) -> bool \x7b",
        "pub fn write(&self, bc: &mut " ++ Code.lastSegment paths.bytecode ++ ") \x7b"] := by
  rw [linesIn_definitions (List.cons_ne_nil _ _) (by simp [List.suffix_cons_iff]),
    linesIn_fragments body_lookupSection]
  simp [Definition.lookupSection, Emitter.sectionAt, Definition.lookupEmitter,
    Definition.writeSection, Definition.enumName, linesIn, opened, Code.closeBrace]

theorem linesIn_opcodeArms :
    linesIn ["match self \x7b", "pub fn opcode(&self) -> " ++ Code.lastSegment paths.opcode ++
        " \x7b", "impl InstructionDef \x7b"] [] (code .instructionDef t paths) =
      t.descriptors.map fun d => "InstructionDef::" ++ d.name ++
        Code.anyPayload (!d.builderOperands.isEmpty) ++ " => " ++ Code.lastSegment paths.opcode ++
        "::" ++ d.name ++ "," := by
  rw [linesIn_definitions (List.cons_ne_nil _ _)
      (by simp [List.suffix_cons_iff, ← String.toList_inj]),
    linesIn_fragments body_lookupSection]
  simp [Definition.lookupSection, Emitter.sectionAt, Definition.lookupEmitter,
    Definition.writeSection, Definition.enumName, linesIn, opened, Code.closeBrace,
    ← String.toList_inj]

theorem linesIn_runtimeSize :
    linesIn ["pub fn runtime_size(&self) -> usize \x7b", "impl InstructionDef \x7b"] []
        (code .instructionDef t paths) =
      ["Self::RUNTIME_SIZE[self.opcode().to_u8() as usize]"] := by
  rw [linesIn_definitions (List.cons_ne_nil _ _) (by simp [List.suffix_cons_iff]),
    linesIn_fragments body_lookupSection]
  simp [Definition.lookupSection, Emitter.sectionAt, Definition.lookupEmitter,
    Definition.writeSection, Definition.enumName, linesIn, opened, Code.closeBrace,
    ← String.toList_inj]

theorem linesIn_isTerminal :
    linesIn ["pub fn is_terminal(&self) -> bool \x7b", "impl InstructionDef \x7b"] []
        (code .instructionDef t paths) =
      ["Self::IS_TERMINAL[self.opcode().to_u8() as usize]"] := by
  rw [linesIn_definitions (List.cons_ne_nil _ _) (by simp [List.suffix_cons_iff]),
    linesIn_fragments body_lookupSection]
  simp [Definition.lookupSection, Emitter.sectionAt, Definition.lookupEmitter,
    Definition.writeSection, Definition.enumName, linesIn, opened, Code.closeBrace,
    ← String.toList_inj]

theorem linesIn_ordinals {block : List String} (hne : block ≠ []) :
    linesIn block [] (code .opcodes t paths) =
      linesIn block [] ((Ordinals.enumSection (Code.lastSegment paths.opcode) t).fragments t) := by
  simp only [code_eq, Artifact.sections, Ordinals.sections, List.flatMap_cons,
    List.flatMap_nil, List.append_nil, linesIn_append, linesIn_banner hne, opened_banner,
    List.nil_append]

theorem impl_ne_implFrom {enum : String} :
    "impl From<" ++ enum ++ "> for u8 \x7b" ≠ "impl " ++ enum ++ " \x7b" := by
  intro h
  have hlength := congrArg (fun text => text.toList.length) h
  have hfrom : "impl From<".toList.length = 10 := rfl
  have hclose : "> for u8 \x7b".toList.length = 10 := rfl
  have himpl : "impl ".toList.length = 5 := rfl
  have hbrace : " \x7b".toList.length = 2 := rfl
  simp only [String.toList_append, List.length_append] at hlength
  omega

theorem linesIn_ordinalEnum :
    linesIn ["pub enum " ++ Code.lastSegment paths.opcode ++ " \x7b"] [] (code .opcodes t paths) =
      (t.descriptors.map fun d => d.name ++ " = " ++ Nat.repr d.ordinal.toNat ++ ",") ++
        ["MAX = " ++ Nat.repr (Ordinals.sentinel t) ++ ","] := by
  rw [linesIn_ordinals (List.cons_ne_nil _ _), linesIn_fragments body_ordinals]
  simp [Ordinals.enumSection, Emitter.sectionAt, Ordinals.emitter, Ordinals.variantLine,
    Ordinals.allLine, Ordinals.sentinelName, linesIn, opened, Code.closeBrace, ← String.toList_inj]

theorem linesIn_ordinalImpl :
    linesIn ["impl " ++ Code.lastSegment paths.opcode ++ " \x7b"] [] (code .opcodes t paths) =
      ["/// Every real opcode, indexed by ordinal",
        "pub const ALL: &'static [" ++ Code.lastSegment paths.opcode ++ "] = &[" ++
          Text.join ", " (t.descriptors.map fun d =>
            Code.lastSegment paths.opcode ++ "::" ++ d.name) ++ "];",
        "/// Checked conversion; `None` at or past `MAX`",
        "pub fn from_u8(value: u8) -> Option<Self> \x7b",
        "pub const fn to_u8(self) -> u8 \x7b"] := by
  have henum : "pub enum " ++ Code.lastSegment paths.opcode ++ " \x7b" ≠
      "impl " ++ Code.lastSegment paths.opcode ++ " \x7b" := by
    simp [← String.toList_inj]
  rw [linesIn_ordinals (List.cons_ne_nil _ _), linesIn_fragments body_ordinals]
  simp [Ordinals.enumSection, Emitter.sectionAt, Ordinals.emitter, Ordinals.variantLine,
    Ordinals.allLine, Ordinals.sentinelName, linesIn, opened, Code.closeBrace, impl_ne_implFrom,
    henum]

theorem linesIn_fromByte :
    linesIn ["pub fn from_u8(value: u8) -> Option<Self> \x7b",
      "impl " ++ Code.lastSegment paths.opcode ++ " \x7b"] [] (code .opcodes t paths) =
      ["Self::ALL.get(value as usize).copied()"] := by
  rw [linesIn_ordinals (List.cons_ne_nil _ _), linesIn_fragments body_ordinals]
  simp [Ordinals.enumSection, Emitter.sectionAt, Ordinals.emitter, Ordinals.variantLine,
    Ordinals.allLine, Ordinals.sentinelName, linesIn, opened, Code.closeBrace, impl_ne_implFrom]

theorem linesIn_toByte :
    linesIn ["pub const fn to_u8(self) -> u8 \x7b",
      "impl " ++ Code.lastSegment paths.opcode ++ " \x7b"] [] (code .opcodes t paths) =
      ["self as u8"] := by
  rw [linesIn_ordinals (List.cons_ne_nil _ _), linesIn_fragments body_ordinals]
  simp [Ordinals.enumSection, Emitter.sectionAt, Ordinals.emitter, Ordinals.variantLine,
    Ordinals.allLine, Ordinals.sentinelName, linesIn, opened, Code.closeBrace, impl_ne_implFrom]

end Blocks

end OpcodeForge.Generated
