import OpcodeForge.Proofs.Generated.Dispatch

/-!
# Names in the generated code

The modules that an artifact declares, and the names in the enum of ordinals: its variants and the
items of its own `impl` block. Opcodes have different names among themselves, so that a name stands
twice only where an opcode has a name that the generated code adds.
-/

namespace OpcodeForge.Generated

section Table

variable {t : Table} {paths : CodePaths}

/-! ## Modules -/

theorem nodup_moduleNames (ht : t.WellFormed) (p : Descriptor → Bool) :
    ((t.descriptors.filter p).map Descriptor.moduleName).Nodup :=
  ht.keywords.sublist (List.filter_sublist.map _)

theorem nodup_modules_astEnum_iff (ht : t.WellFormed) :
    (modules (code .astEnum t paths)).Nodup ↔
      ∀ d ∈ t.descriptors, d.trivialAst = false → d.moduleName ≠ "imp" := by
  rw [modules_astEnum ht, List.singleton_append, List.nodup_cons,
    and_iff_left (nodup_moduleNames ht _)]
  simp [List.mem_map, List.mem_filter]

/-! ## The enum of ordinals -/

/-- The name that stands in a text between a beginning and a character. -/
def nameAfter? (before : String) (after : Char) (text : String) : Option String := do
  let cs ← text.toList.dropPrefix? before.toList
  let (name, cs) := word cs
  if cs.head? = some after then some name else none

/-- The constant or the function that a line of an `impl` block defines. -/
def associated? (text : String) : Option String :=
  nameAfter? "pub const " ':' text <|> nameAfter? "pub fn " '(' text <|>
    nameAfter? "pub const fn " '(' text

/-- What the `impl` block of an enum defines. Every line of the block is read, comments apart. -/
def associatedItems? (enum : String) (code : List Fragment) : Option (List String) :=
  ((linesIn ["impl " ++ enum ++ " \x7b"] [] code).filter fun line =>
    !isComment line.toList).mapM associated?

/-- The names in an enum: its variants and what its `impl` block defines. -/
def enumNames? (enum : String) (code : List Fragment) : Option (List String) := do
  let variants ← discriminants? enum code
  let items ← associatedItems? enum code
  some (variants.map Prod.fst ++ items)

theorem associated?_constant {name text : String} {rest : List Char} (hname : IsName name)
    (htext : text.toList = "pub const ".toList ++ (name.toList ++ ':' :: rest)) :
    associated? text = some name := by
  have hword := word_append hname (':' :: rest) rfl
  have hconstant : nameAfter? "pub const " ':' text = some name := by
    unfold nameAfter?
    simp only [htext, dropPrefix?_append, Option.bind_eq_bind, Option.bind_some, hword]
    exact if_pos rfl
  rw [associated?, hconstant]
  rfl

theorem associatedItems?_ordinals :
    associatedItems? (Code.lastSegment paths.opcode) (code .opcodes t paths) =
      some ["ALL", "from_u8", "to_u8"] := by
  -- Only the line of `ALL` depends on the table: what follows its colon is kept as a variable, so
  -- that the other lines evaluate.
  obtain ⟨all, rest, hlines, htext⟩ : ∃ (all : String) (rest : List Char),
      linesIn ["impl " ++ Code.lastSegment paths.opcode ++ " \x7b"] [] (code .opcodes t paths) =
        ["/// Every real opcode, indexed by ordinal", all,
          "/// Checked conversion; `None` at or past `MAX`",
          "pub fn from_u8(value: u8) -> Option<Self> \x7b",
          "pub const fn to_u8(self) -> u8 \x7b"] ∧
      all.toList = "pub const ".toList ++ ("ALL".toList ++ ':' :: rest) :=
    ⟨_, _, linesIn_ordinalImpl, by simp only [String.toList_append, List.append_assoc]; rfl⟩
  have hcode : isComment all.toList = false := by
    rw [htext]
    rfl
  have hkept : (linesIn ["impl " ++ Code.lastSegment paths.opcode ++ " \x7b"] []
      (code .opcodes t paths)).filter (fun line => !isComment line.toList) =
      [all, "pub fn from_u8(value: u8) -> Option<Self> \x7b",
        "pub const fn to_u8(self) -> u8 \x7b"] := by
    rw [hlines]
    simp only [List.filter_cons, hcode]
    rfl
  have hall := associated?_constant (isName_of_literal (by decide)) htext
  have hfrom : associated? "pub fn from_u8(value: u8) -> Option<Self> \x7b" = some "from_u8" := by
    decide
  have hto : associated? "pub const fn to_u8(self) -> u8 \x7b" = some "to_u8" := by decide
  rw [associatedItems?, hkept]
  simp [hall, hfrom, hto]

theorem enumNames?_ordinals (ht : t.WellFormed) :
    enumNames? (Code.lastSegment paths.opcode) (code .opcodes t paths) =
      some (t.descriptors.map Descriptor.name ++ ["MAX", "ALL", "from_u8", "to_u8"]) := by
  rw [enumNames?, discriminants?_ordinals ht, associatedItems?_ordinals]
  simp

/-- A name that the enum adds is the only one that can stand in it twice. -/
theorem nodup_enumNames_iff (ht : t.WellFormed) :
    (t.descriptors.map Descriptor.name ++ ["MAX", "ALL", "from_u8", "to_u8"]).Nodup ↔
      ∀ d ∈ t.descriptors, d.name ∉ ["MAX", "ALL", "from_u8", "to_u8"] := by
  have hadded : ["MAX", "ALL", "from_u8", "to_u8"].Nodup := by decide
  rw [List.nodup_append', and_iff_right (nodup_names ht), and_iff_right hadded,
    List.disjoint_left, List.forall_mem_map]

end Table

/-! ## Which tables have clashing names -/

/-- The modules of lowering are always different. Those of the syntax tree are different exactly
where no opcode with a constructor of its own has the name of the dispatch module. -/
theorem modules_distinct_iff {document : String} {t : Table}
    (ht : Table.ofText document = .ok t) (config : Config) :
    (∀ text, Artifact.generate .astEnum t config = .ok text →
      text = (({} : Layout).append (code .astEnum t config.paths)).render ∧
      modules (code .astEnum t config.paths) =
        "imp" :: (t.descriptors.filter fun d => !d.trivialAst).map Descriptor.moduleName ∧
      ((modules (code .astEnum t config.paths)).Nodup ↔
        ∀ d ∈ t.descriptors, d.trivialAst = false → Text.lower d.name ≠ "imp")) ∧
    ∀ text, Artifact.generate .lowering t config = .ok text →
      text = (({} : Layout).append (code .lowering t config.paths)).render ∧
      modules (code .lowering t config.paths) =
        (t.descriptors.filter fun d => !d.trivialLowering).map Descriptor.moduleName ∧
      (modules (code .lowering t config.paths)).Nodup := by
  have hwf := Table.WellFormed.of_ofText ht
  refine ⟨fun text htext => ⟨Artifact.eq_render_of_generate htext, modules_astEnum hwf,
    nodup_modules_astEnum_iff hwf⟩, fun text htext => ⟨Artifact.eq_render_of_generate htext,
    modules_lowering hwf, ?_⟩⟩
  rw [modules_lowering hwf]
  exact nodup_moduleNames hwf _

/-- A document in which an opcode has the name of the dispatch module. -/
def dispatchNameText (trivial : Bool) : String :=
  "[\x7b\"name\": \"Imp\", \"trivial_ast\": " ++ (if trivial then "true" else "false") ++
    ", \"trivial_lowering\": false\x7d, " ++
    "\x7b\"name\": \"Push\", \"trivial_ast\": false, \"trivial_lowering\": false\x7d]"

def dispatchNameTable (trivial : Bool) : Table where
  descriptors :=
    [⟨"Imp", 0, { trivialAst := some trivial, trivialLowering := some false }⟩,
      ⟨"Push", 1, { trivialAst := some false, trivialLowering := some false }⟩]

/-- The name of the dispatch module is free for an opcode without a module of its own. -/
theorem modules_distinct_trivial_imp :
    Table.ofText (dispatchNameText true) = .ok (dispatchNameTable true) ∧
    (∃ text, Artifact.generate .astEnum (dispatchNameTable true) {} = .ok text) ∧
    (∃ text, Artifact.generate .lowering (dispatchNameTable true) {} = .ok text) ∧
    modules (code .astEnum (dispatchNameTable true) {}) = ["imp", "push"] ∧
    (modules (code .astEnum (dispatchNameTable true) {})).Nodup ∧
    modules (code .lowering (dispatchNameTable true) {}) = ["imp", "push"] ∧
    (modules (code .lowering (dispatchNameTable true) {})).Nodup := by
  have hload : Table.ofText (dispatchNameText true) = .ok (dispatchNameTable true) := by
    decide +kernel
  have hast : ∃ text, Artifact.generate .astEnum (dispatchNameTable true) {} = .ok text := ⟨_, rfl⟩
  have hlowering : ∃ text, Artifact.generate .lowering (dispatchNameTable true) {} = .ok text :=
    ⟨_, rfl⟩
  obtain ⟨htree, hlower⟩ := modules_distinct_iff hload {}
  obtain ⟨-, htreeModules, hdistinct⟩ := htree _ hast.choose_spec
  obtain ⟨-, hlowerModules, hlowerDistinct⟩ := hlower _ hlowering.choose_spec
  exact ⟨hload, hast, hlowering, htreeModules, hdistinct.mpr (by decide), hlowerModules,
    hlowerDistinct⟩

/-- An opcode with the name of the dispatch module declares that module again. -/
theorem modules_clash_imp :
    Table.ofText (dispatchNameText false) = .ok (dispatchNameTable false) ∧
    (∃ text, Artifact.generate .astEnum (dispatchNameTable false) {} = .ok text) ∧
    modules (code .astEnum (dispatchNameTable false) {}) = ["imp", "imp", "push"] ∧
    ¬(modules (code .astEnum (dispatchNameTable false) {})).Nodup := by
  have hmodules : modules (code .astEnum (dispatchNameTable false) {}) =
      ["imp", "imp", "push"] := by
    decide +kernel
  refine ⟨by decide +kernel, ⟨_, rfl⟩, hmodules, ?_⟩
  rw [hmodules]
  decide

/-- The names in the enum of ordinals are different exactly where no opcode has the name of one of
its two conversions. -/
theorem enumNames_distinct_iff {document text : String} {t : Table} {config : Config}
    (ht : Table.ofText document = .ok t)
    (hgenerate : Artifact.generate .opcodes t config = .ok text) :
    text = (({} : Layout).append (code .opcodes t config.paths)).render ∧
    ∃ names, enumNames? (Code.lastSegment config.paths.opcode) (code .opcodes t config.paths) =
        some names ∧
      names = t.descriptors.map Descriptor.name ++ ["MAX", "ALL", "from_u8", "to_u8"] ∧
      (names.Nodup ↔ ∀ d ∈ t.descriptors, d.name ≠ "from_u8" ∧ d.name ≠ "to_u8") := by
  have hwf := Table.WellFormed.of_ofText ht
  obtain ⟨-, hmeets⟩ := Artifact.exists_generate_iff_meets.mp ⟨text, hgenerate⟩
  refine ⟨Artifact.eq_render_of_generate hgenerate, _, enumNames?_ordinals hwf, rfl, ?_⟩
  rw [nodup_enumNames_iff hwf]
  refine forall₂_congr fun d hd => ?_
  obtain ⟨hmax, hall⟩ : d.name ≠ "MAX" ∧ d.name ≠ "ALL" := hmeets d hd
  simp [hmax, hall]

def oneOpcodeText (name : String) : String := "[\x7b\"name\": \"" ++ name ++ "\"\x7d]"

def oneOpcodeTable (name : String) : Table where
  descriptors := [⟨name, 0, {}⟩]

/-- A name that differs from that of a conversion in letter case alone is free. -/
theorem enumNames_distinct_From_u8 :
    Table.ofText (oneOpcodeText "From_u8") = .ok (oneOpcodeTable "From_u8") ∧
    (∃ text, Artifact.generate .opcodes (oneOpcodeTable "From_u8") {} = .ok text) ∧
    ∃ names, enumNames? "Opcode" (code .opcodes (oneOpcodeTable "From_u8") {}) = some names ∧
      names = ["From_u8", "MAX", "ALL", "from_u8", "to_u8"] ∧ names.Nodup := by
  have hload : Table.ofText (oneOpcodeText "From_u8") = .ok (oneOpcodeTable "From_u8") := by
    decide +kernel
  have hgenerate : ∃ text, Artifact.generate .opcodes (oneOpcodeTable "From_u8") {} = .ok text :=
    ⟨_, rfl⟩
  obtain ⟨-, names, hnames, heq, hdistinct⟩ :=
    enumNames_distinct_iff hload hgenerate.choose_spec
  exact ⟨hload, hgenerate, names, hnames, heq, hdistinct.mpr (by decide)⟩

/-- An opcode may have the name of a conversion, which its variant then shadows. -/
theorem enumNames_clash_from_u8 :
    Table.ofText (oneOpcodeText "from_u8") = .ok (oneOpcodeTable "from_u8") ∧
    (∃ text, Artifact.generate .opcodes (oneOpcodeTable "from_u8") {} = .ok text) ∧
    enumNames? "Opcode" (code .opcodes (oneOpcodeTable "from_u8") {}) =
      some ["from_u8", "MAX", "ALL", "from_u8", "to_u8"] ∧
    ¬["from_u8", "MAX", "ALL", "from_u8", "to_u8"].Nodup := by
  refine ⟨by decide +kernel, ⟨_, rfl⟩, by decide +kernel, by decide⟩

end OpcodeForge.Generated
