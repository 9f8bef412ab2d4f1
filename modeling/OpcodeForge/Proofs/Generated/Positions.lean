import OpcodeForge.Proofs.Generated.Ordinals
import OpcodeForge.Proofs.Sample.Codec

/-!
# Positions in the generated code

The enums, the list of opcodes and the tables by ordinal are read from the generated code. All of
them follow the table: what stands at a position is that of the descriptor at the position, and the
methods that look up a table find the entry of their own opcode.
-/

namespace OpcodeForge.Generated

/-! ## Enums -/

/-- A variant of an enum. -/
structure Variant where
  name : String
  hasPayload : Bool
  deriving DecidableEq, Repr

def variant? (text : String) : Option Variant :=
  let (name, cs) := word text.toList
  if cs = [','] then some ⟨name, false⟩
  else if cs.head? = some '(' ∧ "),".toList.isSuffixOf cs then some ⟨name, true⟩
  else none

/-- The variants of an enum. -/
def variants? (enum : String) (code : List Fragment) : Option (List Variant) :=
  (linesIn ["pub enum " ++ enum ++ " \x7b"] [] code).mapM variant?

theorem variant?_variantLine {name : String} (hname : IsName name) (payload : List String) :
    variant? (name ++ Code.tuple payload ++ ",") = some ⟨name, !payload.isEmpty⟩ := by
  unfold variant?
  simp only [String.toList_append, List.append_assoc]
  cases payload with
  | nil =>
      have hword := word_append hname [','] rfl
      simp only [Code.tuple, List.isEmpty_nil, if_true, String.toList_empty, List.nil_append,
        show ",".toList = [','] from rfl, hword, Bool.not_true]
  | cons type types =>
      have htuple : (Code.tuple (type :: types)).toList ++ ",".toList =
          '(' :: (Text.join ", " (type :: types)).toList ++ "),".toList := by
        simp [Code.tuple]
      have hword := word_append hname
        ('(' :: (Text.join ", " (type :: types)).toList ++ "),".toList) rfl
      rw [htuple, hword]
      simp

/-- Whether a text begins with the pattern for any payload, and the rest. -/
def anyPayload (cs : List Char) : Bool × List Char :=
  match cs.dropPrefix? "(..)".toList with
  | some rest => (true, rest)
  | none => (false, cs)

theorem takeWhile_anyPayload (hasPayload : Bool) {rest : List Char}
    (hrest : rest.takeWhile Text.isWordChar = []) :
    ((Code.anyPayload hasPayload).toList ++ rest).takeWhile Text.isWordChar = [] := by
  cases hasPayload with
  | false => exact hrest
  | true => rfl

theorem anyPayload_append (hasPayload : Bool) {rest : List Char}
    (hrest : rest.dropPrefix? "(..)".toList = none) :
    anyPayload ((Code.anyPayload hasPayload).toList ++ rest) = (hasPayload, rest) := by
  unfold anyPayload
  cases hasPayload with
  | false =>
      rw [show (Code.anyPayload false).toList = [] from rfl, List.nil_append, hrest]
  | true => rw [show Code.anyPayload true = "(..)" from rfl, dropPrefix?_append]

/-! ## Constants and methods -/

/-- The name and the entries of a constant that is a list of words. -/
def constant? (text : String) : Option (String × List (List Char)) := do
  let cs ← text.toList.dropPrefix? "const ".toList
  let (name, cs) := word cs
  let cs ← cs.dropPrefix? ": &'static [".toList
  let cs ← (word cs).2.dropPrefix? "] = &[".toList
  if cs.dropWhile (· != ']') = "];".toList then some (name, items (cs.takeWhile (· != ']')))
  else none

def flag? (cs : List Char) : Option Bool :=
  if cs = "true".toList then some true
  else if cs = "false".toList then some false
  else none

/-- The variant that an arm is for, and the opcode it gives. -/
def opcodeArm? (enum text : String) : Option (String × String) := do
  let cs ← text.toList.dropPrefix? "InstructionDef::".toList
  let (variant, cs) := word cs
  let cs ← (anyPayload cs).2.dropPrefix? " => ".toList
  let (opcode, cs) ← member? enum cs
  if cs = [','] then some (variant, opcode) else none

/-- The constant that a method looks up at the ordinal of its own opcode. -/
def lookedUp? (text : String) : Option String := do
  let cs ← text.toList.dropPrefix? "Self::".toList
  let (name, cs) := word cs
  if cs = "[self.opcode().to_u8() as usize]".toList then some name else none

theorem constant?_join {name type : String} {entries : List String} (hname : IsName name)
    (htype : IsName type) (hne : entries ≠ []) (hentries : ∀ entry ∈ entries, IsName entry) :
    constant? ("const " ++ name ++ ": &'static [" ++ type ++ "] = &[" ++
      Text.join ", " entries ++ "];") = some (name, entries.map String.toList) := by
  obtain ⟨htake, hdrop⟩ := span_join (by decide : Text.isWordChar ']' = false) (by decide)
    (by decide) hentries [';']
  have hclose : "];".toList = ']' :: [';'] := rfl
  have hrest := word_append htype ("] = &[".toList ++
    ((Text.join ", " entries).toList ++ "];".toList)) rfl
  have hword := word_append hname (": &'static [".toList ++ (type.toList ++ ("] = &[".toList ++
    ((Text.join ", " entries).toList ++ "];".toList)))) rfl
  unfold constant?
  simp only [String.toList_append, List.append_assoc, dropPrefix?_append, Option.bind_eq_bind,
    Option.bind_some, hword, hrest]
  rw [hclose, htake, hdrop, if_pos rfl, items_join_names hne hentries]

theorem opcodeArm?_arm {enum variant opcode : String} (hvariant : IsName variant)
    (hopcode : IsName opcode) (hasPayload : Bool) :
    opcodeArm? enum ("InstructionDef::" ++ variant ++ Code.anyPayload hasPayload ++ " => " ++ enum ++
      "::" ++ opcode ++ ",") = some (variant, opcode) := by
  have hmember := @member?_append enum opcode hopcode ",".toList rfl
  have hpayload := @anyPayload_append hasPayload (" => ".toList ++ (enum.toList ++ ("::".toList ++
    (opcode.toList ++ ",".toList)))) rfl
  have hword := word_append hvariant _ (@takeWhile_anyPayload hasPayload (" => ".toList ++
    (enum.toList ++ ("::".toList ++ (opcode.toList ++ ",".toList)))) rfl)
  unfold opcodeArm?
  simp only [String.toList_append, List.append_assoc] at hmember ⊢
  simp only [dropPrefix?_append, Option.bind_eq_bind, Option.bind_some, hword, hpayload, hmember]
  rfl

theorem lookedUp?_method {name : String} (hname : IsName name) :
    lookedUp? ("Self::" ++ name ++ "[self.opcode().to_u8() as usize]") = some name := by
  have hword := word_append hname "[self.opcode().to_u8() as usize]".toList rfl
  unfold lookedUp?
  simp only [String.toList_append, List.append_assoc, dropPrefix?_append, Option.bind_eq_bind,
    Option.bind_some, hword, if_true]

/-! ## Reading the artifacts -/

/-- The constants of the definitions. -/
def constants (definitions : List Fragment) : List (String × List (List Char)) :=
  (linesIn ["impl InstructionDef \x7b"] [] definitions).filterMap constant?

/-- The opcode of each definition. -/
def opcodeArms? (enum : String) (definitions : List Fragment) : Option (List (String × String)) :=
  (linesIn ["match self \x7b", "pub fn opcode(&self) -> " ++ enum ++ " \x7b",
    "impl InstructionDef \x7b"] [] definitions).mapM (opcodeArm? enum)

/-- What a method finds for a definition in the constant it looks up. -/
def found? (enum : String) (definitions ordinals : List Fragment) (method variant : String) :
    Option (List Char) :=
  match linesIn [method, "impl InstructionDef \x7b"] [] definitions with
  | [body] => do
      let constant ← lookedUp? body
      let entries ← (constants definitions).lookup constant
      let opcodes ← opcodeArms? enum definitions
      let opcode ← opcodes.lookup variant
      let byte ← byte? enum ordinals opcode
      entries[byte]?
  | _ => none

/-- What the generated code says of the opcodes, in order. -/
structure Positions where
  ast : List Variant
  definitions : List Variant
  runtime : List Variant
  ordinals : List (String × Nat)
  all : List String
  sizes : List Nat
  flags : List Bool
  deriving DecidableEq, Repr

def positions? (enum : String) (code : ArtifactKind → List Fragment) : Option Positions := do
  let ast ← variants? "Instruction" (code .astEnum)
  let definitions ← variants? "InstructionDef" (code .instructionDef)
  let runtime ← variants? "RuntimeInstruction" (code .runtimeDecoder)
  let ordinals ← discriminants? enum (code .opcodes)
  let all ← (linesIn ["impl " ++ enum ++ " \x7b"] [] (code .opcodes)).findSome? (allOpcodes? enum)
  let sizes ← (constants (code .instructionDef)).lookup "RUNTIME_SIZE"
  let flags ← (constants (code .instructionDef)).lookup "IS_TERMINAL"
  some {
    ast, definitions, runtime, ordinals, all
    sizes := ← sizes.mapM natural?
    flags := ← flags.mapM flag? }

/-- What stands at a position is that of a descriptor. -/
structure Positions.At (p : Positions) (k : Nat) (d : Descriptor) : Prop where
  ast : p.ast[k]?.map Variant.name = some d.name
  definitions : p.definitions[k]?.map Variant.name = some d.name
  runtime : p.runtime[k]?.map Variant.name = some d.name
  ordinals : p.ordinals[k]? = some (d.name, k)
  all : p.all[k]? = some d.name
  sizes : p.sizes[k]? = some d.wireSize
  flags : p.flags[k]? = some d.isTerminal

/-- All lists follow the table, and only the sentinel comes after it. -/
structure Positions.Follow (p : Positions) (t : Table) : Prop where
  at_position : ∀ k d, t.descriptors[k]? = some d → p.At k d
  ast : p.ast.length = t.descriptors.length
  definitions : p.definitions.length = t.descriptors.length
  runtime : p.runtime.length = t.descriptors.length
  ordinals : p.ordinals.length = t.descriptors.length + 1
  sentinel : p.ordinals[t.descriptors.length]? = some ("MAX", t.descriptors.length)
  all : p.all.length = t.descriptors.length
  sizes : p.sizes.length = t.descriptors.length
  flags : p.flags.length = t.descriptors.length
  length_le : t.descriptors.length ≤ 255

/-- The positions of a table. -/
def Positions.ofTable (t : Table) : Positions where
  ast := t.descriptors.map fun d => ⟨d.name, !d.astArgs.isEmpty⟩
  definitions := t.descriptors.map fun d => ⟨d.name, !d.builderOperands.isEmpty⟩
  runtime := t.descriptors.map fun d => ⟨d.name, !(Decoder.payload d).isEmpty⟩
  ordinals :=
    (t.descriptors.map fun d => (d.name, d.ordinal.toNat)) ++ [("MAX", Ordinals.sentinel t)]
  all := t.descriptors.map Descriptor.name
  sizes := t.descriptors.map Descriptor.wireSize
  flags := t.descriptors.map Descriptor.isTerminal

section Reading

variable {t : Table} {paths : CodePaths}

theorem variants?_of_lines (ht : t.WellFormed) {enum : String} {fragments : List Fragment}
    {payload : Descriptor → List String}
    (h : linesIn ["pub enum " ++ enum ++ " \x7b"] [] fragments =
      t.descriptors.map fun d => d.name ++ Code.tuple (payload d) ++ ",") :
    variants? enum fragments = some (t.descriptors.map fun d => ⟨d.name, !(payload d).isEmpty⟩) := by
  rw [variants?, h]
  exact mapM_map_eq_some fun d hd => variant?_variantLine (isName_name ht hd) (payload d)

theorem constants_definitions (hne : t.descriptors ≠ []) :
    constants (code .instructionDef t paths) =
      [("RUNTIME_SIZE", (Definition.sizes t).map String.toList),
        ("IS_TERMINAL", (Definition.terminals t).map String.toList)] := by
  have hsizes : constant? ("const RUNTIME_SIZE: &'static [usize] = &[" ++
      Text.join ", " (Definition.sizes t) ++ "];") =
        some ("RUNTIME_SIZE", (Definition.sizes t).map String.toList) := by
    refine @constant?_join "RUNTIME_SIZE" "usize" _ (isName_of_literal (by decide))
      (isName_of_literal (by decide)) (by simpa [Definition.sizes] using hne) ?_
    exact List.forall_mem_map.mpr fun d _ => isName_repr _
  have hflags : constant? ("const IS_TERMINAL: &'static [bool] = &[" ++
      Text.join ", " (Definition.terminals t) ++ "];") =
        some ("IS_TERMINAL", (Definition.terminals t).map String.toList) := by
    refine @constant?_join "IS_TERMINAL" "bool" _ (isName_of_literal (by decide))
      (isName_of_literal (by decide)) (by simpa [Definition.terminals] using hne) ?_
    refine List.forall_mem_map.mpr fun d _ => ?_
    unfold Definition.terminalEntry
    cases d.isTerminal <;> exact isName_of_literal (by decide)
  rw [constants, linesIn_definitionImpl]
  simp only [List.filterMap_cons, hsizes, hflags]
  simp [constant?, List.dropPrefix?]

theorem lookup_sizes (hne : t.descriptors ≠ []) :
    (constants (code .instructionDef t paths)).lookup "RUNTIME_SIZE" =
      some ((Definition.sizes t).map String.toList) := by
  rw [constants_definitions hne]
  rfl

theorem lookup_terminals (hne : t.descriptors ≠ []) :
    (constants (code .instructionDef t paths)).lookup "IS_TERMINAL" =
      some ((Definition.terminals t).map String.toList) := by
  rw [constants_definitions hne]
  rfl

theorem flag?_terminalEntry (d : Descriptor) :
    flag? (Definition.terminalEntry d).toList = some d.isTerminal := by
  cases h : d.isTerminal <;> simp [Definition.terminalEntry, h, flag?]

theorem mapM_flag?_terminals :
    ((Definition.terminals t).map String.toList).mapM flag? =
      some (t.descriptors.map Descriptor.isTerminal) := by
  rw [Definition.terminals, List.map_map]
  exact mapM_map_eq_some fun d _ => flag?_terminalEntry d

theorem mapM_natural?_sizes :
    ((Definition.sizes t).map String.toList).mapM natural? =
      some (t.descriptors.map Descriptor.wireSize) := by
  rw [Definition.sizes, List.map_map]
  exact mapM_map_eq_some fun d _ => natural?_repr d.wireSize

theorem positions?_code (ht : t.WellFormed) (hne : t.descriptors ≠ []) :
    positions? (Code.lastSegment paths.opcode) (fun kind => code kind t paths) =
      some (Positions.ofTable t) := by
  unfold positions?
  simp only [@variants?_of_lines t ht "Instruction" _ _ linesIn_astEnum,
    @variants?_of_lines t ht "InstructionDef" _ _ linesIn_definitionEnum,
    @variants?_of_lines t ht "RuntimeInstruction" _ _ linesIn_runtimeEnum,
    discriminants?_ordinals ht, findSome?_allOpcodes? ht hne, lookup_sizes hne,
    lookup_terminals hne, mapM_flag?_terminals, mapM_natural?_sizes, Option.bind_eq_bind,
    Option.bind_some]
  rfl

theorem sentinel_eq (ht : t.WellFormed) : Ordinals.sentinel t = t.descriptors.length := by
  unfold Ordinals.sentinel
  cases hlast : t.descriptors.getLast? with
  | none => simp [List.getLast?_eq_none_iff.mp hlast]
  | some d =>
      rw [List.getLast?_eq_getElem?] at hlast
      have hlength := (List.getElem?_eq_some_iff.mp hlast).1
      simp only [ht.ordinal _ d hlast]
      omega

theorem Positions.follow_ofTable (ht : t.WellFormed) : (Positions.ofTable t).Follow t where
  at_position k d hd := by
    have hlt : k < t.descriptors.length := (List.getElem?_eq_some_iff.mp hd).1
    exact {
      ast := by simp [Positions.ofTable, hd]
      definitions := by simp [Positions.ofTable, hd]
      runtime := by simp [Positions.ofTable, hd]
      ordinals := by
        rw [Positions.ofTable, List.getElem?_append_left (by simpa using hlt), List.getElem?_map, hd,
          Option.map_some, ht.ordinal k d hd]
      all := by simp [Positions.ofTable, hd]
      sizes := by simp [Positions.ofTable, hd]
      flags := by simp [Positions.ofTable, hd] }
  ast := List.length_map _
  definitions := List.length_map _
  runtime := List.length_map _
  ordinals := by simp [Positions.ofTable]
  sentinel := by simp [Positions.ofTable, sentinel_eq ht]
  all := List.length_map _
  sizes := List.length_map _
  flags := List.length_map _
  length_le := ht.length_le

theorem opcodeArms?_code (ht : t.WellFormed) :
    opcodeArms? (Code.lastSegment paths.opcode) (code .instructionDef t paths) =
      some (t.descriptors.map fun d => (d.name, d.name)) := by
  rw [opcodeArms?, linesIn_opcodeArms]
  exact mapM_map_eq_some fun d hd => opcodeArm?_arm (isName_name ht hd) (isName_name ht hd) _

/-- A method finds the entry of its own opcode in the constant that it looks up. -/
theorem found?_code (ht : t.WellFormed) {d : Descriptor} (hd : d ∈ t.descriptors)
    (hmax : d.name ≠ "MAX") {method constant : String} {entries : Descriptor → String}
    (hconstant : IsName constant)
    (hbody : linesIn [method, "impl InstructionDef \x7b"] [] (code .instructionDef t paths) =
      ["Self::" ++ constant ++ "[self.opcode().to_u8() as usize]"])
    (hentries : (constants (code .instructionDef t paths)).lookup constant =
      some ((t.descriptors.map entries).map String.toList)) :
    found? (Code.lastSegment paths.opcode) (code .instructionDef t paths) (code .opcodes t paths)
      method d.name = some (entries d).toList := by
  have hopcode : (t.descriptors.map fun d => (d.name, d.name)).lookup d.name = some d.name := by
    refine lookup_of_unique (List.mem_map.mpr ⟨d, hd, rfl⟩) fun opcode hopcode => ?_
    obtain ⟨e, -, heq⟩ := List.mem_map.mp hopcode
    obtain ⟨hname, rfl⟩ := Prod.mk.inj heq
    exact hname
  have hget : t.descriptors[d.ordinal.toNat]? = some d := ht.byOrdinal?_eq_some_iff.mpr ⟨hd, rfl⟩
  rw [found?, hbody]
  simp only [lookedUp?_method hconstant, hentries, opcodeArms?_code ht, hopcode,
    byte?_code ht hd hmax, Option.bind_eq_bind, Option.bind_some, List.getElem?_map, hget,
    Option.map_some]

end Reading

end OpcodeForge.Generated
