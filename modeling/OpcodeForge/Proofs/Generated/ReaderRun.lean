import OpcodeForge.Proofs.Emission
import OpcodeForge.Proofs.Generated.Reading

/-!
# What the generated reader reads

The run of the generated `from_bytecode` is followed from its first guard through the arms of the
match. On every buffer and at every offset it ends with the instruction that the codec reads there,
or with none where the codec reads none.
-/

namespace OpcodeForge.Generated

/-! ## Operands -/

theorem mem_zip_argName_iff {values : List UInt16} {name : String} {value : UInt16} :
    (name, value) ∈ ((List.range values.length).map Writer.argName).zip values ↔
      ∃ k : Nat, Writer.argName k = name ∧ values[k]? = some value := by
  rw [List.mem_iff_getElem?]
  simp only [List.getElem?_zip_eq_some, List.getElem?_map, Option.map_eq_some_iff]
  refine exists_congr fun k => ?_
  constructor
  · rintro ⟨⟨k', hk, rfl⟩, hv⟩
    obtain ⟨_, hk⟩ := List.getElem?_eq_some_iff.mp hk
    rw [List.getElem_range] at hk
    exact ⟨congrArg Writer.argName hk, hv⟩
  · rintro ⟨rfl, hv⟩
    obtain ⟨hk, -⟩ := List.getElem?_eq_some_iff.mp hv
    exact ⟨⟨k, List.getElem?_range hk, rfl⟩, hv⟩

theorem mapM_lookup_argName (values : List UInt16) :
    ((List.range values.length).map Writer.argName).mapM (fun name =>
        (((List.range values.length).map Writer.argName).zip values).reverse.lookup name) =
      some values := by
  apply mapM_eq_some_of_forall₂
  refine List.forall₂_iff_zip.mpr ⟨by simp, ?_⟩
  intro name value hpair
  refine lookup_of_unique (List.mem_reverse.mpr hpair) ?_
  intro value' hpair'
  obtain ⟨k, rfl, hk⟩ := mem_zip_argName_iff.mp hpair
  obtain ⟨k', hname, hk'⟩ := mem_zip_argName_iff.mp (List.mem_reverse.mp hpair')
  rw [argName_inj hname, hk] at hk'
  exact (Option.some.inj hk').symm

/-! ## Running the lines -/

section Run

variable {scope : Scope} {b : Bytecode} {offset : Nat} {frame frame' : Frame} {text : String}
  {rest : List Fragment}

theorem run_block_line :
    run scope b offset .block frame (.line text :: rest) =
      match effect? scope b offset frame text with
      | some (.go frame) => run scope b offset .block frame rest
      | some (.give value) => some value
      | none => (value? frame text.toList).bind fun (value, cs) =>
          if cs = [] ∧ rest.head? = some (.leave "\x7d") then some value else none :=
  rfl

theorem run_block_enter :
    run scope b offset .block frame (.enter text :: rest) =
      if text = "match opcode \x7b" then run scope b offset .arms frame rest
      else (condition? b offset frame text).bind fun holds =>
        run scope b offset (if holds then .block else .passing 0 .block) frame rest :=
  rfl

theorem run_arms_line :
    run scope b offset .arms frame (.line text :: rest) =
      (arm? scope text).bind fun (variant, body) =>
        if variant = frame.opcode then
          (value? frame body).bind fun (value, cs) => if cs = [','] then some value else none
        else run scope b offset .arms frame rest :=
  rfl

theorem run_arms_enter :
    run scope b offset .arms frame (.enter text :: rest) =
      (arm? scope text).bind fun (variant, body) =>
        if body = ['\x7b'] then
          run scope b offset (if variant = frame.opcode then .block else .passing 0 .arms) frame rest
        else none :=
  rfl

section Passing

variable {depth : Nat} {back : Mode}

@[simp]
theorem run_passing_line :
    run scope b offset (.passing depth back) frame (.line text :: rest) =
      run scope b offset (.passing depth back) frame rest :=
  rfl

@[simp]
theorem run_passing_enter :
    run scope b offset (.passing depth back) frame (.enter text :: rest) =
      run scope b offset (.passing (depth + 1) back) frame rest :=
  rfl

@[simp]
theorem run_passing_leave :
    run scope b offset (.passing 0 back) frame (.leave text :: rest) =
      run scope b offset back frame rest :=
  rfl

@[simp]
theorem run_passing_leave_inner :
    run scope b offset (.passing (depth + 1) back) frame (.leave text :: rest) =
      run scope b offset (.passing depth back) frame rest :=
  rfl

end Passing

theorem run_go (h : effect? scope b offset frame text = some (.go frame')) :
    run scope b offset .block frame (.line text :: rest) =
      run scope b offset .block frame' rest := by
  rw [run_block_line, h]

theorem run_give {value : Reading} (h : effect? scope b offset frame text = some (.give value)) :
    run scope b offset .block frame (.line text :: rest) = some value := by
  rw [run_block_line, h]

/-- A guard around `return None;` ends the run if its condition holds, and else does nothing. -/
theorem run_guard {holds : Bool} (hmatch : text ≠ "match opcode \x7b")
    (h : condition? b offset frame text = some holds) :
    run scope b offset .block frame
        (.enter text :: .line "return None;" :: Code.closeBrace :: rest) =
      if holds then some none else run scope b offset .block frame rest := by
  rw [run_block_enter, if_neg hmatch, h, Option.bind_some]
  cases holds with
  | true => simp only [if_true, run_give effect?_return]
  | false => simp [Code.closeBrace]

theorem condition?_bounds :
    condition? b offset frame "if i >= bc.len() \x7b" = some (decide (b.size ≤ offset)) := by
  simp only [condition?, if_true]

theorem condition?_guard (bytes : Nat) :
    condition? b offset frame ("if bc.len() < idx + " ++ Nat.repr bytes ++ " \x7b") =
      some (decide (b.size < frame.index + bytes)) := by
  unfold condition?
  rw [if_neg (by simp [← String.toList_inj]), guard?_repr, Option.map_some]

theorem run_readLines {index : Nat} {width : Width} {value : UInt16}
    (h : b.read? frame.index width = some value) :
    run scope b offset .block frame (Decoder.readLines index width ++ rest) =
      run scope b offset .block (frame.read (Writer.argName index) value width) rest := by
  simp only [Decoder.readLines, Decoder.advanceLine, List.cons_append, List.nil_append]
  rw [run_go (effect?_load h), run_go (effect?_advance _)]
  rfl

/-- The statements for operands read them one after the other. -/
theorem run_operands {widths : List Width} {values : List UInt16} {next : Nat} (index : Nat)
    (h : Decoded.readOperands? b frame.index widths = some (values, next)) :
    run scope b offset .block frame
        ((widths.zipIdx index).flatMap (fun (width, index) => Decoder.readLines index width) ++
          rest) =
      run scope b offset .block
        { frame with
          index := next
          locals := (((List.range' index widths.length).map Writer.argName).zip values).reverse ++
            frame.locals }
        rest := by
  induction widths generalizing frame index values with
  | nil =>
      simp only [Decoded.readOperands?, Option.some.injEq, Prod.mk.injEq] at h
      obtain ⟨rfl, rfl⟩ := h
      rfl
  | cons width widths ih =>
      simp only [Decoded.readOperands?, Option.bind_eq_bind, Option.pure_def,
        Option.bind_eq_some_iff, Option.some.injEq, Prod.mk.injEq, Prod.exists] at h
      obtain ⟨value, hvalue, values, next, hvalues, rfl, rfl⟩ := h
      rw [List.zipIdx_cons, List.flatMap_cons, List.append_assoc, run_readLines hvalue,
        ih (index + 1) hvalues]
      simp [List.range'_succ, Frame.read]

theorem run_passing_lines {depth : Nat} {back : Mode} {lines : List Fragment}
    (h : ∀ fragment ∈ lines, ∃ text, fragment = .line text) :
    run scope b offset (.passing depth back) frame (lines ++ rest) =
      run scope b offset (.passing depth back) frame rest := by
  induction lines with
  | nil => rfl
  | cons fragment lines ih =>
      obtain ⟨text, rfl⟩ := h fragment List.mem_cons_self
      rw [List.cons_append, run_passing_line]
      exact ih (fun f hf => h f (List.mem_cons_of_mem _ hf))

end Run

/-! ## Arms -/

section Arms

variable {b : Bytecode} {offset next : Nat} {frame : Frame} {opcodeType : String}
  {variants : List String} {rest : List Fragment} {d : Descriptor} {values : List UInt16}

def operandNames (d : Descriptor) : List String :=
  (List.range d.runtimeOperands.length).map Writer.argName

theorem isName_operandNames : ∀ name ∈ operandNames d, IsName name := by
  intro name hname
  obtain ⟨index, -, rfl⟩ := List.mem_map.mp hname
  exact isName_argName index

/-- The text of the instruction that an arm returns. -/
def resultText (d : Descriptor) : String :=
  "Some((RuntimeInstruction::" ++ d.name ++ Code.tuple (operandNames d) ++ ", idx))"

theorem toList_resultText (d : Descriptor) (rest : List Char) :
    (resultText d).toList ++ rest = "Some((RuntimeInstruction::".toList ++ (d.name.toList ++
      ((Code.tuple (operandNames d)).toList ++ (", idx))".toList ++ rest))) := by
  unfold resultText
  simp only [String.toList_append, List.append_assoc]

theorem readArm_of_nil (h : d.runtimeOperands = []) :
    Decoder.readArm opcodeType d =
      [.line (opcodeType ++ "::" ++ d.name ++ " => " ++ (resultText d ++ ","))] := by
  unfold Decoder.readArm resultText operandNames
  simp [h, Decoder.enumName, ← String.toList_inj]

theorem readArm_of_ne_nil (h : d.runtimeOperands ≠ []) :
    Decoder.readArm opcodeType d =
      .enter (opcodeType ++ "::" ++ d.name ++ " => " ++ "\x7b") ::
      .enter ("if bc.len() < idx + " ++ Nat.repr d.operandSize ++ " \x7b") ::
      .line "return None;" :: Code.closeBrace ::
      (d.runtimeOperands.zipIdx.flatMap (fun (width, index) => Decoder.readLines index width) ++
        [.line (resultText d), Code.closeBrace]) := by
  unfold Decoder.readArm resultText operandNames
  simp [h, Decoder.enumName, ← String.toList_inj]

theorem value?_resultText (hname : IsName d.name)
    (hoperands : (operandNames d).mapM (fun name => frame.locals.lookup name) = some values)
    (rest : List Char) :
    value? frame ((resultText d).toList ++ rest) =
      some (some (d.name, values, frame.index), rest) := by
  rw [toList_resultText]
  exact value?_some hname isName_operandNames hoperands rest

theorem effect?_resultText {scope : Scope} : effect? scope b offset frame (resultText d) = none := by
  have hload : load? (resultText d) = none := by
    rw [load?, ← List.append_nil (resultText d).toList, toList_resultText]
    rfl
  have hadvance : advance? (resultText d) = none := by
    rw [advance?, ← List.append_nil (resultText d).toList, toList_resultText]
    rfl
  unfold effect?
  rw [hload, hadvance]
  unfold resultText
  rw [if_neg (by simp [← String.toList_inj]), if_neg (by simp [← String.toList_inj]),
    if_neg (by simp [← String.toList_inj])]

theorem run_arm_of_ne (hname : IsName d.name) (hne : d.name ≠ frame.opcode) :
    run ⟨opcodeType, variants⟩ b offset .arms frame (Decoder.readArm opcodeType d ++ rest) =
      run ⟨opcodeType, variants⟩ b offset .arms frame rest := by
  by_cases hnil : d.runtimeOperands = []
  · rw [readArm_of_nil hnil, List.singleton_append, run_arms_line, arm?_readArm hname]
    simp only [Option.bind_some, if_neg hne]
  · have hlines : ∀ fragment ∈ d.runtimeOperands.zipIdx.flatMap
        (fun (width, index) => Decoder.readLines index width),
        ∃ text, fragment = .line text := by
      intro fragment hmem
      obtain ⟨⟨width, index⟩, -, hmem⟩ := List.mem_flatMap.mp hmem
      simp only [Decoder.readLines, Decoder.advanceLine, List.mem_cons, List.not_mem_nil,
        or_false] at hmem
      rcases hmem with rfl | rfl <;> exact ⟨_, rfl⟩
    rw [readArm_of_ne_nil hnil]
    simp only [List.cons_append, List.append_assoc, List.nil_append]
    rw [run_arms_enter, arm?_readArm hname]
    simp only [Option.bind_some, if_neg hne]
    rw [if_pos (by rfl)]
    simp only [run_passing_enter, run_passing_line, run_passing_leave_inner, Code.closeBrace]
    rw [run_passing_lines hlines, run_passing_line, run_passing_leave]

/-- The arm of an opcode with operands makes sure that their bytes are there. -/
theorem run_arm_guard (hname : IsName d.name) (hopcode : frame.opcode = d.name)
    (hne : d.runtimeOperands ≠ []) :
    run ⟨opcodeType, variants⟩ b offset .arms frame (Decoder.readArm opcodeType d ++ rest) =
      if b.size < frame.index + d.operandSize then some none
      else
        run ⟨opcodeType, variants⟩ b offset .block frame
          (d.runtimeOperands.zipIdx.flatMap
              (fun (width, index) => Decoder.readLines index width) ++
            .line (resultText d) :: Code.closeBrace :: rest) := by
  rw [readArm_of_ne_nil hne]
  simp only [List.cons_append, List.append_assoc, List.nil_append]
  rw [run_arms_enter, arm?_readArm hname]
  simp only [Option.bind_some, if_pos hopcode.symm]
  rw [if_pos (by rfl), run_guard (by simp [← String.toList_inj]) (condition?_guard _)]
  simp only [decide_eq_true_eq]

theorem run_resultText {scope : Scope} (hname : IsName d.name)
    (hoperands : (operandNames d).mapM (fun name => frame.locals.lookup name) = some values) :
    run scope b offset .block frame (.line (resultText d) :: Code.closeBrace :: rest) =
      some (some (d.name, values, frame.index)) := by
  have hvalue := value?_resultText hname hoperands []
  rw [List.append_nil] at hvalue
  rw [run_block_line, effect?_resultText]
  simp only [hvalue, Option.bind_some]
  rfl

theorem run_arm (hname : IsName d.name) (hopcode : frame.opcode = d.name)
    (hlocals : frame.locals = []) (hsize : frame.index + d.operandSize ≤ b.size)
    (h : Decoded.readOperands? b frame.index d.runtimeOperands = some (values, next)) :
    run ⟨opcodeType, variants⟩ b offset .arms frame (Decoder.readArm opcodeType d ++ rest) =
      some (some (d.name, values, next)) := by
  by_cases hnil : d.runtimeOperands = []
  · rw [hnil, Decoded.readOperands?, Option.some.injEq, Prod.mk.injEq] at h
    obtain ⟨rfl, rfl⟩ := h
    have hoperands : (operandNames d).mapM (fun name => frame.locals.lookup name) = some [] := by
      simp [operandNames, hnil]
    rw [readArm_of_nil hnil, List.singleton_append, run_arms_line, arm?_readArm hname]
    simp only [Option.bind_some, if_pos hopcode.symm, String.toList_append,
      value?_resultText hname hoperands]
    rfl
  · have hcount : d.runtimeOperands.length = values.length :=
      (Decoded.readOperands?_eq_some_iff.mp h).1.length_eq
    rw [run_arm_guard hname hopcode hnil, if_neg (Nat.not_lt.mpr hsize), run_operands 0 h, hlocals,
      List.append_nil, ← List.range_eq_range']
    refine run_resultText hname ?_
    rw [operandNames, hcount]
    exact mapM_lookup_argName values

theorem run_arm_truncated (hname : IsName d.name) (hopcode : frame.opcode = d.name)
    (hindex : frame.index ≤ b.size) (hsize : b.size < frame.index + d.operandSize) :
    run ⟨opcodeType, variants⟩ b offset .arms frame (Decoder.readArm opcodeType d ++ rest) =
      some none := by
  have hne : d.runtimeOperands ≠ [] := by
    intro hnil
    simp only [Descriptor.operandSize, hnil, Width.totalSize] at hsize
    omega
  rw [run_arm_guard hname hopcode hne, if_pos hsize]

/-- The arms before that of the opcode are passed over. -/
theorem run_arms {ds : List Descriptor} (hnames : ∀ d ∈ ds, IsName d.name)
    (hunique : ∀ d' ∈ ds, d'.name = d.name → d' = d) (hd : d ∈ ds)
    (hopcode : frame.opcode = d.name) :
    ∃ rest', run ⟨opcodeType, variants⟩ b offset .arms frame
        (ds.flatMap (Decoder.readArm opcodeType) ++ rest) =
      run ⟨opcodeType, variants⟩ b offset .arms frame (Decoder.readArm opcodeType d ++ rest') := by
  induction ds with
  | nil => simp at hd
  | cons d' ds ih =>
      rw [List.flatMap_cons, List.append_assoc]
      by_cases he : d'.name = d.name
      · rw [hunique d' List.mem_cons_self he]
        exact ⟨_, rfl⟩
      · rw [run_arm_of_ne (hnames d' List.mem_cons_self) (hopcode ▸ he)]
        have hmem : d ∈ ds := by
          rcases List.mem_cons.mp hd with rfl | h
          · exact absurd rfl he
          · exact h
        exact ih (fun e h => hnames e (List.mem_cons_of_mem _ h))
          (fun e h => hunique e (List.mem_cons_of_mem _ h)) hmem

end Arms

/-! ## The function -/

section Function

variable {b : Bytecode} {offset : Nat} {paths : CodePaths} {t : Table}

theorem fragments_readSection :
    (Decoder.readSection paths).fragments t =
      .enter "impl RuntimeInstruction \x7b" ::
      .line "/// Decode the instruction at `i`, with the offset just past it" ::
      .enter ("pub fn from_bytecode(bc: &" ++ Code.lastSegment paths.bytecode ++
        ", i: usize) -> Option<(RuntimeInstruction, usize)> \x7b") ::
      .enter "if i >= bc.len() \x7b" :: .line "return None;" :: Code.closeBrace ::
      .line "let mut idx = i;" ::
      .line ("let opcode = " ++ Code.lastSegment paths.opcode ++ "::from_u8(bc.read_u8(idx))?;") ::
      .line ("idx += " ++ Nat.repr opcodeBytes ++ ";") ::
      .enter "match opcode \x7b" ::
      (t.descriptors.flatMap (Decoder.readArm (Code.lastSegment paths.opcode)) ++
        (Decoder.readSection paths).footer) := by
  simp [Section.fragments_eq, Decoder.readSection, Decoder.enumName, Decoder.advanceLine,
    ← String.toList_inj]

/-- Before the arms the function makes sure that there is a byte, and that it is an ordinal. -/
theorem runReader_header {scope : Scope}
    (hscope : scope.opcodeType = Code.lastSegment paths.opcode) :
    runReader scope b offset ((Decoder.readSection paths).fragments t) =
      match (b.readByte? offset).bind fun byte => scope.variants[byte.toNat]? with
      | none => some none
      | some opcode =>
          run scope b offset .arms { index := offset + opcodeBytes, opcode }
            (t.descriptors.flatMap (Decoder.readArm (Code.lastSegment paths.opcode)) ++
              (Decoder.readSection paths).footer) := by
  rw [fragments_readSection, runReader, if_pos]
  · rw [run_guard (by decide) condition?_bounds, ← hscope]
    cases hbyte : b.readByte? offset with
    | none =>
        have hsize : b.size ≤ offset := Array.getElem?_eq_none_iff.mp hbyte
        simp [hsize]
    | some byte =>
        have hsize : ¬ b.size ≤ offset := Nat.not_le.mpr (Array.getElem?_eq_some_iff.mp hbyte).1
        simp only [hsize, decide_false, Bool.false_eq_true, if_false, Option.bind_some]
        rw [run_go effect?_start]
        cases hvariant : scope.variants[byte.toNat]? with
        | none => rw [run_give (effect?_fetch_unknown hbyte hvariant)]
        | some variant =>
            rw [run_go (effect?_fetch hbyte hvariant), run_go (effect?_advance _)]
            rw [run_block_enter, if_pos rfl]
  · refine ⟨rfl, ?_, ?_⟩
    · simp
    · rw [String.toList_append]
      exact List.isSuffixOf_iff_suffix.mpr (List.suffix_append _ _)

/-- The arms give what the codec reads for an ordinal of the table. -/
theorem run_arms_of_byOrdinal? (ht : t.WellFormed) {opcodeType : String} {variants : List String}
    {rest : List Fragment} {byte : UInt8} {d : Descriptor}
    (hbyte : b.readByte? offset = some byte) (hd : t.byOrdinal? byte = some d) :
    run ⟨opcodeType, variants⟩ b offset .arms { index := offset + opcodeBytes, opcode := d.name }
        (t.descriptors.flatMap (Decoder.readArm opcodeType) ++ rest) =
      some ((Decoded.read? t b offset).map fun (i, next) => (i.name, i.operands, next)) := by
  have hname : ∀ d ∈ t.descriptors, IsName d.name := fun e he =>
    isName_of_isIdentifier (ht.identifier e he)
  have hmem := (ht.byOrdinal?_eq_some_iff.mp hd).1
  have hindex : offset + opcodeBytes ≤ b.size := (Array.getElem?_eq_some_iff.mp hbyte).1
  obtain ⟨rest', harms⟩ := run_arms hname (fun e he hne => ht.eq_of_name he hmem hne) hmem
    (rfl : ({ index := offset + opcodeBytes, opcode := d.name } : Frame).opcode = d.name)
  rw [harms]
  simp only [Decoded.read?, hbyte, hd, Option.bind_eq_bind, Option.bind_some]
  simp only [Descriptor.wireSize, ← Nat.add_assoc]
  by_cases hlong : offset + opcodeBytes + d.operandSize ≤ b.size
  · obtain ⟨values, next, hvalues⟩ := Decoded.exists_readOperands? hlong
    rw [run_arm (hname d hmem) rfl rfl hlong hvalues, if_neg (Nat.not_lt.mpr hlong), hvalues]
    rfl
  · have hshort := Nat.not_le.mp hlong
    rw [run_arm_truncated (hname d hmem) rfl (by exact hindex) (by exact hshort), if_pos hshort]
    rfl

/-- The generated reader and the codec read the same instruction, or both none. -/
theorem runReader_readSection (ht : t.WellFormed) :
    runReader ⟨Code.lastSegment paths.opcode, t.descriptors.map Descriptor.name⟩ b offset
        ((Decoder.readSection paths).fragments t) =
      some ((Decoded.read? t b offset).map fun (i, next) => (i.name, i.operands, next)) := by
  rw [runReader_header rfl]
  cases hbyte : b.readByte? offset with
  | none => simp [Decoded.read?, hbyte]
  | some byte =>
      simp only [Option.bind_some, List.getElem?_map]
      cases hd : t.byOrdinal? byte with
      | none =>
          have hget : t.descriptors[byte.toNat]? = none := hd
          simp [Decoded.read?, hbyte, hd, hget]
      | some d =>
          have hget : t.descriptors[byte.toNat]? = some d := hd
          rw [hget]
          exact run_arms_of_byOrdinal? ht hbyte hd

end Function

end OpcodeForge.Generated
