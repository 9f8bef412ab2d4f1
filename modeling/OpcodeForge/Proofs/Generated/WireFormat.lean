import OpcodeForge.Proofs.Generated.Ordinals
import OpcodeForge.Proofs.Generated.ReaderRun

/-!
# One wire format

The generated definitions write the bytes that the codec writes, their table of sizes counts these
bytes, and the generated reader reads what the codec reads.
-/

namespace OpcodeForge.Generated

/-! ## The table of sizes -/

/-- The numbers of the line that declares the table of sizes. -/
def sizeLine? (text : String) : Option (List Nat) := do
  let cs ← text.toList.dropPrefix? "const RUNTIME_SIZE: &'static [usize] = &[".toList
  if cs.dropWhile (· != ']') = "];".toList then
    (items (cs.takeWhile (· != ']'))).mapM natural?
  else none

/-- The table of sizes that code declares. -/
def sizeTable? (code : List Fragment) : Option (List Nat) :=
  code.findSome? fun
    | .line text => sizeLine? text
    | _ => none

theorem mapM_natural?_repr (ns : List Nat) :
    ((ns.map Nat.repr).map String.toList).mapM natural? = some ns := by
  apply mapM_eq_some_of_forall₂
  rw [List.map_map, List.forall₂_map_left_iff]
  exact List.forall₂_same.mpr (fun n _ => natural?_repr n)

theorem sizeLine?_join {sizes : List Nat} (hne : sizes ≠ []) :
    sizeLine? ("const RUNTIME_SIZE: &'static [usize] = &[" ++
      Text.join ", " (sizes.map Nat.repr) ++ "];") = some sizes := by
  have hnames : ∀ name ∈ sizes.map Nat.repr, IsName name := by
    intro name hname
    obtain ⟨n, -, rfl⟩ := List.mem_map.mp hname
    exact isName_repr n
  obtain ⟨htake, hdrop⟩ := span_join (by decide : Text.isWordChar ']' = false) (by decide)
    (by decide) hnames [';']
  have htext : "];".toList = ']' :: [';'] := rfl
  unfold sizeLine?
  simp only [String.toList_append, List.append_assoc, dropPrefix?_append, Option.bind_eq_bind,
    Option.bind_some]
  rw [htext, htake, hdrop, if_pos rfl, items_join_names (by simpa using hne) hnames,
    mapM_natural?_repr]

/-- The table has the size of each opcode at its ordinal. -/
theorem sizeTable?_lookupEmitter {paths : CodePaths} {t : Table} (hne : t.descriptors ≠ []) :
    sizeTable? ((Definition.lookupEmitter paths).fragments t) =
      some (t.descriptors.map Descriptor.wireSize) := by
  have hline : sizeLine? ("const RUNTIME_SIZE: &'static [usize] = &[" ++
      Text.join ", " (Definition.sizes t) ++ "];") =
        some (t.descriptors.map Descriptor.wireSize) := by
    have hsizes : Definition.sizes t = (t.descriptors.map Descriptor.wireSize).map Nat.repr := by
      rw [List.map_map]
      rfl
    rw [hsizes]
    exact sizeLine?_join (by simpa using hne)
  have hfragments : (Definition.lookupEmitter paths).fragments t =
      (Definition.lookupSection paths t).fragments t :=
    ((Definition.tracks paths).makes t).fragments
  have hheader : sizeTable? (Definition.lookupSection paths t).header = none := rfl
  have hbody : sizeTable? (t.descriptors.flatMap (Definition.lookupSection paths t).body) =
      none := by
    refine List.findSome?_eq_none_iff.mpr ?_
    intro fragment hmem
    obtain ⟨d, -, hmem⟩ := List.mem_flatMap.mp hmem
    cases List.mem_singleton.mp hmem
    simp [sizeLine?, Definition.enumName, List.dropPrefix?]
  unfold sizeTable? at hheader hbody ⊢
  rw [hfragments, Section.fragments_eq, List.findSome?_append, List.findSome?_append, hheader,
    hbody]
  simp only [Definition.lookupSection, Emitter.sectionAt, Definition.lookupEmitter, Code.closeBrace,
    List.findSome?_cons, hline, Option.none_or]

/-! ## Integer types -/

/-- One more than the greatest value of so many bits. -/
def bound (bits : Nat) : Int := (1 <<< bits : Nat)

/-- The values of each integer type, from the least to one past the greatest. Sizes are taken to
have 64 bits, the most that an operand has. -/
def integerRanges : List (String × Int × Int) :=
  [("u8", 0, bound 8), ("u16", 0, bound 16), ("u32", 0, bound 32), ("u64", 0, bound 64),
    ("u128", 0, bound 128), ("usize", 0, bound 64), ("i8", -bound 7, bound 7),
    ("i16", -bound 15, bound 15), ("i32", -bound 31, bound 31), ("i64", -bound 63, bound 63),
    ("i128", -bound 127, bound 127), ("isize", -bound 63, bound 63)]

/-- Whether an operand is a value of an integer type. -/
def fitsType (type : String) (value : Int64) : Bool :=
  (integerRanges.lookup type).any fun (least, bound) =>
    least ≤ value.toInt && value.toInt < bound

example : integerRanges.map Prod.fst = integerTypes := by decide

theorem bounds_of_fitsType {width : Width} {value : Int64}
    (h : fitsType width.typeName value = true) :
    0 ≤ value.toInt ∧ value.toInt < width.modulus := by
  have hrange : integerRanges.lookup width.typeName = some (0, (width.modulus : Int)) := by
    cases width <;> rfl
  simpa [fitsType, hrange] using h

/-! ## Writers -/

/-- Where no passthrough needs a cast, each has the type that it writes. -/
theorem passthroughOk_of_passthroughFault? {d : Descriptor}
    (hok : List.Forall₂ d.WriterOk d.operandWriters d.runtimeOperands)
    (hpass : d.passthroughFault? = none) (htypes : ∀ type ∈ d.builderOperands, type ∈ integerTypes) :
    List.Forall₂ (PassthroughOk d) d.operandWriters d.runtimeOperands := by
  obtain ⟨hlen, hok⟩ := List.forall₂_iff_zip.mp hok
  refine List.forall₂_iff_zip.mpr ⟨hlen, ?_⟩
  intro writer width hpair index hwriter
  have hindex := (hok hpair).2 index (by simp [hwriter, Writer.argIndex?])
  have htype := htypes _ (List.getElem_mem hindex)
  obtain ⟨k, hk⟩ := List.mem_iff_getElem?.mp hpair
  have hfault := List.findSome?_eq_none_iff.mp hpass ((writer, width), k)
    (List.mk_mem_zipIdx_iff_getElem?.mpr hk)
  rw [List.getElem?_eq_getElem hindex]
  simpa [Descriptor.castFault?, hwriter, List.getElem?_eq_getElem hindex, htype] using hfault

/-- A writer of a builder operand that fits its type stands for a value that fits its width. -/
theorem exists_yields {d : Descriptor} {operands : List Int64} {writer : Writer} {width : Width}
    (hok : d.WriterOk writer width) (hpass : PassthroughOk d writer width)
    (harg : writer.argIndex?.isSome = true)
    (hfits : List.Forall₂ (fun type value => fitsType type value = true) d.builderOperands
      operands) :
    ∃ value, writer.Yields operands value ∧ width.Fits value := by
  have hget : ∀ {index : Nat} {type : String}, d.builderOperands[index]? = some type →
      ∃ value, operands[index]? = some value ∧ fitsType type value = true := by
    intro index type htype
    obtain ⟨hindex, rfl⟩ := List.getElem?_eq_some_iff.mp htype
    have hindex' : index < operands.length := hfits.length_eq ▸ hindex
    exact ⟨_, List.getElem?_eq_getElem hindex', hfits.get hindex hindex'⟩
  cases writer with
  | arg index =>
      obtain ⟨value, hvalue, hfit⟩ := hget (hpass index rfl)
      obtain ⟨hlow, hhigh⟩ := bounds_of_fitsType hfit
      have hwire := Instruction.toNat_truncate value .word
      have hmod : (width.modulus : Int) ≤ Width.word.modulus := by
        cases width <;> simp [Width.modulus]
      rw [Int.emod_eq_of_lt hlow (by omega)] at hwire
      refine ⟨_, .arg hvalue hwire, ?_⟩
      unfold Width.Fits
      omega
  | cast index w =>
      cases hok.1 index w rfl
      obtain ⟨value, hvalue, -⟩ := hget (List.getElem?_eq_getElem (hok.2 index rfl))
      have hwire := Instruction.toNat_truncate value width
      have hlt : value.toInt % (width.modulus : Int) < width.modulus :=
        Int.emod_lt_of_pos _ (by cases width <;> simp [Width.modulus])
      refine ⟨_, .cast hvalue hwire, ?_⟩
      unfold Width.Fits
      omega
  | verbatim source => simp [Writer.argIndex?] at harg

theorem exists_forall₂_yields {d : Descriptor} {operands : List Int64} {writers : List Writer}
    {widths : List Width}
    (hok : List.Forall₂ (fun writer width => d.WriterOk writer width ∧ PassthroughOk d writer width)
      writers widths)
    (hargs : ∀ writer ∈ writers, writer.argIndex?.isSome = true)
    (hfits : List.Forall₂ (fun type value => fitsType type value = true) d.builderOperands
      operands) :
    ∃ values, List.Forall₂ (Writer.Yields operands) writers values ∧
      List.Forall₂ Width.Fits widths values := by
  induction hok with
  | nil => exact ⟨[], .nil, .nil⟩
  | @cons writer width writers widths hhead _ ih =>
      obtain ⟨value, hyield, hfit⟩ :=
        exists_yields hhead.1 hhead.2 (hargs writer List.mem_cons_self) hfits
      obtain ⟨values, hyields, hwidths⟩ := ih (fun w hw => hargs w (List.mem_cons_of_mem _ hw))
      exact ⟨value :: values, .cons hyield hyields, .cons hfit hwidths⟩

/-! ## The format -/

/-- The arm of an opcode appends the operands of the instruction that is built for it. -/
theorem exists_onWire {t : Table} {config : Config} {text : String} {d : Descriptor}
    {operands : List Int64} (ht : t.WellFormed)
    (hgenerate : Artifact.generate .instructionDef t config = .ok text) (hd : d ∈ t.descriptors)
    (hargs : ∀ writer ∈ d.operandWriters, writer.argIndex?.isSome = true)
    (htypes : ∀ type ∈ d.builderOperands, type ∈ integerTypes)
    (hfits : List.Forall₂ (fun type value => fitsType type value = true) d.builderOperands
      operands) :
    ∃ values, Instruction.Built t ⟨d, operands⟩ ∧
      Instruction.OnWire ⟨d, operands⟩ ⟨d, values⟩ ∧
      runArm d.name (typedOperands d operands) (Definition.writeArm d) =
        some (operandBytes d.runtimeOperands values) := by
  obtain ⟨hwriters, hpass⟩ := Definition.of_generate hgenerate hd
  have hok := Instruction.forall₂_writerOk (ht.aligned d hd) hwriters
  have hpassOk := passthroughOk_of_passthroughFault? hok hpass htypes
  have hboth := List.Forall₂.mp (fun _ _ h h' => And.intro h h') hok hpassOk
  obtain ⟨values, hyields, hwidths⟩ := exists_forall₂_yields hboth hargs hfits
  have hcount : operands.length = d.builderOperands.length := hfits.length_eq.symm
  refine ⟨values, ⟨hd, hwriters, hpass, hcount⟩, ⟨rfl, hyields, hwidths⟩, ?_⟩
  exact runArm_writeArm (isName_of_isIdentifier (ht.identifier d hd)) hboth hcount hyields

end OpcodeForge.Generated
