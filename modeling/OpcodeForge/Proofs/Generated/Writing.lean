import OpcodeForge.Artifact.Definition
import OpcodeForge.Proofs.Encoding
import OpcodeForge.Proofs.Generated.Text

/-!
# Running the generated writer

The arm of an opcode in the generated `write` is read line by line and run on builder operands. Its
pattern binds names to operands; `*arg0` is the operand with that name, `as u8` and `as u16` keep the
low bits, and `bc.write_u8` and `bc.write_u16` take an argument of their own type and append it with
the low byte first. A line that is not read, a name that is not bound and an argument of another type
leave the run without a result.
-/

namespace OpcodeForge.Generated

/-- An integer of the generated language with its type. -/
structure Typed where
  type : String
  value : Int
  deriving DecidableEq, Repr

/-- The argument of a write. -/
inductive Expression where
  | operand (name : String)
  | cast (name : String) (width : Width)
  deriving DecidableEq, Repr

namespace Expression

/-- The expression that a text begins with, and the rest. -/
def ofText? (cs : List Char) : Option (Expression × List Char) := do
  let cs ← cs.dropPrefix? ['*']
  match (word cs).2.dropPrefix? " as ".toList with
  | some rest => (width? rest).map fun (width, rest) => (cast (word cs).1 width, rest)
  | none => some (operand (word cs).1, (word cs).2)

def eval (env : List (String × Typed)) : Expression → Option Typed
  | operand name => env.lookup name
  | cast name width =>
      (env.lookup name).map fun v => { type := width.typeName, value := v.value % width.modulus }

end Expression

/-- The width and the argument of a write statement. -/
def writeStatement? (text : String) : Option (Width × Expression) := do
  let cs ← text.toList.dropPrefix? "bc.write_".toList
  let (width, cs) ← width? cs
  let cs ← cs.dropPrefix? ['(']
  let (argument, cs) ← Expression.ofText? cs
  if cs = ");".toList then some (width, argument) else none

/-- The bytes that a write statement appends. -/
def runWrite (env : List (String × Typed)) (text : String) : Option (List UInt8) := do
  let (width, argument) ← writeStatement? text
  let v ← argument.eval env
  if v.type = width.typeName then some (littleEndian width.size v.value.toNat) else none

/-- The bytes that statements append, up to the end of their block. -/
def runWrites (env : List (String × Typed)) : List Fragment → Option (List UInt8)
  | [.leave text] => if text = "\x7d" then some [] else none
  | .line text :: rest => do
      let bytes ← runWrite env text
      let more ← runWrites env rest
      some (bytes ++ more)
  | _ => none

/-- The variant that an arm is for, the names in its pattern, and what follows the arrow. -/
def armHead? (text : String) : Option (String × List String × List Char) := do
  let cs ← text.toList.dropPrefix? "InstructionDef::".toList
  let (variant, cs) := word cs
  let (names, cs) := payload cs
  let cs ← cs.dropPrefix? " =>".toList
  some (variant, names, cs)

/-- What the names of a pattern are bound to; an underscore binds nothing. -/
def environment (names : List String) (operands : List Typed) : List (String × Typed) :=
  (names.zip operands).filter fun (name, _) => name != "_"

/-- The bytes that the arm of a variant appends for its operands. -/
def runArm (variant : String) (operands : List Typed) : List Fragment → Option (List UInt8)
  | .line text :: [] => do
      let (name, names, body) ← armHead? text
      if name = variant ∧ names.length = operands.length ∧ body = " \x7b\x7d".toList then some []
      else none
  | .enter text :: rest => do
      let (name, names, body) ← armHead? text
      if name = variant ∧ names.length = operands.length ∧ body = " \x7b".toList then
        runWrites (environment names operands) rest
      else none
  | _ => none

/-! ## Reading the lines -/

theorem dropPrefix?_append (cs rest : List Char) : (cs ++ rest).dropPrefix? cs = some rest :=
  List.dropPrefix?_append_of_beq rest (by simp)

theorem ofText?_arg (index : Nat) :
    Expression.ofText? ((Writer.arg index).render.toList ++ ");".toList) =
      some (.operand (Writer.argName index), ");".toList) := by
  have hword := word_append (isName_argName index) ");".toList (by rfl)
  simp only [Expression.ofText?, Writer.render, String.toList_append, List.append_assoc]
  rw [show "*".toList = ['*'] from rfl, dropPrefix?_append]
  simp only [Option.bind_eq_bind, Option.bind_some, hword]
  rfl

theorem ofText?_cast (index : Nat) (width : Width) :
    Expression.ofText? ((Writer.cast index width).render.toList ++ ");".toList) =
      some (.cast (Writer.argName index) width, ");".toList) := by
  have hword := word_append (isName_argName index)
    (" as ".toList ++ (width.typeName.toList ++ ");".toList)) (by rfl)
  simp only [Expression.ofText?, Writer.render, String.toList_append, List.append_assoc]
  rw [show "*".toList = ['*'] from rfl, dropPrefix?_append]
  simp only [Option.bind_eq_bind, Option.bind_some, hword, dropPrefix?_append, width?_typeName]
  rfl

theorem writeStatement?_writer {writer : Writer} {argument : Expression} (width : Width)
    (h : Expression.ofText? (writer.render.toList ++ ");".toList) = some (argument, ");".toList)) :
    writeStatement? ("bc." ++ Definition.writeName width ++ "(" ++ writer.render ++ ");") =
      some (width, argument) := by
  have htext : ("bc." ++ Definition.writeName width ++ "(" ++ writer.render ++ ");").toList =
      "bc.write_".toList ++ (width.typeName.toList ++
        (['('] ++ (writer.render.toList ++ ");".toList))) := by
    simp [Definition.writeName]
  unfold writeStatement?
  rw [htext, dropPrefix?_append]
  simp only [Option.bind_eq_bind, Option.bind_some, width?_typeName, dropPrefix?_append, h,
    if_true]

/-! ## Bound names -/

theorem lookup_of_unique {α : Type} {env : List (String × α)} {name : String} {v : α}
    (hmem : (name, v) ∈ env) (hunique : ∀ v', (name, v') ∈ env → v' = v) :
    env.lookup name = some v := by
  induction env with
  | nil => simp at hmem
  | cons entry env ih =>
      obtain ⟨name', v'⟩ := entry
      by_cases he : name = name'
      · subst he
        rw [List.lookup_cons_self, hunique v' List.mem_cons_self]
      · rw [List.lookup_cons, beq_false_of_ne he]
        have hmem' : (name, v) ∈ env := by
          rcases List.mem_cons.mp hmem with h | h
          · exact absurd (Prod.mk.inj h).1 he
          · exact h
        exact ih hmem' (fun v'' h => hunique v'' (List.mem_cons_of_mem _ h))

theorem argName_ne_underscore (index : Nat) : Writer.argName index ≠ "_" := by
  intro h
  have hlist := congrArg String.toList h
  simp [Writer.argName] at hlist

def patternNames (d : Descriptor) : List String :=
  (List.range d.builderOperands.length).map (Definition.binding d)

theorem isName_patternNames {d : Descriptor} : ∀ name ∈ patternNames d, IsName name := by
  intro name hname
  obtain ⟨index, -, rfl⟩ := List.mem_map.mp hname
  unfold Definition.binding
  split
  · exact isName_argName index
  · intro c hc
    have hbar : c = '_' := by simpa using hc
    rw [hbar]
    rfl

theorem mem_environment_iff {names : List String} {operands : List Typed} {name : String}
    {v : Typed} : (name, v) ∈ environment names operands ↔
      name ≠ "_" ∧ ∃ k : Nat, names[k]? = some name ∧ operands[k]? = some v := by
  unfold environment
  rw [List.mem_filter, List.mem_iff_getElem?]
  simp only [List.getElem?_zip_eq_some, bne_iff_ne, ne_eq]
  exact and_comm

theorem getElem?_patternNames {d : Descriptor} {k : Nat} {name : String} :
    (patternNames d)[k]? = some name ↔
      k < d.builderOperands.length ∧ Definition.binding d k = name := by
  unfold patternNames
  by_cases hk : k < d.builderOperands.length
  · simp [hk]
  · simp [hk]

theorem any_reads {d : Descriptor} {writer : Writer} {index : Nat}
    (hmem : writer ∈ d.operandWriters) (harg : writer.argIndex? = some index) :
    d.operandWriters.any (Definition.reads index) = true := by
  refine List.any_eq_true.mpr ⟨writer, hmem, ?_⟩
  cases writer with
  | arg i => simpa [Definition.reads] using harg
  | cast i w => simpa [Definition.reads] using harg
  | verbatim source => simp [Writer.argIndex?] at harg

theorem lookup_environment {d : Descriptor} {operands : List Typed} {index : Nat} {v : Typed}
    (hused : d.operandWriters.any (Definition.reads index) = true)
    (hindex : index < d.builderOperands.length) (hv : operands[index]? = some v) :
    (environment (patternNames d) operands).lookup (Writer.argName index) = some v := by
  refine lookup_of_unique ?_ ?_
  · refine mem_environment_iff.mpr ⟨argName_ne_underscore index, index, ?_, hv⟩
    exact getElem?_patternNames.mpr ⟨hindex, by simp [Definition.binding, hused]⟩
  · intro v' hmem
    obtain ⟨-, k, hk, hv'⟩ := mem_environment_iff.mp hmem
    -- a bound name is the name of its own position
    obtain ⟨-, hbind⟩ := getElem?_patternNames.mp hk
    unfold Definition.binding at hbind
    split at hbind
    · rw [argName_inj hbind, hv] at hv'
      exact (Option.some.inj hv').symm
    · exact absurd hbind.symm (argName_ne_underscore index)

/-! ## Running the arm -/

theorem runWrite_arg {env : List (String × Typed)} {index : Nat} {width : Width} {v : Typed}
    (hlookup : env.lookup (Writer.argName index) = some v) (htype : v.type = width.typeName) :
    runWrite env ("bc." ++ Definition.writeName width ++ "(" ++ (Writer.arg index).render ++ ");") =
      some (littleEndian width.size v.value.toNat) := by
  unfold runWrite
  rw [writeStatement?_writer width (ofText?_arg index)]
  simp only [Option.bind_eq_bind, Option.bind_some, Expression.eval, hlookup, htype, if_true]

theorem runWrite_cast {env : List (String × Typed)} {index : Nat} {width : Width} {v : Typed}
    (hlookup : env.lookup (Writer.argName index) = some v) :
    runWrite env
        ("bc." ++ Definition.writeName width ++ "(" ++ (Writer.cast index width).render ++ ");") =
      some (littleEndian width.size (v.value % width.modulus).toNat) := by
  unfold runWrite
  rw [writeStatement?_writer width (ofText?_cast index width)]
  simp only [Option.bind_eq_bind, Option.bind_some, Expression.eval, hlookup, Option.map_some,
    if_true]

/-- Builder operands with the types that the opcode gives them. -/
def typedOperands (d : Descriptor) (operands : List Int64) : List Typed :=
  d.builderOperands.zipWith (fun type value => ⟨type, value.toInt⟩) operands

theorem getElem?_typedOperands {d : Descriptor} {operands : List Int64} {index : Nat}
    {type : String} {value : Int64} (htype : d.builderOperands[index]? = some type)
    (hvalue : operands[index]? = some value) :
    (typedOperands d operands)[index]? = some ⟨type, value.toInt⟩ := by
  simp [typedOperands, List.getElem?_zipWith, htype, hvalue]

/-- A passthrough has the type that it writes. -/
def PassthroughOk (d : Descriptor) (writer : Writer) (width : Width) : Prop :=
  ∀ index, writer = .arg index → d.builderOperands[index]? = some width.typeName

/-- The line of a writer appends the operand that the writer stands for. -/
theorem runWrite_writeLine {d : Descriptor} {operands : List Int64} {writer : Writer}
    {width : Width} {value : UInt16} (hmem : writer ∈ d.operandWriters)
    (hok : d.WriterOk writer width) (hpass : PassthroughOk d writer width)
    (hyield : writer.Yields operands value) :
    runWrite (environment (patternNames d) (typedOperands d operands))
        ("bc." ++ Definition.writeName width ++ "(" ++ writer.render ++ ");") =
      some (littleEndian width.size value.toNat) := by
  cases hyield with
  | @arg index v _ hget hwire =>
      have hlookup := lookup_environment (any_reads hmem rfl) (hok.2 index rfl)
        (getElem?_typedOperands (hpass index rfl) hget)
      rw [runWrite_arg hlookup rfl]
      simp only [← hwire, Int.toNat_natCast]
  | @cast index w v _ hget hwire =>
      cases hok.1 index w rfl
      have hindex := hok.2 index rfl
      have hlookup := lookup_environment (any_reads hmem rfl) hindex
        (getElem?_typedOperands (List.getElem?_eq_getElem hindex) hget)
      rw [runWrite_cast hlookup]
      simp only [← hwire, Int.toNat_natCast]

theorem runWrites_writeLine {d : Descriptor} {operands : List Int64} {writers : List Writer}
    {widths : List Width} {values : List UInt16} (hmem : ∀ writer ∈ writers, writer ∈ d.operandWriters)
    (hok : List.Forall₂ (fun writer width => d.WriterOk writer width ∧ PassthroughOk d writer width)
      writers widths)
    (hyield : List.Forall₂ (Writer.Yields operands) writers values) :
    runWrites (environment (patternNames d) (typedOperands d operands))
        (writers.zipWith Definition.writeLine widths ++ [Code.closeBrace]) =
      some (operandBytes widths values) := by
  induction hok generalizing values with
  | nil => cases hyield; rfl
  | @cons writer width writers widths hhead _ ih =>
      cases hyield with
      | cons hvalue hvalues =>
          have hwrite := runWrite_writeLine (hmem writer List.mem_cons_self) hhead.1 hhead.2 hvalue
          have hrest := ih (fun w hw => hmem w (List.mem_cons_of_mem _ hw)) hvalues
          simp only [List.zipWith_cons_cons, List.cons_append, Definition.writeLine, runWrites,
            Option.bind_eq_bind, hwrite, hrest, Option.bind_some, operandBytes]

theorem armHead?_writeArm {d : Descriptor} (hname : IsName d.name) (tail : String) :
    armHead? (Definition.enumName ++ "::" ++ d.name ++ Definition.pattern d ++ " =>" ++ tail) =
      some (d.name, patternNames d, tail.toList) := by
  have htext : (Definition.enumName ++ "::" ++ d.name ++ Definition.pattern d ++ " =>" ++
      tail).toList = "InstructionDef::".toList ++ (d.name.toList ++
        ((Code.tuple (patternNames d)).toList ++ (" =>".toList ++ tail.toList))) := by
    simp [Definition.enumName, Definition.pattern, patternNames]
  have hpattern : ((Code.tuple (patternNames d)).toList ++
      (" =>".toList ++ tail.toList)).takeWhile Text.isWordChar = [] := by
    unfold Code.tuple
    split
    · rfl
    · simp [Text.isWordChar]
  unfold armHead?
  rw [htext, dropPrefix?_append]
  simp only [Option.bind_eq_bind, Option.bind_some, word_append hname _ hpattern]
  rw [payload_tuple isName_patternNames (by simp)]
  simp only [dropPrefix?_append, Option.bind_some]

/-- The arm of an opcode appends the operands that its writers stand for. -/
theorem runArm_writeArm {d : Descriptor} {operands : List Int64} {values : List UInt16}
    (hname : IsName d.name)
    (hok : List.Forall₂ (fun writer width => d.WriterOk writer width ∧ PassthroughOk d writer width)
      d.operandWriters d.runtimeOperands)
    (hcount : operands.length = d.builderOperands.length)
    (hyield : List.Forall₂ (Writer.Yields operands) d.operandWriters values) :
    runArm d.name (typedOperands d operands) (Definition.writeArm d) =
      some (operandBytes d.runtimeOperands values) := by
  have hlen : (patternNames d).length = (typedOperands d operands).length := by
    simp [patternNames, typedOperands, hcount]
  have hbody := runWrites_writeLine (fun _ h => h) hok hyield
  unfold Definition.writeArm
  simp only
  split
  · rename_i hempty
    have hnil := List.isEmpty_iff.mp hempty
    rw [hnil] at hbody
    simp only [runArm, armHead?_writeArm hname, Option.bind_eq_bind, Option.bind_some, hlen,
      and_self, if_true]
    exact hbody
  · simp only [runArm, List.cons_append, armHead?_writeArm hname, Option.bind_eq_bind,
      Option.bind_some, hlen, and_self, if_true]
    exact hbody

end OpcodeForge.Generated
