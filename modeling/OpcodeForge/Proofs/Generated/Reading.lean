import OpcodeForge.Artifact.Decoder
import OpcodeForge.Proofs.Generated.Writing

/-!
# Running the generated reader

The lines of the generated `from_bytecode` are read one by one and run on a buffer and an offset. A
line that is not read, a name that is not bound and a read past the end of the buffer leave the run
without a result, so that a run with a result has read inside of the buffer.
-/

namespace OpcodeForge.Generated

/-- What the function refers to: the enum of ordinals, and its variants by ordinal. -/
structure Scope where
  opcodeType : String
  variants : List String
  deriving DecidableEq, Repr

/-- The variables of the function. -/
structure Frame where
  /-- The offset of the next read. -/
  index : Nat := 0
  /-- The variant of the opcode that was read. -/
  opcode : String := ""
  /-- The operands that were read, the last one first. -/
  locals : List (String × UInt16) := []
  deriving DecidableEq, Repr

/-- The variables after an operand was read under a name. -/
def Frame.read (frame : Frame) (name : String) (value : UInt16) (width : Width) : Frame :=
  { frame with index := frame.index + width.size, locals := (name, value) :: frame.locals }

/-- What the function returns: a variant with its operands, and the offset past it. -/
abbrev Reading : Type := Option (String × List UInt16 × Nat)

/-! ## Lines -/

/-- The name and the width of a statement that reads an operand. -/
def load? (text : String) : Option (String × Width) := do
  let cs ← text.toList.dropPrefix? "let ".toList
  let (name, cs) := word cs
  let cs ← cs.dropPrefix? " = bc.read_".toList
  let (width, cs) ← width? cs
  if cs = "(idx);".toList then some (name, width) else none

/-- The number of bytes that a statement moves the offset by. -/
def advance? (text : String) : Option Nat := do
  let cs ← text.toList.dropPrefix? "idx += ".toList
  let (bytes, cs) ← number? cs
  if cs = [';'] then some bytes else none

/-- The number of bytes that a guard asks for after the offset. -/
def guard? (text : String) : Option Nat := do
  let cs ← text.toList.dropPrefix? "if bc.len() < idx + ".toList
  let (bytes, cs) ← number? cs
  if cs = " \x7b".toList then some bytes else none

/-- The value that a text begins with, and the rest. -/
def value? (frame : Frame) (cs : List Char) : Option (Reading × List Char) :=
  match cs.dropPrefix? "None".toList with
  | some rest => some (none, rest)
  | none => do
      let cs ← cs.dropPrefix? "Some((RuntimeInstruction::".toList
      let (variant, cs) := word cs
      let (names, cs) := payload cs
      let rest ← cs.dropPrefix? ", idx))".toList
      let operands ← names.mapM fun name => frame.locals.lookup name
      some (some (variant, operands, frame.index), rest)

/-- The variant that an arm is for, and what follows the arrow. -/
def arm? (scope : Scope) (text : String) : Option (String × List Char) := do
  let cs ← text.toList.dropPrefix? scope.opcodeType.toList
  let cs ← cs.dropPrefix? "::".toList
  let (variant, cs) := word cs
  let cs ← cs.dropPrefix? " => ".toList
  some (variant, cs)

/-- What a statement does: it changes the variables, or the function returns. -/
inductive Effect where
  | go (frame : Frame)
  | give (value : Reading)
  deriving DecidableEq, Repr

def effect? (scope : Scope) (b : Bytecode) (offset : Nat) (frame : Frame) (text : String) :
    Option Effect :=
  if text = "return None;" then some (.give none)
  else if text = "let mut idx = i;" then some (.go { frame with index := offset })
  else if text = "let opcode = " ++ scope.opcodeType ++ "::from_u8(bc.read_u8(idx))?;" then do
    let byte ← b.readByte? frame.index
    match scope.variants[byte.toNat]? with
    | some variant => some (.go { frame with opcode := variant })
    | none => some (.give none)
  else
    match load? text, advance? text with
    | some (name, width), _ => do
        let value ← b.read? frame.index width
        some (.go { frame with locals := (name, value) :: frame.locals })
    | none, some bytes => some (.go { frame with index := frame.index + bytes })
    | none, none => none

def condition? (b : Bytecode) (offset : Nat) (frame : Frame) (text : String) : Option Bool :=
  if text = "if i >= bc.len() \x7b" then some (decide (b.size ≤ offset))
  else (guard? text).map fun bytes => decide (b.size < frame.index + bytes)

/-! ## Blocks -/

/-- Where a run stands: in a block, between the arms of a match, or in a block that it passes over
with `depth` blocks open inside. -/
inductive Mode where
  | block
  | arms
  | passing (depth : Nat) (back : Mode)
  deriving DecidableEq, Repr

/-- Runs the lines of the body. The last line of a block may be its value. -/
def run (scope : Scope) (b : Bytecode) (offset : Nat) :
    Mode → Frame → List Fragment → Option Reading
  | _, _, [] => none
  | .passing depth back, frame, .line _ :: rest =>
      run scope b offset (.passing depth back) frame rest
  | .passing depth back, frame, .enter _ :: rest =>
      run scope b offset (.passing (depth + 1) back) frame rest
  | .passing 0 back, frame, .leave _ :: rest => run scope b offset back frame rest
  | .passing (depth + 1) back, frame, .leave _ :: rest =>
      run scope b offset (.passing depth back) frame rest
  | .block, frame, .line text :: rest =>
      match effect? scope b offset frame text with
      | some (.go frame) => run scope b offset .block frame rest
      | some (.give value) => some value
      | none => do
          let (value, cs) ← value? frame text.toList
          if cs = [] ∧ rest.head? = some (.leave "\x7d") then some value else none
  | .block, frame, .enter text :: rest =>
      if text = "match opcode \x7b" then run scope b offset .arms frame rest
      else do
        let holds ← condition? b offset frame text
        run scope b offset (if holds then .block else .passing 0 .block) frame rest
  | .block, _, .leave _ :: _ => none
  | .arms, frame, .line text :: rest => do
      let (variant, body) ← arm? scope text
      if variant = frame.opcode then do
        let (value, cs) ← value? frame body
        if cs = [','] then some value else none
      else run scope b offset .arms frame rest
  | .arms, frame, .enter text :: rest => do
      let (variant, body) ← arm? scope text
      if body = ['\x7b'] then
        run scope b offset (if variant = frame.opcode then .block else .passing 0 .arms) frame rest
      else none
  | .arms, _, .leave _ :: _ => none

/-- Runs the function in its `impl` block. -/
def runReader (scope : Scope) (b : Bytecode) (offset : Nat) : List Fragment → Option Reading
  | .enter item :: .line _ :: .enter signature :: body =>
      if item = "impl RuntimeInstruction \x7b" ∧
          "pub fn from_bytecode(bc: &".toList.isPrefixOf signature.toList ∧
          ", i: usize) -> Option<(RuntimeInstruction, usize)> \x7b".toList.isSuffixOf
            signature.toList then
        run scope b offset .block {} body
      else none
  | _ => none

/-! ## Reading the lines -/

theorem load?_readLine (index : Nat) (width : Width) :
    load? ("let " ++ Writer.argName index ++ " = bc." ++ Decoder.readName width ++ "(idx);") =
      some (Writer.argName index, width) := by
  have htext : ("let " ++ Writer.argName index ++ " = bc." ++ Decoder.readName width ++
      "(idx);").toList = "let ".toList ++ ((Writer.argName index).toList ++
        (" = bc.read_".toList ++ (width.typeName.toList ++ "(idx);".toList))) := by
    simp [Decoder.readName]
  have hword := word_append (isName_argName index)
    (" = bc.read_".toList ++ (width.typeName.toList ++ "(idx);".toList)) rfl
  unfold load?
  rw [htext, dropPrefix?_append]
  simp only [Option.bind_eq_bind, Option.bind_some, hword]
  rw [dropPrefix?_append, Option.bind_some, width?_typeName, Option.bind_some]
  exact if_pos rfl

theorem advance?_repr (bytes : Nat) : advance? ("idx += " ++ Nat.repr bytes ++ ";") = some bytes := by
  unfold advance?
  simp only [String.toList_append, List.append_assoc, dropPrefix?_append, Option.bind_eq_bind,
    Option.bind_some, number?_repr bytes (by rfl : ";".toList.takeWhile Char.isDigit = [])]
  rfl

theorem guard?_repr (bytes : Nat) :
    guard? ("if bc.len() < idx + " ++ Nat.repr bytes ++ " \x7b") = some bytes := by
  unfold guard?
  simp only [String.toList_append, List.append_assoc, dropPrefix?_append, Option.bind_eq_bind,
    Option.bind_some, number?_repr bytes (by rfl : " \x7b".toList.takeWhile Char.isDigit = []),
    if_true]

theorem arm?_readArm {opcodeType name : String} {variants : List String} (hname : IsName name)
    (tail : String) :
    arm? ⟨opcodeType, variants⟩ (opcodeType ++ "::" ++ name ++ " => " ++ tail) =
      some (name, tail.toList) := by
  unfold arm?
  simp only [String.toList_append, List.append_assoc, dropPrefix?_append, Option.bind_eq_bind,
    Option.bind_some, word_append hname _
      (by rfl : (" => ".toList ++ tail.toList).takeWhile Text.isWordChar = [])]

/-- The text of an instruction is its value, if its operands are bound. -/
theorem value?_some {frame : Frame} {variant : String} {names : List String}
    {operands : List UInt16} (hvariant : IsName variant) (hnames : ∀ name ∈ names, IsName name)
    (hoperands : names.mapM (fun name => frame.locals.lookup name) = some operands)
    (rest : List Char) :
    value? frame ("Some((RuntimeInstruction::".toList ++ (variant.toList ++
        ((Code.tuple names).toList ++ (", idx))".toList ++ rest)))) =
      some (some (variant, operands, frame.index), rest) := by
  have hnone : ("Some((RuntimeInstruction::".toList ++ (variant.toList ++
      ((Code.tuple names).toList ++ (", idx))".toList ++ rest)))).dropPrefix? "None".toList =
      none := by
    rfl
  have hword : ((Code.tuple names).toList ++ (", idx))".toList ++ rest)).takeWhile
      Text.isWordChar = [] := by
    unfold Code.tuple
    split
    · rfl
    · simp [Text.isWordChar]
  have hparen : (", idx))".toList ++ rest).head? ≠ some '(' := by
    simp
  unfold value?
  rw [hnone]
  simp only [dropPrefix?_append, Option.bind_eq_bind, Option.bind_some,
    word_append hvariant _ hword, payload_tuple hnames hparen, hoperands]

/-! ## Effects of the lines -/

section Effects

variable {scope : Scope} {b : Bytecode} {offset : Nat} {frame : Frame}

theorem effect?_return : effect? scope b offset frame "return None;" = some (.give none) := by
  simp only [effect?, if_true]

theorem effect?_start :
    effect? scope b offset frame "let mut idx = i;" = some (.go { frame with index := offset }) := by
  unfold effect?
  rw [if_neg (by decide), if_pos rfl]

theorem effect?_fetch {byte : UInt8} {variant : String}
    (hbyte : b.readByte? frame.index = some byte)
    (hvariant : scope.variants[byte.toNat]? = some variant) :
    effect? scope b offset frame
        ("let opcode = " ++ scope.opcodeType ++ "::from_u8(bc.read_u8(idx))?;") =
      some (.go { frame with opcode := variant }) := by
  unfold effect?
  rw [if_neg (by simp [← String.toList_inj]), if_neg (by simp [← String.toList_inj]), if_pos rfl,
    hbyte]
  simp only [Option.bind_eq_bind, Option.bind_some, hvariant]

theorem effect?_fetch_unknown {byte : UInt8} (hbyte : b.readByte? frame.index = some byte)
    (hvariant : scope.variants[byte.toNat]? = none) :
    effect? scope b offset frame
        ("let opcode = " ++ scope.opcodeType ++ "::from_u8(bc.read_u8(idx))?;") =
      some (.give none) := by
  unfold effect?
  rw [if_neg (by simp [← String.toList_inj]), if_neg (by simp [← String.toList_inj]), if_pos rfl,
    hbyte]
  simp only [Option.bind_eq_bind, Option.bind_some, hvariant]

theorem effect?_load {index : Nat} {width : Width} {value : UInt16}
    (hvalue : b.read? frame.index width = some value) :
    effect? scope b offset frame
        ("let " ++ Writer.argName index ++ " = bc." ++ Decoder.readName width ++ "(idx);") =
      some (.go { frame with locals := (Writer.argName index, value) :: frame.locals }) := by
  unfold effect?
  rw [if_neg (by simp [← String.toList_inj]),
    if_neg (by simp [← String.toList_inj, Writer.argName]),
    if_neg (by simp [← String.toList_inj, Writer.argName]), load?_readLine]
  simp only [hvalue, Option.bind_eq_bind, Option.bind_some]

theorem effect?_advance (bytes : Nat) :
    effect? scope b offset frame ("idx += " ++ Nat.repr bytes ++ ";") =
      some (.go { frame with index := frame.index + bytes }) := by
  have hload : load? ("idx += " ++ Nat.repr bytes ++ ";") = none := by
    unfold load?
    rw [String.toList_append, String.toList_append, List.append_assoc]
    rfl
  unfold effect?
  rw [if_neg (by simp [← String.toList_inj]), if_neg (by simp [← String.toList_inj]),
    if_neg (by simp [← String.toList_inj]), hload, advance?_repr]

end Effects

end OpcodeForge.Generated
