import Mathlib.Algebra.GroupWithZero.Nat
import OpcodeForge.Proofs.Generated.Dispatch
import OpcodeForge.Sample.Lowering

/-!
# The back end of the sample

From instructions to definitions, to bytecode, to instructions of the wire. Lowering keeps names and
operands in order, and reading what is written gives every instruction back at its offset with its
operands on the wire. The dispatch of lowering is the one that is generated.
-/

namespace OpcodeForge.Sample

namespace Instruction

/-- The definition with the name and the operands of an instruction. -/
def definition : Instruction → Definition
  | .push value => .push value
  | .jump target => .jump target
  | .call target arity => .call target arity
  | .nop => .nop
  | .ret => .ret

/-- The instruction on the wire: a push keeps the low byte, a call has its arity first. -/
def onWire : Instruction → Wire
  | .push value => .push (UInt8.ofNat (value.toInt % 256).toNat)
  | .jump target => .jump target
  | .call target arity => .call arity target
  | .nop => .nop
  | .ret => .ret

def isCall : Instruction → Bool
  | .call _ _ => true
  | _ => false

def jumpTarget? : Instruction → Option UInt16
  | .jump target => some target
  | _ => none

variable (i : Instruction)

theorem name_definition : i.definition.opcode.name = i.name := by cases i <;> rfl

theorem operands_definition : i.definition.operands = i.operands := by cases i <;> rfl

theorem opcode_onWire : i.onWire.opcode = i.definition.opcode := by cases i <;> rfl

theorem operands_onWire :
    i.onWire.operands = i.definition.wireOperands.map UInt16.toNat := by
  cases i with
  | push value =>
      have hwire := Instruction.toNat_truncate value .byte
      simp only [Width.modulus] at hwire
      simp only [onWire, Wire.operands, definition, Definition.wireOperands, List.map_cons,
        List.map_nil, UInt8.toNat_ofNat']
      congr 1
      omega
  | jump target => rfl
  | call target arity =>
      simp [onWire, Wire.operands, definition, Definition.wireOperands]
  | nop => rfl
  | ret => rfl

end Instruction

/-! ## Lowering -/

section Step

variable (l : Lowered) (i : Instruction)

theorem definitions_lowerInstruction :
    (lowerInstruction l i).definitions.toList = l.definitions.toList ++ [i.definition] := by
  cases i <;> exact Array.toList_push

theorem callSites_lowerInstruction :
    (lowerInstruction l i).callSites = l.callSites + if i.isCall then 1 else 0 := by
  cases i <;> rfl

theorem jumpTargets_lowerInstruction :
    (lowerInstruction l i).jumpTargets.toList = l.jumpTargets.toList ++ i.jumpTarget?.toList := by
  cases i with
  | jump target => exact Array.toList_push
  | _ => exact (List.append_nil _).symm

end Step

/-- Lowering has made the definitions of instructions, in order, has counted the calls among them and
has collected the targets of the jumps. -/
structure Lowered.Follows (l : Lowered) (instructions : List Instruction) : Prop where
  definitions : l.definitions.toList = instructions.map Instruction.definition
  callSites : l.callSites = instructions.countP Instruction.isCall
  jumpTargets : l.jumpTargets.toList = instructions.filterMap Instruction.jumpTarget?

theorem Lowered.Follows.nil : Lowered.Follows {} [] := ⟨rfl, rfl, rfl⟩

theorem Lowered.Follows.snoc {l : Lowered} {instructions : List Instruction}
    (h : l.Follows instructions) (i : Instruction) :
    (lowerInstruction l i).Follows (instructions ++ [i]) where
  definitions := by
    rw [definitions_lowerInstruction, h.definitions, List.map_append, List.map_singleton]
  callSites := by
    rw [callSites_lowerInstruction, h.callSites, List.countP_append, List.countP_singleton]
  jumpTargets := by
    rw [jumpTargets_lowerInstruction, h.jumpTargets, List.filterMap_append]
    cases i <;> rfl

theorem Lowered.Follows.foldl {l : Lowered} {before : List Instruction} (h : l.Follows before)
    (instructions : List Instruction) :
    (instructions.foldl lowerInstruction l).Follows (before ++ instructions) := by
  induction instructions generalizing l before with
  | nil => simpa using h
  | cons i instructions ih =>
      have hrest := ih (h.snoc i)
      rw [List.append_assoc] at hrest
      exact hrest

theorem follows_lower (instructions : List Instruction) :
    (lower instructions).Follows instructions :=
  Lowered.Follows.nil.foldl instructions

/-- The lagging dispatch lowers what the dispatch of the table does, up to the opcode it does not
know. -/
theorem lowerLaggingInstruction_eq {i : Instruction} (h : i ≠ .ret) (l : Lowered) :
    lowerLaggingInstruction l i = .ok (lowerInstruction l i) := by
  cases i with
  | ret => exact absurd rfl h
  | _ => rfl

theorem foldlM_lowerLagging_of_notMem {instructions : List Instruction}
    (h : Instruction.ret ∉ instructions) (l : Lowered) :
    instructions.foldlM lowerLaggingInstruction l = .ok (instructions.foldl lowerInstruction l) := by
  induction instructions generalizing l with
  | nil => rfl
  | cons i instructions ih =>
      obtain ⟨hne, hrest⟩ := not_or.mp (List.mem_cons.not.mp h)
      rw [List.foldlM_cons, lowerLaggingInstruction_eq (Ne.symm hne)]
      exact ih hrest (lowerInstruction l i)

theorem foldlM_lowerLagging_of_mem {instructions : List Instruction}
    (h : Instruction.ret ∈ instructions) (l : Lowered) :
    instructions.foldlM lowerLaggingInstruction l = .error ⟨.ret⟩ := by
  induction instructions generalizing l with
  | nil => cases h
  | cons i instructions ih =>
      rw [List.foldlM_cons]
      by_cases hret : i = .ret
      · rw [hret]
        rfl
      · rw [lowerLaggingInstruction_eq hret]
        exact ih ((List.mem_cons.mp h).resolve_left (Ne.symm hret)) (lowerInstruction l i)

/-! ## Bytecode -/

namespace Definition

/-- The bytes of a definition. -/
def bytes (d : Definition) : List UInt8 :=
  d.opcode.toByte :: operandBytes d.opcode.widths d.wireOperands

/-- Where a definition starts: past all those before it. -/
def offset (ds : List Definition) (k : Nat) : Nat := ((ds.take k).map wireSize).sum

theorem length_bytes (d : Definition) : d.bytes.length = d.wireSize := by
  cases d <;> rfl

theorem toList_foldl_write (ds : List Definition) (b : Bytecode) :
    (ds.foldl (fun b d => d.write b) b).bytes.toList = b.bytes.toList ++ ds.flatMap bytes := by
  induction ds generalizing b with
  | nil => simp
  | cons d ds ih =>
      rw [List.foldl_cons, ih, toList_write, List.flatMap_cons, List.append_assoc]
      rfl

theorem toList_writeAll (ds : List Definition) :
    (writeAll ds).bytes.toList = ds.flatMap bytes :=
  toList_foldl_write ds {}

theorem length_flatMap_bytes (ds : List Definition) :
    (ds.flatMap bytes).length = (ds.map wireSize).sum := by
  induction ds with
  | nil => rfl
  | cons d ds ih => simp [length_bytes, ih]

variable {ds : List Definition} {k : Nat} {d : Definition}

theorem offset_succ (hd : ds[k]? = some d) : offset ds (k + 1) = offset ds k + d.wireSize := by
  simp [offset, List.take_add_one, hd]

theorem size_writeAll : (writeAll ds).size = offset ds ds.length := by
  rw [Bytecode.size, ← Array.length_toList, toList_writeAll, length_flatMap_bytes, offset,
    List.take_length]

/-- The bytes of a definition stand at its offset. -/
theorem holds_writeAll (hd : ds[k]? = some d) : (writeAll ds).Holds (offset ds k) d.bytes := by
  obtain ⟨hk, rfl⟩ := List.getElem?_eq_some_iff.mp hd
  have hbefore : ((ds.take k).flatMap bytes).length = offset ds k := length_flatMap_bytes _
  have hsplit : ds.flatMap bytes =
      (ds.take k).flatMap bytes ++ (ds[k].bytes ++ (ds.drop (k + 1)).flatMap bytes) := by
    rw [← List.flatMap_cons, ← List.drop_eq_getElem_cons hk, ← List.flatMap_append,
      List.take_append_drop]
  have hdrop : (writeAll ds).bytes.toList.drop (offset ds k) =
      ds[k].bytes ++ (ds.drop (k + 1)).flatMap bytes := by
    rw [toList_writeAll, hsplit, ← hbefore, List.drop_left]
  exact Bytecode.holds_of_drop_eq hdrop

end Definition

/-! ## Reading back -/

namespace Wire

theorem observe_injective {x y : Wire × Nat} (h : observe x = observe y) : x = y := by
  obtain ⟨i, next⟩ := x
  obtain ⟨j, next'⟩ := y
  simp only [observe, Prod.mk.injEq] at h
  obtain ⟨hname, hoperands, rfl⟩ := h
  cases i <;> cases j <;> simp_all [opcode, Opcode.name, operands, UInt8.toNat_inj, UInt16.toNat_inj]

/-- An instruction is read where the bytes of its definition stand. -/
theorem read?_of_holds {b : Bytecode} {offset : Nat} {i : Instruction}
    (h : b.Holds offset i.definition.bytes) :
    read? b offset = some (i.onWire, offset + i.definition.wireSize) := by
  have hagrees := i.definition.agrees_instruction
  have hdecoded : Decoded.read? table b offset =
      some (⟨i.definition.opcode.descriptor, i.definition.wireOperands⟩,
        offset + i.definition.wireSize) := by
    refine (Decoded.read?_eq_some_iff wellFormed_table).mpr ⟨⟨i.definition.opcode.mem_table,
      i.definition.onWire_instruction.fits⟩, ?_, by rw [hagrees.wireSize]; rfl⟩
    have hwire : (Decoded.mk i.definition.opcode.descriptor i.definition.wireOperands).wire =
        i.definition.bytes := by
      rw [Decoded.wire, Opcode.runtimeOperands_descriptor, Definition.bytes, hagrees.opcode]
      rfl
    exact hwire ▸ h
  have hread := @observe_read? b offset
  rw [hdecoded] at hread
  obtain ⟨x, hx, hobserve⟩ := Option.map_eq_some_iff.mp hread
  rw [hx]
  refine congrArg some (observe_injective (hobserve.trans ?_))
  simp only [observeDecoded, observe, i.opcode_onWire, i.operands_onWire, Decoded.name,
    Opcode.name_descriptor]

theorem readFrom_of_read? {b : Bytecode} {offset next : Nat} {i : Wire}
    (h : read? b offset = some (i, next)) : readFrom b offset = (offset, i) :: readFrom b next := by
  rw [readFrom]
  split
  · rename_i hread
    rw [h] at hread
    cases hread
    rfl
  · rename_i hread
    rw [h] at hread
    cases hread

theorem readFrom_size (b : Bytecode) : readFrom b b.size = [] := by
  have hnone : read? b b.size = none := if_pos (Nat.le_refl _)
  rw [readFrom]
  split
  · rename_i hread
    rw [hnone] at hread
    cases hread
  · rfl

/-- What is read from the offset of an instruction on, by the instructions that are left. -/
theorem readFrom_offset {ds : List Definition} {before rest : List Instruction}
    (hds : ds = (before ++ rest).map Instruction.definition) :
    readFrom (Definition.writeAll ds) (Definition.offset ds before.length) =
      (rest.zipIdx before.length).map fun (i, k) => (Definition.offset ds k, i.onWire) := by
  induction rest generalizing before with
  | nil =>
      have hlength : before.length = ds.length := by simp [hds]
      rw [hlength, ← Definition.size_writeAll, readFrom_size]
      rfl
  | cons i rest ih =>
      have hget : ds[before.length]? = some i.definition := by simp [hds]
      have hread := read?_of_holds (Definition.holds_writeAll hget)
      rw [readFrom_of_read? hread, ← Definition.offset_succ hget]
      have hrest := @ih (before ++ [i]) (by simpa using hds)
      rw [List.length_append, List.length_singleton] at hrest
      rw [hrest, List.zipIdx_cons, List.map_cons]

end Wire

/-! ## The generated dispatch -/

/-- The table of the sample before its last opcode. -/
def laggingTable : Table := ⟨table.descriptors.dropLast⟩

theorem ofRecords_records : Table.ofRecords records = .ok table := by decide +kernel

theorem ofRecords_dropLast : Table.ofRecords records.dropLast = .ok laggingTable := by decide +kernel

/-- The definition of a variant without a payload. -/
def bareDefinition? (variant : String) : Option Definition :=
  if variant = "Nop" then some .nop
  else if variant = "Ret" then some .ret
  else none

/-- The module of an opcode lowers the instructions of that opcode alone. -/
def handle? (module : String) (l : Lowered) : Instruction → Option Lowered
  | .push value => if module = "push" then some (l.push value) else none
  | .jump target => if module = "jump" then some (l.jump target) else none
  | .call target arity => if module = "call" then some (l.call target arity) else none
  | .nop => none
  | .ret => none

/-- Runs a dispatch of lowering on an instruction. Where it knows neither a variant nor a module, the
arm that catches all gives an error. -/
def runDispatch (x : Generated.Dispatch) (l : Lowered) (i : Instruction) :
    Option (Except Unhandled Lowered) :=
  match x.target? i.name with
  | some (.variant name) => (bareDefinition? name).map fun d => .ok (l.define d)
  | some (.module name) => (handle? name l i).map .ok
  | none => some (.error ⟨i⟩)

theorem runDispatch_table (paths : CodePaths) :
    ∃ x, Generated.loweringDispatch? paths (fun kind => Generated.code kind table paths) = some x ∧
      ∀ l i, runDispatch x l i = some (.ok (lowerInstruction l i)) := by
  refine ⟨_, Generated.loweringDispatch?_code wellFormed_table, fun l i => ?_⟩
  cases i <;> rfl

theorem runDispatch_laggingTable (paths : CodePaths) :
    ∃ x, Generated.loweringDispatch? paths (fun kind => Generated.code kind laggingTable paths) =
        some x ∧
      ∀ l i, runDispatch x l i = some (lowerLaggingInstruction l i) := by
  refine ⟨_, Generated.loweringDispatch?_code (.of_ofRecords ofRecords_dropLast), fun l i => ?_⟩
  cases i <;> rfl

/-! ## The whole back end -/

/-- Lowering gives a definition with the name and the operands of each instruction, in order, counts
the calls and collects the targets of the jumps. The bytecode of the definitions is read back as the
instructions on the wire, each at the end of the one before, up to the end of the buffer; the
generated reader reads the same. The lagging dispatch does as much where it knows every instruction
and fails where it does not. Both dispatches are the generated ones of their tables. -/
theorem lower_write_read (instructions : List Instruction) :
    ∃ definitions b,
      definitions = (lower instructions).definitions.toList ∧
      b = Definition.writeAll definitions ∧
      List.Forall₂ (fun i d => d.opcode.name = i.name ∧ d.operands = i.operands) instructions
        definitions ∧
      (lower instructions).callSites = instructions.countP Instruction.isCall ∧
      (lower instructions).jumpTargets.toList = instructions.filterMap Instruction.jumpTarget? ∧
      (∀ k i d, instructions[k]? = some i → definitions[k]? = some d →
        Definition.offset definitions (k + 1) = Definition.offset definitions k + d.wireSize ∧
        Wire.read? b (Definition.offset definitions k) =
          some (i.onWire, Definition.offset definitions (k + 1)) ∧
        ∀ paths, ∃ reading,
          Generated.runReader ⟨Code.lastSegment paths.opcode, Opcode.all.map Opcode.name⟩ b
              (Definition.offset definitions k) ((Decoder.readSection paths).fragments table) =
            some reading ∧
          reading.map (fun (name, values, next) => (name, values.map UInt16.toNat, next)) =
            some (i.name, i.onWire.operands, Definition.offset definitions (k + 1))) ∧
      Definition.offset definitions definitions.length = b.size ∧
      Wire.readFrom b 0 =
        instructions.zipIdx.map (fun (i, k) => (Definition.offset definitions k, i.onWire)) ∧
      (Instruction.ret ∉ instructions → lowerLagging instructions = .ok (lower instructions)) ∧
      (Instruction.ret ∈ instructions → lowerLagging instructions = .error ⟨.ret⟩) ∧
      Table.ofRecords records = .ok table ∧
      Table.ofRecords records.dropLast = .ok laggingTable ∧
      ∀ paths, ∃ current lagging,
        Generated.loweringDispatch? paths (fun kind => Generated.code kind table paths) =
          some current ∧
        Generated.loweringDispatch? paths (fun kind => Generated.code kind laggingTable paths) =
          some lagging ∧
        ∀ l i, runDispatch current l i = some (.ok (lowerInstruction l i)) ∧
          runDispatch lagging l i = some (lowerLaggingInstruction l i) := by
  obtain ⟨hdefinitions, hcalls, htargets⟩ := follows_lower instructions
  refine ⟨_, _, rfl, rfl, ?_, hcalls, htargets, ?_, Definition.size_writeAll.symm,
    @Wire.readFrom_offset _ [] instructions hdefinitions,
    fun h => foldlM_lowerLagging_of_notMem h {}, fun h => foldlM_lowerLagging_of_mem h {},
    ofRecords_records, ofRecords_dropLast, fun paths => ?_⟩
  · rw [hdefinitions, List.forall₂_map_right_iff]
    exact List.forall₂_same.mpr fun i _ => ⟨i.name_definition, i.operands_definition⟩
  · intro k i d hi hd
    have hsucc := Definition.offset_succ hd
    have hdefinition : d = i.definition := by
      rw [hdefinitions, List.getElem?_map, hi] at hd
      exact (Option.some.inj hd).symm
    have hread := Wire.read?_of_holds (hdefinition ▸ Definition.holds_writeAll hd)
    rw [← hdefinition, ← hsucc] at hread
    refine ⟨hsucc, hread, fun paths => ?_⟩
    obtain ⟨reading, hrun, hreading⟩ := runReader_readSection_table paths
      (Definition.writeAll (lower instructions).definitions.toList)
      (Definition.offset (lower instructions).definitions.toList k)
    refine ⟨reading, hrun, ?_⟩
    rw [hreading, hread, Option.map_some, Wire.observe, i.opcode_onWire, i.name_definition]
  · obtain ⟨current, hcurrent, hrun⟩ := runDispatch_table paths
    obtain ⟨lagging, hlagging, hrun'⟩ := runDispatch_laggingTable paths
    exact ⟨current, lagging, hcurrent, hlagging, fun l i => ⟨hrun l i, hrun' l i⟩⟩

end OpcodeForge.Sample
