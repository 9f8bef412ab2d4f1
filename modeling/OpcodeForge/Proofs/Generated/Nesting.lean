import OpcodeForge.Proofs.Generated.Structure

/-!
# The nesting of generated code

A layout counts how many blocks are open. Balanced code brings the count back to where it was and
leaves no block that it has not entered. What the artifacts say of an opcode is balanced, so that
the headers and footers of their sections alone decide whether the whole is.
-/

namespace OpcodeForge.Generated

/-! ## Open blocks -/

section Depth

variable {xs ys before after : List Fragment} {close : String} {depth last : Nat}
  {layout : Layout}

/-- The number of open blocks after code, unless the code leaves a block where none is open. -/
def depthAfter? : Nat → List Fragment → Option Nat
  | depth, [] => some depth
  | depth, .line _ :: rest => depthAfter? depth rest
  | depth, .enter _ :: rest => depthAfter? (depth + 1) rest
  | 0, .leave _ :: _ => none
  | depth + 1, .leave _ :: rest => depthAfter? depth rest

theorem depthAfter?_append :
    depthAfter? depth (xs ++ ys) = (depthAfter? depth xs).bind (depthAfter? · ys) := by
  induction xs generalizing depth with
  | nil => rfl
  | cons fragment xs ih =>
      cases fragment with
      | line _ => exact ih
      | enter _ => exact ih
      | leave _ =>
          cases depth with
          | zero => rfl
          | succ depth => exact ih

theorem Balanced.depthAfter? (h : Balanced xs) : depthAfter? depth xs = some depth := by
  induction h generalizing depth with
  | nil => rfl
  | line _ ih => exact ih
  | block _ _ ihbody ihrest =>
      rw [Generated.depthAfter?, depthAfter?_append, ihbody]
      exact ihrest

/-- Code inside of `depth` blocks that closes all of them. -/
inductive Closing : Nat → List Fragment → Prop where
  | balanced {xs : List Fragment} (hxs : Balanced xs) : Closing 0 xs
  | leave {depth : Nat} {close : String} {body rest : List Fragment} (hbody : Balanced body)
      (hrest : Closing depth rest) : Closing (depth + 1) (body ++ .leave close :: rest)

theorem Closing.append (hys : Closing depth ys) (hxs : Balanced xs) : Closing depth (xs ++ ys) := by
  cases hys with
  | balanced hys => exact .balanced (hxs.append hys)
  | leave hbody hrest =>
      rw [← List.append_assoc]
      exact .leave (hxs.append hbody) hrest

theorem closing_of_depthAfter? (h : depthAfter? depth xs = some 0) : Closing depth xs := by
  induction xs generalizing depth with
  | nil =>
      cases h
      exact .balanced .nil
  | cons fragment xs ih =>
      cases fragment with
      | line text => exact (ih h).append (.line .nil)
      | enter head =>
          -- The block that is entered here is the innermost one that the rest closes.
          cases ih h with
          | @leave _ close body rest hbody hrest =>
              have hblock : Balanced (.enter head :: (body ++ [.leave close])) := .block hbody .nil
              simpa using hrest.append hblock
      | leave _ =>
          cases depth with
          | zero => cases h
          | succ depth => exact .leave .nil (ih h)

theorem balanced_iff_depthAfter? : Balanced xs ↔ depthAfter? 0 xs = some 0 := by
  constructor
  · exact Balanced.depthAfter?
  · intro h
    cases closing_of_depthAfter? h with
    | balanced hxs => exact hxs

/-! ## The depth of a layout -/

theorem depth_addLine (text : String) : (layout.addLine text).depth = layout.depth := by
  unfold Layout.addLine
  split <;> rfl

theorem depth_append (h : depthAfter? layout.depth xs = some last) :
    (layout.append xs).depth = last := by
  induction xs generalizing layout with
  | nil => exact Option.some.inj h
  | cons fragment xs ih =>
      refine ih ?_
      cases fragment with
      | line text =>
          rw [Layout.push, depth_addLine]
          exact h
      | enter head =>
          rw [Layout.push, depth_addLine]
          exact h
      | leave close =>
          rw [Layout.push, depth_addLine]
          cases hdepth : layout.depth with
          | zero =>
              rw [hdepth] at h
              cases h
          | succ depth =>
              rw [hdepth] at h
              exact h

/-- Where code leaves a block, one is open. -/
theorem depth_pos_of_leave
    (h : depthAfter? layout.depth (before ++ .leave close :: after) = some last) :
    0 < (layout.append before).depth := by
  rw [depthAfter?_append, Option.bind_eq_some_iff] at h
  obtain ⟨depth, hbefore, hafter⟩ := h
  rw [depth_append hbefore]
  cases depth with
  | zero => cases hafter
  | succ depth => exact Nat.succ_pos depth

end Depth

/-! ## Sections -/

section Sections

variable {t : Table} {paths : CodePaths} {kind : ArtifactKind} {s : Section}
  {sections : List Section} {depth : Nat}

/-- The code of sections without what they say of opcodes. -/
def frame (sections : List Section) : List Fragment :=
  sections.flatMap fun s => s.header ++ s.footer

theorem depthAfter?_fragments (hbody : ∀ d, Balanced (s.body d)) :
    depthAfter? depth (s.fragments t) = depthAfter? depth (s.header ++ s.footer) := by
  have hall := Balanced.flatMap hbody t.descriptors
  rw [Section.fragments_eq, List.append_assoc, depthAfter?_append, depthAfter?_append]
  congr
  funext inner
  rw [depthAfter?_append, hall.depthAfter?, Option.bind_some]

/-- Tables of any length nest as deep as the frame of the sections. -/
theorem depthAfter?_sections (hbody : ∀ s ∈ sections, ∀ d, Balanced (s.body d)) :
    depthAfter? depth (sections.flatMap fun s => s.fragments t) =
      depthAfter? depth (frame sections) := by
  induction sections generalizing depth with
  | nil => rfl
  | cons s sections ih =>
      obtain ⟨hs, hsections⟩ := List.forall_mem_cons.mp hbody
      rw [frame, List.flatMap_cons, List.flatMap_cons, depthAfter?_append, depthAfter?_append,
        depthAfter?_fragments hs]
      congr
      funext inner
      exact ih hsections

theorem balanced_ite {p : Prop} [Decidable p] {xs ys : List Fragment} (hxs : Balanced xs)
    (hys : Balanced ys) : Balanced (if p then xs else ys) := by
  split
  · exact hxs
  · exact hys

theorem balanced_body (hs : s ∈ Artifact.sections kind t paths) (d : Descriptor) :
    Balanced (s.body d) := by
  have hline : ∀ text, Balanced [.line text] := fun _ => .line .nil
  cases kind with
  | grammar =>
      simp only [Artifact.sections, Grammar.sections, List.mem_singleton] at hs
      subst hs
      exact hline _
  | astEnum =>
      simp only [Artifact.sections, Ast.enumSections, List.mem_cons, List.not_mem_nil,
        or_false] at hs
      rcases hs with rfl | rfl
      · exact balanced_ite .nil (hline _)
      · exact hline _
  | astDispatch =>
      simp only [Artifact.sections, Ast.dispatchSections, List.mem_cons, List.not_mem_nil,
        or_false] at hs
      rcases hs with rfl | rfl
      · exact balanced_ite (hline _) .nil
      · exact balanced_ite .nil (hline _)
  | lowering =>
      simp only [Artifact.sections, Lowering.sections, List.mem_cons, List.not_mem_nil,
        or_false] at hs
      rcases hs with rfl | rfl | rfl
      · exact balanced_ite .nil (hline _)
      · exact balanced_ite (hline _) .nil
      · exact balanced_ite .nil (hline _)
  | instructionDef =>
      simp only [Artifact.sections, Definition.sections, List.mem_cons, List.not_mem_nil,
        or_false] at hs
      rcases hs with rfl | rfl | rfl | rfl
      · exact .nil
      · exact hline _
      · exact hline _
      · exact balanced_writeArm d
  | runtimeDecoder =>
      simp only [Artifact.sections, Decoder.sections, List.mem_cons, List.not_mem_nil,
        or_false] at hs
      rcases hs with rfl | rfl | rfl
      · exact .nil
      · exact hline _
      · exact balanced_readArm _ d
  | opcodes =>
      simp only [Artifact.sections, Ordinals.sections, List.mem_singleton] at hs
      subst hs
      exact hline _

/-- The frame of an artifact closes every block, also one that a section leaves to a later one. -/
theorem depthAfter?_frame :
    depthAfter? 0 (frame (Artifact.sections kind t paths)) = some 0 := by
  cases kind with
  | astEnum =>
      have himports : Balanced (paths.astImports.map Code.useLine) := by
        rw [map_useLine]
        exact balanced_lines _
      have hmodules : Balanced
          ((Ast.modulesSection paths).header ++ (Ast.modulesSection paths).footer) := .line himports
      rw [Artifact.sections, Ast.enumSections, frame, List.flatMap_cons, depthAfter?_append,
        hmodules.depthAfter?]
      rfl
  | _ => rfl

theorem balanced_code : Balanced (code kind t paths) := by
  have hbanner : Balanced banner := .line (.line .nil)
  rw [balanced_iff_depthAfter?, code_eq, depthAfter?_append, hbanner.depthAfter?, Option.bind_some,
    depthAfter?_sections fun s hs d => balanced_body hs d]
  exact depthAfter?_frame

end Sections

/-- The code of an artifact is balanced: where it leaves a block the layout is inside of one, and at
the end it is outside of all. -/
theorem generated_code_balanced {kind : ArtifactKind} {t : Table} {config : Config} {text : String}
    (h : Artifact.generate kind t config = .ok text) :
    text = (({} : Layout).append (code kind t config.paths)).render ∧
    Balanced (code kind t config.paths) ∧
    (∀ before close after, code kind t config.paths = before ++ .leave close :: after →
      0 < (({} : Layout).append before).depth) ∧
    (({} : Layout).append (code kind t config.paths)).depth = 0 := by
  have hbalanced := @balanced_code t config.paths kind
  have hdepth : depthAfter? ({} : Layout).depth (code kind t config.paths) = some 0 :=
    hbalanced.depthAfter?
  refine ⟨Artifact.eq_render_of_generate h, hbalanced, ?_, depth_append hdepth⟩
  intro before close after hsplit
  rw [hsplit] at hdepth
  exact depth_pos_of_leave hdepth

/-- The block of the definitions' functions is entered in one section and left in the next. -/
theorem generated_code_balanced_push_jump :
    Table.ofText Table.pushJumpText = .ok ⟨[Table.push, Table.jump]⟩ ∧
    (∃ text, Artifact.generate .instructionDef ⟨[Table.push, Table.jump]⟩ {} = .ok text) ∧
    Balanced (code .instructionDef ⟨[Table.push, Table.jump]⟩ {}) ∧
    ¬Balanced ((Definition.lookupEmitter {}).fragments ⟨[Table.push, Table.jump]⟩) ∧
    (({} : Layout).append (code .instructionDef ⟨[Table.push, Table.jump]⟩ {})).depth = 0 := by
  have hgenerate : ∃ text,
      Artifact.generate .instructionDef ⟨[Table.push, Table.jump]⟩ {} = .ok text := ⟨_, rfl⟩
  obtain ⟨-, hbalanced, -, hdepth⟩ := generated_code_balanced hgenerate.choose_spec
  refine ⟨Table.ofText_pushJumpText, hgenerate, hbalanced, ?_, hdepth⟩
  rw [balanced_iff_depthAfter?]
  exact fun hclosed => by cases hclosed

end OpcodeForge.Generated
