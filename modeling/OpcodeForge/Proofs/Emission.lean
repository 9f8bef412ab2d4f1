import Mathlib.Data.List.Forall2
import OpcodeForge.Artifact

/-!
# What emitters make

An emitter goes over the table once and knows of it what it has noted. For each emitter the state
after some opcodes is a summary of them, so that a run over the whole table makes a section: the
same header, the code of each opcode, and a footer that may be read off the table. An artifact is
then a list of sections.
-/

namespace OpcodeForge

/-! ## Runs of an emitter -/

/-- The code of a section. -/
def Section.fragments (s : Section) (t : Table) : List Fragment := s.emitter.fragments t

section Runs

variable {e : Emitter} {summary : List Descriptor → e.State}

/-- The state is a summary of the opcodes so far, and the code of an opcode is the same in each of
these states. -/
structure Emitter.Tracks (e : Emitter) (summary : List Descriptor → e.State) : Prop where
  start : e.start = summary []
  step : ∀ seen d, e.opcode (summary seen) d = ((e.opcode e.start d).1, summary (seen ++ [d]))

theorem Emitter.Tracks.foldl_step (h : e.Tracks summary) (seen ds : List Descriptor)
    (made : List Fragment) :
    ds.foldl e.step (summary seen, made) =
      (summary (seen ++ ds), made ++ ds.flatMap fun d => (e.opcode e.start d).1) := by
  induction ds generalizing seen made with
  | nil => simp
  | cons d ds ih =>
      have hstep : e.step (summary seen, made) d =
          (summary (seen ++ [d]), made ++ (e.opcode e.start d).1) := by
        simp only [Emitter.step, h.step]
      rw [List.foldl_cons, hstep, ih]
      simp

/-- Over a whole table the last phase has the summary of the table. -/
theorem Emitter.Tracks.fragments_eq (h : e.Tracks summary) (t : Table) :
    e.fragments t =
      e.header ++ (t.descriptors.flatMap fun d => (e.opcode e.start d).1) ++
        e.footer (summary t.descriptors) := by
  have hfold := h.foldl_step [] t.descriptors e.header
  rw [← h.start, List.nil_append] at hfold
  rw [Emitter.fragments, hfold]

/-- A section has nothing to keep. -/
theorem Section.fragments_eq (s : Section) (t : Table) :
    s.fragments t = s.header ++ t.descriptors.flatMap s.body ++ s.footer :=
  have htracks : s.emitter.Tracks fun _ => () := ⟨rfl, fun _ _ => rfl⟩
  htracks.fragments_eq t

/-- The section of an emitter that ends in a state. -/
def Emitter.sectionAt (e : Emitter) (final : e.State) : Section where
  toDemands := e.toDemands
  header := e.header
  body d := (e.opcode e.start d).1
  footer := e.footer final

/-- An emitter asks what a section asks, and makes it. -/
structure Emitter.Makes (t : Table) (e : Emitter) (s : Section) : Prop where
  demands : e.toDemands = s.toDemands
  fragments : e.fragments t = s.fragments t

theorem Emitter.Tracks.makes (h : e.Tracks summary) (t : Table) :
    e.Makes t (e.sectionAt (summary t.descriptors)) where
  demands := rfl
  fragments := by
    rw [h.fragments_eq, Section.fragments_eq]
    rfl

theorem Section.makes (s : Section) (t : Table) : s.emitter.Makes t s := ⟨rfl, rfl⟩

end Runs

/-! ## The sections of the artifacts -/

namespace Grammar

/-- The choice between the rules of all opcodes. -/
def statement (t : Table) : String := choice (t.descriptors.map Descriptor.ruleName)

theorem tracks : emitter.Tracks fun seen => seen.map Descriptor.ruleName where
  start := rfl
  step seen d := by simp [emitter]

/-- The sections of the grammar. -/
def sections (t : Table) : List Section :=
  [emitter.sectionAt (t.descriptors.map Descriptor.ruleName)]

end Grammar

namespace Definition

/-- The entries of the table of sizes. -/
def sizes (t : Table) : List String := t.descriptors.map sizeEntry

/-- The entries of the table of terminal flags. -/
def terminals (t : Table) : List String := t.descriptors.map terminalEntry

theorem tracks (paths : CodePaths) :
    (lookupEmitter paths).Tracks fun seen => ⟨seen.map sizeEntry, seen.map terminalEntry⟩ where
  start := rfl
  step seen d := by simp [lookupEmitter]

/-- The functions from a definition to its opcode, its size and its terminal flag. -/
def lookupSection (paths : CodePaths) (t : Table) : Section :=
  (lookupEmitter paths).sectionAt ⟨sizes t, terminals t⟩

/-- The sections of the definitions. -/
def sections (paths : CodePaths) (t : Table) : List Section :=
  [Code.importSection [paths.bytecode, paths.opcode],
    Code.enumSection "Debug, Clone" enumName Descriptor.builderOperands requirements,
    lookupSection paths t,
    writeSection paths]

end Definition

namespace Ordinals

/-- The sentinel's discriminant: one more than the last ordinal. -/
def sentinel (t : Table) : Nat :=
  match t.descriptors.getLast? with
  | some d => d.ordinal.toNat + 1
  | none => 0

theorem tracks (name : String) :
    (emitter name).Tracks fun seen =>
      ⟨sentinel ⟨seen⟩, seen.map fun d => name ++ "::" ++ d.name⟩ where
  start := rfl
  step seen d := by simp [emitter, sentinel]

/-- The section of the ordinal enum called `name`. -/
def enumSection (name : String) (t : Table) : Section :=
  (emitter name).sectionAt ⟨sentinel t, t.descriptors.map fun d => name ++ "::" ++ d.name⟩

/-- The sections of the ordinals. -/
def sections (paths : CodePaths) (t : Table) : List Section :=
  [enumSection (Code.lastSegment paths.opcode) t]

end Ordinals

/-- The sections of an artifact. -/
def Artifact.sections (kind : ArtifactKind) (t : Table) (paths : CodePaths) : List Section :=
  match kind with
  | .grammar => Grammar.sections t
  | .astEnum => Ast.enumSections paths
  | .astDispatch => Ast.dispatchSections paths
  | .lowering => Lowering.sections paths
  | .instructionDef => Definition.sections paths t
  | .runtimeDecoder => Decoder.sections paths
  | .opcodes => Ordinals.sections paths t

/-! ## Artifacts -/

section Artifacts

open Emitter

variable {kind : ArtifactKind} {t : Table} {paths : CodePaths} {config : Config}
  {emitters : List Emitter} {sections : List Section}

theorem forall₂_makes_sections (sections : List Section) :
    List.Forall₂ (Makes t) (sections.map Section.emitter) sections := by
  rw [List.forall₂_map_left_iff, List.forall₂_same]
  exact fun s _ => s.makes t

/-- Each emitter of an artifact makes its section. -/
theorem Artifact.forall₂_makes :
    List.Forall₂ (Makes t) (Artifact.emitters kind paths) (Artifact.sections kind t paths) := by
  cases kind with
  | grammar => exact .cons (Grammar.tracks.makes t) .nil
  | astEnum => exact forall₂_makes_sections _
  | astDispatch => exact forall₂_makes_sections _
  | lowering => exact forall₂_makes_sections _
  | instructionDef =>
      exact .cons (Section.makes _ t) (.cons (Section.makes _ t)
        (.cons ((Definition.tracks paths).makes t) (.cons (Section.makes _ t) .nil)))
  | runtimeDecoder => exact forall₂_makes_sections _
  | opcodes => exact .cons ((Ordinals.tracks _).makes t) .nil

theorem findSome?_fault?_of_makes (h : List.Forall₂ (Makes t) emitters sections) :
    (emitters.findSome? fun e => e.fault? kind t) =
      sections.findSome? fun s => s.fault? kind t := by
  induction h with
  | nil => rfl
  | cons hmakes _ ih => rw [List.findSome?_cons, List.findSome?_cons, hmakes.demands, ih]

theorem flatMap_fragments_of_makes (h : List.Forall₂ (Makes t) emitters sections) :
    (emitters.flatMap fun e => e.fragments t) = sections.flatMap fun s => s.fragments t := by
  induction h with
  | nil => rfl
  | cons hmakes _ ih => rw [List.flatMap_cons, List.flatMap_cons, hmakes.fragments, ih]

/-- The code of an artifact is that of its sections. -/
theorem Artifact.assembleFragments_eq :
    assembleFragments (Artifact.emitters kind paths) t =
      banner ++ (Artifact.sections kind t paths).flatMap fun s => s.fragments t := by
  rw [assembleFragments, flatMap_fragments_of_makes Artifact.forall₂_makes]

/-- An artifact is generated from its code, unless one of its sections has a fault. -/
theorem Artifact.generate_eq :
    Artifact.generate kind t config =
      if t.isEmpty then .error .emptyTable
      else
        match (Artifact.sections kind t config.paths).findSome? fun s => s.fault? kind t with
        | some fault => .error fault
        | none => .ok (({} : Layout).append
            (assembleFragments (Artifact.emitters kind config.paths) t)).render := by
  rw [← findSome?_fault?_of_makes Artifact.forall₂_makes]
  rfl

end Artifacts

end OpcodeForge
