import OpcodeForge.Artifact.Section

/-!
# Emitters

A part of an artifact is made in one pass over the table, in three phases: what stands before the
opcodes, the code of each opcode in table order, and what stands after them. An emitter keeps a
state on the way, for what its last phase says of the whole table. `renderEmitters` holds the table
to every emitter before it makes any text.
-/

namespace OpcodeForge

/-- What makes a part of an artifact. -/
structure Emitter extends Demands where
  State : Type
  start : State
  header : List Fragment := []
  /-- The code of an opcode, and the state after it. -/
  opcode : State → Descriptor → List Fragment × State
  footer : State → List Fragment := fun _ => []

/-- A section keeps nothing of the opcodes it has seen. -/
def Section.emitter (s : Section) : Emitter where
  toDemands := s.toDemands
  State := Unit
  start := ()
  header := s.header
  opcode _ d := (s.body d, ())
  footer _ := s.footer

namespace Emitter

/-- Adds the code of an opcode to what is made so far. -/
def step (e : Emitter) (reached : e.State × List Fragment) (d : Descriptor) :
    e.State × List Fragment :=
  let (fragments, state) := e.opcode reached.1 d
  (state, reached.2 ++ fragments)

/-- What an emitter makes of a table: the header, the code of each opcode in table order and the
footer. -/
def fragments (e : Emitter) (t : Table) : List Fragment :=
  let (state, made) := t.descriptors.foldl e.step (e.start, e.header)
  made ++ e.footer state

end Emitter

/-- The lines at the top of every artifact. -/
def banner : List Fragment :=
  [.line "// this file is autogenerated, do not edit manually",
    .line "// to change this file edit the opcode table and re-run isagen"]

/-- The code of an artifact: what its emitters make, one after the other. -/
def assembleFragments (emitters : List Emitter) (t : Table) : List Fragment :=
  banner ++ emitters.flatMap fun e => e.fragments t

/-- The text of an artifact, unless an emitter has a fault. -/
def renderEmitters (kind : ArtifactKind) (t : Table) (emitters : List Emitter) :
    Except EmitError String :=
  match emitters.findSome? fun e => e.fault? kind t with
  | some fault => .error fault
  | none => .ok (({} : Layout).append (assembleFragments emitters t)).render

/-- The text of an artifact made of sections. -/
def renderSections (kind : ArtifactKind) (t : Table) (sections : List Section) :
    Except EmitError String :=
  renderEmitters kind t (sections.map Section.emitter)

end OpcodeForge
