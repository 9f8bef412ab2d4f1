import OpcodeForge.Artifact
import OpcodeForge.Config.Document
import OpcodeForge.Manifest
import OpcodeForge.Text.Newline
import OpcodeForge.Workspace.Storage

/-!
# Runs

A run loads the configuration, the table and the manifest, makes everything in memory, and then
either writes it, the manifest last, or compares it with what is there.
-/

namespace OpcodeForge

/-- The configuration file that is looked for in the root directory. -/
def configFile : Path := ⟨"isagen.json"⟩

/-- What a run is asked to do. -/
structure Options where
  /-- The directory that configured paths are relative to. -/
  root : Path := ⟨"."⟩
  /-- A configuration file to use instead of the one in the root directory. -/
  config : Option Path := none
  /-- Compare instead of writing. -/
  check : Bool := false
  deriving DecidableEq, Repr

/-- What a run did. -/
inductive Outcome where
  | written (artifacts : Nat)
  | upToDate
  | stale (paths : List Path)
  deriving DecidableEq, Repr

/-- Why a run failed. -/
inductive RunError where
  | load (path : Path) (cause : SpecError)
  | notExtension (table manifest : Path) (cause : SpecError)
  | generate (cause : EmitError)
  | create (path : Path)
  | write (path : Path)
  | read (path : Path)
  deriving DecidableEq, Repr

/-- The wording of a fault and what is behind it. What is wrong inside a document or with a file has
no wording of its own. -/
def SpecError.chain : SpecError → List String
  | .malformed => []
  | .unreadable => []
  | .config cause => [SpecError.message (.config cause), cause.message]
  | fault => [fault.message]

/-- The wording of an error and what is behind it. -/
def EmitError.chain : EmitError → List String
  | .validation artifact cause => EmitError.message (.validation artifact cause) :: cause.chain
  | .config cause => [EmitError.message (.config cause), cause.message]
  | error => [error.message]

namespace RunError

/-- The wording of an error, without what is behind it. -/
def message : RunError → String
  | .load path _ => s!"load {path.text}"
  | .notExtension table manifest _ =>
    s!"{table.text} is not an append-only extension of {manifest.text}"
  | .generate _ => "generate artifacts"
  | .create path => s!"create {path.text}"
  | .write path => s!"write {path.text}"
  | .read path => s!"read {path.text}"

/-- The wording of an error and what is behind it, outermost first. -/
def chain (error : RunError) : List String :=
  error.message ::
    match error with
    | .load _ cause => cause.chain
    | .notExtension _ _ cause => cause.chain
    | .generate cause => cause.chain
    | _ => []

end RunError

/-- Everything that a run makes. -/
structure Generation where
  artifacts : List Artifact
  manifest : Manifest
  manifestPath : Path
  deriving DecidableEq, Repr

/-- The files of a generation in the order of writing. -/
def Generation.files (g : Generation) : List (Path × String) :=
  g.artifacts.map (fun artifact => (artifact.path, artifact.text)) ++
    [(g.manifestPath, g.manifest.toText)]

/-- The configuration of a document, if it is valid. -/
def Config.load (text : String) : Except SpecError Config := do
  let c ← Config.ofText text
  match c.validate with
  | .ok _ => pure c
  | .error cause => throw (.config cause)

namespace Run

variable {m : Type → Type} [Monad m] [Storage m]

/-- Reads a file and what its text says. -/
def loadFile {α : Type} (path : Path) (parse : String → Except SpecError α) :
    ExceptT RunError m α := do
  match ← Storage.readText path with
  | .error _ => throw (.load path .unreadable)
  | .ok text =>
    match parse text with
    | .ok a => pure a
    | .error cause => throw (.load path cause)

/-- The configuration file to use, if there is one. -/
def configPath? (options : Options) : m (Option Path) :=
  match options.config with
  | some path => pure (some path)
  | none => do
    let path := options.root.join configFile
    if ← Storage.isPresent path then pure (some path) else pure none

/-- The configuration with its files seen from the root directory. -/
def loadConfig (options : Options) : ExceptT RunError m Config := do
  match ← configPath? options with
  | some path =>
    let config ← loadFile path Config.load
    pure (config.resolved options.root)
  | none => pure (Config.resolved {} options.root)

/-- The published manifest; nothing was published if there is no file. -/
def loadManifest (path : Path) : ExceptT RunError m Manifest := do
  if ← Storage.isPresent path then loadFile path Manifest.ofText else pure {}

/-- Loads the table, holds it to what was published, and makes everything. -/
def prepare (config : Config) : ExceptT RunError m Generation := do
  let table ← loadFile config.table Table.ofText
  let published ← loadManifest config.manifest
  match published.check table with
  | .error cause => throw (.notExtension config.table config.manifest cause)
  | .ok _ => pure ()
  match Artifact.generateAll table config with
  | .error cause => throw (.generate cause)
  | .ok artifacts =>
    pure { artifacts, manifest := Manifest.ofTable table, manifestPath := config.manifest }

/-- Writes a file and makes the directories above it. -/
def writeFile (path : Path) (text : String) : ExceptT RunError m Unit := do
  match path.parent? with
  | some parent => unless ← Storage.makeDirectories parent do throw (.create parent)
  | none => pure ()
  unless ← Storage.writeText path text do throw (.write path)

/-- Writes files in order. -/
def writeFiles : List (Path × String) → ExceptT RunError m Unit
  | [] => pure ()
  | (path, text) :: files => do
    writeFile path text
    writeFiles files

/-- Whether a file is missing or says something else, line endings apart. -/
def isStale (path : Path) (text : String) : ExceptT RunError m Bool := do
  match ← Storage.readText path with
  | .ok current => pure (Text.unifyNewlines current != Text.unifyNewlines text)
  | .error .missing => pure true
  | .error .obstructed => throw (.read path)

/-- The files that are out of date. -/
def staleFiles : List (Path × String) → ExceptT RunError m (List Path)
  | [] => pure []
  | (path, text) :: files => do
    let stale ← isStale path text
    let rest ← staleFiles files
    pure (if stale then path :: rest else rest)

/-- One run. -/
def run (options : Options) : ExceptT RunError m Outcome := do
  let config ← loadConfig options
  let generation ← prepare config
  if options.check then
    let stale ← staleFiles generation.files
    pure (if stale.isEmpty then .upToDate else .stale stale)
  else
    writeFiles generation.files
    pure (.written generation.artifacts.length)

end Run

end OpcodeForge
