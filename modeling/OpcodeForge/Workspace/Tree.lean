import OpcodeForge.Workspace.Storage

/-!
# Workspaces

A workspace is a tree of files as a value: what stands at each location, and the location that
relative paths start from. A path is followed part by part, each from a directory; a dot stays, two
dots go to the directory above, and a slash at the end asks for a directory. Names and paths have
only so many bytes, and a longer one leads nowhere.
-/

namespace OpcodeForge

/-- What stands at a location. -/
inductive Entry where
  | file (content : ByteArray)
  | directory

/-- The names on the way from the root. -/
abbrev Location := List String

/-- A tree of files. -/
structure Workspace where
  /-- What stands at each location but the root, which is a directory. -/
  entries : List (Location × Entry) := []
  /-- The directory that relative paths start from. -/
  current : Location := []

/-- A step of a path. -/
inductive Path.Step where
  | stay
  | up
  | down (name : String)
  deriving DecidableEq, Repr

/-- The step of a part between slashes. -/
def Path.Step.ofPart? (part : String) : Option Path.Step :=
  if part == "" then none
  else if part == "." then some .stay
  else if part == ".." then some .up
  else some (.down part)

/-- The location that a step leads to. -/
def Path.Step.apply (step : Path.Step) (location : Location) : Location :=
  match step with
  | .stay => location
  | .up => location.dropLast
  | .down name => location ++ [name]

/-- The steps of a path. -/
def Path.steps (p : Path) : List Path.Step :=
  p.parts.filterMap Path.Step.ofPart? ++
    if p.text.toList.getLast? == some '/' then [.stay] else []

/-- The most bytes that a name has. -/
def Path.maxNameSize : Nat := 255

/-- The most bytes that a path has. -/
def Path.maxSize : Nat := 4095

/-- Whether a step can be taken at all. -/
def Path.Step.isUsable : Path.Step → Bool
  | .down name => name.utf8ByteSize ≤ Path.maxNameSize
  | _ => true

/-- Whether a path can be followed at all. -/
def Path.isUsable (p : Path) : Bool :=
  !p.text.toList.contains '\x00' && p.text.utf8ByteSize ≤ Path.maxSize

namespace Workspace

/-- What stands at a location. -/
def entry? (w : Workspace) (location : Location) : Option Entry :=
  if location.isEmpty then some .directory
  else (w.entries.find? fun entry => entry.1 == location).map Prod.snd

/-- Puts an entry at a location. -/
def insert (w : Workspace) (location : Location) (entry : Entry) : Workspace :=
  { w with entries := (location, entry) :: w.entries.filter fun other => other.1 != location }

/-- Where a path starts. -/
def start (w : Workspace) (p : Path) : Location := if p.isAbsolute then [] else w.current

/-- Follows steps, each from a directory. -/
def follow (w : Workspace) (location : Location) : List Path.Step → Except StorageFault Location
  | [] => .ok location
  | step :: steps =>
    match w.entry? location with
    | some .directory =>
      if step.isUsable then w.follow (step.apply location) steps else .error .obstructed
    | some (.file _) => .error .obstructed
    | none => .error .missing

/-- The location of a path. -/
def locate (w : Workspace) (p : Path) : Except StorageFault Location :=
  if p.text.isEmpty then .error .missing
  else if !p.isUsable then .error .obstructed
  else w.follow (w.start p) p.steps

/-- What stands at a path. -/
def find (w : Workspace) (p : Path) : Except StorageFault Entry := do
  let location ← w.locate p
  match w.entry? location with
  | some entry => pure entry
  | none => throw .missing

/-- Whether there is something at a path. -/
def isPresent (w : Workspace) (p : Path) : Bool :=
  match w.find p with
  | .ok _ => true
  | .error _ => false

/-- The text of a file. -/
def readText (w : Workspace) (p : Path) : Except StorageFault String := do
  match ← w.find p with
  | .file content =>
    match String.fromUTF8? content with
    | some text => pure text
    | none => throw .obstructed
  | .directory => throw .obstructed

/-- Makes the directories that steps lead through, as far as no file or name is in the way. -/
def makeSteps (w : Workspace) (location : Location) : List Path.Step → Bool × Workspace
  | [] => (true, w)
  | step :: steps =>
    if !step.isUsable then (false, w)
    else
      let next := step.apply location
      match w.entry? next with
      | some .directory => w.makeSteps next steps
      | some (.file _) => (false, w)
      | none => (w.insert next .directory).makeSteps next steps

/-- Makes a directory and those above it; the empty path is there already. -/
def makeDirectories (w : Workspace) (p : Path) : Bool × Workspace :=
  if p.text.isEmpty then (true, w)
  else if !p.isUsable then (false, w)
  else w.makeSteps (w.start p) p.steps

/-- Writes a file, unless its directory is missing or it is a directory itself. -/
def writeBytes (w : Workspace) (p : Path) (content : ByteArray) : Bool × Workspace :=
  match w.locate p with
  | .error _ => (false, w)
  | .ok location =>
    match w.entry? location with
    | some .directory => (false, w)
    | _ => (true, w.insert location (.file content))

/-- Removes what stands at a path with all below it. -/
def erase (w : Workspace) (p : Path) : Workspace :=
  match w.locate p with
  | .error _ => w
  | .ok location =>
    { w with entries := w.entries.filter fun entry => !location.isPrefixOf entry.1 }

/-- The paths below the current directory in ascending order; those of directories end in a
slash. -/
def contents (w : Workspace) : List String :=
  let below := w.entries.filterMap fun (location, entry) =>
    if w.current.isPrefixOf location && location.length != w.current.length then
      let text := Text.join "/" (location.drop w.current.length)
      match entry with
      | .file _ => some text
      | .directory => some (text ++ "/")
    else none
  below.mergeSort fun a b => decide (a ≤ b)

/-- A workspace that holds nothing but its current directory. -/
def empty : Workspace := { entries := [(["workspace"], .directory)], current := ["workspace"] }

end Workspace

instance : Storage (StateM Workspace) where
  isPresent p := do return (← get).isPresent p
  readText p := do return (← get).readText p
  makeDirectories p := modifyGet fun w => w.makeDirectories p
  writeText p text := modifyGet fun w => w.writeBytes p text.toUTF8

end OpcodeForge
