import OpcodeForge.Path

/-!
# Storage

What a run needs of the place where its files are. A workspace value provides it for reasoning and
the file system of the machine for use.
-/

namespace OpcodeForge

/-- Why a path cannot be followed or its file not be read. -/
inductive StorageFault where
  /-- There is nothing at the path. -/
  | missing
  /-- The path cannot be followed, or what is there is not a file with a text. -/
  | obstructed
  deriving DecidableEq, Repr

/-- Access to files in a monad. -/
class Storage (m : Type → Type) where
  /-- Whether there is something at a path. -/
  isPresent : Path → m Bool
  /-- The text of a file. -/
  readText : Path → m (Except StorageFault String)
  /-- Makes a directory and those above it, and says whether they are there now. -/
  makeDirectories : Path → m Bool
  /-- Writes a file in a directory that is there, and says whether it could. -/
  writeText : Path → String → m Bool

instance {m : Type → Type} {ε : Type} [Monad m] [Storage m] : Storage (ExceptT ε m) where
  isPresent p := ExceptT.lift (Storage.isPresent p)
  readText p := ExceptT.lift (Storage.readText p)
  makeDirectories p := ExceptT.lift (Storage.makeDirectories p)
  writeText p text := ExceptT.lift (Storage.writeText p text)

end OpcodeForge
