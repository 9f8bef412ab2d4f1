import OpcodeForge.CommandLine

/-!
# The program

Connects the command line to the file system of the machine.
-/

namespace OpcodeForge

/-- The file system of the machine. -/
instance : Storage IO where
  isPresent p := do
    try
      discard (IO.FS.realPath p.text)
      pure true
    catch _ => pure false
  readText p := do
    try
      match String.fromUTF8? (← IO.FS.readBinFile p.text) with
      | some text => pure (.ok text)
      | none => pure (.error .obstructed)
    catch error =>
      match error with
      | .noFileOrDirectory .. => pure (.error .missing)
      | _ => pure (.error .obstructed)
  makeDirectories p := do
    if p.text.isEmpty then
      pure true
    else
      try
        IO.FS.createDirAll p.text
        pure true
      catch _ => pure false
  writeText p text := do
    try
      IO.FS.writeFile p.text text
      pure true
    catch _ => pure false

/-- What the program can do. -/
def usage : String :=
  "Generate grammar, AST, lowering, encoder, decoder and ordinal sources from one opcode table\n" ++
  "\n" ++
  "Usage: isagen [OPTIONS]\n\n" ++
  "Options:\n" ++
  "      --root <ROOT>      Workspace root; every configured path is relative to it " ++
  "[default: .]\n" ++
  "      --config <CONFIG>  Configuration file (defaults to <root>/isagen.json when present)\n" ++
  "      --check            Fail if any generated file is out of date instead of writing\n" ++
  "  -v, --verbose...       More logging\n" ++
  "  -h, --help             Print help\n" ++
  "  -V, --version          Print version\n"

/-- The version of the program. -/
def version : String := "isagen 0.1.0"

end OpcodeForge

open OpcodeForge in
/-- Runs the program on its arguments. -/
def main (args : List String) : IO UInt32 := do
  match CommandLine.parse args with
  | .help => IO.print usage
  | .version => IO.println version
  | .misuse => IO.eprintln "error: unexpected arguments; see --help"
  | .run _ => pure ()
  let exit ← CommandLine.execute (m := IO) args
  match exit.complaint with
  | some complaint => IO.eprintln complaint
  | none => pure ()
  pure exit.code
