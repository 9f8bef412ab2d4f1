import OpcodeForge.Run

/-!
# The command line

Arguments are read from the left. Help and version win over what follows them, a misuse over
everything after it.
-/

namespace OpcodeForge.CommandLine

/-- What the arguments ask for. -/
inductive Request where
  | help
  | version
  | misuse
  | run (options : Options)
  deriving DecidableEq, Repr

/-- The options given so far. -/
structure Given where
  root : Option Path := none
  config : Option Path := none
  check : Bool := false
  deriving DecidableEq, Repr

/-- The options of a run, with the current directory for the root. -/
def Given.options (given : Given) : Options :=
  { root := given.root.getD ⟨"."⟩, config := given.config, check := given.check }

/-- Takes the root directory, which may be given once and is not empty. -/
def Given.setRoot? (given : Given) (value : String) : Option Given :=
  if given.root.isSome || value.isEmpty then none else some { given with root := some ⟨value⟩ }

/-- Takes the configuration file, which may be given once and is not empty. -/
def Given.setConfig? (given : Given) (value : String) : Option Given :=
  if given.config.isSome || value.isEmpty then none else some { given with config := some ⟨value⟩ }

/-- Whether an argument is a flag rather than a value. -/
def isFlag (arg : String) : Bool := arg.toList.head? == some '-' && arg != "-"

/-- What follows the equals sign of a long option. -/
def attached? (name arg : String) : Option String :=
  let lead := name.toList ++ ['=']
  if lead.isPrefixOf arg.toList then some (String.ofList (arg.toList.drop lead.length)) else none

/-- The request of the letters of short flags, if they do not just ask for more logging. -/
def shortFlags? : List Char → Option Request
  | [] => none
  | c :: rest =>
    if c == 'v' then shortFlags? rest
    else if c == 'h' then some .help
    else if c == 'V' then some .version
    else some .misuse

/-- Reads one argument that takes no further one; a request ends the reading. -/
def single (given : Given) (arg : String) : Request ⊕ Given :=
  if arg == "--check" then
    if given.check then .inl .misuse else .inr { given with check := true }
  else if arg == "--verbose" then .inr given
  else if arg == "--help" then .inl .help
  else if arg == "--version" then .inl .version
  else
    match attached? "--root" arg, attached? "--config" arg, arg.toList with
    | some value, _, _ => (given.setRoot? value).elim (.inl .misuse) .inr
    | _, some value, _ => (given.setConfig? value).elim (.inl .misuse) .inr
    | _, _, '-' :: c :: letters =>
      if c == '-' then .inl .misuse else (shortFlags? (c :: letters)).elim (.inr given) .inl
    | _, _, _ => .inl .misuse

/-- Reads arguments from the left. -/
def parseFrom (given : Given) : List String → Request
  | [] => .run given.options
  | ["--"] => .run given.options
  | "--" :: _ :: _ => .misuse
  | ["--root"] => .misuse
  | ["--config"] => .misuse
  | "--root" :: value :: args =>
    if isFlag value then .misuse
    else
      match given.setRoot? value with
      | some given => parseFrom given args
      | none => .misuse
  | "--config" :: value :: args =>
    if isFlag value then .misuse
    else
      match given.setConfig? value with
      | some given => parseFrom given args
      | none => .misuse
  | arg :: args =>
    match single given arg with
    | .inl request => request
    | .inr given => parseFrom given args

/-- What the arguments ask for. -/
def parse (args : List String) : Request := parseFrom {} args

/-- The causes of an error, one a line, with numbers if there are several. -/
def causeLines : List String → List String
  | [] => []
  | [cause] => ["", "Caused by:", "    " ++ cause]
  | causes => ["", "Caused by:"] ++ causes.zipIdx.map fun (cause, n) => s!"    {n}: {cause}"

/-- What is said about a run that failed or found files out of date. -/
def complaint? : Except RunError Outcome → Option String
  | .error error => some (Text.join "\n" (error.message :: causeLines (error.chain.drop 1)))
  | .ok (.stale paths) =>
    some (s!"{paths.length} generated file(s) out of date, re-run isagen: " ++
      Text.join ", " (paths.map Path.text))
  | .ok _ => none

/-- How the program ends. -/
structure Exit where
  code : UInt32
  /-- What is written to standard error. -/
  complaint : Option String := none
  deriving DecidableEq, Repr

/-- Does what the arguments ask for. -/
def execute {m : Type → Type} [Monad m] [Storage m] (args : List String) : m Exit :=
  match parse args with
  | .help => pure { code := 0 }
  | .version => pure { code := 0 }
  | .misuse => pure { code := 2 }
  | .run options => do
    match complaint? (← (Run.run options).run) with
    | some complaint => pure { code := 1, complaint := some s!"Error: {complaint}" }
    | none => pure { code := 0 }

end OpcodeForge.CommandLine
