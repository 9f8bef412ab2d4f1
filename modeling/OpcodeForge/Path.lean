import OpcodeForge.Text.Word

/-!
# File paths

Paths are texts with `/` between their parts. Two paths are the same when they have the same
components: empty parts and inner dots do not count, a leading dot and double dots do.
-/

namespace OpcodeForge

/-- A file path. -/
structure Path where
  text : String
  deriving DecidableEq, Repr, Inhabited

namespace Path

/-- A component of a path. -/
inductive Component where
  | root
  | here
  | up
  | name (name : String)
  deriving DecidableEq, Repr

/-- The parts between slashes; there is always one. -/
def splitParts : List Char → List (List Char)
  | [] => [[]]
  | c :: rest =>
    if c == '/' then [] :: splitParts rest
    else
      match splitParts rest with
      | part :: parts => (c :: part) :: parts
      | [] => [[c]]

/-- The parts of a path as text. -/
def parts (p : Path) : List String := (splitParts p.text.toList).map String.ofList

/-- Whether a path starts at the root. -/
def isAbsolute (p : Path) : Bool := p.text.toList.head? == some '/'

/-- Whether a part, not being the first, says something. -/
def isEffective (part : String) : Bool := part != "" && part != "."

/-- The component of an effective part. -/
def Component.ofPart (part : String) : Component := if part == ".." then .up else .name part

/-- The components of a path. -/
def components (p : Path) : List Component :=
  let inner := (p.parts.filter isEffective).map Component.ofPart
  if p.isAbsolute then .root :: inner
  else if p.parts.head? == some "." then .here :: inner
  else inner

/-- Whether two paths have the same components. -/
def same (p q : Path) : Bool := p.components == q.components

/-- The path `q` seen from `p`: an absolute path stands for itself, and one slash is put between the
two unless `p` is empty or ends in one. -/
def join (p q : Path) : Path :=
  if q.isAbsolute || p.text.isEmpty then q
  else if p.text.toList.getLast? == some '/' then ⟨p.text ++ q.text⟩
  else ⟨p.text ++ "/" ++ q.text⟩

/-- Drops the parts at the end that say nothing. -/
def dropIdle (parts : List String) : List String :=
  (parts.reverse.dropWhile fun part => !isEffective part).reverse

/-- The path without its last component. The root and the empty path have no parent. -/
def parent? (p : Path) : Option Path :=
  let body := fun parts => dropIdle (dropIdle parts).dropLast
  if p.isAbsolute then
    let parts := p.parts.drop 1
    if (dropIdle parts).isEmpty then none else some ⟨"/" ++ Text.join "/" (body parts)⟩
  else if p.parts.head? == some "." then
    let parts := p.parts.drop 1
    if (dropIdle parts).isEmpty then some ⟨""⟩
    else some ⟨Text.join "/" ("." :: body parts)⟩
  else if (dropIdle p.parts).isEmpty then none
  else some ⟨Text.join "/" (body p.parts)⟩

end Path

end OpcodeForge
