/-!
# Layout of generated text

Generated code is a list of fragments: lines, lines that open a block and lines that close one. A
layout keeps the lines with their depth and renders them with four spaces for each level.
-/

namespace OpcodeForge

/-- A piece of generated code. -/
inductive Fragment where
  /-- A line at the current depth. -/
  | line (text : String)
  /-- A line that opens a block. -/
  | enter (text : String)
  /-- A line that closes the innermost block. -/
  | leave (text : String)
  deriving DecidableEq, Repr

/-- A line of generated code. -/
structure Line where
  depth : Nat
  text : String
  deriving DecidableEq, Repr

/-- The line with its indentation and a line feed. -/
def Line.render (line : Line) : String :=
  String.ofList (List.replicate (4 * line.depth) ' ') ++ line.text ++ "\n"

/-- Lines of generated code and the depth of the next one. -/
structure Layout where
  lines : Array Line := #[]
  depth : Nat := 0
  deriving DecidableEq, Repr

namespace Layout

/-- Adds a line at the current depth; an empty line is left out. -/
def addLine (layout : Layout) (text : String) : Layout :=
  if text.isEmpty then layout else { layout with lines := layout.lines.push ⟨layout.depth, text⟩ }

/-- Adds a fragment. Outside of any block there is none to leave. -/
def push (layout : Layout) : Fragment → Layout
  | .line text => layout.addLine text
  | .enter text =>
    let layout := layout.addLine text
    { layout with depth := layout.depth + 1 }
  | .leave text => { layout with depth := layout.depth - 1 }.addLine text

/-- Adds fragments in order. -/
def append (layout : Layout) (fragments : List Fragment) : Layout := fragments.foldl push layout

/-- The text of all lines. -/
def render (layout : Layout) : String := String.join (layout.lines.toList.map Line.render)

end Layout

end OpcodeForge
