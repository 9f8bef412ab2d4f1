import OpcodeForge.Artifact.Code

/-!
# The grammar

One production for each opcode, with its keyword in any letter case and the grammar of its operands,
and an ordered choice between all productions in table order.
-/

namespace OpcodeForge.Grammar

/-- The production of an opcode. -/
def production (d : Descriptor) : String :=
  let args := match d.grammarArgs? with
    | some args => " ~ " ++ args
    | none => ""
  d.ruleName ++ " = \x7b^\"" ++ d.keyword ++ "\"" ++ args ++ "\x7d"

/-- The choice between rules. -/
def choice (rules : List String) : String :=
  "statement = \x7b" ++ Text.join " | " rules ++ "\x7d"

/-- Makes the productions and notes the rule of each for the choice at the end. -/
def emitter : Emitter where
  requirements := [.defaulted .grammarArgs]
  State := List String
  start := []
  opcode rules d := ([.line (production d)], rules ++ [d.ruleName])
  footer rules := [.line (choice rules)]

/-- The emitters of the grammar. -/
def emitters : List Emitter := [emitter]

end OpcodeForge.Grammar
