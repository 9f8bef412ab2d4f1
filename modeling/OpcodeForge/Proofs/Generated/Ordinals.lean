import OpcodeForge.Proofs.Generated.Reading
import OpcodeForge.Proofs.Generated.Structure

/-!
# The generated enum of ordinals

What the enum of ordinals says of opcodes and bytes is read from its code: the discriminants, the
list of all opcodes, and the bodies of the two conversions. A conversion with another body is not
read.
-/

namespace OpcodeForge.Generated

theorem mapM_map_eq_some {α β γ : Type} {f : β → Option γ} {g : α → β} {h : α → γ} {xs : List α}
    (hread : ∀ x ∈ xs, f (g x) = some (h x)) : (xs.map g).mapM f = some (xs.map h) := by
  refine mapM_eq_some_of_forall₂ ?_
  rw [List.forall₂_map_left_iff, List.forall₂_map_right_iff, List.forall₂_same]
  exact hread

/-! ## From opcodes to bytes -/

def discriminant? (text : String) : Option (String × Nat) := do
  let (name, cs) := word text.toList
  let cs ← cs.dropPrefix? " = ".toList
  let (n, cs) ← number? cs
  if cs = [','] then some (name, n) else none

/-- The variants of an enum with their discriminants. -/
def discriminants? (enum : String) (code : List Fragment) : Option (List (String × Nat)) :=
  (linesIn ["pub enum " ++ enum ++ " \x7b"] [] code).mapM discriminant?

/-- The byte of an opcode: its discriminant. -/
def byte? (enum : String) (ordinals : List Fragment) (opcode : String) : Option Nat :=
  if linesIn ["pub const fn to_u8(self) -> u8 \x7b", "impl " ++ enum ++ " \x7b"] [] ordinals =
      ["self as u8"] then
    (discriminants? enum ordinals).bind fun discriminants => discriminants.lookup opcode
  else none

theorem discriminant?_variantLine {name : String} (hname : IsName name) (n : Nat) :
    discriminant? (name ++ " = " ++ Nat.repr n ++ ",") = some (name, n) := by
  have hword := word_append hname (" = ".toList ++ ((Nat.repr n).toList ++ ",".toList)) rfl
  have hnumber := number?_repr n (by rfl : ",".toList.takeWhile Char.isDigit = [])
  unfold discriminant?
  simp only [String.toList_append, List.append_assoc, hword, dropPrefix?_append,
    Option.bind_eq_bind, Option.bind_some, hnumber]
  rfl

/-! ## Paths of an enum -/

/-- The variant of an enum whose path a text begins with, and the rest. -/
def member? (enum : String) (cs : List Char) : Option (String × List Char) :=
  (cs.dropPrefix? (enum ++ "::").toList).map word

theorem length_of_dropPrefix? {cs rest pre : List Char} (h : cs.dropPrefix? pre = some rest) :
    cs.length = pre.length + rest.length := by
  obtain ⟨pre', rfl, hpre⟩ := List.dropPrefix?_eq_some_iff.mp h
  rw [List.length_append, List.length_eq_of_beq hpre]

theorem length_le_of_member? {enum name : String} {cs rest : List Char}
    (h : member? enum cs = some (name, rest)) : rest.length ≤ cs.length := by
  obtain ⟨path, hpath, hword⟩ := Option.map_eq_some_iff.mp h
  have hrest : (word path).2.length ≤ path.length := (List.dropWhile_suffix _).length_le
  have hlength := length_of_dropPrefix? hpath
  simp only [hword] at hrest
  omega

set_option linter.unusedVariables false in
/-- The variants of an enum in a list, up to the bracket that closes the list. -/
def members? (enum : String) (cs : List Char) : Option (List String) :=
  match hmember : member? enum cs with
  | none => none
  | some (name, rest) =>
      if rest = "];".toList then some [name]
      else
        match hmore : rest.dropPrefix? ", ".toList with
        | none => none
        | some more => (members? enum more).map (name :: ·)
termination_by cs.length
decreasing_by
  have hrest := length_le_of_member? hmember
  have hlength := length_of_dropPrefix? hmore
  have hcomma : ", ".toList.length = 2 := rfl
  omega

theorem members?_of_last {enum name : String} {cs : List Char}
    (h : member? enum cs = some (name, "];".toList)) : members? enum cs = some [name] := by
  rw [members?]
  split
  · simp_all
  · rename_i hmember
    rw [h] at hmember
    cases hmember
    exact if_pos rfl

theorem members?_of_more {enum name : String} {cs rest : List Char}
    (h : member? enum cs = some (name, ", ".toList ++ rest)) :
    members? enum cs = (members? enum rest).map (name :: ·) := by
  rw [members?]
  split
  · simp_all
  · rename_i hmember
    rw [h] at hmember
    cases hmember
    rw [if_neg (by simp)]
    split <;> rename_i hmore <;> rw [dropPrefix?_append] at hmore <;> cases hmore
    rfl

theorem member?_append {enum name : String} (hname : IsName name) {rest : List Char}
    (hrest : rest.takeWhile Text.isWordChar = []) :
    member? enum ((enum ++ "::" ++ name).toList ++ rest) = some (name, rest) := by
  rw [member?, String.toList_append, List.append_assoc, dropPrefix?_append, Option.map_some,
    word_append hname rest hrest]

theorem members?_join {enum : String} {names : List String} (hne : names ≠ [])
    (hnames : ∀ name ∈ names, IsName name) :
    members? enum ((Text.join ", " (names.map fun name => enum ++ "::" ++ name)).toList ++
      "];".toList) = some names := by
  induction names with
  | nil => exact absurd rfl hne
  | cons name names ih =>
      have hname := hnames name List.mem_cons_self
      cases names with
      | nil => exact members?_of_last (member?_append hname rfl)
      | cons name' names =>
          have hrest := ih (List.cons_ne_nil _ _)
            (fun x hx => hnames x (List.mem_cons_of_mem _ hx))
          rw [List.map_cons] at hrest
          rw [List.map_cons, List.map_cons, Text.join, String.toList_append, String.toList_append,
            List.append_assoc, List.append_assoc, members?_of_more (member?_append hname rfl),
            hrest]
          · rfl
          · exact List.cons_ne_nil _ _

/-! ## From bytes to opcodes -/

/-- The list of all opcodes. -/
def allOpcodes? (enum text : String) : Option (List String) :=
  (text.toList.dropPrefix? ("pub const ALL: &'static [" ++ enum ++ "] = &[").toList).bind
    (members? enum)

/-- What the conversion of a byte refers to: it looks the byte up in the list of all opcodes. -/
def scope? (enum : String) (ordinals : List Fragment) : Option Scope :=
  if linesIn ["pub fn from_u8(value: u8) -> Option<Self> \x7b", "impl " ++ enum ++ " \x7b"] []
      ordinals = ["Self::ALL.get(value as usize).copied()"] then
    ((linesIn ["impl " ++ enum ++ " \x7b"] [] ordinals).findSome? (allOpcodes? enum)).map fun all =>
      ⟨enum, all⟩
  else none

theorem allOpcodes?_allLine {enum : String} {t : Table} (ht : t.WellFormed)
    (hne : t.descriptors ≠ []) :
    allOpcodes? enum ("pub const ALL: &'static [" ++ enum ++ "] = &[" ++
      Text.join ", " (t.descriptors.map fun d => enum ++ "::" ++ d.name) ++ "];") =
      some (t.descriptors.map Descriptor.name) := by
  have hnames : ∀ name ∈ t.descriptors.map Descriptor.name, IsName name :=
    List.forall_mem_map.mpr fun d hd => isName_name ht hd
  have hjoin := @members?_join enum _ (by simpa using hne) hnames
  rw [List.map_map] at hjoin
  rw [allOpcodes?, String.toList_append, String.toList_append, List.append_assoc,
    dropPrefix?_append]
  exact hjoin

/-! ## The code of a table -/

section Code

variable {t : Table} {paths : CodePaths}

theorem discriminants?_ordinals (ht : t.WellFormed) :
    discriminants? (Code.lastSegment paths.opcode) (code .opcodes t paths) =
      some ((t.descriptors.map fun d => (d.name, d.ordinal.toNat)) ++
        [("MAX", Ordinals.sentinel t)]) := by
  have hmax : discriminant? ("MAX = " ++ Nat.repr (Ordinals.sentinel t) ++ ",") =
      some ("MAX", Ordinals.sentinel t) := by
    rw [show "MAX = " = "MAX" ++ " = " by decide]
    exact discriminant?_variantLine (isName_of_literal (by decide)) (Ordinals.sentinel t)
  rw [discriminants?, linesIn_ordinalEnum, List.mapM_append,
    mapM_map_eq_some fun d hd => discriminant?_variantLine (isName_name ht hd) d.ordinal.toNat]
  simp [hmax]

theorem byte?_code (ht : t.WellFormed) {d : Descriptor} (hd : d ∈ t.descriptors)
    (hmax : d.name ≠ "MAX") :
    byte? (Code.lastSegment paths.opcode) (code .opcodes t paths) d.name =
      some d.ordinal.toNat := by
  rw [byte?, if_pos linesIn_toByte, discriminants?_ordinals ht, Option.bind_some]
  -- Names are distinct, and none is that of the sentinel, which stands in the same list.
  refine lookup_of_unique (List.mem_append_left _ (List.mem_map_of_mem hd)) fun n hn => ?_
  rcases List.mem_append.mp hn with hn | hn
  · obtain ⟨e, he, heq⟩ := List.mem_map.mp hn
    obtain ⟨hname, rfl⟩ := Prod.mk.inj heq
    rw [ht.eq_of_name he hd hname]
  · exact absurd (Prod.mk.inj (List.mem_singleton.mp hn)).1 hmax

theorem findSome?_allOpcodes? (ht : t.WellFormed) (hne : t.descriptors ≠ []) :
    (linesIn ["impl " ++ Code.lastSegment paths.opcode ++ " \x7b"] []
        (code .opcodes t paths)).findSome? (allOpcodes? (Code.lastSegment paths.opcode)) =
      some (t.descriptors.map Descriptor.name) := by
  have hnone : allOpcodes? (Code.lastSegment paths.opcode)
      "/// Every real opcode, indexed by ordinal" = none := by
    rw [allOpcodes?, String.toList_append, String.toList_append, List.append_assoc]
    rfl
  rw [linesIn_ordinalImpl, List.findSome?_cons, hnone, List.findSome?_cons,
    allOpcodes?_allLine ht hne]

/-- A byte stands for the opcode with that ordinal. -/
theorem scope?_code (ht : t.WellFormed) (hne : t.descriptors ≠ []) :
    scope? (Code.lastSegment paths.opcode) (code .opcodes t paths) =
      some ⟨Code.lastSegment paths.opcode, t.descriptors.map Descriptor.name⟩ := by
  rw [scope?, if_pos linesIn_fromByte, findSome?_allOpcodes? ht hne, Option.map_some]

end Code

end OpcodeForge.Generated
