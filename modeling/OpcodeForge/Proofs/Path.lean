import Mathlib.Data.List.Basic
import Mathlib.Data.Set.List
import OpcodeForge.Workspace.Tree

/-!
# Where paths lead

A path is followed in moves: names go down, two dots go up, and the other parts say nothing. A path
that is seen from a directory has the moves of the directory and then its own, the parent of a path
has the first of its moves, and paths with the same components have the same moves.
-/

namespace OpcodeForge.Path

/-! ## Parts -/

theorem exists_splitParts (cs : List Char) : ∃ part parts, splitParts cs = part :: parts := by
  cases cs with
  | nil => exact ⟨[], [], rfl⟩
  | cons c cs =>
      rw [splitParts]
      split
      · exact ⟨_, _, rfl⟩
      · split <;> exact ⟨_, _, rfl⟩

theorem splitParts_append (cs rest : List Char) :
    splitParts (cs ++ '/' :: rest) = splitParts cs ++ splitParts rest := by
  induction cs with
  | nil => rfl
  | cons c cs ih =>
      obtain ⟨part, parts, hparts⟩ := exists_splitParts cs
      rw [List.cons_append, splitParts, splitParts, ih, hparts]
      split <;> rfl

theorem splitParts_of_notMem {cs : List Char} (h : '/' ∉ cs) : splitParts cs = [cs] := by
  induction cs with
  | nil => rfl
  | cons c cs ih =>
      obtain ⟨hc, hcs⟩ := not_or.mp (fun hmem => h (List.mem_cons.mpr hmem))
      rw [splitParts, if_neg (by simpa using Ne.symm hc), ih hcs]

theorem notMem_of_mem_splitParts {cs part : List Char} (h : part ∈ splitParts cs) : '/' ∉ part := by
  induction cs generalizing part with
  | nil =>
      rw [List.mem_singleton.mp h]
      exact List.not_mem_nil
  | cons c cs ih =>
      obtain ⟨first, parts, hparts⟩ := exists_splitParts cs
      rw [hparts] at ih
      rw [splitParts, hparts] at h
      split at h
      · rcases List.mem_cons.mp h with rfl | h
        · exact List.not_mem_nil
        · exact ih h
      · rename_i hc
        rcases List.mem_cons.mp h with rfl | h
        · rw [List.mem_cons, not_or]
          exact ⟨fun he => hc (by rw [← he]; rfl), ih List.mem_cons_self⟩
        · exact ih (List.mem_cons_of_mem _ h)

/-- The parts hold no slash. -/
def SlashFree (parts : List String) : Prop := ∀ part ∈ parts, '/' ∉ part.toList

theorem slashFree_parts (p : Path) : SlashFree p.parts := by
  intro part hpart
  obtain ⟨cs, hcs, rfl⟩ := List.mem_map.mp hpart
  rw [String.toList_ofList]
  exact notMem_of_mem_splitParts hcs

theorem parts_join_slash {parts : List String} (hne : parts ≠ []) (h : SlashFree parts) :
    (Path.mk (Text.join "/" parts)).parts = parts := by
  have hsplit : splitParts (Text.join "/" parts).toList = parts.map String.toList := by
    induction parts with
    | nil => exact absurd rfl hne
    | cons part parts ih =>
        have hpart := splitParts_of_notMem (h part List.mem_cons_self)
        cases parts with
        | nil => exact hpart
        | cons next parts =>
            have hrest := ih (List.cons_ne_nil _ _) fun x hx => h x (List.mem_cons_of_mem _ hx)
            rw [Text.join, String.toList_append, String.toList_append, List.append_assoc]
            · rw [show "/".toList = ['/'] from rfl, List.singleton_append, splitParts_append, hpart,
                hrest]
              rfl
            · exact List.cons_ne_nil _ _
  rw [Path.parts, hsplit, List.map_map]
  simp [Function.comp_def]

/-! ## Moves -/

/-- The steps of parts that lead to another location. -/
def movesOf (parts : List String) : List Step :=
  (parts.filterMap Step.ofPart?).filter (· != .stay)

/-- The steps of a path that lead to another location. -/
def moves (p : Path) : List Step := movesOf p.parts

/-- The location that steps lead to. -/
def walk (location : Location) (steps : List Step) : Location :=
  steps.foldl (fun location step => step.apply location) location

theorem walk_append (location : Location) (steps more : List Step) :
    walk location (steps ++ more) = walk (walk location steps) more :=
  List.foldl_append

theorem walk_filter (location : Location) (steps : List Step) :
    walk location (steps.filter (· != .stay)) = walk location steps := by
  induction steps generalizing location with
  | nil => rfl
  | cons step steps ih => cases step <;> exact ih _

theorem walk_map_down (location : Location) (names : List String) :
    walk location (names.map .down) = location ++ names := by
  induction names generalizing location with
  | nil => exact (List.append_nil location).symm
  | cons name names ih =>
      rw [← List.singleton_append, ← List.append_assoc]
      exact ih _

theorem filter_steps (p : Path) : p.steps.filter (· != .stay) = p.moves := by
  rw [steps, List.filter_append, moves, movesOf]
  split <;> simp

theorem walk_steps (location : Location) (p : Path) :
    walk location p.steps = walk location p.moves := by
  rw [← filter_steps, walk_filter]

theorem ne_stay_of_mem_moves {p : Path} {step : Step} (h : step ∈ p.moves) : step ≠ .stay := by
  simpa using (List.mem_filter.mp h).2

/-- The moves of a path that does not go up are names. -/
theorem exists_names {p : Path} (h : .up ∉ p.moves) :
    ∃ names : List String, p.moves = names.map .down := by
  have hdown : ∀ step ∈ p.moves, step ∈ Set.range Step.down := by
    intro step hstep
    cases step with
    | stay => exact absurd rfl (ne_stay_of_mem_moves hstep)
    | up => exact absurd hstep h
    | down name => exact ⟨name, rfl⟩
  obtain ⟨names, hnames⟩ : p.moves ∈ Set.range (List.map Step.down) := by
    rw [Set.range_list_map]
    exact hdown
  exact ⟨names, hnames.symm⟩

theorem movesOf_append (parts more : List String) :
    movesOf (parts ++ more) = movesOf parts ++ movesOf more := by
  simp [movesOf]

/-! ## Seen from a directory -/

theorem exists_parts_join (p : Path) {q : Path} (hq : q.isAbsolute = false) :
    ∃ base, (p.join q).parts = base ++ q.parts ∧
      base.filterMap Step.ofPart? = p.parts.filterMap Step.ofPart? := by
  unfold join
  rw [hq, Bool.false_or]
  split
  · rename_i hempty
    have hp : p.text = "" := by simpa using hempty
    exact ⟨[], rfl, by simp [parts, hp, splitParts, Step.ofPart?]⟩
  · split
    · rename_i hlast
      obtain ⟨cs, hcs⟩ : ∃ cs, p.text.toList = cs ++ ['/'] := by
        have hlast : p.text.toList.getLast? = some '/' := by simpa using hlast
        exact ⟨_, (List.dropLast_append_getLast? '/' hlast).symm⟩
      refine ⟨(splitParts cs).map String.ofList, ?_, ?_⟩
      · simp [parts, hcs, splitParts_append]
      · simp [parts, hcs, splitParts_append, splitParts, Step.ofPart?]
    · refine ⟨p.parts, ?_, rfl⟩
      simp [parts, splitParts_append]

theorem moves_join (p : Path) {q : Path} (hq : q.isAbsolute = false) :
    (p.join q).moves = p.moves ++ q.moves := by
  obtain ⟨base, hparts, hbase⟩ := exists_parts_join p hq
  have hmoves : movesOf base = p.moves := by rw [movesOf, hbase, moves, movesOf]
  rw [moves, hparts, movesOf_append, hmoves]
  rfl

theorem steps_join (p : Path) {q : Path} (hq : q.isAbsolute = false) (hne : q.text ≠ "") :
    (p.join q).steps = p.parts.filterMap Step.ofPart? ++ q.steps := by
  obtain ⟨base, hparts, hbase⟩ := exists_parts_join p hq
  have hlast : (p.join q).text.toList.getLast? = q.text.toList.getLast? := by
    have hne' : q.text.toList ≠ [] := by simpa using hne
    have hlist : ∃ cs, (p.join q).text.toList = cs ++ q.text.toList := by
      unfold join
      split
      · exact ⟨[], rfl⟩
      · split
        · exact ⟨p.text.toList, by simp⟩
        · exact ⟨p.text.toList ++ ['/'], by simp⟩
    obtain ⟨cs, hcs⟩ := hlist
    rw [hcs, List.getLast?_append_of_ne_nil _ hne']
  rw [steps, hparts, List.filterMap_append, hbase, List.append_assoc, hlast, steps]

theorem isAbsolute_join (p : Path) {q : Path} (hq : q.isAbsolute = false) :
    (p.join q).isAbsolute = p.isAbsolute := by
  unfold join
  rw [hq, Bool.false_or]
  split
  · rename_i hempty
    have hp : p.text = "" := by simpa using hempty
    rw [hq]
    simp [isAbsolute, hp]
  · rename_i hne
    obtain ⟨c, cs, hcs⟩ : ∃ c cs, p.text.toList = c :: cs := by
      cases h : p.text.toList with
      | nil => simp_all
      | cons c cs => exact ⟨c, cs, rfl⟩
    split <;> simp [isAbsolute, hcs]

/-! ## Parents -/

/-- The parts that a parent keeps. -/
def parentParts (parts : List String) : List String := dropIdle (dropIdle parts).dropLast

theorem parentParts_eq (parts : List String) :
    parentParts parts = dropIdle (dropIdle parts).dropLast :=
  rfl

theorem prefix_dropIdle (parts : List String) : dropIdle parts <+: parts := by
  rw [dropIdle, ← List.reverse_suffix, List.reverse_reverse]
  exact List.dropWhile_suffix _

theorem prefix_parentParts (parts : List String) : parentParts parts <+: parts := by
  have hlast := List.dropLast_prefix (dropIdle parts)
  exact (prefix_dropIdle _).trans (hlast.trans (prefix_dropIdle _))

theorem prefix_movesOf {parts parts' : List String} (h : parts <+: parts') :
    movesOf parts <+: movesOf parts' := by
  obtain ⟨rest, rfl⟩ := h
  rw [movesOf_append]
  exact List.prefix_append _ _

theorem moves_join_slash {parts : List String} (h : SlashFree parts) :
    (Path.mk (Text.join "/" parts)).moves = movesOf parts := by
  by_cases hne : parts = []
  · subst hne
    rfl
  · rw [moves, parts_join_slash hne h]

theorem isAbsolute_join_slash {part : String} {parts : List String} (hpart : part ≠ "")
    (h : '/' ∉ part.toList) : (Path.mk (Text.join "/" (part :: parts))).isAbsolute = false := by
  obtain ⟨c, cs, hcs⟩ : ∃ c cs, part.toList = c :: cs := by
    cases hlist : part.toList with
    | nil => exact absurd (String.toList_eq_nil_iff.mp hlist) hpart
    | cons c cs => exact ⟨c, cs, rfl⟩
  have hc : c ≠ '/' := fun he => h (by rw [hcs, he]; exact List.mem_cons_self)
  cases parts with
  | nil => simp [isAbsolute, Text.join, hcs, hc]
  | cons next parts => simp [isAbsolute, Text.join, hcs, hc]

theorem exists_parts (p : Path) :
    ∃ part parts, p.parts = part :: parts ∧ (p.isAbsolute = true → part = "") ∧
      (p.isAbsolute = false → part = "" → p.text = "") := by
  unfold parts isAbsolute
  cases htext : p.text.toList with
  | nil => exact ⟨"", [], rfl, by simp, fun _ _ => String.toList_eq_nil_iff.mp htext⟩
  | cons c cs =>
      obtain ⟨part, parts, hparts⟩ := exists_splitParts cs
      rw [splitParts, hparts]
      split
      · exact ⟨_, _, rfl, fun _ => rfl, fun h => by simp_all⟩
      · exact ⟨_, _, rfl, fun h => by simp_all, fun _ h => by simp at h⟩

theorem moves_root_join_slash {parts : List String} (h : SlashFree parts) :
    (Path.mk ("/" ++ Text.join "/" parts)).moves = movesOf parts := by
  have hroot : (Path.mk ("/" ++ Text.join "/" parts)).parts =
      "" :: (Path.mk (Text.join "/" parts)).parts := by
    simp [Path.parts, splitParts]
  rw [moves, hroot, ← List.singleton_append, movesOf_append, ← moves, moves_join_slash h]
  rfl

theorem parentParts_cons (part : String) (parts : List String) :
    parentParts (part :: parts) = [] ∨ ∃ kept, parentParts (part :: parts) = part :: kept := by
  cases hkept : parentParts (part :: parts) with
  | nil => exact .inl rfl
  | cons x kept =>
      obtain ⟨rest, hrest⟩ := hkept ▸ prefix_parentParts (part :: parts)
      rw [List.cons_append, List.cons.injEq] at hrest
      exact .inr ⟨kept, by rw [hrest.1]⟩

/-- A parent has the first moves of its path and starts from the same place. -/
theorem moves_parent {p parent : Path} (h : p.parent? = some parent) (hne : parent.text ≠ "") :
    parent.isAbsolute = p.isAbsolute ∧ parent.moves <+: p.moves := by
  obtain ⟨part, parts, hparts, habsolute, hrelative⟩ := exists_parts p
  have hfree : SlashFree (part :: parts) := hparts ▸ slashFree_parts p
  have hmoves : p.moves = movesOf (part :: parts) := by rw [moves, hparts]
  have hkept : ∀ xs, xs <+: part :: parts → (Path.mk (Text.join "/" xs)).moves <+: p.moves := by
    intro xs hxs
    rw [moves_join_slash fun x hx => hfree x (hxs.subset hx), hmoves]
    exact prefix_movesOf hxs
  unfold parent? at h
  simp only [hparts, List.drop_succ_cons, List.drop_zero, List.head?_cons,
    ← parentParts_eq] at h
  split at h
  -- From the root: the part before the first slash is empty and says nothing.
  · rename_i hroot
    obtain rfl := habsolute hroot
    split at h
    · cases h
    · cases h
      have hbody := prefix_parentParts parts
      refine ⟨by rw [hroot]; simp [isAbsolute], ?_⟩
      rw [moves_root_join_slash fun x hx => hfree x (List.mem_cons_of_mem _ (hbody.subset hx)),
        hmoves, ← List.singleton_append, movesOf_append]
      exact prefix_movesOf hbody
  · rename_i hroot
    have hroot : p.isAbsolute = false := by simpa using hroot
    rw [hroot]
    split at h
    -- A leading dot stays in the parent.
    · rename_i hdot
      obtain rfl : part = "." := by simpa using hdot
      split at h
      · cases h
        exact absurd rfl hne
      · cases h
        refine ⟨isAbsolute_join_slash (by decide) (by decide), ?_⟩
        exact hkept ("." :: parentParts parts) (by simpa using prefix_parentParts parts)
    -- Otherwise the parent begins with the first part, which is not empty.
    · split at h
      · cases h
      · rename_i hbody
        cases h
        refine ⟨?_, hkept _ (prefix_parentParts _)⟩
        rcases parentParts_cons part parts with hnil | ⟨kept, hcons⟩
        · rw [hnil] at hne
          exact absurd rfl hne
        · rw [hcons]
          refine isAbsolute_join_slash (fun hempty => hbody ?_) (hfree _ List.mem_cons_self)
          have htext := hrelative hroot hempty
          rw [← hparts, Path.parts, htext]
          decide

/-! ## Components -/

/-- The component of a step. -/
def Step.component : Step → Component
  | .stay => .here
  | .up => .up
  | .down name => .name name

theorem Step.component_injective : Function.Injective Step.component := by
  intro step step' h
  cases step <;> cases step' <;> simp_all [Step.component]

theorem map_component_movesOf (parts : List String) :
    (movesOf parts).map Step.component = (parts.filter isEffective).map Component.ofPart := by
  induction parts with
  | nil => rfl
  | cons part parts ih =>
      rw [← List.singleton_append, movesOf_append, List.filter_append, List.map_append,
        List.map_append, ih, List.append_cancel_right_eq]
      by_cases hempty : part = ""
      · subst hempty
        rfl
      by_cases hdot : part = "."
      · subst hdot
        rfl
      have heffective : isEffective part = true := by simp [isEffective, hempty, hdot]
      by_cases hup : part = ".."
      · subst hup
        rfl
      · simp [movesOf, Step.ofPart?, hempty, hdot, hup, heffective, Step.component,
          Component.ofPart]

/-- What a path begins with before its moves. -/
def lead (p : Path) : List Component :=
  if p.isAbsolute then [.root] else if p.parts.head? == some "." then [.here] else []

theorem components_eq (p : Path) : p.components = p.lead ++ p.moves.map Step.component := by
  rw [components, lead, moves, map_component_movesOf]
  split
  · rfl
  · split <;> rfl

theorem component_moves {p : Path} {c : Component} (h : c ∈ p.moves.map Step.component) :
    c ≠ .root ∧ c ≠ .here := by
  obtain ⟨step, hstep, rfl⟩ := List.mem_map.mp h
  have hmoves := ne_stay_of_mem_moves hstep
  cases step <;> simp_all [Step.component]

/-- Paths with the same components have the same moves from the same place. -/
theorem moves_eq_of_same {p q : Path} (h : p.same q = true) :
    p.isAbsolute = q.isAbsolute ∧ p.moves = q.moves := by
  have hcomponents : p.components = q.components := by simpa [same] using h
  have hroot : ∀ r : Path, r.isAbsolute = true ↔ .root ∈ r.components := by
    intro r
    rw [components_eq, List.mem_append, or_iff_left fun hmem => (component_moves hmem).1 rfl, lead]
    split
    · simp_all
    · split <;> simp_all
  have hmoves : ∀ r : Path,
      r.components.filter (fun c => c != .root && c != .here) = r.moves.map Step.component := by
    intro r
    have hlead : r.lead.filter (fun c => c != .root && c != .here) = [] := by
      rw [lead]
      split
      · rfl
      · split <;> rfl
    rw [components_eq, List.filter_append, hlead, List.nil_append, List.filter_eq_self]
    intro c hc
    simpa using component_moves hc
  refine ⟨Bool.eq_iff_iff.mpr ?_, Step.component_injective.list_map ?_⟩
  · rw [hroot, hroot, hcomponents]
  · rw [← hmoves, ← hmoves, hcomponents]

theorem head?_parts_join {p q : Path} (hp : p.text ≠ "") (hq : q.isAbsolute = false) :
    (p.join q).parts.head? = p.parts.head? := by
  unfold join
  rw [hq, Bool.false_or, if_neg (by simpa using hp)]
  split
  · rename_i hlast
    have hlast : p.text.toList.getLast? = some '/' := by simpa using hlast
    have hcs := (List.dropLast_append_getLast? '/' hlast).symm
    generalize p.text.toList.dropLast = cs at hcs
    obtain ⟨part, parts, hparts⟩ := exists_splitParts cs
    simp [Path.parts, hcs, splitParts_append, hparts]
  · obtain ⟨part, parts, hparts⟩ := exists_splitParts p.text.toList
    simp [Path.parts, splitParts_append, hparts]

/-- Seen from a directory that is named, relative paths with the same moves are the same. -/
theorem same_join {p q r : Path} (hp : p.text ≠ "") (hq : q.isAbsolute = false)
    (hr : r.isAbsolute = false) (h : q.moves = r.moves) : (p.join q).same (p.join r) = true := by
  have hlead : ∀ s : Path, s.isAbsolute = false → (p.join s).lead = p.lead := by
    intro s hs
    rw [lead, lead, isAbsolute_join p hs, head?_parts_join hp hs]
  rw [same, beq_iff_eq, components_eq, components_eq, hlead q hq, hlead r hr, moves_join p hq,
    moves_join p hr, h]

end OpcodeForge.Path
