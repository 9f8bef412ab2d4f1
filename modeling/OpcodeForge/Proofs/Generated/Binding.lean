import OpcodeForge.Proofs.Generated.Writing
import OpcodeForge.Proofs.Loading

/-!
# Operands that an arm binds

The pattern of the arm that writes an opcode has a name for each builder operand that a writer
reads, and an underscore for the others. Reading is said of the text: the name of the operand stands
in it as a whole word. Passthroughs and casts are asked for their index and the other writers are
searched, and both agree with the text.
-/

namespace OpcodeForge.Generated

/-! ## Words of a text -/

/-- An ASCII letter, a digit or an underscore. -/
def IsWordChar (c : Char) : Prop := IsLetter c ∨ IsDigit c ∨ c = '_'

/-- Letters, digits and underscores, with none of them just before or just after. -/
structure Run (before word after : List Char) : Prop where
  ne_nil : word ≠ []
  inside : ∀ c ∈ word, IsWordChar c
  start : ∀ c ∈ before.getLast?, ¬IsWordChar c
  finish : ∀ c ∈ after.head?, ¬IsWordChar c

/-- The word stands in the text as a whole. -/
def HasWord (word text : List Char) : Prop :=
  ∃ before after, text = before ++ word ++ after ∧ Run before word after

section Words

variable {word text xs ys : List Char} {c : Char}

theorem wordChar_iff : Text.isWordChar c = true ↔ IsWordChar c := isWordChar_iff

theorem not_isWordChar (h : Text.isWordChar c = false) : ¬IsWordChar c := by
  rw [← wordChar_iff, h]
  exact Bool.false_ne_true

theorem not_hasWord (h : ∀ c ∈ text, ¬IsWordChar c) : ¬HasWord word text := by
  rintro ⟨before, after, rfl, hrun⟩
  obtain ⟨c, word, rfl⟩ := List.exists_cons_of_ne_nil hrun.ne_nil
  exact h c (by simp) (hrun.inside c List.mem_cons_self)

theorem hasWord_iff_eq (hne : text ≠ []) (h : ∀ c ∈ text, IsWordChar c) :
    HasWord word text ↔ word = text := by
  constructor
  · rintro ⟨before, after, rfl, hrun⟩
    have hbefore : before = [] := by
      rw [← List.getLast?_eq_none_iff, Option.eq_none_iff_forall_not_mem]
      exact fun c hc => hrun.start c hc (h c (by simp [List.mem_of_mem_getLast? hc]))
    have hafter : after = [] := by
      rw [← List.head?_eq_none_iff, Option.eq_none_iff_forall_not_mem]
      exact fun c hc => hrun.finish c hc (h c (by simp [List.mem_of_mem_head? hc]))
    rw [hbefore, hafter, List.nil_append, List.append_nil]
  · rintro rfl
    exact ⟨[], [], by simp, hne, h, by simp, by simp⟩

theorem of_hasWord_append_cons (hc : ¬IsWordChar c) (h : HasWord word (xs ++ c :: ys)) :
    HasWord word xs ∨ HasWord word ys := by
  obtain ⟨before, after, hsplit, hrun⟩ := h
  have hnot : c ∉ word := fun hmem => hc (hrun.inside c hmem)
  rw [List.append_assoc] at hsplit
  rcases List.append_eq_append_iff.mp hsplit with ⟨gap, rfl, hgap⟩ | ⟨part, rfl, hpart⟩
  -- The word starts after `xs`, and not with `c`.
  · cases gap with
    | nil =>
        obtain ⟨c', word, rfl⟩ := List.exists_cons_of_ne_nil hrun.ne_nil
        cases hgap
        exact absurd List.mem_cons_self hnot
    | cons c' gap =>
        cases hgap
        refine .inr ⟨gap, after, by simp, { hrun with start := fun c' hc' => hrun.start c' ?_ }⟩
        simp [List.getLast?_append, List.getLast?_cons, Option.mem_def.mp hc']
  -- The word starts in `xs`, and ends there because it does not hold `c`.
  · rcases List.append_eq_append_iff.mp hpart with ⟨rest, rfl, hrest⟩ | ⟨rest, rfl, hrest⟩
    · refine .inl ⟨before, rest, by simp, { hrun with finish := fun c' hc' => hrun.finish c' ?_ }⟩
      simp [hrest, List.head?_append, Option.mem_def.mp hc']
    · cases rest with
      | nil =>
          rw [List.append_nil] at hrun ⊢
          exact .inl ⟨before, [], by simp, { hrun with finish := by simp }⟩
      | cons c' rest =>
          cases hrest
          exact absurd (by simp) hnot

/-- A character that is not in a word ends the word before it. -/
theorem hasWord_append_cons_iff (hc : ¬IsWordChar c) :
    HasWord word (xs ++ c :: ys) ↔ HasWord word xs ∨ HasWord word ys := by
  refine ⟨of_hasWord_append_cons hc, ?_⟩
  rintro (⟨before, after, rfl, hrun⟩ | ⟨before, after, rfl, hrun⟩)
  · refine ⟨before, after ++ c :: ys, by simp, { hrun with finish := fun c' hc' => ?_ }⟩
    cases after with
    | nil => simp_all
    | cons _ after => exact hrun.finish c' hc'
  · refine ⟨xs ++ c :: before, after, by simp, { hrun with start := fun c' hc' => ?_ }⟩
    rw [List.getLast?_append_cons] at hc'
    cases before with
    | nil => simp_all
    | cons _ before => exact hrun.start c' hc'

/-! ## Searching for a word -/

theorem any_isWordChar_eq_false_iff {next : Option Char} :
    next.any Text.isWordChar = false ↔ ∀ c ∈ next, ¬IsWordChar c := by
  cases next <;> simp [← wordChar_iff]

/-- The test at one place: the word stands here, with none of its characters around. -/
theorem isRunHere_iff {before : Option Char} (hne : word ≠ []) (hword : ∀ c ∈ word, IsWordChar c) :
    (word.isPrefixOf text && !before.any Text.isWordChar &&
        !(text.drop word.length).head?.any Text.isWordChar) = true ↔
      ∃ after, text = word ++ after ∧ Run before.toList word after := by
  have hlast : before.toList.getLast? = before := by cases before <;> rfl
  simp only [Bool.and_eq_true, Bool.not_eq_true', any_isWordChar_eq_false_iff,
    List.isPrefixOf_iff_prefix]
  constructor
  · rintro ⟨⟨⟨after, rfl⟩, hstart⟩, hfinish⟩
    rw [List.drop_left] at hfinish
    exact ⟨after, rfl, hne, hword, hlast.symm ▸ hstart, hfinish⟩
  · rintro ⟨after, rfl, hrun⟩
    rw [List.drop_left]
    exact ⟨⟨List.prefix_append _ _, hlast ▸ hrun.start⟩, hrun.finish⟩

theorem mentions_iff {before : Option Char} (hne : word ≠ []) (hword : ∀ c ∈ word, IsWordChar c) :
    Definition.mentions word before text = true ↔
      ∃ pre after, text = pre ++ word ++ after ∧ Run (before.toList ++ pre) word after := by
  -- The character before the rest of the text is the one that the search has just passed.
  induction text generalizing before with
  | nil => simp [Definition.mentions, hne]
  | cons c text ih =>
      rw [Definition.mentions, Bool.or_eq_true, isRunHere_iff hne hword, ih]
      have hlast : ∀ pre, (before.toList ++ c :: pre).getLast? = (c :: pre).getLast? := fun pre =>
        List.getLast?_append_cons _ _ _
      constructor
      · rintro (⟨after, htext, hrun⟩ | ⟨pre, after, rfl, hrun⟩)
        · exact ⟨[], after, by simpa using htext, by simpa using hrun⟩
        · exact ⟨c :: pre, after, by simp, { hrun with start := by rw [hlast]; exact hrun.start }⟩
      · rintro ⟨pre, after, htext, hrun⟩
        cases pre with
        | nil => exact .inl ⟨after, by simpa using htext, by simpa using hrun⟩
        | cons c' pre =>
            cases htext
            have hstart := hrun.start
            rw [hlast] at hstart
            exact .inr ⟨pre, after, rfl, { hrun with start := hstart }⟩

theorem mentions_iff_hasWord (hne : word ≠ []) (hword : ∀ c ∈ word, IsWordChar c) :
    Definition.mentions word none text = true ↔ HasWord word text :=
  mentions_iff hne hword

end Words

/-! ## The operand that a writer reads -/

section Writers

variable {index : Nat} {writer : Writer} {width : Width}

theorem hasWord_name_iff {word : List Char} {name : String} (hname : IsName name)
    (hne : name ≠ "") : HasWord word name.toList ↔ word = name.toList :=
  hasWord_iff_eq (by simpa using hne) fun c hc => wordChar_iff.mp (hname c hc)

theorem argName_ne_empty : Writer.argName index ≠ "" := by simp [Writer.argName]

theorem hasWord_argName_iff {i : Nat} :
    HasWord (Writer.argName index).toList (Writer.argName i).toList ↔ i = index := by
  rw [hasWord_name_iff (isName_argName i) argName_ne_empty, String.toList_inj]
  constructor
  · exact fun h => (argName_inj h).symm
  · rintro rfl
    rfl

/-- A name that does not begin as those of operands do is none of them. -/
theorem not_hasWord_name {name : String} (hname : IsName name) (hne : name ≠ "")
    (harg : name.toList.take 3 ≠ "arg".toList) :
    ¬HasWord (Writer.argName index).toList name.toList := by
  rw [hasWord_name_iff hname hne]
  intro h
  rw [← h] at harg
  exact harg (by simp [Writer.argName])

theorem hasWord_arg_iff {i : Nat} :
    HasWord (Writer.argName index).toList (Writer.arg i).render.toList ↔ i = index := by
  have htext : (Writer.arg i).render.toList = [] ++ '*' :: (Writer.argName i).toList := by
    simp [Writer.render]
  rw [htext, hasWord_append_cons_iff (not_isWordChar rfl), hasWord_argName_iff,
    or_iff_right (not_hasWord (by simp))]

theorem hasWord_cast_iff {i : Nat} :
    HasWord (Writer.argName index).toList (Writer.cast i width).render.toList ↔ i = index := by
  have htext : (Writer.cast i width).render.toList =
      (Writer.arg i).render.toList ++ ' ' :: ("as".toList ++ ' ' :: width.typeName.toList) := by
    simp [Writer.render]
  have has : ¬HasWord (Writer.argName index).toList "as".toList :=
    not_hasWord_name (isName_of_literal rfl) (by decide) (by decide)
  have htype : ¬HasWord (Writer.argName index).toList width.typeName.toList := by
    cases width <;> exact not_hasWord_name (isName_of_literal rfl) (by decide) (by decide)
  rw [htext, hasWord_append_cons_iff (not_isWordChar rfl),
    hasWord_append_cons_iff (not_isWordChar rfl), hasWord_arg_iff,
    or_iff_left (not_or.mpr ⟨has, htype⟩)]

theorem reads_iff :
    Definition.reads index writer = true ↔
      HasWord (Writer.argName index).toList writer.render.toList := by
  cases writer with
  | arg i =>
      rw [hasWord_arg_iff]
      simp [Definition.reads, Writer.argIndex?]
  | cast i width =>
      rw [hasWord_cast_iff]
      simp [Definition.reads, Writer.argIndex?]
  | verbatim source =>
      refine mentions_iff_hasWord (by simpa using argName_ne_empty) fun c hc => ?_
      exact wordChar_iff.mp (isName_argName index c hc)

/-- A write statement reads what its writer reads. -/
theorem hasWord_statement_iff :
    HasWord (Writer.argName index).toList
        ("bc." ++ Definition.writeName width ++ "(" ++ writer.render ++ ");").toList ↔
      HasWord (Writer.argName index).toList writer.render.toList := by
  have htext : ("bc." ++ Definition.writeName width ++ "(" ++ writer.render ++ ");").toList =
      "bc".toList ++ '.' :: ((Definition.writeName width).toList ++
        '(' :: (writer.render.toList ++ ')' :: [';'])) := by
    simp
  have hbuffer : ¬HasWord (Writer.argName index).toList "bc".toList :=
    not_hasWord_name (isName_of_literal rfl) (by decide) (by decide)
  have hwrite : ¬HasWord (Writer.argName index).toList (Definition.writeName width).toList := by
    cases width <;> exact not_hasWord_name (isName_of_literal rfl) (by decide) (by decide)
  have hend : ¬HasWord (Writer.argName index).toList [';'] :=
    not_hasWord (by simpa using not_isWordChar rfl)
  rw [htext, hasWord_append_cons_iff (not_isWordChar rfl),
    hasWord_append_cons_iff (not_isWordChar rfl), hasWord_append_cons_iff (not_isWordChar rfl),
    or_iff_right hbuffer, or_iff_right hwrite, or_iff_left hend]

end Writers

/-! ## The arm of an opcode -/

section Arm

variable {d : Descriptor} {index : Nat}

/-- Some writer of the opcode reads the builder operand. -/
def Used (d : Descriptor) (index : Nat) : Prop :=
  ∃ writer ∈ d.operandWriters, HasWord (Writer.argName index).toList writer.render.toList

theorem any_reads_iff : d.operandWriters.any (Definition.reads index) = true ↔ Used d index := by
  simp only [List.any_eq_true, reads_iff, Used]

theorem binding_eq_argName_iff :
    Definition.binding d index = Writer.argName index ↔ Used d index := by
  rw [← any_reads_iff, Definition.binding]
  split
  · rename_i hused
    exact iff_of_true rfl hused
  · rename_i hunused
    exact iff_of_false (argName_ne_underscore index).symm hunused

theorem binding_eq_underscore_iff : Definition.binding d index = "_" ↔ ¬Used d index := by
  rw [← any_reads_iff, Definition.binding]
  split
  · rename_i hused
    exact iff_of_false (argName_ne_underscore index) (not_not_intro hused)
  · rename_i hunused
    exact iff_of_true rfl hunused

theorem line_mem_tail_writeArm_iff {text : String} :
    Fragment.line text ∈ (Definition.writeArm d).tail ↔
      ∃ writer width, (writer, width) ∈ d.operandWriters.zip d.runtimeOperands ∧
        "bc." ++ Definition.writeName width ++ "(" ++ writer.render ++ ");" = text := by
  have hmem : Fragment.line text ∈ (Definition.writeArm d).tail ↔
      Fragment.line text ∈ d.operandWriters.zipWith Definition.writeLine d.runtimeOperands := by
    unfold Definition.writeArm
    simp only
    split
    · rename_i hempty
      rw [List.isEmpty_iff.mp hempty]
      simp
    · simp [Code.closeBrace]
  rw [hmem, ← List.map_uncurry_zip_eq_zipWith, List.mem_map, Prod.exists]
  simp [Definition.writeLine]

theorem length_operandWriters_le (h : d.Aligned) :
    d.operandWriters.length ≤ d.runtimeOperands.length := by
  unfold Descriptor.operandWriters
  cases hwriters : d.attributes.operandWriters with
  | none => exact Nat.zero_le _
  | some writers => exact Nat.le_of_eq (h writers hwriters).length_eq

/-- No writer is without a statement, so that the statements read what the writers read. -/
theorem used_iff_exists_statement (h : d.Aligned) :
    Used d index ↔ ∃ statement, Fragment.line statement ∈ (Definition.writeArm d).tail ∧
      HasWord (Writer.argName index).toList statement.toList := by
  simp only [line_mem_tail_writeArm_iff]
  constructor
  · rintro ⟨writer, hwriter, hword⟩
    rw [← List.map_fst_zip (length_operandWriters_le h)] at hwriter
    obtain ⟨⟨_, width⟩, hpair, rfl⟩ := List.mem_map.mp hwriter
    exact ⟨_, ⟨_, width, hpair, rfl⟩, hasWord_statement_iff.mpr hword⟩
  · rintro ⟨_, ⟨writer, width, hpair, rfl⟩, hword⟩
    exact ⟨writer, (List.of_mem_zip hpair).1, hasWord_statement_iff.mp hword⟩

theorem exists_armHead (hname : IsName d.name) :
    ∃ head rest, ((Definition.writeArm d).head? = some (.line head) ∨
        (Definition.writeArm d).head? = some (.enter head)) ∧
      armHead? head = some (d.name, patternNames d, rest) := by
  unfold Definition.writeArm
  simp only
  split
  · exact ⟨_, _, .inl rfl, armHead?_writeArm hname " \x7b\x7d"⟩
  · exact ⟨_, _, .inr rfl, armHead?_writeArm hname " \x7b"⟩

end Arm

/-- The arm of an opcode binds the builder operands that its writers read, which are those that its
statements read, and has an underscore for each of the others. -/
theorem arm_binds_used_operands {document : String} {t : Table}
    (ht : Table.ofText document = .ok t) {d : Descriptor} (hd : d ∈ t.descriptors) :
    ∃ names, payload (Definition.pattern d).toList = (names, []) ∧
      (∃ head rest, ((Definition.writeArm d).head? = some (.line head) ∨
          (Definition.writeArm d).head? = some (.enter head)) ∧
        armHead? head = some (d.name, names, rest)) ∧
      names.length = d.builderOperands.length ∧
      ∀ index < d.builderOperands.length,
        (names[index]? = some (Writer.argName index) ↔ Used d index) ∧
        (names[index]? = some "_" ↔ ¬Used d index) ∧
        (Used d index ↔ ∃ statement, Fragment.line statement ∈ (Definition.writeArm d).tail ∧
          HasWord (Writer.argName index).toList statement.toList) := by
  have hwf := Table.WellFormed.of_ofText ht
  have hpattern : payload (Definition.pattern d).toList = (patternNames d, []) := by
    have hread := @payload_tuple (patternNames d) isName_patternNames [] (by simp)
    rwa [List.append_nil] at hread
  refine ⟨patternNames d, hpattern, exists_armHead (isName_name hwf hd), by simp [patternNames], ?_⟩
  intro index hindex
  rw [getElem?_patternNames, getElem?_patternNames, and_iff_right hindex, and_iff_right hindex]
  exact ⟨binding_eq_argName_iff, binding_eq_underscore_iff,
    used_iff_exists_statement (hwf.aligned d hd)⟩

/-- A document in which the name of an operand stands only inside of other words. -/
def spillText : String :=
  "[\x7b\"name\": \"Spill\", \"runtime_operands\": [\"u8\", \"u16\"], " ++
    "\"builder_operands\": [\"Slot\", \"Value\", \"u16\"], " ++
    "\"operand_writers\": [\"my_arg1(arg10, arg0)\", \"arg2\"]\x7d]"

def spill : Descriptor where
  name := "Spill"
  ordinal := 0
  attributes := {
    runtimeOperands := some [.byte, .word]
    operandWriters := some [.verbatim "my_arg1(arg10, arg0)", .arg 2]
    builderOperands := some ["Slot", "Value", "u16"] }

/-- Neither `my_arg1` nor `arg10` is the operand `arg1`. -/
theorem arm_binds_used_spill :
    Table.ofText spillText = .ok ⟨[spill]⟩ ∧ Definition.pattern spill = "(arg0, _, arg2)" ∧
      Used spill 0 ∧ ¬Used spill 1 ∧ Used spill 2 := by
  have ht : Table.ofText spillText = .ok ⟨[spill]⟩ := by decide +kernel
  have hpattern : Definition.pattern spill = "(arg0, _, arg2)" := by decide +kernel
  obtain ⟨names, hnames, -, -, hbinds⟩ := arm_binds_used_operands ht List.mem_cons_self
  rw [hpattern] at hnames
  obtain rfl : ["arg0", "_", "arg2"] = names := congrArg Prod.fst hnames
  exact ⟨ht, hpattern, (hbinds 0 (by decide)).1.mp rfl, (hbinds 1 (by decide)).2.1.mp rfl,
    (hbinds 2 (by decide)).1.mp rfl⟩

end OpcodeForge.Generated
