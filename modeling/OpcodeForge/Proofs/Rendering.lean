import OpcodeForge.Proofs.Writer

/-!
# Rendered writers

What a writer is read as after it is rendered. A passthrough and a cast come back. What is kept
verbatim comes back as well, unless it is a writer in disguise: a passthrough or a cast in white
space that the scanner does not skip, which is taken off nevertheless.
-/

namespace OpcodeForge

/-! ## White space around a text -/

namespace Text

variable {cs core before after : List Char}

theorem Trims.pad (h : Trims cs core) (hbefore : ∀ c ∈ before, c.toNat ∈ whiteSpace)
    (hafter : ∀ c ∈ after, c.toNat ∈ whiteSpace) : Trims (before ++ cs ++ after) core := by
  obtain ⟨⟨inner, inner', rfl, hinner, hinner'⟩, hstart, hfinish⟩ := h
  refine ⟨⟨before ++ inner, inner' ++ after, by simp, ?_, ?_⟩, hstart, hfinish⟩
  · exact List.forall_mem_append.mpr ⟨hbefore, hinner⟩
  · exact List.forall_mem_append.mpr ⟨hinner', hafter⟩

theorem Trims.self (h : Trims cs core) : Trims core core :=
  ⟨⟨[], [], by simp, by simp, by simp⟩, h.start, h.finish⟩

theorem trim_trim (s : String) : trim (trim s) = trim s :=
  trim_eq_iff.mpr (trim_eq_iff.mp rfl).self

end Text

namespace Writer

variable {writer writer' : Writer} {source : String} {index : Nat}
  {operand cs gap gap' digits : List Char}

/-! ## The characters of a writer -/

theorem Blank.whiteSpace (h : Blank gap) : ∀ c ∈ gap, c.toNat ∈ Text.whiteSpace := by
  intro c hc
  rcases h c hc with rfl | rfl | rfl | rfl <;> decide

theorem isBlank_of_isDigit {c : Char} (h : IsDigit c) : Text.isBlank c = false := by
  obtain ⟨hlow, hhigh⟩ := h
  have hlow : 0x30 ≤ c.toNat := hlow
  have hhigh : c.toNat ≤ 0x39 := hhigh
  rw [← Bool.not_eq_true, Text.isBlank_iff]
  simp only [Text.whiteSpace, List.mem_cons, List.not_mem_nil, or_false]
  omega

theorem isBlank_of_all (h : cs.all (fun c => !Text.isBlank c) = true) :
    ∀ c ∈ cs, Text.isBlank c = false := by
  intro c hc
  simpa using List.all_eq_true.mp h c hc

theorem isBlank_typeName (width : Width) : ∀ c ∈ width.typeName.toList, Text.isBlank c = false := by
  cases width <;> exact isBlank_of_all rfl

/-- Characters that are white space only where the scanner skips them. -/
def Plain (text : List Char) : Prop := ∀ c ∈ text, Text.isBlank c = true → isGap c = true

theorem Blank.plain (h : Blank gap) : Plain gap := fun c hc _ => blank_iff.mp h c hc

theorem plain_of_isBlank (h : ∀ c ∈ cs, Text.isBlank c = false) : Plain cs := by
  intro c hc hblank
  rw [h c hc] at hblank
  cases hblank

theorem Numeral.plain (h : Numeral index digits) : Plain digits :=
  plain_of_isBlank fun c hc => isBlank_of_isDigit (h.digit c hc)

theorem plain_append_iff : Plain (cs ++ gap) ↔ Plain cs ∧ Plain gap := List.forall_mem_append

theorem Operand.plain (h : Operand writer operand) : Plain operand := by
  cases h with
  | arg hdigits hgap =>
      have harg : Plain "arg".toList := plain_of_isBlank (isBlank_of_all rfl)
      simp only [plain_append_iff]
      exact ⟨⟨harg, hdigits.plain⟩, hgap.plain⟩
  | @cast _ width _ _ _ _ hdigits hgap hgap' hgap'' =>
      have harg : Plain "arg".toList := plain_of_isBlank (isBlank_of_all rfl)
      have has : Plain "as".toList := plain_of_isBlank (isBlank_of_all rfl)
      have hwidth : Plain width.typeName.toList := plain_of_isBlank (isBlank_typeName width)
      simp only [plain_append_iff]
      exact ⟨⟨⟨⟨⟨⟨harg, hdigits.plain⟩, hgap.plain⟩, has⟩, hgap'.plain⟩, hwidth⟩, hgap''.plain⟩

theorem Written.plain (h : Written writer cs) : Plain cs := by
  obtain ⟨gap, star, gap', operand, hgap, hstar, hgap', hoperand, rfl⟩ := h
  have hstar : Plain star := by
    rcases hstar with rfl | rfl <;> exact plain_of_isBlank (isBlank_of_all rfl)
  simp only [plain_append_iff]
  exact ⟨⟨⟨hgap.plain, hstar⟩, hgap'.plain⟩, hoperand.plain⟩

/-! ## Texts of a writer with other blanks -/

theorem Operand.append (h : Operand writer operand) (hgap : Blank gap) :
    Operand writer (operand ++ gap) := by
  cases h with
  | arg hdigits hlast =>
      rw [List.append_assoc]
      exact .arg hdigits (hlast.append hgap)
  | cast hdigits hbefore hafter hlast =>
      rw [List.append_assoc]
      exact .cast hdigits hbefore hafter (hlast.append hgap)

theorem Written.pad (h : Written writer cs) (hgap : Blank gap) (hgap' : Blank gap') :
    Written writer (gap ++ cs ++ gap') := by
  obtain ⟨first, star, second, operand, hfirst, hstar, hsecond, hoperand, rfl⟩ := h
  exact ⟨gap ++ first, star, second, operand ++ gap', hgap.append hfirst, hstar, hsecond,
    hoperand.append hgap', by simp⟩

theorem getLast?_append_notMem (cs : List Char) {ending : List Char} (hne : ending ≠ [])
    (h : ∀ c ∈ ending, Text.isBlank c = false) :
    ∀ c ∈ (cs ++ ending).getLast?, c.toNat ∉ Text.whiteSpace := by
  intro c hc
  rw [List.getLast?_append_of_ne_nil _ hne] at hc
  rw [← Text.isBlank_iff, h c (List.mem_of_mem_getLast? hc)]
  exact Bool.false_ne_true

/-- The operand without the blanks after it. -/
theorem Operand.exists_core (h : Operand writer operand) :
    ∃ core gap, operand = core ++ gap ∧ Blank gap ∧ Operand writer core ∧
      core.head? = some 'a' ∧ ∀ c ∈ core.getLast?, c.toNat ∉ Text.whiteSpace := by
  cases h with
  | arg hdigits hgap =>
      have hlast := getLast?_append_notMem "arg".toList hdigits.ne_nil
        fun c hc => isBlank_of_isDigit (hdigits.digit c hc)
      have hcore := Operand.arg hdigits blank_nil
      rw [List.append_nil] at hcore
      exact ⟨_, _, rfl, hgap, hcore, rfl, hlast⟩
  | @cast _ width digits gap gap' gap'' hdigits hgap hgap' hgap'' =>
      have hne : width.typeName.toList ≠ [] := by cases width <;> decide
      have hlast := getLast?_append_notMem ("arg".toList ++ digits ++ gap ++ "as".toList ++ gap')
        hne (isBlank_typeName width)
      have hcore := @Operand.cast _ width _ _ _ _ hdigits hgap hgap' blank_nil
      rw [List.append_nil] at hcore
      exact ⟨_, _, rfl, hgap'', hcore, rfl, hlast⟩

/-- Without the white space around it, a text of a writer is still one. -/
theorem Written.trims (h : Written writer cs) :
    ∃ core, Text.Trims cs core ∧ Written writer core := by
  obtain ⟨gap, star, gap', operand, hgap, hstar, hgap', hoperand, rfl⟩ := h
  obtain ⟨core, last, rfl, hlast, hcore, hhead, hfinish⟩ := hoperand.exists_core
  have hne : core ≠ [] := by
    rintro rfl
    cases hhead
  -- Without a star, the blanks on both sides of its place go; a star stays with those after it.
  rcases hstar with rfl | rfl
  · have hwritten : Written writer core :=
      ⟨[], [], [], core, blank_nil, .inl rfl, blank_nil, hcore, rfl⟩
    refine ⟨core, ⟨⟨gap ++ gap', last, by simp, (hgap.append hgap').whiteSpace,
      hlast.whiteSpace⟩, ?_, hfinish⟩, hwritten⟩
    intro c hc
    rw [hhead] at hc
    cases hc
    decide
  · have hwritten : Written writer (['*'] ++ gap' ++ core) :=
      ⟨[], ['*'], gap', core, blank_nil, .inr rfl, hgap', hcore, rfl⟩
    refine ⟨_, ⟨⟨gap, last, by simp, hgap.whiteSpace, hlast.whiteSpace⟩, ?_, ?_⟩, hwritten⟩
    · intro c hc
      cases hc
      decide
    · rwa [List.getLast?_append_of_ne_nil _ hne]

/-! ## Writers in disguise -/

/-- A text of the writer in white space, some of which the scanner does not skip. -/
def Disguised (writer : Writer) (source : List Char) : Prop :=
  ∃ before text after, source = before ++ text ++ after ∧ Written writer text ∧
    (∀ c ∈ before ++ after, c.toNat ∈ Text.whiteSpace) ∧ ¬Blank (before ++ after)

theorem Disguised.not_written (h : Disguised writer cs) : ¬Written writer' cs := by
  obtain ⟨before, text, after, rfl, -, hwhite, hnot⟩ := h
  intro hwritten
  have hplain := hwritten.plain
  simp only [plain_append_iff] at hplain
  have haround : Plain (before ++ after) := plain_append_iff.mpr ⟨hplain.1.1, hplain.2⟩
  exact hnot (blank_iff.mpr fun c hc => haround c hc (Text.isBlank_iff.mpr (hwhite c hc)))

theorem disguised_iff :
    Disguised writer source.toList ↔
      (∀ writer, ¬Written writer source.toList) ∧ Written writer (Text.trim source).toList := by
  constructor
  · intro h
    refine ⟨fun _ => h.not_written, ?_⟩
    obtain ⟨before, text, after, hsource, hwritten, hwhite, -⟩ := h
    obtain ⟨core, htrims, hcore⟩ := hwritten.trims
    obtain ⟨hbefore, hafter⟩ := List.forall_mem_append.mp hwhite
    have htrim : Text.trim source = String.ofList core := by
      rw [Text.trim_eq_iff, hsource, String.toList_ofList]
      exact htrims.pad hbefore hafter
    rwa [htrim, String.toList_ofList]
  · rintro ⟨hnone, hwritten⟩
    obtain ⟨⟨before, after, hsource, hbefore, hafter⟩, -, -⟩ :=
      Text.trim_eq_iff.mp (rfl : Text.trim source = _)
    refine ⟨before, _, after, hsource, hwritten, List.forall_mem_append.mpr ⟨hbefore, hafter⟩, ?_⟩
    -- In blanks alone the text would still be one of the writer, which the source is not.
    intro hblank
    obtain ⟨hgap, hgap'⟩ := List.forall_mem_append.mp hblank
    exact hnone writer (hsource ▸ hwritten.pad hgap hgap')

/-! ## Reading what is rendered -/

theorem numeral_repr (h : index < indexLimit) : Numeral index (Nat.repr index).toList := by
  refine numeral_iff.mpr ⟨?_, Generated.isDigit_toList_repr index, ?_, h⟩
  · simp [Nat.toList_repr, Nat.toDigits_ne_nil]
  · rw [Nat.toList_repr]
    exact Nat.ofDigitChars_ten_toDigits

theorem Operand.rendered (h : Operand writer operand) : Written writer writer.render.toList := by
  cases h with
  | arg hdigits _ =>
      have hcore := Operand.arg (numeral_repr hdigits.lt) blank_nil
      exact ⟨[], ['*'], [], _, blank_nil, .inr rfl, blank_nil, hcore, by simp [render, argName]⟩
  | @cast _ width _ _ _ _ hdigits _ _ _ =>
      have hspace : Blank [' '] := by simp [Blank]
      have hcore := @Operand.cast _ width _ _ _ _ (numeral_repr hdigits.lt) hspace hspace blank_nil
      exact ⟨[], ['*'], [], _, blank_nil, .inr rfl, blank_nil, hcore, by simp [render, argName]⟩

theorem parse_render_of_written (h : Written writer cs) : parse writer.render = writer := by
  obtain ⟨_, _, _, operand, _, _, _, hoperand, _⟩ := h
  exact parse_of_written hoperand.rendered

theorem parse_render_of_disguised (h : Disguised writer source.toList) :
    parse source = .verbatim (Text.trim source) ∧ parse (parse source).render = writer := by
  obtain ⟨hnone, hwritten⟩ := disguised_iff.mp h
  have hparse := parse_of_not_written hnone
  rw [hparse]
  exact ⟨rfl, parse_of_written hwritten⟩

theorem parse_render_of_not_disguised (h : ∀ writer, ¬Disguised writer source.toList) :
    parse (parse source).render = parse source := by
  by_cases hwritten : ∃ writer, Written writer source.toList
  · obtain ⟨writer, hwriter⟩ := hwritten
    rw [parse_of_written hwriter]
    exact parse_render_of_written hwriter
  · have hnone := not_exists.mp hwritten
    have htrimmed : ∀ writer, ¬Written writer (Text.trim source).toList := fun writer hwriter =>
      h writer (disguised_iff.mpr ⟨hnone, hwriter⟩)
    rw [parse_of_not_written hnone, render, parse_of_not_written htrimmed, Text.trim_trim]

/-- A writer comes back from its rendering exactly where its source is not a passthrough or a cast
in disguise. One in disguise is kept verbatim, and its rendering is read as what it hides. -/
theorem parse_render_iff_not_disguised (source : String) :
    (parse (parse source).render = parse source ↔
      ∀ writer, ¬Disguised writer source.toList) ∧
    ∀ writer, Disguised writer source.toList →
      parse source = .verbatim (Text.trim source) ∧ parse (parse source).render = writer := by
  refine ⟨⟨fun hsame writer hdisguised => ?_, parse_render_of_not_disguised⟩,
    fun _ => parse_render_of_disguised⟩
  obtain ⟨hparse, hread⟩ := parse_render_of_disguised hdisguised
  obtain ⟨-, hwritten⟩ := disguised_iff.mp hdisguised
  rw [hsame, hparse] at hread
  exact not_written_verbatim (hread ▸ hwritten)

/-- A vertical tab before a passthrough makes it verbatim, and is not rendered. -/
theorem parse_render_vertical_tab :
    parse "\x0barg0" = .verbatim "arg0" ∧ (parse "\x0barg0").render = "arg0" ∧
      parse (parse "\x0barg0").render = .arg 0 ∧
      ¬∀ source, parse (parse source).render = parse source := by
  have hparse : parse "\x0barg0" = .verbatim "arg0" := by decide +kernel
  have hread : parse (parse "\x0barg0").render = .arg 0 := by decide +kernel
  refine ⟨hparse, by rw [hparse]; rfl, hread, fun hall => ?_⟩
  have hsame := hall "\x0barg0"
  rw [hread, hparse] at hsame
  cases hsame

end Writer

end OpcodeForge
