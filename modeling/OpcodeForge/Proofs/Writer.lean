import Mathlib.Data.List.DropRight
import Mathlib.Data.Nat.Digits.Defs
import OpcodeForge.Proofs.Generated.Text
import OpcodeForge.Proofs.Loading

/-!
# The texts of writers

Which texts are a passthrough or a cast, said without the reader: blanks, one star or none, blanks,
a builder operand, and for a cast the word `as` and a width. The scanner gives exactly the tokens
that a text spells, so that reading agrees with this grammar on every text; what the grammar leaves
out is kept without the white space around it.
-/

namespace OpcodeForge

/-! ## White space around a text -/

namespace Text

/-- The code points with the Unicode property White_Space. -/
def whiteSpace : List Nat :=
  [0x9, 0xA, 0xB, 0xC, 0xD, 0x20, 0x85, 0xA0, 0x1680, 0x2000, 0x2001, 0x2002, 0x2003, 0x2004,
    0x2005, 0x2006, 0x2007, 0x2008, 0x2009, 0x200A, 0x2028, 0x2029, 0x202F, 0x205F, 0x3000]

/-- The text is the middle with white space around it, and the middle neither starts nor ends with
white space. -/
structure Trims (text middle : List Char) : Prop where
  around : ∃ before after, text = before ++ middle ++ after ∧
    (∀ c ∈ before, c.toNat ∈ whiteSpace) ∧ ∀ c ∈ after, c.toNat ∈ whiteSpace
  start : ∀ c ∈ middle.head?, c.toNat ∉ whiteSpace
  finish : ∀ c ∈ middle.getLast?, c.toNat ∉ whiteSpace

theorem isBlank_iff {c : Char} : isBlank c = true ↔ c.toNat ∈ whiteSpace := by
  simp only [isBlank, whiteSpace, Bool.or_eq_true, Bool.and_eq_true, decide_eq_true_eq, beq_iff_eq,
    List.mem_cons, List.not_mem_nil, or_false]
  omega

theorem trimChars_eq (cs : List Char) :
    trimChars cs = (cs.dropWhile isBlank).rdropWhile isBlank := rfl

theorem trims_trimChars (cs : List Char) : Trims cs (trimChars cs) := by
  rw [trimChars_eq]
  refine ⟨⟨cs.takeWhile isBlank, (cs.dropWhile isBlank).rtakeWhile isBlank, ?_, ?_, ?_⟩, ?_, ?_⟩
  · rw [List.append_assoc, List.rdropWhile_append_rtakeWhile, List.takeWhile_append_dropWhile]
  · exact fun c hc => isBlank_iff.mp (List.mem_takeWhile_imp hc)
  · exact fun c hc => isBlank_iff.mp (List.mem_rtakeWhile_imp hc)
  · intro c hc
    obtain ⟨after, happend⟩ := List.rdropWhile_prefix isBlank (cs.dropWhile isBlank)
    have hhead := List.head?_dropWhile_not isBlank cs
    rw [← happend, List.head?_append, Option.mem_def.mp hc] at hhead
    rw [← isBlank_iff]
    simpa using hhead
  · intro c hc
    obtain ⟨hne, rfl⟩ := List.mem_getLast?_eq_getLast hc
    rw [← isBlank_iff]
    exact List.rdropWhile_last_not _ _ hne

/-- There is only one way to take the white space off. -/
theorem trimChars_of_trims {cs middle : List Char} (h : Trims cs middle) :
    trimChars cs = middle := by
  obtain ⟨⟨before, after, rfl, hbefore, hafter⟩, hstart, hfinish⟩ := h
  simp only [← isBlank_iff] at hbefore hafter hstart hfinish
  rw [trimChars_eq, List.append_assoc, List.dropWhile_append_of_pos hbefore]
  cases middle with
  | nil =>
      have hnil : after.dropWhile isBlank = [] := List.dropWhile_eq_nil_iff.mpr hafter
      rw [List.nil_append, hnil, List.rdropWhile_nil]
  | cons c middle =>
      rw [List.cons_append, List.dropWhile_cons_of_neg (hstart c rfl), ← List.cons_append,
        List.rdropWhile, List.reverse_append, List.dropWhile_append_of_pos (by simpa using hafter)]
      refine (List.rdropWhile_eq_self_iff.mpr fun hne => hfinish _ ?_)
      exact List.getLast?_eq_some_getLast hne

theorem trim_eq_iff {s s' : String} : trim s = s' ↔ Trims s.toList s'.toList := by
  rw [trim, ← String.toList_inj, String.toList_ofList]
  constructor
  · intro h
    rw [← h]
    exact trims_trimChars _
  · exact trimChars_of_trims

end Text

namespace Writer

/-! ## The grammar -/

/-- Spaces, tabs, carriage returns and newlines alone. -/
def Blank (text : List Char) : Prop := ∀ c ∈ text, c = ' ' ∨ c = '\t' ∨ c = '\r' ∨ c = '\n'

/-- One or more decimal digits, and the 64-bit number that they stand for. -/
structure Numeral (index : Nat) (digits : List Char) : Prop where
  ne_nil : digits ≠ []
  digit : ∀ c ∈ digits, IsDigit c
  value : Nat.ofDigits 10 (digits.reverse.map fun c => c.toNat - '0'.toNat) = index
  lt : index < 2 ^ 64

/-- A writer from its builder operand on. -/
inductive Operand : Writer → List Char → Prop where
  | arg {index : Nat} {digits gap : List Char} (hdigits : Numeral index digits)
      (hgap : Blank gap) : Operand (.arg index) ("arg".toList ++ digits ++ gap)
  | cast {index : Nat} {width : Width} {digits gap gap' gap'' : List Char}
      (hdigits : Numeral index digits) (hgap : Blank gap) (hgap' : Blank gap')
      (hgap'' : Blank gap'') :
      Operand (.cast index width) ("arg".toList ++ digits ++ gap ++ "as".toList ++ gap' ++
        width.typeName.toList ++ gap'')

/-- The texts of a writer: blanks, one star or none, blanks, and the builder operand. -/
def Written (writer : Writer) (text : List Char) : Prop :=
  ∃ gap star gap' operand, Blank gap ∧ (star = [] ∨ star = ['*']) ∧ Blank gap' ∧
    Operand writer operand ∧ text = gap ++ star ++ gap' ++ operand

theorem isGap_iff {c : Char} : isGap c = true ↔ c = ' ' ∨ c = '\t' ∨ c = '\r' ∨ c = '\n' := by
  simp [isGap, or_assoc]

theorem blank_iff {text : List Char} : Blank text ↔ ∀ c ∈ text, isGap c = true := by
  simp only [Blank, isGap_iff]

theorem blank_nil : Blank [] := fun _ hc => absurd hc List.not_mem_nil

theorem Blank.append {gap gap' : List Char} (h : Blank gap) (h' : Blank gap') :
    Blank (gap ++ gap') := fun c hc => (List.mem_append.mp hc).elim (h c) (h' c)

theorem ofDigits_eq (digits : List Char) :
    Text.ofDigits digits =
      Nat.ofDigits 10 (digits.reverse.map fun c => c.toNat - '0'.toNat) := by
  induction digits using List.reverseRecOn with
  | nil => rfl
  | append_singleton digits c ih =>
      rw [Text.ofDigits, List.foldl_append, List.reverse_append, ← Text.ofDigits, ih]
      simp [Nat.ofDigits_cons, Nat.add_comm]

theorem numeral_iff {index : Nat} {digits : List Char} :
    Numeral index digits ↔ digits ≠ [] ∧ (∀ c ∈ digits, c.isDigit = true) ∧
      Text.ofDigits digits = index ∧ index < indexLimit := by
  simp only [isDigit_iff, ofDigits_eq]
  exact ⟨fun ⟨hne, hdigit, hvalue, hlt⟩ => ⟨hne, hdigit, hvalue, hlt⟩,
    fun ⟨hne, hdigit, hvalue, hlt⟩ => ⟨hne, hdigit, hvalue, hlt⟩⟩

/-! ## Tokens -/

def Token.Spelled : Token → List Char → Prop
  | .star, text => text = ['*']
  | .conversion, text => text = ['a', 's']
  | .arg index, text => ∃ digits, Numeral index digits ∧ text = 'a' :: 'r' :: 'g' :: digits
  | .width w, text => text = w.typeName.toList

theorem Token.spelled_star : Token.star.Spelled ['*'] := rfl

theorem Token.spelled_conversion : Token.conversion.Spelled "as".toList := rfl

theorem Token.spelled_arg {index : Nat} {digits : List Char} (h : Numeral index digits) :
    (Token.arg index).Spelled ("arg".toList ++ digits) := ⟨digits, h, rfl⟩

theorem Token.spelled_width {w : Width} : (Token.width w).Spelled w.typeName.toList := rfl

/-- The text spells the tokens, with blanks around and between them. -/
inductive Spells : List Token → List Char → Prop where
  | nil {gap : List Char} (hgap : Blank gap) : Spells [] gap
  | cons {token : Token} {tokens : List Token} {gap text rest : List Char} (hgap : Blank gap)
      (htext : token.Spelled text) (hrest : Spells tokens rest) :
      Spells (token :: tokens) (gap ++ text ++ rest)

theorem Token.spelled_of_first? {cs rest : List Char} {token : Token}
    (h : Token.first? cs = some (token, rest)) : ∃ text, token.Spelled text ∧ cs = text ++ rest := by
  unfold Token.first? at h
  split at h
  case h_5 rest' =>
    simp only [Option.ite_none_right_eq_some, Option.some.injEq, Prod.mk.injEq, Bool.and_eq_true,
      Bool.not_eq_true', List.isEmpty_eq_false_iff, decide_eq_true_eq] at h
    obtain ⟨⟨hne, hlt⟩, rfl, rfl⟩ := h
    refine ⟨'a' :: 'r' :: 'g' :: rest'.takeWhile Char.isDigit, ⟨_, ?_, rfl⟩, ?_⟩
    · exact numeral_iff.mpr ⟨hne, fun c hc => List.mem_takeWhile_imp hc, rfl, hlt⟩
    · simp [List.takeWhile_append_dropWhile]
  case h_6 => cases h
  all_goals
    cases h
    exact ⟨_, rfl, rfl⟩

/-- A token is read where its text stands, unless digits go on after a builder operand. -/
theorem Token.first?_of_spelled {token : Token} {text rest : List Char} (htext : token.Spelled text)
    (hrest : rest.takeWhile Char.isDigit = []) :
    Token.first? (text ++ rest) = some (token, rest) := by
  cases token with
  | star =>
      obtain rfl : text = ['*'] := htext
      rfl
  | conversion =>
      obtain rfl : text = ['a', 's'] := htext
      rfl
  | width w =>
      obtain rfl : text = w.typeName.toList := htext
      cases w <;> rfl
  | arg index =>
      obtain ⟨digits, hnumeral, rfl⟩ := htext
      obtain ⟨hne, hdigit, rfl, hlt⟩ := numeral_iff.mp hnumeral
      simp only [List.cons_append, Token.first?, Generated.takeWhile_append_eq hdigit hrest,
        Generated.dropWhile_append_eq hdigit hrest]
      simp [hne, hlt]

theorem Token.exists_cons_of_spelled {token : Token} {text : List Char}
    (htext : token.Spelled text) :
    ∃ c rest, text = c :: rest ∧ (c = '*' ∨ c = 'a' ∨ c = 'u') := by
  cases token with
  | star => exact ⟨_, _, htext, .inl rfl⟩
  | conversion => exact ⟨_, _, htext, .inr (.inl rfl)⟩
  | arg index =>
      obtain ⟨digits, -, rfl⟩ := htext
      exact ⟨_, _, rfl, .inr (.inl rfl)⟩
  | width w =>
      obtain rfl : text = w.typeName.toList := htext
      cases w <;> exact ⟨_, _, rfl, .inr (.inr rfl)⟩

/-! ## Scanning -/

/-- What follows a builder operand does not go on with digits. -/
theorem Spells.takeWhile_isDigit {tokens : List Token} {cs : List Char} (h : Spells tokens cs) :
    cs.takeWhile Char.isDigit = [] := by
  have hgaps : ∀ {gap cs : List Char}, Blank gap → cs.takeWhile Char.isDigit = [] →
      (gap ++ cs).takeWhile Char.isDigit = [] := by
    intro gap cs hgap hcs
    cases gap with
    | nil => exact hcs
    | cons c gap => rcases hgap c List.mem_cons_self with rfl | rfl | rfl | rfl <;> rfl
  cases h with
  | nil hgap => simpa using hgaps hgap (rfl : [].takeWhile Char.isDigit = [])
  | cons hgap htext _ =>
      obtain ⟨c, rest, rfl, hc⟩ := Token.exists_cons_of_spelled htext
      rw [List.append_assoc]
      refine hgaps hgap ?_
      rcases hc with rfl | rfl | rfl <;> rfl

theorem Token.scan?_of_blank {cs : List Char} (h : Blank cs) : Token.scan? cs = some [] := by
  have hnil : cs.dropWhile isGap = [] := List.dropWhile_eq_nil_iff.mpr (blank_iff.mp h)
  rw [Token.scan?]
  split
  · rfl
  · rename_i hcons
    rw [hnil] at hcons
    cases hcons

theorem Token.scan?_of_first? {cs cs' rest : List Char} {token : Token}
    (hgap : cs.dropWhile isGap = cs') (hfirst : Token.first? cs' = some (token, rest)) :
    Token.scan? cs = (Token.scan? rest).map (token :: ·) := by
  rw [Token.scan?]
  split
  · rename_i hnil
    rw [← hgap, hnil] at hfirst
    cases hfirst
  · rename_i c tail hcons
    rw [← hgap, hcons] at hfirst
    split
    · rename_i hnone
      rw [hfirst] at hnone
      cases hnone
    · rename_i hsome
      rw [hfirst] at hsome
      cases hsome
      rfl

theorem Token.scan?_of_spells {tokens : List Token} {cs : List Char} (h : Spells tokens cs) :
    Token.scan? cs = some tokens := by
  induction h with
  | nil hgap => exact Token.scan?_of_blank hgap
  | @cons token tokens gap text rest hgap htext hrest ih =>
      -- no token begins with a blank, so that skipping stops where its text starts
      have hskip : (gap ++ text ++ rest).dropWhile isGap = text ++ rest := by
        obtain ⟨c, tail, rfl, hc⟩ := Token.exists_cons_of_spelled htext
        rw [List.append_assoc, List.dropWhile_append_of_pos (blank_iff.mp hgap)]
        rcases hc with rfl | rfl | rfl <;> rfl
      rw [Token.scan?_of_first? hskip (Token.first?_of_spelled htext hrest.takeWhile_isDigit), ih]
      rfl

theorem Token.spells_of_scan? {tokens : List Token} {cs : List Char}
    (h : Token.scan? cs = some tokens) : Spells tokens cs := by
  fun_induction Token.scan? cs generalizing tokens with
  | case1 cs hgap =>
      cases h
      exact .nil (blank_iff.mpr (List.dropWhile_eq_nil_iff.mp hgap))
  | case2 cs c cs' hgap hfirst => cases h
  | case3 cs c cs' hgap token rest hfirst ih =>
      obtain ⟨tokens', htokens', rfl⟩ := Option.map_eq_some_iff.mp h
      obtain ⟨text, htext, hsplit⟩ := Token.spelled_of_first? hfirst
      have hcs : cs = cs.takeWhile isGap ++ text ++ rest := by
        rw [List.append_assoc, ← hsplit, ← hgap, List.takeWhile_append_dropWhile]
      rw [hcs]
      exact .cons (blank_iff.mpr fun c hc => List.mem_takeWhile_imp hc) htext (ih htokens')

theorem Token.scan?_eq_some_iff {tokens : List Token} {cs : List Char} :
    Token.scan? cs = some tokens ↔ Spells tokens cs :=
  ⟨Token.spells_of_scan?, Token.scan?_of_spells⟩

/-! ## Reading -/

/-- The tokens from the builder operand on spell blanks and the text of the writer. -/
theorem spells_operand_iff {writer : Writer} {cs : List Char} :
    (∃ tokens, ofOperand? tokens = some writer ∧ Spells tokens cs) ↔
      ∃ gap operand, Blank gap ∧ Operand writer operand ∧ cs = gap ++ operand := by
  constructor
  · rintro ⟨tokens, htokens, hspells⟩
    unfold ofOperand? at htokens
    split at htokens
    · cases htokens
      cases hspells with
      | cons hgap htext hrest =>
          obtain ⟨digits, hdigits, rfl⟩ := htext
          cases hrest with
          | nil hgap' => exact ⟨_, _, hgap, .arg hdigits hgap', by simp⟩
    · cases htokens
      cases hspells with
      | cons hgap htext hrest =>
          obtain ⟨digits, hdigits, rfl⟩ := htext
          cases hrest with
          | cons hgap' has hrest =>
              cases hrest with
              | cons hgap'' hwidth hrest =>
                  cases hrest with
                  | nil hgap''' =>
                      refine ⟨_, _, hgap, .cast hdigits hgap' hgap'' hgap''', ?_⟩
                      rw [has, hwidth]
                      simp
    · cases htokens
  · rintro ⟨gap, operand, hgap, hoperand, rfl⟩
    cases hoperand with
    | @arg index digits gap' hdigits hgap' =>
        refine ⟨[.arg index], rfl, ?_⟩
        simpa only [List.append_assoc] using
          Spells.cons hgap (Token.spelled_arg hdigits) (.nil hgap')
    | @cast index width digits gap' gap'' gap''' hdigits hgap' hgap'' hgap''' =>
        refine ⟨[.arg index, .conversion, .width width], rfl, ?_⟩
        simpa only [List.append_assoc] using
          Spells.cons hgap (Token.spelled_arg hdigits)
            (.cons hgap' Token.spelled_conversion (.cons hgap'' Token.spelled_width (.nil hgap''')))

theorem ofTokens?_of_ofOperand? {tokens : List Token} {writer : Writer}
    (h : ofOperand? tokens = some writer) : ofTokens? tokens = some writer := by
  unfold ofTokens?
  split
  · cases h
  · exact h

/-- The tokens of a text stand for a writer exactly where the text is one of the writer's. -/
theorem scan?_bind_ofTokens?_iff {writer : Writer} {cs : List Char} :
    (Token.scan? cs).bind ofTokens? = some writer ↔ Written writer cs := by
  simp only [Option.bind_eq_some_iff, Token.scan?_eq_some_iff]
  constructor
  · rintro ⟨tokens, hspells, htokens⟩
    unfold ofTokens? at htokens
    split at htokens
    · cases hspells with
      | cons hgap hstar hrest =>
          obtain ⟨gap', operand, hgap', hoperand, rfl⟩ :=
            spells_operand_iff.mp ⟨_, htokens, hrest⟩
          exact ⟨_, _, gap', operand, hgap, .inr hstar, hgap', hoperand, by simp⟩
    · obtain ⟨gap, operand, hgap, hoperand, rfl⟩ := spells_operand_iff.mp ⟨_, htokens, hspells⟩
      exact ⟨gap, [], [], operand, hgap, .inl rfl, blank_nil, hoperand, by simp⟩
  · rintro ⟨gap, star, gap', operand, hgap, rfl | rfl, hgap', hoperand, rfl⟩
    · obtain ⟨tokens, htokens, hspells⟩ :=
        spells_operand_iff.mpr ⟨gap ++ gap', operand, hgap.append hgap', hoperand, rfl⟩
      exact ⟨tokens, by simpa using hspells, ofTokens?_of_ofOperand? htokens⟩
    · obtain ⟨tokens, htokens, hspells⟩ :=
        spells_operand_iff.mpr ⟨gap', operand, hgap', hoperand, rfl⟩
      refine ⟨.star :: tokens, ?_, htokens⟩
      simpa only [List.append_assoc] using Spells.cons hgap Token.spelled_star hspells

theorem not_written_verbatim {text : String} {cs : List Char} : ¬Written (.verbatim text) cs := by
  rintro ⟨_, _, _, _, _, _, _, hoperand, _⟩
  cases hoperand

theorem parse_of_written {source : String} {writer : Writer} (h : Written writer source.toList) :
    parse source = writer := by
  rw [parse, scan?_bind_ofTokens?_iff.mpr h]

theorem parse_of_not_written {source : String} (h : ∀ writer, ¬Written writer source.toList) :
    parse source = .verbatim (Text.trim source) := by
  have hnone : (Token.scan? source.toList).bind ofTokens? = none :=
    Option.eq_none_iff_forall_ne_some.mpr fun writer hwriter =>
      h writer (scan?_bind_ofTokens?_iff.mp hwriter)
  rw [parse, hnone]

theorem parse_eq_iff_written {source : String} {writer : Writer}
    (htyped : ∀ text, writer ≠ .verbatim text) :
    parse source = writer ↔ Written writer source.toList := by
  refine ⟨fun h => ?_, parse_of_written⟩
  by_contra hnot
  have hnone : ∀ writer, ¬Written writer source.toList := by
    intro writer' hwriter'
    rw [parse_of_written hwriter'] at h
    exact hnot (h ▸ hwriter')
  rw [parse_of_not_written hnone] at h
  exact htyped _ h.symm

theorem parse_eq_verbatim_iff {source text : String} :
    parse source = .verbatim text ↔
      (∀ writer, ¬Written writer source.toList) ∧ Text.Trims source.toList text.toList := by
  rw [← Text.trim_eq_iff]
  constructor
  · intro h
    have hnone : ∀ writer, ¬Written writer source.toList := by
      intro writer hwriter
      rw [parse_of_written hwriter] at h
      exact not_written_verbatim (h ▸ hwriter)
    rw [parse_of_not_written hnone] at h
    cases h
    exact ⟨hnone, rfl⟩
  · rintro ⟨hnone, rfl⟩
    exact parse_of_not_written hnone

/-- Reading accepts exactly the grammar, and keeps any other text without the white space around
it. -/
theorem parse_exact_grammar (source : String) :
    (∀ index, parse source = .arg index ↔ Written (.arg index) source.toList) ∧
    (∀ index width, parse source = .cast index width ↔
      Written (.cast index width) source.toList) ∧
    ∀ text, parse source = .verbatim text ↔
      (∀ writer, ¬Written writer source.toList) ∧ Text.Trims source.toList text.toList :=
  ⟨fun _ => parse_eq_iff_written (by simp), fun _ _ => parse_eq_iff_written (by simp),
    fun _ => parse_eq_verbatim_iff⟩

example : parse " * arg0asu8\n" = .cast 0 .byte := by decide +kernel

example : parse "arg18446744073709551616\u00A0" = .verbatim "arg18446744073709551616" := by
  decide +kernel

end Writer

end OpcodeForge
