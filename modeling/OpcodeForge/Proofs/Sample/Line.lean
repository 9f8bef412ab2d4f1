import Mathlib.Data.List.TakeWhile
import OpcodeForge.Sample.Assembly

/-!
# Lines of the sample's assembly language

A line without its comment is blank or spells one statement, token by token with spaces and tabs
around. The reader of statements goes through a text from left to right and skips comments like
spaces; up to the end of a line it reads exactly what the line spells.
-/

namespace OpcodeForge.Sample.Assembly

/-! ## What a line says -/

/-- A part of a statement. -/
inductive Token where
  | keyword (word : String)
  | number (digits : List Char)
  | comma

/-- The texts of a token: a keyword in any letter case, one or more digits, a comma. -/
def Token.Spelled : Token → List Char → Prop
  | .keyword word, text => text.map Char.toLower = word.toList
  | .number digits, text => text = digits ∧ digits ≠ [] ∧ ∀ c ∈ digits, c.isDigit = true
  | .comma, text => text = [',']

/-- The tokens of a statement. -/
def Statement.tokens : Statement → List Token
  | .push value => [.keyword "push", .number value]
  | .jump target => [.keyword "jump", .number target]
  | .call target arity => [.keyword "call", .number target, .comma, .number arity]
  | .nop => [.keyword "nop"]
  | .ret => [.keyword "ret"]

/-- Spaces and tabs alone. -/
def Blank (text : List Char) : Prop := ∀ c ∈ text, isGap c = true

theorem blank_nil : Blank [] := fun _ hc => absurd hc List.not_mem_nil

/-- The text spells the tokens, with spaces and tabs around and between them. -/
inductive Spells : List Token → List Char → Prop where
  | nil {gap : List Char} (hgap : Blank gap) : Spells [] gap
  | cons {token : Token} {tokens : List Token} {gap text rest : List Char} (hgap : Blank gap)
      (htext : token.Spelled text) (hrest : Spells tokens rest) :
      Spells (token :: tokens) (gap ++ text ++ rest)

/-- What a line says: nothing, or one statement. -/
def Says (line : List Char) (meaning : Option Statement) : Prop :=
  Spells (meaning.elim [] Statement.tokens) line

/-! ## The rest of a line -/

/-- A character of a line before its comment. -/
def isCode (c : Char) : Bool := c != ';' && !isLineEnd c

/-- What is left of the current line, without its comment. -/
def content (cs : List Char) : List Char := cs.takeWhile isCode

/-- The text from the end of the current line on. -/
def atLineEnd (cs : List Char) : List Char := cs.dropWhile fun c => !isLineEnd c

/-- The text starts with a line ending, or there is no more. -/
def Ends (cs : List Char) : Prop := ∀ c rest, cs = c :: rest → isLineEnd c = true

theorem ne_of_class {p : Char → Bool} {c c' : Char} (h : p c = true) (h' : p c' = false) :
    c ≠ c' := by
  rintro rfl
  rw [h] at h'
  cases h'

/-- A class without the semicolon and the line endings is part of the code. -/
theorem isCode_of_class {p : Char → Bool} (hp : p ';' = false ∧ p '\n' = false ∧ p '\r' = false)
    {c : Char} (h : p c = true) : isCode c = true := by
  simp [isCode, isLineEnd, ne_of_class h hp.1, ne_of_class h hp.2.1, ne_of_class h hp.2.2]

theorem isGap_of_class {p : Char → Bool} (hp : p ' ' = false ∧ p '\t' = false) {c : Char}
    (h : p c = true) : isGap c = false := by
  simp [isGap, ne_of_class h hp.1, ne_of_class h hp.2]

section Content

variable {text cs : List Char}

theorem content_append (h : ∀ c ∈ text, isCode c = true) :
    content (text ++ cs) = text ++ content cs :=
  List.takeWhile_append_of_pos h

theorem atLineEnd_append (h : ∀ c ∈ text, isCode c = true) :
    atLineEnd (text ++ cs) = atLineEnd cs :=
  List.dropWhile_append_of_pos fun c hc => by
    have := h c hc
    simp only [isCode, Bool.and_eq_true] at this
    exact this.2

theorem ends_atLineEnd : Ends (atLineEnd cs) := by
  intro c rest h
  have hhead := List.head?_dropWhile_not (fun c => !isLineEnd c) cs
  unfold atLineEnd at h
  rw [h] at hhead
  simpa using hhead

theorem atLineEnd_of_ends (h : Ends cs) : atLineEnd cs = cs := by
  cases cs with
  | nil => rfl
  | cons c rest => simp [atLineEnd, h c rest rfl]

theorem content_of_ends (h : Ends cs) : content cs = [] := by
  cases cs with
  | nil => rfl
  | cons c rest => simp [content, isCode, h c rest rfl]

/-! ## Skipping -/

theorem Blank.isCode (h : Blank text) : ∀ c ∈ text, isCode c = true := fun c hc =>
  isCode_of_class (by decide) (h c hc)

/-- Skipping goes over spaces and tabs, and then over a comment if there is one. -/
theorem skip_cases (cs : List Char) :
    ∃ gap rest, Blank gap ∧ cs = gap ++ rest ∧
      ((skip cs = rest ∧ ∀ c rest', rest = c :: rest' → isGap c = false ∧ c ≠ ';') ∨
        ∃ body, rest = ';' :: body ∧ skip cs = atLineEnd body) := by
  refine ⟨cs.takeWhile isGap, cs.dropWhile isGap, fun c hc => List.mem_takeWhile_imp hc,
    List.takeWhile_append_dropWhile.symm, ?_⟩
  unfold skip
  split
  · rename_i body h
    exact .inr ⟨body, h, rfl⟩
  · rename_i hnot
    refine .inl ⟨rfl, ?_⟩
    intro c rest' h
    have hhead := List.head?_dropWhile_not isGap cs
    rw [h] at hhead
    refine ⟨by simpa using hhead, ?_⟩
    rintro rfl
    exact hnot rest' h

/-- Where nothing is left of a line but a comment, skipping goes to its end. -/
theorem skip_of_blank (h : Blank (content cs)) : skip cs = atLineEnd cs := by
  obtain ⟨gap, rest, hgap, rfl, hskip⟩ := skip_cases cs
  rw [atLineEnd_append hgap.isCode]
  rw [content_append hgap.isCode] at h
  rcases hskip with ⟨hskip, hhead⟩ | ⟨body, rfl, hskip⟩
  · rw [hskip]
    refine (atLineEnd_of_ends ?_).symm
    rintro c rest' rfl
    obtain ⟨hc, hne⟩ := hhead c rest' rfl
    by_contra hnot
    have hend : isLineEnd c = false := by simpa using hnot
    have hcode : isCode c = true := by simp [isCode, hne, hend]
    have hmem : c ∈ gap ++ content (c :: rest') := by simp [content, hcode]
    rw [h c hmem] at hc
    cases hc
  · rw [hskip]
    simp [atLineEnd, isLineEnd]

/-- Skipping takes spaces and tabs, and no other code, from the line. -/
theorem exists_content_eq (cs : List Char) :
    ∃ gap, Blank gap ∧ content cs = gap ++ content (skip cs) := by
  obtain ⟨gap, rest, hgap, rfl, hskip⟩ := skip_cases cs
  refine ⟨gap, hgap, ?_⟩
  rw [content_append hgap.isCode]
  rcases hskip with ⟨hskip, -⟩ | ⟨body, rfl, hskip⟩
  · rw [hskip]
  · rw [hskip, content_of_ends ends_atLineEnd]
    simp [content, isCode]

/-- Where skipping stops before the end of the line, it has seen no comment. -/
theorem exists_gap_of_skip {c : Char} {rest : List Char} (h : skip cs = c :: rest)
    (hc : isLineEnd c = false) : ∃ gap, Blank gap ∧ cs = gap ++ c :: rest := by
  obtain ⟨gap, rest', hgap, rfl, ⟨hskip, -⟩ | ⟨body, -, hskip⟩⟩ := skip_cases cs
  · exact ⟨gap, hgap, by rw [← h, hskip]⟩
  · have hend := ends_atLineEnd c rest (hskip.symm.trans h)
    rw [hc] at hend
    cases hend

theorem skip_append {gap : List Char} {c : Char} (hgap : Blank gap) (hc : isGap c = false)
    (hne : c ≠ ';') : skip (gap ++ c :: cs) = c :: cs := by
  unfold skip
  rw [List.dropWhile_append_of_pos hgap, List.dropWhile_cons_of_neg (by simp [hc])]
  split
  · rename_i body h
    cases h
    exact absurd rfl hne
  · rfl

/-- A second skip finds nothing. -/
theorem skip_skip (cs : List Char) : skip (skip cs) = skip cs := by
  obtain ⟨gap, rest, hgap, rfl, ⟨hskip, hhead⟩ | ⟨body, -, hskip⟩⟩ := skip_cases cs
  · rw [hskip]
    cases rest with
    | nil => rfl
    | cons c rest =>
        obtain ⟨hc, hne⟩ := hhead c rest rfl
        exact skip_append blank_nil hc hne
  · have hblank : Blank (content (atLineEnd body)) := by
      rw [content_of_ends ends_atLineEnd]
      exact blank_nil
    rw [hskip, skip_of_blank hblank, atLineEnd_of_ends ends_atLineEnd]

end Content

/-! ## Tokens -/

/-- The text starts with the tokens, with spaces and tabs before each of them; the rest is left. -/
inductive Reads : List Token → List Char → List Char → Prop where
  | nil {cs : List Char} : Reads [] cs cs
  | cons {token : Token} {tokens : List Token} {gap text cs rest : List Char} (hgap : Blank gap)
      (htext : token.Spelled text) (hrest : Reads tokens cs rest) :
      Reads (token :: tokens) (gap ++ text ++ cs) rest

theorem isCode_of_spelled {statement : Statement} {token : Token} {text : List Char}
    (htoken : token ∈ statement.tokens) (htext : token.Spelled text) :
    ∀ c ∈ text, isCode c = true := by
  intro c hc
  cases token with
  | keyword word =>
      have hlower : c.toLower ∈ word.toList := by
        rw [← (show text.map Char.toLower = word.toList from htext)]
        exact List.mem_map_of_mem hc
      have hword : word.toList.all Char.isLower = true := by
        cases statement <;> simp only [Statement.tokens, List.mem_cons, Token.keyword.injEq,
          List.not_mem_nil, or_false, reduceCtorEq] at htoken <;> subst htoken <;> decide
      exact isCode_of_class (p := fun c => c.toLower.isLower) (by decide)
        (List.all_eq_true.mp hword _ hlower)
  | number digits =>
      obtain ⟨rfl, -, hdigits⟩ := htext
      exact isCode_of_class (by decide) (hdigits c hc)
  | comma =>
      obtain rfl : text = [','] := htext
      rw [List.mem_singleton.mp hc]
      rfl

theorem Spells.append {gap line : List Char} {tokens : List Token} (hgap : Blank gap)
    (h : Spells tokens line) : Spells tokens (gap ++ line) := by
  have happend : ∀ {gap'}, Blank gap' → Blank (gap ++ gap') := fun hgap' c hc =>
    (List.mem_append.mp hc).elim (hgap c) (hgap' c)
  cases h with
  | nil hgap' => exact .nil (happend hgap')
  | cons hgap' htext hrest =>
      simp only [← List.append_assoc]
      exact .cons (happend hgap') htext hrest

/-- Tokens that end where nothing is left of the line are all that the line spells. -/
theorem spells_of_reads {tokens : List Token} {cs rest : List Char}
    (hcode : ∀ token ∈ tokens, ∀ text, token.Spelled text → ∀ c ∈ text, isCode c = true)
    (h : Reads tokens cs rest) (hrest : Blank (content rest)) : Spells tokens (content cs) := by
  induction h with
  | nil => exact .nil hrest
  | @cons token tokens gap text cs rest hgap htext _ ih =>
      have htokens := hcode token List.mem_cons_self text htext
      rw [List.append_assoc, content_append hgap.isCode, content_append htokens,
        ← List.append_assoc]
      exact .cons hgap htext (ih (fun token' h => hcode token' (List.mem_cons_of_mem _ h)) hrest)

theorem exists_reads_of_spells {tokens : List Token} {cs line : List Char} (h : Spells tokens line)
    (hline : content cs = line) :
    ∃ rest, Reads tokens cs rest ∧ Blank (content rest) ∧ atLineEnd rest = atLineEnd cs := by
  induction h generalizing cs with
  | nil hgap => exact ⟨cs, .nil, hline ▸ hgap, rfl⟩
  | @cons token tokens gap text line hgap htext _ ih =>
      have hcode : ∀ c ∈ gap ++ text, isCode c = true := fun c hc =>
        List.mem_takeWhile_imp (hline ▸ List.mem_append_left line hc : c ∈ content cs)
      obtain ⟨cs', rfl⟩ : ∃ cs', cs = gap ++ text ++ cs' := by
        refine ⟨line ++ cs.dropWhile isCode, ?_⟩
        rw [← List.append_assoc, ← hline]
        exact List.takeWhile_append_dropWhile.symm
      rw [content_append hcode] at hline
      obtain ⟨rest, hreads, hblank, hend⟩ := ih (List.append_cancel_left hline)
      exact ⟨rest, .cons hgap htext hreads, hblank, by rw [hend, atLineEnd_append hcode]⟩

/-! ## Reading tokens -/

theorem keyword?_eq_some_iff {word cs rest : List Char} :
    keyword? word cs = some rest ↔ ∃ text, text.map Char.toLower = word ∧ cs = text ++ rest := by
  induction word generalizing cs with
  | nil =>
      simp only [keyword?, Option.some.injEq, List.map_eq_nil_iff]
      constructor
      · rintro rfl
        exact ⟨[], rfl, rfl⟩
      · rintro ⟨_, rfl, h⟩
        exact h
  | cons k word ih =>
      cases cs with
      | nil =>
          constructor
          · rintro ⟨⟩
          · rintro ⟨text, htext, h⟩
            obtain ⟨rfl, -⟩ := List.append_eq_nil_iff.mp h.symm
            cases htext
      | cons c cs =>
          simp only [keyword?, beq_iff_eq, Option.ite_none_right_eq_some, ih]
          constructor
          · rintro ⟨rfl, text, rfl, rfl⟩
            exact ⟨c :: text, rfl, rfl⟩
          · rintro ⟨text, htext, h⟩
            cases text with
            | nil => simp at htext
            | cons c' text =>
                cases h
                simp only [List.map_cons, List.cons.injEq] at htext
                exact ⟨htext.1, text, htext.2, rfl⟩

theorem reads_of_number? {cs digits rest : List Char} (h : number? cs = some (digits, rest)) :
    Reads [.number digits] cs rest := by
  unfold number? at h
  simp only [Option.ite_none_left_eq_some, Option.some.injEq, Prod.mk.injEq] at h
  obtain ⟨hne, rfl, rfl⟩ := h
  have hdigits : ∀ c ∈ (skip cs).takeWhile Char.isDigit, c.isDigit = true := fun c hc =>
    List.mem_takeWhile_imp hc
  cases hskip : skip cs with
  | nil => simp [hskip] at hne
  | cons c rest =>
      have hc : c.isDigit = true := by
        by_contra hnot
        simp [hskip, hnot] at hne
      have hcode : isCode c = true := isCode_of_class (by decide) hc
      simp only [isCode, Bool.and_eq_true, Bool.not_eq_true'] at hcode
      obtain ⟨gap, hgap, rfl⟩ := exists_gap_of_skip hskip hcode.2
      rw [hskip] at hne hdigits
      have happend : gap ++ c :: rest = gap ++ (c :: rest).takeWhile Char.isDigit ++
          (c :: rest).dropWhile Char.isDigit := by
        rw [List.append_assoc, List.takeWhile_append_dropWhile]
      rw [happend]
      exact .cons hgap ⟨rfl, by simpa using hne, hdigits⟩ .nil

theorem reads_of_comma? {cs rest : List Char} (h : comma? cs = some rest) :
    Reads [.comma] cs rest := by
  unfold comma? at h
  split at h
  · rename_i rest' hskip
    cases h
    obtain ⟨gap, hgap, rfl⟩ := exists_gap_of_skip hskip (by decide)
    rw [show gap ++ ',' :: rest = gap ++ [','] ++ rest by simp]
    exact .cons hgap rfl .nil
  · cases h

theorem Reads.append {tokens tokens' : List Token} {cs cs' rest : List Char}
    (h : Reads tokens cs cs') (h' : Reads tokens' cs' rest) :
    Reads (tokens ++ tokens') cs rest := by
  induction h with
  | nil => exact h'
  | cons hgap htext _ ih => exact .cons hgap htext (ih h')

theorem reads_of_keyword? (word : String) {cs rest : List Char}
    (h : keyword? word.toList cs = some rest) : Reads [.keyword word] cs rest := by
  obtain ⟨text, htext, rfl⟩ := keyword?_eq_some_iff.mp h
  exact .cons blank_nil htext .nil

/-- A statement that is read is spelled by the text up to the rest. -/
theorem reads_of_statement? {statement : Statement} {cs rest : List Char}
    (h : statement? cs = some (statement, rest)) : Reads statement.tokens cs rest := by
  simp only [statement?, Option.orElse_eq_orElse, Option.orElse_eq_or, Option.or_eq_some_iff] at h
  rcases h with h | ⟨-, h | ⟨-, h | ⟨-, h | ⟨-, h⟩⟩⟩⟩
  · simp only [push?, Option.bind_eq_bind, Option.pure_def, Option.bind_eq_some_iff,
      Option.some.injEq, Prod.mk.injEq, Prod.exists] at h
    obtain ⟨_, hword, value, _, hvalue, rfl, rfl⟩ := h
    exact (reads_of_keyword? "push" hword).append (reads_of_number? hvalue)
  · simp only [jump?, Option.bind_eq_bind, Option.pure_def, Option.bind_eq_some_iff,
      Option.some.injEq, Prod.mk.injEq, Prod.exists] at h
    obtain ⟨_, hword, target, _, htarget, rfl, rfl⟩ := h
    exact (reads_of_keyword? "jump" hword).append (reads_of_number? htarget)
  · simp only [call?, Option.bind_eq_bind, Option.pure_def, Option.bind_eq_some_iff,
      Option.some.injEq, Prod.mk.injEq, Prod.exists] at h
    obtain ⟨_, hword, target, _, htarget, _, hcomma, arity, _, harity, rfl, rfl⟩ := h
    exact (reads_of_keyword? "call" hword).append ((reads_of_number? htarget).append
      ((reads_of_comma? hcomma).append (reads_of_number? harity)))
  · simp only [nop?, Option.map_eq_some_iff, Prod.mk.injEq] at h
    obtain ⟨_, hword, rfl, rfl⟩ := h
    exact reads_of_keyword? "nop" hword
  · simp only [ret?, Option.map_eq_some_iff, Prod.mk.injEq] at h
    obtain ⟨_, hword, rfl, rfl⟩ := h
    exact reads_of_keyword? "ret" hword

/-! ## Reading what is spelled -/

/-- No digit comes next. -/
def NoDigit (cs : List Char) : Prop := ∀ c rest, cs = c :: rest → c.isDigit = false

theorem noDigit_of_blank {cs : List Char} (h : Blank (content cs)) : NoDigit cs := by
  rintro c rest rfl
  by_contra hnot
  have hdigit : c.isDigit = true := by simpa using hnot
  have hcode : isCode c = true := isCode_of_class (by decide) hdigit
  have hgap := h c (by simp [content, hcode])
  rw [isGap_of_class (by decide) hdigit] at hgap
  cases hgap

theorem noDigit_comma {gap rest : List Char} (hgap : Blank gap) :
    NoDigit (gap ++ [','] ++ rest) := by
  intro c rest' h
  cases gap with
  | nil => cases h; rfl
  | cons c' gap =>
      cases h
      by_contra hnot
      have hdigit : c.isDigit = true := by simpa using hnot
      have hc := hgap c List.mem_cons_self
      rw [isGap_of_class (by decide) hdigit] at hc
      cases hc

theorem number?_append {gap text digits rest : List Char} (hgap : Blank gap)
    (hdigits : (Token.number digits).Spelled text) (hrest : NoDigit rest) :
    number? (gap ++ text ++ rest) = some (digits, rest) := by
  obtain ⟨rfl, hne, hall⟩ := hdigits
  have hskip : skip (gap ++ text ++ rest) = text ++ rest := by
    cases text with
    | nil => exact absurd rfl hne
    | cons c text =>
        have hc := hall c List.mem_cons_self
        rw [List.append_assoc, List.cons_append]
        exact skip_append hgap (isGap_of_class (by decide) hc) (ne_of_class hc (by decide))
  have hstop : rest.takeWhile Char.isDigit = [] ∧ rest.dropWhile Char.isDigit = rest := by
    cases rest with
    | nil => exact ⟨rfl, rfl⟩
    | cons c rest => simp [hrest c rest rfl]
  unfold number?
  simp only [hskip, List.takeWhile_append_of_pos hall, List.dropWhile_append_of_pos hall, hstop.1,
    hstop.2, List.append_nil]
  rw [if_neg (by simpa using hne)]

theorem comma?_append {gap text rest : List Char} (hgap : Blank gap)
    (htext : Token.comma.Spelled text) : comma? (gap ++ text ++ rest) = some rest := by
  obtain rfl : text = [','] := htext
  unfold comma?
  rw [List.append_assoc, List.singleton_append, skip_append hgap (by decide) (by decide)]
  rfl

theorem keyword?_append {word text rest : List Char} (htext : text.map Char.toLower = word) :
    keyword? word (text ++ rest) = some rest :=
  keyword?_eq_some_iff.mpr ⟨text, htext, rfl⟩

/-- Keywords with different first letters exclude one another. -/
theorem keyword?_eq_none {k k' : Char} {word word' text rest : List Char}
    (htext : text.map Char.toLower = k :: word) (hne : k ≠ k') :
    keyword? (k' :: word') (text ++ rest) = none := by
  cases text with
  | nil => simp at htext
  | cons c text =>
      simp only [List.map_cons, List.cons.injEq] at htext
      simp [keyword?, htext.1, hne]

theorem skip_keyword {gap text rest : List Char} {k : Char} {word : List Char} (hgap : Blank gap)
    (htext : text.map Char.toLower = k :: word) (hk : k.isLower = true) :
    skip (gap ++ text ++ rest) = text ++ rest := by
  cases text with
  | nil => simp at htext
  | cons c text =>
      simp only [List.map_cons, List.cons.injEq] at htext
      have hc : c.toLower.isLower = true := by rw [htext.1]; exact hk
      rw [List.append_assoc, List.cons_append]
      exact skip_append hgap (isGap_of_class (p := fun c => c.toLower.isLower) (by decide) hc)
        (ne_of_class (p := fun c => c.toLower.isLower) hc (by decide))

/-- A statement that is spelled up to the end of its line is read. -/
theorem statement?_of_reads {statement : Statement} {cs rest : List Char}
    (h : Reads statement.tokens cs rest) (hrest : Blank (content rest)) :
    statement? (skip cs) = some (statement, rest) := by
  have hend := noDigit_of_blank hrest
  -- No two keywords have the same first letter, so every other alternative fails there.
  cases statement with
  | push value =>
      obtain _ | ⟨hgap, hword, _ | ⟨hgap', hvalue, _ | _⟩⟩ := h
      replace hword : List.map Char.toLower _ = ['p', 'u', 's', 'h'] := hword
      rw [skip_keyword hgap hword (by decide)]
      simp only [statement?, push?, keyword?_append hword, Option.bind_eq_bind, Option.bind_some,
        number?_append hgap' hvalue hend, Option.pure_def, Option.orElse_eq_orElse,
        Option.orElse_eq_or, Option.some_or]
  | jump target =>
      obtain _ | ⟨hgap, hword, _ | ⟨hgap', htarget, _ | _⟩⟩ := h
      replace hword : List.map Char.toLower _ = ['j', 'u', 'm', 'p'] := hword
      rw [skip_keyword hgap hword (by decide)]
      simp only [statement?, push?, keyword?_eq_none hword (by decide : 'j' ≠ 'p'), jump?,
        keyword?_append hword, Option.bind_eq_bind, Option.bind_none, Option.bind_some,
        number?_append hgap' htarget hend, Option.pure_def, Option.orElse_eq_orElse,
        Option.orElse_eq_or, Option.none_or, Option.some_or]
  | call target arity =>
      obtain _ | ⟨hgap, hword, _ | ⟨hgap₁, htarget, _ | ⟨hgap₂, hcomma, harity⟩⟩⟩ := h
      obtain _ | ⟨hgap₃, harity, _ | _⟩ := harity
      replace hword : List.map Char.toLower _ = ['c', 'a', 'l', 'l'] := hword
      cases hcomma
      rw [skip_keyword hgap hword (by decide)]
      simp only [statement?, push?, keyword?_eq_none hword (by decide : 'c' ≠ 'p'), jump?,
        keyword?_eq_none hword (by decide : 'c' ≠ 'j'), call?, keyword?_append hword,
        Option.bind_eq_bind, Option.bind_none, Option.bind_some,
        number?_append hgap₁ htarget (noDigit_comma hgap₂), comma?_append hgap₂ rfl,
        number?_append hgap₃ harity hend, Option.pure_def, Option.orElse_eq_orElse,
        Option.orElse_eq_or, Option.none_or, Option.some_or]
  | nop =>
      obtain _ | ⟨hgap, hword, _ | _⟩ := h
      replace hword : List.map Char.toLower _ = ['n', 'o', 'p'] := hword
      rw [skip_keyword hgap hword (by decide)]
      simp only [statement?, push?, keyword?_eq_none hword (by decide : 'n' ≠ 'p'), jump?,
        keyword?_eq_none hword (by decide : 'n' ≠ 'j'), call?,
        keyword?_eq_none hword (by decide : 'n' ≠ 'c'), nop?, keyword?_append hword,
        Option.bind_eq_bind, Option.bind_none, Option.map_some, Option.orElse_eq_orElse,
        Option.orElse_eq_or, Option.none_or, Option.some_or]
  | ret =>
      obtain _ | ⟨hgap, hword, _ | _⟩ := h
      replace hword : List.map Char.toLower _ = ['r', 'e', 't'] := hword
      rw [skip_keyword hgap hword (by decide)]
      simp only [statement?, push?, keyword?_eq_none hword (by decide : 'r' ≠ 'p'), jump?,
        keyword?_eq_none hword (by decide : 'r' ≠ 'j'), call?,
        keyword?_eq_none hword (by decide : 'r' ≠ 'c'), nop?,
        keyword?_eq_none hword (by decide : 'r' ≠ 'n'), ret?, keyword?_append hword,
        Option.bind_eq_bind, Option.bind_none, Option.map_none, Option.map_some,
        Option.orElse_eq_orElse, Option.orElse_eq_or, Option.none_or]

/-! ## One line -/

theorem statement?_of_ends {cs : List Char} (h : Ends cs) : statement? cs = none := by
  cases cs with
  | nil => rfl
  | cons c rest =>
      have hc := h c rest rfl
      simp only [isLineEnd, Bool.or_eq_true, beq_iff_eq] at hc
      rcases hc with rfl | rfl <;> rfl

/-- What a line says is read from it, up to its end. -/
theorem optionalStatement_of_says {cs : List Char} {meaning : Option Statement}
    (h : Says (content cs) meaning) :
    ∃ rest, optionalStatement (skip cs) = (meaning.toList, rest) ∧ skip rest = atLineEnd cs := by
  unfold optionalStatement
  cases meaning with
  | none =>
      obtain ⟨hblank⟩ := h
      have hend : Ends (atLineEnd cs) := ends_atLineEnd
      refine ⟨atLineEnd cs, ?_, ?_⟩
      · rw [skip_of_blank hblank, statement?_of_ends hend]
        rfl
      · rw [skip_of_blank (by rw [content_of_ends hend]; exact blank_nil), atLineEnd_of_ends hend]
  | some statement =>
      obtain ⟨rest, hreads, hblank, hend⟩ := exists_reads_of_spells h rfl
      refine ⟨rest, ?_, by rw [skip_of_blank hblank, hend]⟩
      rw [statement?_of_reads hreads hblank]
      rfl

/-- A line that is read up to its end says something. -/
theorem exists_says_of_ends {cs rest : List Char} {statements : List Statement}
    (h : optionalStatement (skip cs) = (statements, rest)) (hend : Ends (skip rest)) :
    ∃ meaning, Says (content cs) meaning := by
  have hblank : Blank (content rest) := by
    obtain ⟨gap, hgap, heq⟩ := exists_content_eq rest
    rw [heq, content_of_ends hend, List.append_nil]
    exact hgap
  obtain ⟨gap, hgap, heq⟩ := exists_content_eq cs
  rw [heq]
  unfold optionalStatement at h
  split at h
  · rename_i statement rest' hstatement
    cases h
    have hreads := reads_of_statement? hstatement
    have hspells := spells_of_reads (fun _ h _ => isCode_of_spelled h) hreads hblank
    exact ⟨some statement, hspells.append hgap⟩
  · cases h
    exact ⟨none, Spells.append hgap (.nil hblank)⟩

theorem Says.unique {cs : List Char} {meaning meaning' : Option Statement}
    (h : Says (content cs) meaning) (h' : Says (content cs) meaning') : meaning = meaning' := by
  obtain ⟨rest, hrest, -⟩ := optionalStatement_of_says h
  obtain ⟨rest', hrest', -⟩ := optionalStatement_of_says h'
  have hlist : meaning.toList = meaning'.toList := congrArg Prod.fst (hrest.symm.trans hrest')
  simpa using congrArg List.head? hlist

end OpcodeForge.Sample.Assembly
