import Mathlib.Data.List.Forall2
import OpcodeForge.Json.Printer
import OpcodeForge.Json.Reader
import OpcodeForge.Proofs.Generated.Text

/-!
# Printed documents are read back

A document comes back from its pretty text with the same numbers and, in its strings, the same
characters: a control character without a short escape comes back as a code unit, which decodes to
it. `Value.ReadsAs` says what a document is read as, and is kept by arrays and objects.
-/

namespace OpcodeForge.Json

/-! ## Strings -/

/-- Whether a character is written by number. -/
def isNumbered (c : Char) : Bool :=
  c.toNat < 0x20 && c != '\x08' && c != '\x0c' && c != '\n' && c != '\r' && c != '\t'

/-- The element of a string that a character is read back as. -/
def CodeUnit.respell (c : Char) : CodeUnit := if isNumbered c then .code c.toNat else .char c

/-- The string content that a text is read back as. -/
def Units.respell (s : String) : Units := s.toList.map CodeUnit.respell

/-- The code unit that a list of four hexadecimal digits gives. -/
def codeUnitOf? : List Char → Option Nat
  | [a, b, c, d] => codeUnit? a b c d
  | _ => none

theorem codeUnitOf?_hexDigits : ∀ n < 0x20, codeUnitOf? (Text.hexDigits 4 n) = some n := by decide

theorem readText_code {n : Nat} (h : n < 0x20) (rest : List Char) :
    readText ('\\' :: 'u' :: (Text.hexDigits 4 n ++ rest)) =
      (readText rest).map fun (text, rest) => (.code n :: text, rest) := by
  have hread := codeUnitOf?_hexDigits n h
  unfold codeUnitOf? at hread
  split at hread
  · rename_i a b c d hdigits
    rw [hdigits]
    simp only [List.cons_append, List.nil_append]
    rw [readText, hread]
    cases readText rest <;> rfl
  · cases hread

theorem readText_short {e c : Char} (h : shortEscape? e = some c) (rest : List Char) :
    readText ('\\' :: e :: rest) =
      (readText rest).map fun (text, rest) => (.char c :: text, rest) := by
  have hne : e ≠ 'u' := by
    rintro rfl
    cases h
  rw [readText]
  · rw [h]
    cases readText rest <;> rfl
  · intro a b c d rest' he
    exact absurd he hne

theorem readText_plain {c : Char} (hquote : c ≠ '"') (hslash : c ≠ '\\') (hplain : 0x20 ≤ c.toNat)
    (rest : List Char) :
    readText (c :: rest) = (readText rest).map fun (text, rest) => (.char c :: text, rest) := by
  rw [readText]
  · rw [if_neg (Nat.not_lt.mpr hplain)]
    cases readText rest <;> rfl
  all_goals simp_all

theorem readText_escapedChar (c : Char) (rest : List Char) :
    readText (escapedChar c ++ rest) =
      (readText rest).map fun (text, rest) => (CodeUnit.respell c :: text, rest) := by
  by_cases hshort : c = '"' ∨ c = '\\' ∨ c = '\x08' ∨ c = '\x0c' ∨ c = '\n' ∨ c = '\r' ∨ c = '\t'
  · rcases hshort with rfl | rfl | rfl | rfl | rfl | rfl | rfl <;> exact readText_short rfl rest
  · simp only [not_or] at hshort
    obtain ⟨hquote, hslash, hb, hf, hn, hr, ht⟩ := hshort
    by_cases hcontrol : c.toNat < 0x20
    · have hescaped : escapedChar c = '\\' :: 'u' :: Text.hexDigits 4 c.toNat := by
        simp [escapedChar, *]
      have hrespell : CodeUnit.respell c = .code c.toNat := by
        simp [CodeUnit.respell, isNumbered, *]
      rw [hescaped, hrespell]
      exact readText_code hcontrol rest
    · have hescaped : escapedChar c = [c] := by simp [escapedChar, *]
      have hrespell : CodeUnit.respell c = .char c := by
        simp [CodeUnit.respell, isNumbered, *]
      rw [hescaped, hrespell]
      exact readText_plain hquote hslash (Nat.not_lt.mp hcontrol) rest

theorem readText_escaped (s : String) (rest : List Char) :
    readText ((Units.ofString s).flatMap CodeUnit.escaped ++ '"' :: rest) =
      some (Units.respell s, rest) := by
  unfold Units.ofString Units.respell
  induction s.toList with
  | nil => rfl
  | cons c cs ih =>
      simp only [List.map_cons, List.flatMap_cons, List.append_assoc]
      rw [CodeUnit.escaped, readText_escapedChar, ih]
      rfl

/-- A control character is no half of a pair, whatever comes after it. -/
theorem decode_code_cons {n : Nat} (h : n < 0x20) (rest : Units) :
    Units.decode (.code n :: rest) = (Units.decode rest).map (Char.ofNat n :: ·) := by
  have hsurrogate : isSurrogate n = false := by
    simp only [isSurrogate, Bool.and_eq_false_iff, decide_eq_false_iff_not]
    omega
  have hpair : ∀ low, isPair n low = false := by
    intro low
    simp only [isPair, Bool.and_eq_false_iff, decide_eq_false_iff_not]
    omega
  cases rest with
  | nil => simp [Units.decode, hsurrogate]
  | cons unit rest => cases unit <;> simp [Units.decode, hsurrogate, hpair]

theorem decode_respell (s : String) : (Units.respell s).decode = some s.toList := by
  unfold Units.respell
  induction s.toList with
  | nil => rfl
  | cons c cs ih =>
      rw [List.map_cons, CodeUnit.respell]
      split
      · rename_i hnumbered
        have hlt : c.toNat < 0x20 := by
          simp only [isNumbered, Bool.and_eq_true, decide_eq_true_eq] at hnumbered
          exact hnumbered.1.1.1.1.1
        rw [decode_code_cons hlt, ih, Char.ofNat_toNat]
        rfl
      · rw [Units.decode, ih]
        rfl

theorem string?_respell (s : String) : (Value.string (Units.respell s)).string? = some s := by
  simp [Value.string?, decode_respell]

/-! ## White space -/

theorem skipGap_append {gap : List Char} (h : ∀ c ∈ gap, isGap c = true) (cs : List Char) :
    skipGap (gap ++ cs) = skipGap cs :=
  List.dropWhile_append_of_pos h

theorem skipGap_cons {c : Char} (h : isGap c = false) (cs : List Char) :
    skipGap (c :: cs) = c :: cs :=
  List.dropWhile_cons_of_neg (by simp [h])

theorem isGap_newline (level : Nat) : ∀ c ∈ newline level, isGap c = true := by
  intro c hc
  rcases List.mem_cons.mp hc with rfl | hc
  · rfl
  · rw [(List.mem_replicate.mp hc).2]
    rfl

theorem readValue_gap {gap : List Char} (h : ∀ c ∈ gap, isGap c = true) (fuel : Nat)
    (cs : List Char) : readValue fuel (gap ++ cs) = readValue fuel cs := by
  cases fuel with
  | zero => rfl
  | succ fuel => rw [readValue, skipGap_append h, readValue]

theorem readItems_gap {gap : List Char} (h : ∀ c ∈ gap, isGap c = true) (fuel : Nat)
    (cs : List Char) : readItems fuel (gap ++ cs) = readItems fuel cs := by
  cases fuel with
  | zero => rfl
  | succ fuel => rw [readItems, readValue_gap h, readItems]

theorem readMembers_gap {gap : List Char} (h : ∀ c ∈ gap, isGap c = true) (fuel : Nat)
    (cs : List Char) : readMembers fuel (gap ++ cs) = readMembers fuel cs := by
  have hmember : ∀ fuel, readMember fuel (gap ++ cs) = readMember fuel cs := by
    intro fuel
    cases fuel with
    | zero => rfl
    | succ fuel => rw [readMember, skipGap_append h, readMember]
  cases fuel with
  | zero => rfl
  | succ fuel => rw [readMembers, hmember, readMembers]

/-! ## Documents -/

/-- The document is read as another from its text at any level, with what follows left over. Three
steps for each character are enough. -/
structure Value.ReadsAs (value value' : Value) : Prop where
  /-- The text begins with neither white space nor a closing bracket. -/
  begins : ∀ level, ∃ c cs, value.pretty level = c :: cs ∧ isGap c = false ∧ c ≠ ']'
  reads : ∀ (level fuel : Nat) (rest : List Char), 3 * (value.pretty level).length ≤ fuel →
    rest.takeWhile isNumberChar = [] →
      readValue fuel (value.pretty level ++ rest) = some (value', rest)

theorem Value.ReadsAs.skipGap_pretty {value value' : Value} (h : value.ReadsAs value')
    (level : Nat) (rest : List Char) :
    skipGap (value.pretty level ++ rest) = value.pretty level ++ rest := by
  obtain ⟨c, cs, hcs, hgap, -⟩ := h.begins level
  rw [hcs]
  exact skipGap_cons hgap _

theorem readsAs_string (s : String) : (Value.ofString s).ReadsAs (.string (Units.respell s)) where
  begins level := ⟨'"', _, rfl, rfl, by decide⟩
  reads level fuel rest hfuel _ := by
    cases fuel with
    | zero => simp [Value.ofString, Value.pretty, Units.written] at hfuel
    | succ fuel =>
        have htext : (Value.ofString s).pretty level ++ rest =
            '"' :: ((Units.ofString s).flatMap CodeUnit.escaped ++ '"' :: rest) := by
          simp [Value.ofString, Value.pretty, Units.written]
        rw [htext, readValue, skipGap_cons rfl]
        simp only [readText_escaped, Option.map_some]

theorem isGap_of_isNumberChar {c : Char} (h : isNumberChar c = true) : isGap c = false := by
  by_contra hgap
  rw [Bool.not_eq_false] at hgap
  have hcases : ((c = ' ' ∨ c = '\t') ∨ c = '\n') ∨ c = '\r' := by simpa [isGap] using hgap
  rcases hcases with ((rfl | rfl) | rfl) | rfl <;> exact absurd h (by decide)

theorem readsAs_number {lexeme : List Char} (hnumber : isNumber lexeme = true)
    (hchars : ∀ c ∈ lexeme, isNumberChar c = true) :
    (Value.number lexeme).ReadsAs (.number lexeme) := by
  obtain ⟨c, cs, rfl⟩ : ∃ c cs, lexeme = c :: cs := by
    cases lexeme with
    | nil => cases hnumber
    | cons c cs => exact ⟨c, cs, rfl⟩
  have hc := hchars c List.mem_cons_self
  have hgap := isGap_of_isNumberChar hc
  refine ⟨fun level => ⟨c, cs, rfl, hgap, ?_⟩, fun level fuel rest hfuel hrest => ?_⟩
  · rintro rfl
    exact absurd hc (by decide)
  · cases fuel with
    | zero => simp [Value.pretty] at hfuel
    | succ fuel =>
        have hread : readNumber (c :: cs ++ rest) = some (.number (c :: cs), rest) := by
          rw [readNumber, Generated.takeWhile_append_eq hchars hrest,
            Generated.dropWhile_append_eq hchars hrest, if_pos hnumber]
        rw [Value.pretty, List.cons_append, readValue, skipGap_cons hgap]
        -- No other document begins with a character of a number.
        split
        case h_7 => exact hread
        all_goals
          rename_i heq
          rw [(List.cons.inj heq).1] at hc
          exact absurd hc (by decide)

/-! ## Arrays -/

theorem two_le_length_prettyItems (level : Nat) (items : List Value) :
    2 ≤ (prettyItems level items).length := by
  cases items <;> simp [prettyItems, newline]

theorem takeWhile_prettyItems (level : Nat) (items : List Value) (rest : List Char) :
    (prettyItems level items ++ rest).takeWhile isNumberChar = [] := by
  cases items <;> rfl

/-- The items of an array from the first one on, and its closing bracket. -/
theorem readItems_pretty {items items' : List Value} (h : List.Forall₂ Value.ReadsAs items items')
    {item item' : Value} (hitem : item.ReadsAs item') {level fuel : Nat} {rest : List Char}
    (hfuel : 3 * (item.pretty (level + 1) ++ prettyItems level items).length ≤ fuel) :
    readItems fuel (item.pretty (level + 1) ++ (prettyItems level items ++ rest)) =
      some (item' :: items', rest) := by
  induction h generalizing item item' fuel with
  | nil =>
      rw [List.length_append] at hfuel
      have hlen := two_le_length_prettyItems level []
      obtain ⟨fuel, rfl⟩ : ∃ n, fuel = n + 1 := ⟨fuel - 1, by omega⟩
      rw [readItems, hitem.reads _ _ _ (by omega) (takeWhile_prettyItems _ _ _)]
      rw [prettyItems, List.append_assoc]
      simp only [Option.bind_eq_bind, Option.bind_some, skipGap_append (isGap_newline level)]
      rw [List.singleton_append, skipGap_cons rfl]
      rfl
  | @cons next next' items items' hnext _ ih =>
      have hpretty : prettyItems level (next :: items) =
          ',' :: (newline (level + 1) ++ (next.pretty (level + 1) ++ prettyItems level items)) := by
        simp [prettyItems]
      rw [hpretty] at hfuel ⊢
      simp only [List.length_append, List.length_cons] at hfuel
      obtain ⟨fuel, rfl⟩ : ∃ n, fuel = n + 1 := ⟨fuel - 1, by omega⟩
      rw [readItems, hitem.reads _ _ _ (by omega) rfl]
      simp only [Option.bind_eq_bind, Option.bind_some, List.cons_append]
      rw [skipGap_cons rfl]
      simp only [List.append_assoc]
      rw [readItems_gap (isGap_newline _), ih hnext]
      · rfl
      · rw [List.length_append]
        omega

theorem Value.ReadsAs.array {items items' : List Value}
    (h : List.Forall₂ Value.ReadsAs items items') :
    (Value.array items).ReadsAs (.array items') := by
  cases h with
  | nil =>
      refine ⟨fun level => ⟨'[', _, rfl, rfl, by decide⟩, fun level fuel rest hfuel _ => ?_⟩
      obtain ⟨fuel, rfl⟩ : ∃ n, fuel = n + 1 := ⟨fuel - 1, by simp [Value.pretty] at hfuel; omega⟩
      rw [Value.pretty, List.cons_append, readValue, skipGap_cons rfl]
      rfl
  | @cons item item' items items' hitem hitems =>
      refine ⟨fun level => ⟨'[', _, by rw [Value.pretty]; rfl, rfl, by decide⟩,
        fun level fuel rest hfuel _ => ?_⟩
      have hpretty : (Value.array (item :: items)).pretty level =
          '[' :: (newline (level + 1) ++ (item.pretty (level + 1) ++ prettyItems level items)) := by
        simp [Value.pretty]
      rw [hpretty] at hfuel ⊢
      simp only [List.length_append, List.length_cons] at hfuel
      obtain ⟨fuel, rfl⟩ : ∃ n, fuel = n + 1 := ⟨fuel - 1, by omega⟩
      obtain ⟨c, cs, hcs, -, hclose⟩ := hitem.begins (level + 1)
      have hread := @readItems_pretty _ _ hitems _ _ hitem level fuel rest
        (by rw [List.length_append]; omega)
      rw [List.cons_append, readValue, skipGap_cons rfl]
      simp only [List.append_assoc]
      rw [skipGap_append (isGap_newline _), hitem.skipGap_pretty]
      rw [hcs, List.cons_append] at hread ⊢
      split
      · rename_i heq
        exact absurd (List.cons.inj heq).1 hclose
      · rw [hread]
        rfl

/-! ## Objects -/

theorem two_le_length_prettyMembers (level : Nat) (members : List (Units × Value)) :
    2 ≤ (prettyMembers level members).length := by
  cases members <;> simp [prettyMembers, newline]

theorem takeWhile_prettyMembers (level : Nat) (members : List (Units × Value)) (rest : List Char) :
    (prettyMembers level members ++ rest).takeWhile isNumberChar = [] := by
  cases members <;> rfl

/-- A member is read as another: the key of a text with the respelled key. -/
def MemberReadsAs (member member' : Units × Value) : Prop :=
  (∃ key, member.1 = Units.ofString key ∧ member'.1 = Units.respell key) ∧
    member.2.ReadsAs member'.2

/-- A member at a level. -/
def prettyMember (level : Nat) (member : Units × Value) : List Char :=
  member.1.written ++ ':' :: ' ' :: member.2.pretty level

theorem readMember_pretty {member member' : Units × Value} (h : MemberReadsAs member member')
    {level fuel : Nat} {rest : List Char} (hfuel : 3 * (prettyMember level member).length ≤ fuel)
    (hrest : rest.takeWhile isNumberChar = []) :
    readMember fuel (prettyMember level member ++ rest) = some (member'.1, member'.2, rest) := by
  obtain ⟨⟨key, hkey, hkey'⟩, hvalue⟩ := h
  have htext : prettyMember level member ++ rest = '"' :: ((Units.ofString key).flatMap
      CodeUnit.escaped ++ '"' :: ':' :: ([' '] ++ (member.2.pretty level ++ rest))) := by
    simp [prettyMember, Units.written, hkey]
  have hlen : (member.2.pretty level).length + 2 ≤ (prettyMember level member).length := by
    simp [prettyMember]
  obtain ⟨fuel, rfl⟩ : ∃ n, fuel = n + 1 := ⟨fuel - 1, by omega⟩
  rw [htext, readMember, skipGap_cons rfl]
  simp only [readText_escaped, Option.bind_eq_bind, Option.bind_some]
  rw [skipGap_cons rfl]
  simp only
  rw [readValue_gap (by simp [isGap]), hvalue.reads _ _ _ (by omega) hrest, hkey']
  rfl

theorem readMembers_pretty {members members' : List (Units × Value)}
    (h : List.Forall₂ MemberReadsAs members members') {member member' : Units × Value}
    (hmember : MemberReadsAs member member') {level fuel : Nat} {rest : List Char}
    (hfuel : 3 * (prettyMember (level + 1) member ++ prettyMembers level members).length ≤ fuel) :
    readMembers fuel (prettyMember (level + 1) member ++ (prettyMembers level members ++ rest)) =
      some (member' :: members', rest) := by
  induction h generalizing member member' fuel with
  | nil =>
      rw [List.length_append] at hfuel
      have hlen := two_le_length_prettyMembers level []
      obtain ⟨fuel, rfl⟩ : ∃ n, fuel = n + 1 := ⟨fuel - 1, by omega⟩
      rw [readMembers, readMember_pretty hmember (by omega) (takeWhile_prettyMembers _ _ _)]
      rw [prettyMembers, List.append_assoc]
      simp only [Option.bind_eq_bind, Option.bind_some, skipGap_append (isGap_newline level)]
      rw [List.singleton_append, skipGap_cons rfl]
      rfl
  | @cons next next' members members' hnext _ ih =>
      have hpretty : prettyMembers level (next :: members) =
          ',' :: (newline (level + 1) ++
            (prettyMember (level + 1) next ++ prettyMembers level members)) := by
        obtain ⟨key, value⟩ := next
        simp [prettyMembers, prettyMember]
      rw [hpretty] at hfuel ⊢
      simp only [List.length_append, List.length_cons] at hfuel
      obtain ⟨fuel, rfl⟩ : ∃ n, fuel = n + 1 := ⟨fuel - 1, by omega⟩
      rw [readMembers, readMember_pretty hmember (by omega) rfl]
      simp only [Option.bind_eq_bind, Option.bind_some, List.cons_append]
      rw [skipGap_cons rfl]
      simp only [List.append_assoc]
      rw [readMembers_gap (isGap_newline _), ih hnext]
      · rfl
      · rw [List.length_append]
        omega

theorem Value.ReadsAs.object {members members' : List (Units × Value)}
    (h : List.Forall₂ MemberReadsAs members members') :
    (Value.object members).ReadsAs (.object members') := by
  cases h with
  | nil =>
      refine ⟨fun level => ⟨'\x7b', _, rfl, rfl, by decide⟩, fun level fuel rest hfuel _ => ?_⟩
      obtain ⟨fuel, rfl⟩ : ∃ n, fuel = n + 1 := ⟨fuel - 1, by simp [Value.pretty] at hfuel; omega⟩
      rw [Value.pretty, List.cons_append, readValue, skipGap_cons rfl]
      rfl
  | @cons member member' members members' hmember hmembers =>
      have hpretty : ∀ level, (Value.object (member :: members)).pretty level =
          '\x7b' :: (newline (level + 1) ++
            (prettyMember (level + 1) member ++ prettyMembers level members)) := by
        intro level
        obtain ⟨key, value⟩ := member
        simp [Value.pretty, prettyMember]
      refine ⟨fun level => ⟨'\x7b', _, hpretty level, rfl, by decide⟩,
        fun level fuel rest hfuel _ => ?_⟩
      rw [hpretty] at hfuel ⊢
      simp only [List.length_append, List.length_cons] at hfuel
      obtain ⟨fuel, rfl⟩ : ∃ n, fuel = n + 1 := ⟨fuel - 1, by omega⟩
      have hread := @readMembers_pretty _ _ hmembers _ _ hmember level fuel rest
        (by rw [List.length_append]; omega)
      have hquote : ∀ cs, ∃ cs', prettyMember (level + 1) member ++ cs = '"' :: cs' := by
        intro cs
        exact ⟨_, by simp only [prettyMember, Units.written]; rfl⟩
      obtain ⟨cs, hcs⟩ := hquote (prettyMembers level members ++ rest)
      rw [List.cons_append, readValue, skipGap_cons rfl]
      simp only [List.append_assoc]
      rw [skipGap_append (isGap_newline _)]
      rw [hcs] at hread ⊢
      rw [skipGap_cons rfl]
      split
      · rename_i heq
        cases heq
      · rw [hread]
        rfl

/-- A document is read back from its text with white space after it. -/
theorem parse_print {value value' : Value} (h : value.ReadsAs value') :
    parse (value.print ++ "\n") = some value' := by
  have htext : (value.print ++ "\n").toList = value.pretty 0 ++ ['\n'] := by
    simp [Value.print]
  unfold parse
  simp only [htext]
  rw [h.reads 0 _ _ (by rw [List.length_append]; omega) rfl]
  rfl

end OpcodeForge.Json
