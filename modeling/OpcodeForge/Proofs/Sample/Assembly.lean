import Mathlib.Data.List.ReduceOption
import OpcodeForge.Proofs.Encoding
import OpcodeForge.Proofs.Lines
import OpcodeForge.Proofs.Sample.Line

/-!
# Texts of the sample's assembly language

A text is a list of lines, of which each is blank or says one statement. The reader of programs is
a repetition that gives its last turn back, and knows no lines; it is equal to one loop that takes a
line at a turn. So it accepts exactly the texts whose lines all say something, and gives what they
say. The operands are then held to their ranges, from the first line to the last.
-/

namespace OpcodeForge

namespace Sample.Assembly

/-! ## Lines -/

/-- The lines of a text, each up to its first semicolon. -/
def codeLines (cs : List Char) : List (List Char) :=
  (Text.splitLines cs).map fun line => line.takeWhile (· != ';')

theorem ends_of_newline? {cs rest : List Char} (h : newline? cs = some rest) : Ends cs := by
  unfold newline? at h
  split at h <;> cases h <;> (intro c rest h; cases h; rfl)

theorem length_lt_of_newline? {cs rest : List Char} (h : newline? cs = some rest) :
    rest.length < cs.length := by
  unfold newline? at h
  split at h <;> cases h <;> simp +arith

theorem eq_nil_of_newline? {cs : List Char} (hend : Ends cs) (h : newline? cs = none) :
    cs = [] := by
  cases cs with
  | nil => rfl
  | cons c rest =>
      have hc := hend c rest rfl
      simp only [isLineEnd, Bool.or_eq_true, beq_iff_eq] at hc
      unfold newline? at h
      split at h <;> simp_all

/-- The first line of a text ends where its first line ending starts. -/
theorem splitLines_eq (cs : List Char) :
    Text.splitLines cs = cs.takeWhile (fun c => !isLineEnd c) ::
      ((newline? (atLineEnd cs)).map Text.splitLines).getD [] := by
  fun_induction Text.splitLines cs with
  | case1 => rfl
  | case2 rest => rfl
  | case3 rest => rfl
  | case4 rest hnot =>
      have hnewline : newline? ('\r' :: rest) = some rest := by
        unfold newline?
        split <;> simp_all
      simp [atLineEnd, isLineEnd, hnewline]
  | case5 c rest _ hnewline hreturn ih =>
      have hc : isLineEnd c = false := by
        simp only [isLineEnd, Bool.or_eq_false_iff, beq_eq_false_iff_ne]
        exact ⟨hnewline, hreturn⟩
      rw [ih]
      simp [atLineEnd, hc]

theorem codeLines_eq (cs : List Char) :
    codeLines cs = content cs :: ((newline? (atLineEnd cs)).map codeLines).getD [] := by
  have hcontent : (cs.takeWhile fun c => !isLineEnd c).takeWhile (· != ';') = content cs := by
    rw [List.takeWhile_takeWhile]
    congr 1
    funext c
    simp [isCode, bne, Bool.beq_eq_decide_eq]
  rw [codeLines, splitLines_eq, List.map_cons, hcontent]
  cases newline? (atLineEnd cs) <;> rfl

/-! ## Programs -/

/-- The lines of a program in one loop: the turn of the repetition that fails is the last line, and
its statement is not read a second time. -/
def lines? : Nat → List Char → Option (List Statement)
  | 0, _ => none
  | fuel + 1, cs =>
    let (statement, rest) := optionalStatement (skip cs)
    match newline? (skip rest) with
    | some rest => (lines? fuel rest).map (statement ++ ·)
    | none => if (skip rest).isEmpty then some statement else none

theorem lines?_succ (fuel : Nat) (cs : List Char) :
    lines? (fuel + 1) cs =
      match turn? (skip cs) with
      | some (statement, rest) => (lines? fuel rest).map (statement ++ ·)
      | none => last? (skip cs) := by
  simp only [lines?, turn?, last?]
  cases newline? (skip (optionalStatement (skip cs)).2) <;> rfl

/-- A turn reads at least the line ending. -/
theorem length_lt_of_turn? {cs rest : List Char} {statement : List Statement}
    (h : turn? (skip cs) = some (statement, rest)) : rest.length < cs.length := by
  simp only [turn?, Option.map_eq_some_iff, Prod.mk.injEq] at h
  obtain ⟨rest, hnewline, -, rfl⟩ := h
  obtain ⟨meaning, hsays⟩ := exists_says_of_ends rfl (ends_of_newline? hnewline)
  obtain ⟨rest', hrest, hskip⟩ := optionalStatement_of_says hsays
  rw [hrest, hskip] at hnewline
  calc rest.length
      < (atLineEnd cs).length := length_lt_of_newline? hnewline
    _ ≤ cs.length := List.length_dropWhile_le ..

theorem laterTurns_of_none {cs : List Char} (h : turn? (skip cs) = none) (bound : Nat) :
    laterTurns bound cs = ([], cs) := by
  cases bound with
  | zero => rfl
  | succ bound => simp [laterTurns, h]

/-- The loop takes the turns of the repetition, and then reads what follows it. -/
theorem lines?_eq_laterTurns {fuel bound : Nat} {cs : List Char} (hfuel : cs.length < fuel)
    (hbound : cs.length ≤ bound) :
    lines? fuel cs =
      (last? (skip (laterTurns bound cs).2)).map ((laterTurns bound cs).1 ++ ·) := by
  induction fuel generalizing cs bound with
  | zero => omega
  | succ fuel ih =>
      rw [lines?_succ]
      cases hturn : turn? (skip cs) with
      | none => simp [laterTurns_of_none hturn]
      | some turn =>
          obtain ⟨statement, rest⟩ := turn
          have hlt := length_lt_of_turn? hturn
          obtain ⟨bound, rfl⟩ : ∃ bound', bound = bound' + 1 := ⟨bound - 1, by omega⟩
          have hrest := @ih bound rest (by omega) (by omega)
          simp [laterTurns, hturn, hrest, Function.comp_def]

/-- The turn that is given back is read again after the repetition, from the same place. -/
theorem program?_eq_lines? (cs : List Char) : program? cs = lines? (cs.length + 1) cs := by
  rw [lines?_succ, program?, turns]
  cases hturn : turn? (skip cs) with
  | none => simp [skip_skip]
  | some turn =>
      obtain ⟨statement, rest⟩ := turn
      have hrest := lines?_eq_laterTurns (length_lt_of_turn? hturn) le_rfl
      simp [hrest, Function.comp_def]

theorem lines?_of_meaning {cs : List Char} {meaning : Option Statement} (fuel : Nat)
    (h : Says (content cs) meaning) :
    lines? (fuel + 1) cs =
      match newline? (atLineEnd cs) with
      | some rest => (lines? fuel rest).map (meaning.toList ++ ·)
      | none => some meaning.toList := by
  obtain ⟨rest, hrest, hskip⟩ := optionalStatement_of_says h
  simp only [lines?, hrest, hskip]
  cases hnewline : newline? (atLineEnd cs) with
  | some rest => rfl
  | none => simp [eq_nil_of_newline? ends_atLineEnd hnewline]

theorem lines?_of_no_meaning {cs : List Char} (fuel : Nat)
    (h : ∀ meaning, ¬ Says (content cs) meaning) : lines? (fuel + 1) cs = none := by
  have hnot : ¬ Ends (skip (optionalStatement (skip cs)).2) := fun hend =>
    (exists_says_of_ends rfl hend).elim h
  have hempty : skip (optionalStatement (skip cs)).2 ≠ [] := fun hnil =>
    hnot fun c rest hcons => by rw [hnil] at hcons; cases hcons
  have hnewline : newline? (skip (optionalStatement (skip cs)).2) = none :=
    Option.eq_none_iff_forall_ne_some.mpr fun rest hsome => hnot (ends_of_newline? hsome)
  simp [lines?, hnewline, hempty]

theorem reduceOption_cons {α : Type} (x : Option α) (xs : List (Option α)) :
    (x :: xs).reduceOption = x.toList ++ xs.reduceOption := by
  rw [← List.reduceOption_singleton, ← List.reduceOption_append, List.singleton_append]

/-- The statements of a text are what its lines say, one after the other. -/
theorem lines?_eq_some_iff {fuel : Nat} {cs : List Char} {statements : List Statement}
    (hfuel : cs.length < fuel) :
    lines? fuel cs = some statements ↔
      ∃ meanings, List.Forall₂ Says (codeLines cs) meanings ∧
        statements = meanings.reduceOption := by
  -- Each turn reads one line, and what is left of the text is shorter by its ending.
  induction fuel generalizing cs statements with
  | zero => omega
  | succ fuel ih =>
      rw [codeLines_eq]
      by_cases hsays : ∃ meaning, Says (content cs) meaning
      · obtain ⟨meaning, hsays⟩ := hsays
        have hmeaning : ∀ meaning', Says (content cs) meaning' ↔ meaning' = meaning :=
          fun _ => ⟨fun h => h.unique hsays, fun h => h ▸ hsays⟩
        rw [lines?_of_meaning fuel hsays]
        cases hnewline : newline? (atLineEnd cs) with
        | none => simp [List.forall₂_cons_left_iff, hmeaning, List.reduceOption_singleton, eq_comm]
        | some rest =>
            have hlt : rest.length < fuel := by
              have := length_lt_of_newline? hnewline
              have : (atLineEnd cs).length ≤ cs.length := List.length_dropWhile_le ..
              omega
            simp only [Option.map_eq_some_iff, ih hlt, Option.map_some, Option.getD_some,
              List.forall₂_cons_left_iff, hmeaning]
            constructor
            · rintro ⟨_, ⟨meanings, hmeanings, rfl⟩, rfl⟩
              exact ⟨_, ⟨meaning, meanings, rfl, hmeanings, rfl⟩, (reduceOption_cons ..).symm⟩
            · rintro ⟨_, ⟨_, meanings, rfl, hmeanings, rfl⟩, rfl⟩
              exact ⟨_, ⟨meanings, hmeanings, rfl⟩, (reduceOption_cons ..).symm⟩
      · have hnot : ∀ meaning, ¬ Says (content cs) meaning := not_exists.mp hsays
        rw [lines?_of_no_meaning fuel hnot]
        constructor
        · rintro ⟨⟩
        · rintro ⟨_, hlines, -⟩
          cases hlines with
          | cons hline _ => exact absurd hline (hnot _)

theorem program?_eq_some_iff {cs : List Char} {statements : List Statement} :
    program? cs = some statements ↔
      ∃ meanings, List.Forall₂ Says (codeLines cs) meanings ∧
        statements = meanings.reduceOption := by
  rw [program?_eq_lines?]
  exact lines?_eq_some_iff (Nat.lt_succ_self _)

theorem exists_says_iff {cs : List Char} {p : List Statement → Prop} :
    (∃ meanings, List.Forall₂ Says (codeLines cs) meanings ∧ p meanings.reduceOption) ↔
      ∃ statements, program? cs = some statements ∧ p statements := by
  simp only [program?_eq_some_iff]
  constructor
  · rintro ⟨meanings, hmeanings, hp⟩
    exact ⟨_, ⟨meanings, hmeanings, rfl⟩, hp⟩
  · rintro ⟨_, ⟨meanings, hmeanings, rfl⟩, hp⟩
    exact ⟨meanings, hmeanings, hp⟩

theorem exists_forall₂_iff {α β : Type} {r : α → β → Prop} {xs : List α} :
    (∃ ys, List.Forall₂ r xs ys) ↔ ∀ x ∈ xs, ∃ y, r x y := by
  induction xs with
  | nil => simp
  | cons x xs ih =>
      simp only [List.forall₂_cons_left_iff, List.forall_mem_cons, ← ih]
      constructor
      · rintro ⟨_, y, ys, hy, hys, rfl⟩
        exact ⟨⟨y, hy⟩, ys, hys⟩
      · rintro ⟨⟨y, hy⟩, ys, hys⟩
        exact ⟨_, y, ys, hy, hys, rfl⟩

theorem program?_eq_none_iff {cs : List Char} :
    program? cs = none ↔ ∃ line ∈ codeLines cs, ∀ meaning, ¬ Says line meaning := by
  rw [← not_iff_not, ← ne_eq, Option.ne_none_iff_exists']
  simp only [program?_eq_some_iff]
  push Not
  rw [← exists_forall₂_iff]
  simp

/-! ## Operands -/

/-- The operands of a statement from left to right, each with the limit of its type. -/
def Statement.operands : Statement → List (List Char × Nat)
  | .push value => [(value, 0x8000000000000000)]
  | .jump target => [(target, 0x10000)]
  | .call target arity => [(target, 0x10000), (arity, 0x100)]
  | .nop => []
  | .ret => []

/-- The digits of the first operand that is not below its limit. -/
def tooLarge? (operands : List (List Char × Nat)) : Option (List Char) :=
  (operands.find? fun operand => operand.2 ≤ Nat.ofDigitChars 10 operand.1 0).map Prod.fst

/-- The instruction has the numbers whose decimal digits the statement has. -/
inductive Statement.Denotes : Statement → Instruction → Prop where
  | push {digits : List Char} {value : Int64}
      (hvalue : value.toInt = Nat.ofDigitChars 10 digits 0) :
      Denotes (.push digits) (.push value)
  | jump {digits : List Char} {target : UInt16}
      (htarget : target.toNat = Nat.ofDigitChars 10 digits 0) :
      Denotes (.jump digits) (.jump target)
  | call {digits digits' : List Char} {target : UInt16} {arity : UInt8}
      (htarget : target.toNat = Nat.ofDigitChars 10 digits 0)
      (harity : arity.toNat = Nat.ofDigitChars 10 digits' 0) :
      Denotes (.call digits digits') (.call target arity)
  | nop : Denotes .nop .nop
  | ret : Denotes .ret .ret

theorem bounded_of_lt {limit : Nat} {digits : List Char}
    (h : Nat.ofDigitChars 10 digits 0 < limit) :
    bounded limit digits = .ok (Nat.ofDigitChars 10 digits 0) :=
  if_pos h

theorem bounded_of_le {limit : Nat} {digits : List Char}
    (h : limit ≤ Nat.ofDigitChars 10 digits 0) :
    bounded limit digits = .error (.outOfRange (String.ofList digits)) :=
  if_neg (Nat.not_lt.mpr h)

theorem bounded_eq_ok_iff {limit n : Nat} {digits : List Char} :
    bounded limit digits = .ok n ↔ n < limit ∧ Nat.ofDigitChars 10 digits 0 = n := by
  rcases Nat.lt_or_ge (Nat.ofDigitChars 10 digits 0) limit with hlt | hge
  · rw [bounded_of_lt hlt, Except.ok.injEq]
    exact ⟨fun h => ⟨h ▸ hlt, h⟩, And.right⟩
  · rw [bounded_of_le hge]
    exact ⟨fun h => (by cases h), fun ⟨hlt, h⟩ => absurd hlt (h ▸ Nat.not_lt.mpr hge)⟩

theorem int64_ofNat_eq_iff {n : Nat} {value : Int64} :
    n < 0x8000000000000000 ∧ Int64.ofNat n = value ↔ value.toInt = n := by
  constructor
  · rintro ⟨hlt, rfl⟩
    exact Int64.toInt_ofNat_of_lt hlt
  · intro h
    have hlt : n < 0x8000000000000000 := by
      have := value.toInt_lt
      omega
    exact ⟨hlt, Int64.toInt_inj.mp (by rw [Int64.toInt_ofNat_of_lt hlt, h])⟩

theorem uint16_ofNat_eq_iff {n : Nat} {value : UInt16} :
    n < 0x10000 ∧ UInt16.ofNat n = value ↔ value.toNat = n := by
  constructor
  · rintro ⟨hlt, rfl⟩
    exact UInt16.toNat_ofNat_of_lt hlt
  · rintro rfl
    exact ⟨value.toNat_lt, UInt16.ofNat_toNat⟩

theorem uint8_ofNat_eq_iff {n : Nat} {value : UInt8} :
    n < 0x100 ∧ UInt8.ofNat n = value ↔ value.toNat = n := by
  constructor
  · rintro ⟨hlt, rfl⟩
    exact UInt8.toNat_ofNat_of_lt hlt
  · rintro rfl
    exact ⟨value.toNat_lt, UInt8.ofNat_toNat⟩

theorem Statement.toInstruction_eq_ok_iff {statement : Statement} {instruction : Instruction} :
    statement.toInstruction = .ok instruction ↔ statement.Denotes instruction := by
  constructor
  · intro h
    cases statement with
    | push digits =>
        simp only [toInstruction, bind_eq_ok_iff, bounded_eq_ok_iff, pure_eq_ok_iff] at h
        obtain ⟨_, ⟨hlt, rfl⟩, rfl⟩ := h
        exact .push (int64_ofNat_eq_iff.mp ⟨hlt, rfl⟩)
    | jump digits =>
        simp only [toInstruction, bind_eq_ok_iff, bounded_eq_ok_iff, pure_eq_ok_iff] at h
        obtain ⟨_, ⟨hlt, rfl⟩, rfl⟩ := h
        exact .jump (uint16_ofNat_eq_iff.mp ⟨hlt, rfl⟩)
    | call digits digits' =>
        simp only [toInstruction, bind_eq_ok_iff, bounded_eq_ok_iff, pure_eq_ok_iff] at h
        obtain ⟨_, ⟨hlt, rfl⟩, _, ⟨hlt', rfl⟩, rfl⟩ := h
        exact .call (uint16_ofNat_eq_iff.mp ⟨hlt, rfl⟩) (uint8_ofNat_eq_iff.mp ⟨hlt', rfl⟩)
    | nop => cases h; exact .nop
    | ret => cases h; exact .ret
  · intro h
    cases h with
    | push hvalue =>
        obtain ⟨hlt, rfl⟩ := int64_ofNat_eq_iff.mpr hvalue
        rw [toInstruction, bounded_of_lt hlt]
        rfl
    | jump htarget =>
        obtain ⟨hlt, rfl⟩ := uint16_ofNat_eq_iff.mpr htarget
        rw [toInstruction, bounded_of_lt hlt]
        rfl
    | call htarget harity =>
        obtain ⟨hlt, rfl⟩ := uint16_ofNat_eq_iff.mpr htarget
        obtain ⟨hlt', rfl⟩ := uint8_ofNat_eq_iff.mpr harity
        rw [toInstruction, bounded_of_lt hlt, bounded_of_lt hlt']
        rfl
    | nop => rfl
    | ret => rfl

theorem tooLarge?_append (operands operands' : List (List Char × Nat)) :
    tooLarge? (operands ++ operands') = (tooLarge? operands).or (tooLarge? operands') := by
  simp [tooLarge?, List.find?_append, Option.map_or]

theorem tooLarge?_cons_of_lt {digits : List Char} {limit : Nat} {operands : List (List Char × Nat)}
    (h : Nat.ofDigitChars 10 digits 0 < limit) :
    tooLarge? ((digits, limit) :: operands) = tooLarge? operands := by
  simp [tooLarge?, h]

theorem tooLarge?_cons_of_le {digits : List Char} {limit : Nat} {operands : List (List Char × Nat)}
    (h : limit ≤ Nat.ofDigitChars 10 digits 0) :
    tooLarge? ((digits, limit) :: operands) = some digits := by
  simp [tooLarge?, h]

/-- A statement has an instruction where no operand is too large; else the first one that is too
large is named. -/
theorem Statement.toInstruction_cases (statement : Statement) :
    (tooLarge? statement.operands = none ∧
        ∃ instruction, statement.toInstruction = .ok instruction) ∨
      ∃ digits, tooLarge? statement.operands = some digits ∧
        statement.toInstruction = .error (.outOfRange (String.ofList digits)) := by
  cases statement with
  | push digits =>
      rcases Nat.lt_or_ge (Nat.ofDigitChars 10 digits 0) 0x8000000000000000 with hlt | hge
      · exact .inl ⟨tooLarge?_cons_of_lt hlt, _, by rw [toInstruction, bounded_of_lt hlt]; rfl⟩
      · exact .inr ⟨digits, tooLarge?_cons_of_le hge, by rw [toInstruction, bounded_of_le hge]; rfl⟩
  | jump digits =>
      rcases Nat.lt_or_ge (Nat.ofDigitChars 10 digits 0) 0x10000 with hlt | hge
      · exact .inl ⟨tooLarge?_cons_of_lt hlt, _, by rw [toInstruction, bounded_of_lt hlt]; rfl⟩
      · exact .inr ⟨digits, tooLarge?_cons_of_le hge, by rw [toInstruction, bounded_of_le hge]; rfl⟩
  | call digits digits' =>
      rcases Nat.lt_or_ge (Nat.ofDigitChars 10 digits 0) 0x10000 with hlt | hge
      · rw [toInstruction, bounded_of_lt hlt, operands, tooLarge?_cons_of_lt hlt]
        rcases Nat.lt_or_ge (Nat.ofDigitChars 10 digits' 0) 0x100 with hlt' | hge'
        · exact .inl ⟨tooLarge?_cons_of_lt hlt', _, by rw [bounded_of_lt hlt']; rfl⟩
        · exact .inr ⟨digits', tooLarge?_cons_of_le hge', by rw [bounded_of_le hge']; rfl⟩
      · exact .inr ⟨digits, tooLarge?_cons_of_le hge, by rw [toInstruction, bounded_of_le hge]; rfl⟩
  | nop => exact .inl ⟨rfl, _, rfl⟩
  | ret => exact .inl ⟨rfl, _, rfl⟩

/-- What fails is the first operand of all that is too large. -/
theorem mapM_toInstruction_eq_error_iff {statements : List Statement} {error : AssemblyError} :
    statements.mapM Statement.toInstruction = .error error ↔
      ∃ digits, tooLarge? (statements.flatMap Statement.operands) = some digits ∧
        error = .outOfRange (String.ofList digits) := by
  induction statements with
  | nil => simp [tooLarge?, pure, Except.pure]
  | cons statement statements ih =>
      rw [List.mapM_cons, List.flatMap_cons, tooLarge?_append]
      obtain ⟨hfits, instruction, hok⟩ | ⟨digits, hlarge, herror⟩ := statement.toInstruction_cases
      · rw [hfits, hok, Option.none_or, ← ih]
        cases statements.mapM Statement.toInstruction <;>
          simp [bind, Except.bind, pure, Except.pure]
      · rw [hlarge, herror]
        simp [bind, Except.bind, eq_comm]

theorem mapM_toInstruction_eq_ok_iff {statements : List Statement}
    {instructions : List Instruction} :
    statements.mapM Statement.toInstruction = .ok instructions ↔
      List.Forall₂ Statement.Denotes statements instructions := by
  simp only [mapM_eq_ok_iff, Statement.toInstruction_eq_ok_iff]

end Sample.Assembly

namespace Sample

open Assembly

variable {source : String}

theorem assemble_eq_malformed_iff :
    assemble source = .error .malformed ↔ program? source.toList = none := by
  unfold assemble
  cases program? source.toList with
  | none => simp
  | some statements => simp [mapM_toInstruction_eq_error_iff]

theorem assemble_eq_outOfRange_iff {digits : String} :
    assemble source = .error (.outOfRange digits) ↔
      ∃ statements, program? source.toList = some statements ∧
        tooLarge? (statements.flatMap Statement.operands) = some digits.toList := by
  unfold assemble
  cases program? source.toList with
  | none => simp
  | some statements =>
      simp only [mapM_toInstruction_eq_error_iff, AssemblyError.outOfRange.injEq, Option.some.injEq,
        exists_eq_left']
      constructor
      · rintro ⟨large, hlarge, rfl⟩
        rw [hlarge, String.toList_ofList]
      · intro hlarge
        exact ⟨_, hlarge, String.ofList_toList.symm⟩

theorem assemble_eq_ok_iff {instructions : List Instruction} :
    assemble source = .ok instructions ↔
      ∃ statements, program? source.toList = some statements ∧
        List.Forall₂ Statement.Denotes statements instructions := by
  unfold assemble
  cases program? source.toList with
  | none => simp
  | some statements => simp [mapM_toInstruction_eq_ok_iff]

/-- The assembler takes exactly the texts whose lines, without their comments, are blank or spell
one statement each. It fails on a line that is neither; else on the first operand of the text that
does not fit, with its digits; else it gives the instructions of the lines that are not blank. -/
theorem assemble_line_language (source : String) :
    (assemble source = .error .malformed ↔
      ∃ line ∈ codeLines source.toList, ∀ meaning, ¬ Says line meaning) ∧
    (∀ digits, assemble source = .error (.outOfRange digits) ↔
      ∃ meanings, List.Forall₂ Says (codeLines source.toList) meanings ∧
        tooLarge? (meanings.reduceOption.flatMap Statement.operands) = some digits.toList) ∧
    (∀ instructions, assemble source = .ok instructions ↔
      ∃ meanings, List.Forall₂ Says (codeLines source.toList) meanings ∧
        List.Forall₂ Statement.Denotes meanings.reduceOption instructions) :=
  ⟨assemble_eq_malformed_iff.trans program?_eq_none_iff,
    fun _ => assemble_eq_outOfRange_iff.trans exists_says_iff.symm,
    fun _ => assemble_eq_ok_iff.trans exists_says_iff.symm⟩

/-- A comment, an empty line, a keyword in capitals, a number without a blank before it. -/
example :
    (assemble "PUSH7 ; seven\r\n\r\n call 1 , 2\n" = .ok [.push 7, .call 1 2]) ∧
      assemble "jump 65536\npush 99999999999999999999" = .error (.outOfRange "65536") ∧
      assemble "nop nop" = .error .malformed := by
  decide

end Sample

end OpcodeForge
