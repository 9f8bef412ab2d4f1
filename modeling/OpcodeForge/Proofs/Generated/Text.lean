import Mathlib.Data.List.Basic
import OpcodeForge.Artifact.Code
import OpcodeForge.Proofs.Table

/-!
# Reading generated text

The pieces that lines of generated code are made of: numbers, words, type names, lists with commas
and payloads in parentheses. Each is read from the beginning of a text, and each comes back from the
text that the artifacts write for it.
-/

namespace OpcodeForge.Generated

/-- The number that a text begins with, and the rest. -/
def number? (cs : List Char) : Option (Nat × List Char) :=
  if (cs.takeWhile Char.isDigit).isEmpty then none
  else some (Text.ofDigits (cs.takeWhile Char.isDigit), cs.dropWhile Char.isDigit)

def natural? (cs : List Char) : Option Nat :=
  match number? cs with
  | some (n, []) => some n
  | _ => none

/-- The word that a text begins with, and the rest. -/
def word (cs : List Char) : String × List Char :=
  (String.ofList (cs.takeWhile Text.isWordChar), cs.dropWhile Text.isWordChar)

/-- The width whose type name a text begins with, and the rest. -/
def width? : List Char → Option (Width × List Char)
  | 'u' :: '8' :: rest => some (.byte, rest)
  | 'u' :: '1' :: '6' :: rest => some (.word, rest)
  | _ => none

/-- The items of a text with a comma and a space between two neighbours. -/
def items : List Char → List (List Char)
  | [] => [[]]
  | ',' :: ' ' :: rest => [] :: items rest
  | c :: rest =>
      match items rest with
      | item :: more => (c :: item) :: more
      | [] => [[c]]

/-- The names in the parentheses that a text begins with, and the rest. -/
def payload : List Char → List String × List Char
  | '(' :: rest =>
      ((items (rest.takeWhile (· != ')'))).map String.ofList, (rest.dropWhile (· != ')')).drop 1)
  | rest => ([], rest)

theorem mapM_eq_some_of_forall₂ {α β : Type} {f : α → Option β} {xs : List α} {ys : List β}
    (h : List.Forall₂ (fun x y => f x = some y) xs ys) : xs.mapM f = some ys := by
  induction h with
  | nil => rfl
  | cons hhead _ ih =>
      simp only [List.mapM_cons, hhead, ih, Option.pure_def, Option.bind_eq_bind, Option.bind_some]

/-! ## Numbers and words -/

theorem takeWhile_append_eq {p : Char → Bool} {xs ys : List Char} (hxs : ∀ c ∈ xs, p c = true)
    (hys : ys.takeWhile p = []) : (xs ++ ys).takeWhile p = xs := by
  rw [List.takeWhile_append_of_pos hxs, hys, List.append_nil]

theorem dropWhile_append_eq {p : Char → Bool} {xs ys : List Char} (hxs : ∀ c ∈ xs, p c = true)
    (hys : ys.takeWhile p = []) : (xs ++ ys).dropWhile p = ys := by
  have hsplit : ys.takeWhile p ++ ys.dropWhile p = ys := List.takeWhile_append_dropWhile
  rw [hys, List.nil_append] at hsplit
  rw [List.dropWhile_append_of_pos hxs, hsplit]

theorem isDigit_toList_repr (n : Nat) : ∀ c ∈ (Nat.repr n).toList, c.isDigit = true := by
  intro c hc
  rw [Nat.toList_repr] at hc
  exact Nat.isDigit_of_mem_toDigits (by decide) (by decide) hc

theorem number?_repr (n : Nat) {rest : List Char} (hrest : rest.takeWhile Char.isDigit = []) :
    number? ((Nat.repr n).toList ++ rest) = some (n, rest) := by
  have hne : (Nat.repr n).toList.isEmpty = false := by
    simp [Nat.toList_repr, Nat.toDigits_ne_nil]
  have hval : Text.ofDigits (Nat.repr n).toList = n := by
    rw [Nat.toList_repr]
    exact Nat.ofDigitChars_ten_toDigits
  unfold number?
  rw [takeWhile_append_eq (isDigit_toList_repr n) hrest,
    dropWhile_append_eq (isDigit_toList_repr n) hrest, hne, hval]
  rfl

theorem natural?_repr (n : Nat) : natural? (Nat.repr n).toList = some n := by
  have hread : number? ((Nat.repr n).toList ++ []) = some (n, []) := number?_repr n rfl
  rw [List.append_nil] at hread
  rw [natural?, hread]

/-- A text of word characters alone. -/
def IsName (name : String) : Prop := ∀ c ∈ name.toList, Text.isWordChar c = true

theorem isName_of_literal {name : String} (h : name.toList.all Text.isWordChar = true) :
    IsName name :=
  List.all_eq_true.mp h

theorem word_append {name : String} (hname : IsName name) (rest : List Char)
    (hrest : rest.takeWhile Text.isWordChar = []) : word (name.toList ++ rest) = (name, rest) := by
  unfold word
  rw [takeWhile_append_eq hname hrest, dropWhile_append_eq hname hrest, String.ofList_toList]

theorem isName_repr (n : Nat) : IsName (Nat.repr n) := by
  intro c hc
  have hdigit := isDigit_toList_repr n c hc
  simp [Text.isWordChar, Char.isAlphanum, hdigit]

theorem isName_argName (index : Nat) : IsName (Writer.argName index) := by
  intro c hc
  simp only [Writer.argName, String.toList_append, List.mem_append] at hc
  rcases hc with hc | hc
  · have hletter : c = 'a' ∨ c = 'r' ∨ c = 'g' := by simpa using hc
    rcases hletter with rfl | rfl | rfl <;> rfl
  · exact isName_repr index c hc

theorem argName_inj {index index' : Nat} (h : Writer.argName index = Writer.argName index') :
    index = index' := by
  have hlist := congrArg String.toList h
  simp only [Writer.argName, String.toList_append, List.append_cancel_left_eq,
    Nat.toList_repr] at hlist
  rw [← Nat.ofDigitChars_ten_toDigits (n := index), hlist, Nat.ofDigitChars_ten_toDigits]

theorem isName_of_isIdentifier {name : String} (h : isIdentifier name = true) : IsName name := by
  simp only [isIdentifier, Bool.and_eq_true] at h
  obtain ⟨-, hword⟩ := h
  intro c hc
  cases hcs : name.toList with
  | nil => rw [hcs] at hc; simp at hc
  | cons c' cs =>
      rw [hcs] at hc hword
      simp only [isWord, Bool.and_eq_true, Bool.or_eq_true, List.all_eq_true] at hword
      rcases List.mem_cons.mp hc with rfl | hc
      · rcases hword.1 with halpha | hbar
        · simp [Text.isWordChar, Char.isAlphanum, halpha]
        · simp [Text.isWordChar, beq_iff_eq.mp hbar]
      · exact hword.2 c hc

theorem isName_name {t : Table} (ht : t.WellFormed) {d : Descriptor} (hd : d ∈ t.descriptors) :
    IsName d.name :=
  isName_of_isIdentifier (ht.identifier d hd)

theorem width?_typeName (width : Width) (rest : List Char) :
    width? (width.typeName.toList ++ rest) = some (width, rest) := by
  cases width <;> rfl

/-! ## Lists and payloads -/

theorem items_cons {c : Char} {cs item : List Char} {more : List (List Char)} (hc : c ≠ ',')
    (h : items cs = item :: more) : items (c :: cs) = (c :: item) :: more := by
  rw [items]
  · rw [h]
  · intro _ he
    exact absurd he hc

theorem items_of_notMem {cs : List Char} (h : ',' ∉ cs) : items cs = [cs] := by
  induction cs with
  | nil => rfl
  | cons c cs ih =>
      simp only [List.mem_cons, not_or] at h
      exact items_cons (fun hc => h.1 hc.symm) (ih h.2)

theorem items_append {cs rest : List Char} (h : ',' ∉ cs) :
    items (cs ++ ',' :: ' ' :: rest) = cs :: items rest := by
  induction cs with
  | nil => simp [items]
  | cons c cs ih =>
      simp only [List.mem_cons, not_or] at h
      exact items_cons (fun hc => h.1 hc.symm) (ih h.2)

theorem items_join {texts : List String} (hne : texts ≠ []) (h : ∀ s ∈ texts, ',' ∉ s.toList) :
    items (Text.join ", " texts).toList = texts.map String.toList := by
  induction texts with
  | nil => exact absurd rfl hne
  | cons s texts ih =>
      have hs := h s List.mem_cons_self
      cases texts with
      | nil => simp [Text.join, items_of_notMem hs]
      | cons s' texts =>
          have hrest := ih (by simp) (fun x hx => h x (List.mem_cons_of_mem _ hx))
          simp only [Text.join, String.toList_append, List.append_assoc, List.map_cons]
          rw [List.map_cons] at hrest
          rw [← hrest]
          exact items_append hs

theorem IsName.notMem {name : String} (h : IsName name) {c : Char}
    (hc : Text.isWordChar c = false) : c ∉ name.toList := by
  intro hmem
  rw [h c hmem] at hc
  cases hc

theorem notMem_join {separator : String} {texts : List String} {c : Char}
    (hseparator : c ∉ separator.toList) (h : ∀ s ∈ texts, c ∉ s.toList) :
    c ∉ (Text.join separator texts).toList := by
  induction texts with
  | nil => simp [Text.join]
  | cons s texts ih =>
      have hs := h s List.mem_cons_self
      cases texts with
      | nil => exact hs
      | cons s' texts =>
          have hrest := ih (fun x hx => h x (List.mem_cons_of_mem _ hx))
          simp only [Text.join, String.toList_append, List.mem_append, not_or]
          exact ⟨⟨hs, hseparator⟩, hrest⟩

/-- What stands before the bracket that closes a list of names, and what stands after it. -/
theorem span_join {names : List String} {close : Char} (hclose : Text.isWordChar close = false)
    (hcomma : close ≠ ',') (hspace : close ≠ ' ') (hnames : ∀ name ∈ names, IsName name)
    (rest : List Char) :
    ((Text.join ", " names).toList ++ close :: rest).takeWhile (· != close) =
        (Text.join ", " names).toList ∧
      ((Text.join ", " names).toList ++ close :: rest).dropWhile (· != close) = close :: rest := by
  have hnot : close ∉ (Text.join ", " names).toList :=
    notMem_join (by simp [hcomma, hspace]) (fun name hname => (hnames name hname).notMem hclose)
  have hinner : ∀ c ∈ (Text.join ", " names).toList, (c != close) = true := by
    intro c hc
    simp only [bne_iff_ne, ne_eq]
    intro he
    exact hnot (he ▸ hc)
  have hstop : (close :: rest).takeWhile (· != close) = [] := by simp
  exact ⟨takeWhile_append_eq hinner hstop, dropWhile_append_eq hinner hstop⟩

theorem items_join_names {names : List String} (hne : names ≠ [])
    (hnames : ∀ name ∈ names, IsName name) :
    items (Text.join ", " names).toList = names.map String.toList :=
  items_join hne (fun name hname => (hnames name hname).notMem (by decide))

theorem payload_tuple {names : List String} (hnames : ∀ name ∈ names, IsName name)
    {rest : List Char} (hrest : rest.head? ≠ some '(') :
    payload ((Code.tuple names).toList ++ rest) = (names, rest) := by
  cases names with
  | nil =>
      cases rest with
      | nil => rfl
      | cons c rest =>
          have hc : c ≠ '(' := by simpa using hrest
          simp only [Code.tuple, List.isEmpty_nil, if_true, String.toList_empty, List.nil_append]
          unfold payload
          split
          · simp_all
          · rfl
  | cons name names =>
      obtain ⟨htake, hdrop⟩ := span_join (by decide : Text.isWordChar ')' = false) (by decide)
        (by decide) hnames rest
      have htext : (Code.tuple (name :: names)).toList ++ rest =
          '(' :: ((Text.join ", " (name :: names)).toList ++ ')' :: rest) := by
        simp [Code.tuple]
      rw [htext]
      simp only [payload]
      rw [htake, hdrop, items_join_names (by simp) hnames]
      simp

end OpcodeForge.Generated
