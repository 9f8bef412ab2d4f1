import OpcodeForge.Proofs.Generated.Grammar
import OpcodeForge.Proofs.RoundTrip

/-!
# Listings

A listing tells which bytecode it is of. Its lines end where they break; in a line the offset ends at
the colon and the name where the word ends. The name tells the opcode, and with it how many operands
follow and whether there is a mark at the end.
-/

namespace OpcodeForge

open Generated

/-! ## Lines -/

theorem isWordChar_digitChar : ∀ digit < 16, Text.isWordChar (Nat.digitChar digit) = true := by
  decide

theorem isWordChar_toDigits {n : Nat} {c : Char} (h : c ∈ Nat.toDigits 16 n) :
    Text.isWordChar c = true := by
  induction n using Nat.strongRecOn with
  | ind n ih =>
      rw [Nat.toDigits_eq_if (by decide)] at h
      split at h
      · rename_i hlt
        rw [List.mem_singleton.mp h]
        exact isWordChar_digitChar n hlt
      · rcases List.mem_append.mp h with h | h
        · exact ih (n / 16) (by omega) h
        · rw [List.mem_singleton.mp h]
          exact isWordChar_digitChar _ (by omega)

namespace Program

variable {t : Table} {offset offset' : Nat} {i j : Decoded}

def offsetText (offset : Nat) : List Char := (Text.hexDigits 4 offset).map Char.toUpper

theorem isWordChar_offsetText : ∀ c ∈ offsetText offset, Text.isWordChar c = true := by
  intro c hc
  obtain ⟨digit, hdigit, rfl⟩ := List.mem_map.mp hc
  refine isWordChar_toUpper ?_
  rcases List.mem_append.mp hdigit with hzero | hdigit
  · rw [List.eq_of_mem_replicate hzero]
    rfl
  · exact isWordChar_toDigits hdigit

/-- The operands in a line, after the name. -/
def operandText (operands : List UInt16) : List Char :=
  if operands.isEmpty then []
  else ' ' :: (Text.join ", " (operands.map fun value => Nat.repr value.toNat)).toList

/-- The mark at the end of a basic block. -/
def markText (i : Decoded) : List Char := if i.isTerminal then "  ; terminal".toList else []

/-- A line of the listing without its end. -/
def lineText (offset : Nat) (i : Decoded) : List Char :=
  offsetText offset ++ ':' :: ' ' :: (i.name.toList ++ (operandText i.operands ++ markText i))

theorem toList_listingLine : (listingLine offset i).toList = lineText offset i ++ ['\n'] := by
  have hrender : i.render.toList = i.name.toList ++ operandText i.operands := by
    unfold Decoded.render operandText
    split <;> simp
  have hmark : (if i.isTerminal then "  ; terminal" else "").toList = markText i := by
    unfold markText
    split <;> simp
  simp [listingLine, lineText, offsetText, hrender, hmark]

theorem newline_notMem_operandText {operands : List UInt16} : '\n' ∉ operandText operands := by
  unfold operandText
  split
  · exact List.not_mem_nil
  · simp only [List.mem_cons, not_or]
    refine ⟨by decide, notMem_join (by decide) ?_⟩
    intro s hs
    obtain ⟨value, -, rfl⟩ := List.mem_map.mp hs
    exact (isName_repr _).notMem (by decide)

theorem newline_notMem_lineText (hname : IsName i.name) : '\n' ∉ lineText offset i := by
  have hoffset : '\n' ∉ offsetText offset := fun h => by cases isWordChar_offsetText _ h
  have hmark : '\n' ∉ markText i := by
    unfold markText
    split <;> decide
  simp only [lineText, List.mem_append, List.mem_cons, not_or]
  exact ⟨hoffset, by decide, by decide, hname.notMem (by decide), newline_notMem_operandText, hmark⟩

/-! ## Reading a line -/

theorem repr_toNat_inj {value value' : UInt16}
    (h : Nat.repr value.toNat = Nat.repr value'.toNat) : value = value' := by
  have hread := natural?_repr value.toNat
  rw [h, natural?_repr] at hread
  exact (UInt16.toNat_inj.mp (Option.some.inj hread)).symm

/-- As many operands as there are widths are told by their text. -/
theorem operandText_inj {operands operands' : List UInt16}
    (hlength : operands.length = operands'.length)
    (h : operandText operands = operandText operands') : operands = operands' := by
  cases operands with
  | nil => exact (List.length_eq_zero_iff.mp hlength.symm).symm
  | cons value operands =>
      cases operands' with
      | nil => cases hlength
      | cons value' operands' =>
          have hcomma : ∀ values : List UInt16,
              ∀ s ∈ values.map fun value => Nat.repr value.toNat, ',' ∉ s.toList := by
            intro values s hs
            obtain ⟨value, -, rfl⟩ := List.mem_map.mp hs
            exact (isName_repr _).notMem (by decide)
          simp only [operandText, List.isEmpty_cons, Bool.false_eq_true, if_false,
            List.cons.injEq, true_and] at h
          have hitems := congrArg items h
          rw [items_join (by simp) (hcomma _), items_join (by simp) (hcomma _)] at hitems
          have htexts := Function.Injective.list_map (fun _ _ => String.toList_inj.mp) hitems
          exact Function.Injective.list_map (fun _ _ => repr_toNat_inj) htexts

/-- The instruction of a line. -/
theorem lineText_inj (ht : t.WellFormed) (hi : i.Valid t) (hj : j.Valid t)
    (h : lineText offset i = lineText offset' j) : i = j := by
  have hcolon : ∀ {offset}, ∀ c ∈ offsetText offset, (c != ':') = true := by
    intro offset c hc
    simp only [bne_iff_ne, ne_eq]
    rintro rfl
    cases isWordChar_offsetText _ hc
  have hname : ∀ {i : Decoded}, i.Valid t → IsName i.name := fun hi =>
    isName_of_isIdentifier (ht.identifier _ hi.1)
  have hrest : ∀ i : Decoded,
      (operandText i.operands ++ markText i).takeWhile Text.isWordChar = [] := by
    intro i
    unfold operandText markText
    split <;> split <;> rfl
  -- the offset ends at the colon, and the name where its word ends
  have hafter := congrArg (List.dropWhile (· != ':')) h
  unfold lineText at hafter
  rw [dropWhile_append_eq hcolon (by simp), dropWhile_append_eq hcolon (by simp)] at hafter
  simp only [List.cons.injEq, true_and] at hafter
  have hword := congrArg word hafter
  rw [word_append (hname hi) _ (hrest i), word_append (hname hj) _ (hrest j)] at hword
  obtain ⟨hsame, htail⟩ := Prod.mk.inj hword
  -- names are unique in the table, so the lines have the same opcode and the same mark
  have hdescriptor : i.descriptor = j.descriptor := ht.eq_of_name hi.1 hj.1 hsame
  have hmark : markText i = markText j := by
    unfold markText Decoded.isTerminal
    rw [hdescriptor]
  rw [hmark] at htail
  have hlength : i.operands.length = j.operands.length := by
    rw [← hi.2.length_eq, ← hj.2.length_eq, hdescriptor]
  have hoperands := operandText_inj hlength (List.append_cancel_right htail)
  cases i
  cases j
  exact Decoded.mk.injEq .. ▸ ⟨hdescriptor, hoperands⟩

/-! ## Reading a listing -/

theorem listing_eq_ok_iff {b : Bytecode} {text : String} :
    listing t b = .ok text ↔ ∃ out, decode t b = .ok out ∧
      text.toList = (out.map fun entry => lineText entry.1 entry.2).flatMap (· ++ ['\n']) := by
  simp only [listing, bind_eq_ok_iff, pure_eq_ok_iff, ← String.toList_inj, String.toList_join,
    List.flatMap_map, toList_listingLine]
  exact exists_congr fun out => and_congr_right fun _ => eq_comm

theorem newline_notMem_lines (ht : t.WellFormed) {out : List (Nat × Decoded)}
    (h : Listed t offset out) :
    ∀ line ∈ out.map fun entry => lineText entry.1 entry.2, '\n' ∉ line := by
  intro line hline
  obtain ⟨entry, hentry, rfl⟩ := List.mem_map.mp hline
  have hvalid := valid_of_listed h entry hentry
  exact newline_notMem_lineText (isName_of_isIdentifier (ht.identifier _ hvalid.1))

/-- Lines of valid instructions tell the instructions one by one. -/
theorem map_snd_eq_of_lineText (ht : t.WellFormed) {out out' : List (Nat × Decoded)}
    (hvalid : ∀ entry ∈ out, entry.2.Valid t) (hvalid' : ∀ entry ∈ out', entry.2.Valid t)
    (h : out.map (fun entry => lineText entry.1 entry.2) =
      out'.map fun entry => lineText entry.1 entry.2) : out.map Prod.snd = out'.map Prod.snd := by
  induction out generalizing out' with
  | nil => rw [List.map_eq_nil_iff.mp h.symm]
  | cons entry out ih =>
      cases out' with
      | nil => cases h
      | cons entry' out' =>
          simp only [List.map_cons, List.cons.injEq] at h ⊢
          simp only [List.forall_mem_cons] at hvalid hvalid'
          exact ⟨lineText_inj ht hvalid.1 hvalid'.1 h.1, ih hvalid.2 hvalid'.2 h.2⟩

/-- Equal listings are of equal bytecode. -/
theorem eq_of_listing (ht : t.WellFormed) {b b' : Bytecode} {text : String}
    (h : listing t b = .ok text) (h' : listing t b' = .ok text) : b = b' := by
  obtain ⟨out, hout, htext⟩ := listing_eq_ok_iff.mp h
  obtain ⟨out', hout', htext'⟩ := listing_eq_ok_iff.mp h'
  obtain ⟨hlisted, hbytes⟩ := (decode_eq_ok_iff ht).mp hout
  obtain ⟨hlisted', hbytes'⟩ := (decode_eq_ok_iff ht).mp hout'
  have hlines := congrArg (List.splitOn '\n') (htext.symm.trans htext')
  rw [splitOn_flatMap (newline_notMem_lines ht hlisted),
    splitOn_flatMap (newline_notMem_lines ht hlisted')] at hlines
  have hsame := map_snd_eq_of_lineText ht (valid_of_listed hlisted) (valid_of_listed hlisted')
    (List.append_cancel_right hlines)
  rw [← Bytecode.toList_inj, hbytes, hbytes', hsame]

/-- Every buffer that decodes has a listing, and no two buffers have the same. -/
theorem listing_determines_bytecode {document : String} {t : Table}
    (ht : Table.ofText document = .ok t) :
    (∀ b, (∃ text, listing t b = .ok text) ↔ ∃ out, decode t b = .ok out) ∧
    ∀ b b' text, listing t b = .ok text → listing t b' = .ok text → b = b' := by
  refine ⟨fun b => ⟨?_, ?_⟩, fun b b' text => eq_of_listing (.of_ofText ht)⟩
  · rintro ⟨text, h⟩
    obtain ⟨out, hout, -⟩ := listing_eq_ok_iff.mp h
    exact ⟨out, hout⟩
  · rintro ⟨out, hout⟩
    exact ⟨String.ofList ((out.map fun entry => lineText entry.1 entry.2).flatMap (· ++ ['\n'])),
      listing_eq_ok_iff.mpr ⟨out, hout, String.toList_ofList⟩⟩

/-- The listing of a push and a jump is of these bytes alone. -/
theorem listing_determines_push_jump :
    Table.ofText Table.pushJumpText = .ok ⟨[Table.push, Table.jump]⟩ ∧
    listing ⟨[Table.push, Table.jump]⟩ ⟨#[0, 5, 1, 44, 1]⟩ =
      .ok "0000: Push 5\n0002: Jump 300  ; terminal\n" ∧
    ∀ b, listing ⟨[Table.push, Table.jump]⟩ b =
      .ok "0000: Push 5\n0002: Jump 300  ; terminal\n" → b = ⟨#[0, 5, 1, 44, 1]⟩ := by
  have h : listing ⟨[Table.push, Table.jump]⟩ ⟨#[0, 5, 1, 44, 1]⟩ =
      .ok "0000: Push 5\n0002: Jump 300  ; terminal\n" := by decide +kernel
  refine ⟨Table.ofText_pushJumpText, h, fun b hb => ?_⟩
  exact (listing_determines_bytecode Table.ofText_pushJumpText).2 b _ _ hb h

end Program

end OpcodeForge
