import OpcodeForge.Proofs.Compatibility

/-!
# Publishing over time

Tables are published one after the other; each attempt is checked against the last manifest alone.
The manifest is at all times what some loaded table publishes, it only ever grows at its end, and so
bytecode of any accepted table keeps its meaning under every table that is accepted later.
-/

namespace OpcodeForge.Manifest

/-- The manifest after an attempt to publish the table of a document. A document that is no table,
or whose table does not keep what was published, changes nothing. -/
def attempt (m : Manifest) (text : String) : Manifest :=
  match (Table.ofText text).bind m.publish with
  | .ok next => next
  | .error _ => m

/-- The manifest after attempts one after the other, the first on an empty manifest. -/
def history (texts : List String) : Manifest := texts.foldl attempt {}

/-- The attempt at a position loads the table, and it keeps what was published before. -/
def AcceptedAt (texts : List String) (position : Nat) (t : Table) : Prop :=
  ∃ text, texts[position]? = some text ∧ Table.ofText text = .ok t ∧
    (history (texts.take position)).check t = .ok ()

/-- What some table that can be loaded would publish. -/
def Consistent (m : Manifest) : Prop := ∃ t : Table, t.WellFormed ∧ m = ofTable t

/-! ## One attempt -/

variable {m : Manifest} {t : Table} {text : String}

theorem attempt_of_check (ht : Table.ofText text = .ok t) (hcheck : m.check t = .ok ()) :
    attempt m text = ofTable t := by
  simp [attempt, ht, publish, hcheck, Except.bind, Except.map]

theorem attempt_cases (m : Manifest) (text : String) :
    attempt m text = m ∨
      ∃ t, Table.ofText text = .ok t ∧ m.check t = .ok () ∧ attempt m text = ofTable t := by
  cases ht : Table.ofText text with
  | error e => left; simp [attempt, ht, Except.bind]
  | ok t =>
      cases hcheck : m.check t with
      | error e => left; simp [attempt, ht, publish, hcheck, Except.bind, Except.map]
      | ok _ => right; exact ⟨t, rfl, hcheck, attempt_of_check ht hcheck⟩

theorem Consistent.attempt (h : m.Consistent) (text : String) : (m.attempt text).Consistent := by
  rcases attempt_cases m text with he | ⟨t, ht, -, he⟩
  · rw [he]; exact h
  · rw [he]; exact ⟨t, .of_ofText ht, rfl⟩

/-- A table that keeps what was published has it at its beginning. -/
theorem Consistent.prefix_ofTable (h : m.Consistent) (ht : t.WellFormed)
    (hcheck : m.check t = .ok ()) : m.entries <+: (ofTable t).entries := by
  obtain ⟨old, hold, rfl⟩ := h
  rw [List.prefix_iff_getElem?]
  intro k hk
  simp only [ofTable, List.length_map] at hk
  obtain ⟨d, hd, hname, hops⟩ :=
    check_ofTable_eq_ok_iff.mp hcheck _ (List.getElem_mem hk)
  -- position is ordinal in both tables
  have hget : t.descriptors[k]? = some d := by
    have hk' := hold.ordinal k _ (List.getElem?_eq_getElem hk)
    rw [← hk']
    exact hd
  have hord := (ht.byOrdinal?_eq_some_iff.mp hd).2
  simp only [ofTable, List.getElem?_map, hget, Option.map_some, List.getElem_map,
    Option.some.injEq]
  simp only [Entry.ofDescriptor, Entry.mk.injEq] at hname hops hord ⊢
  exact ⟨hname, hord, hops⟩

theorem Consistent.prefix_attempt (h : m.Consistent) (text : String) :
    m.entries <+: (m.attempt text).entries := by
  rcases attempt_cases m text with he | ⟨t, ht, hcheck, he⟩
  · exact ⟨[], by rw [List.append_nil, he]⟩
  · rw [he]; exact h.prefix_ofTable (.of_ofText ht) hcheck

theorem Consistent.ordinal (h : m.Consistent) {k : Nat} {entry : Entry}
    (hk : m.entries[k]? = some entry) : entry.ordinal.toNat = k := by
  obtain ⟨t, ht, rfl⟩ := h
  simp only [ofTable, List.getElem?_map, Option.map_eq_some_iff] at hk
  obtain ⟨d, hd, rfl⟩ := hk
  exact ht.ordinal k d hd

theorem Consistent.nodup_names (h : m.Consistent) : (m.entries.map Entry.name).Nodup := by
  obtain ⟨t, ht, rfl⟩ := h
  have hnames : (ofTable t).entries.map Entry.name = t.descriptors.map Descriptor.name := by
    simp [ofTable, Entry.ofDescriptor]
  rw [hnames]
  refine List.Nodup.of_map Text.lower ?_
  rw [List.map_map]
  exact ht.keywords

/-! ## A run of attempts -/

theorem history_take_succ {texts : List String} {k : Nat} (hk : texts[k]? = some text) :
    history (texts.take (k + 1)) = (history (texts.take k)).attempt text := by
  simp [history, List.take_add_one, hk]

theorem Consistent.foldl_attempt (h : m.Consistent) (texts : List String) :
    (texts.foldl Manifest.attempt m).Consistent := by
  induction texts generalizing m with
  | nil => exact h
  | cons text texts ih => exact ih (h.attempt text)

theorem consistent_history (texts : List String) : (history texts).Consistent :=
  Consistent.foldl_attempt ⟨⟨[]⟩, .nil, rfl⟩ texts

theorem prefix_history_succ (texts : List String) (k : Nat) :
    (history (texts.take k)).entries <+: (history (texts.take (k + 1))).entries := by
  cases hk : texts[k]? with
  | none =>
      refine ⟨[], ?_⟩
      rw [List.take_add_one, hk, Option.toList_none, List.append_nil, List.append_nil]
  | some text =>
      rw [history_take_succ hk]
      exact (consistent_history _).prefix_attempt text

theorem prefix_history (texts : List String) {i j : Nat} (hij : i ≤ j) :
    (history (texts.take i)).entries <+: (history (texts.take j)).entries := by
  induction hij with
  | refl => exact List.prefix_refl _
  | step _ ih => exact ih.trans (prefix_history_succ texts _)

theorem AcceptedAt.history_eq {texts : List String} {k : Nat} (h : AcceptedAt texts k t) :
    history (texts.take (k + 1)) = ofTable t := by
  obtain ⟨text, hk, ht, hcheck⟩ := h
  rw [history_take_succ hk, attempt_of_check ht hcheck]

theorem AcceptedAt.wellFormed {texts : List String} {k : Nat} (h : AcceptedAt texts k t) :
    t.WellFormed := by
  obtain ⟨text, -, ht, -⟩ := h
  exact .of_ofText ht

/-- What is published only grows at its end, and later tables read the bytecode of earlier ones. -/
theorem history_append_only (texts : List String) :
    (∀ i j, i ≤ j →
      (history (texts.take i)).entries <+: (history (texts.take j)).entries) ∧
    (∀ i, (∀ k (entry : Entry), (history (texts.take i)).entries[k]? = some entry →
        entry.ordinal.toNat = k) ∧
      ((history (texts.take i)).entries.map Entry.name).Nodup) ∧
    ∀ i j old new, i < j → AcceptedAt texts i old → AcceptedAt texts j new →
      Program.Compatible old new := by
  refine ⟨fun i j hij => prefix_history texts hij, fun i => ⟨fun k entry hk => ?_, ?_⟩, ?_⟩
  · exact (consistent_history _).ordinal hk
  · exact (consistent_history _).nodup_names
  · intro i j old new hij hold hnew
    have hgrow := prefix_history texts (Nat.succ_le_of_lt hij)
    rw [hold.history_eq] at hgrow
    have hnewwf := hnew.wellFormed
    obtain ⟨text, -, -, hcheck⟩ := hnew
    refine Program.compatible_of_keeps hold.wellFormed hnewwf (check_ofTable_eq_ok_iff.mp ?_)
    exact check_eq_ok_iff.mpr fun entry hentry =>
      check_eq_ok_iff.mp hcheck entry (hgrow.subset hentry)

/-- Three documents, of which the second takes an ordinal that the first has given away. -/
def reorderedTexts : List String :=
  ["[\x7b\"name\":\"Nop\"\x7d]", "[\x7b\"name\":\"Ret\"\x7d]",
    "[\x7b\"name\":\"Nop\"\x7d,\x7b\"name\":\"Ret\"\x7d]"]

/-- The second table is refused, and the third appends to the first. -/
theorem history_append_only_reordered :
    AcceptedAt reorderedTexts 0 ⟨[⟨"Nop", 0, {}⟩]⟩ ∧
    AcceptedAt reorderedTexts 2 ⟨[⟨"Nop", 0, {}⟩, ⟨"Ret", 1, {}⟩]⟩ ∧
    (history (reorderedTexts.take 2)).entries = [⟨"Nop", 0, []⟩] ∧
    (history (reorderedTexts.take 2)).entries <+: (history (reorderedTexts.take 3)).entries ∧
    ((history (reorderedTexts.take 3)).entries.map Entry.name).Nodup ∧
    Program.Compatible ⟨[⟨"Nop", 0, {}⟩]⟩ ⟨[⟨"Nop", 0, {}⟩, ⟨"Ret", 1, {}⟩]⟩ := by
  have hold : AcceptedAt reorderedTexts 0 ⟨[⟨"Nop", 0, {}⟩]⟩ :=
    ⟨_, rfl, by decide +kernel, by decide +kernel⟩
  have hnew : AcceptedAt reorderedTexts 2 ⟨[⟨"Nop", 0, {}⟩, ⟨"Ret", 1, {}⟩]⟩ :=
    ⟨_, rfl, by decide +kernel, by decide +kernel⟩
  obtain ⟨hgrow, hentries, hcompatible⟩ := history_append_only reorderedTexts
  refine ⟨hold, hnew, by decide +kernel, hgrow 2 3 (by decide), (hentries 3).2, ?_⟩
  exact hcompatible 0 2 _ _ (by decide) hold hnew

end OpcodeForge.Manifest
