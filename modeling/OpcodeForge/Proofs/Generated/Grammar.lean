import OpcodeForge.Proofs.Generated.Writing
import OpcodeForge.Proofs.Generation

/-!
# Running the generated grammar

The text of the grammar is read line by line and its `statement` rule is run on an input. A rule is
a keyword in any letter case or an ordered choice between rules, which is settled by the first rule
that matches at the start of the input. A line that is neither, a rule with two definitions and an
alternative that is no keyword leave the run without a result.
-/

namespace OpcodeForge.Generated

/-- What a rule of the grammar matches. -/
inductive Expansion where
  | keyword (word : String)
  | choice (rules : List String)
  deriving DecidableEq, Repr

/-- The name of a rule and what it matches. -/
def rule? (line : List Char) : Option (String × Expansion) := do
  let (name, cs) := word line
  let cs ← cs.dropPrefix? " = \x7b".toList
  match cs.dropPrefix? "^\"".toList with
  | some cs =>
      let (keyword, cs) := word cs
      if cs = "\"\x7d".toList then some (name, .keyword keyword) else none
  | none =>
      if cs.getLast? = some '\x7d' then
        some (name, .choice (((cs.dropLast.filter (· != ' ')).splitOn '|').map String.ofList))
      else none

/-- A line that defines nothing. -/
def isComment (line : List Char) : Bool := line.isEmpty || "//".toList.isPrefixOf line

/-- The rules of a grammar, each with one definition. -/
def rules? (text : String) : Option (List (String × Expansion)) := do
  let rules ← ((text.toList.splitOn '\n').filter fun line => !isComment line).mapM rule?
  if (rules.map Prod.fst).Nodup then some rules else none

/-- A rule that is a keyword. -/
def keywordRule? (rules : List (String × Expansion)) (rule : String) : Option (String × String) :=
  match rules.lookup rule with
  | some (.keyword word) => some (rule, word)
  | _ => none

/-- The alternatives of the `statement` rule, each with its keyword. -/
def alternatives? (text : String) : Option (List (String × String)) := do
  let rules ← rules? text
  match rules.lookup "statement" with
  | some (.choice alternatives) => alternatives.mapM (keywordRule? rules)
  | _ => none

/-- What an input leaves after a keyword in any letter case. -/
def afterKeyword? (word : String) (input : List Char) : Option (List Char) :=
  if (input.take word.length).map Char.toLower = word.toList.map Char.toLower then
    some (input.drop word.length)
  else none

/-- The first alternative that matches at the start of an input, and the rest of the input. -/
def choose (alternatives : List (String × String)) (input : List Char) :
    Option (String × List Char) :=
  alternatives.findSome? fun (rule, word) => (afterKeyword? word input).map fun rest => (rule, rest)

/-- The rule that the `statement` rule of a table's grammar selects, and the rest of the input. -/
def selectedRule? (t : Table) (config : Config) (input : String) : Option (String × List Char) :=
  match Artifact.generate .grammar t config with
  | .ok text => (alternatives? text).bind fun alternatives => choose alternatives input.toList
  | .error _ => none

/-! ## Letter case -/

/-- Letter case is a matter of ASCII: any other character is its own in both cases. -/
theorem forall_char_of_ascii {p : Char → Prop} (hascii : ∀ n < 128, p (Char.ofNat n))
    (hother : ∀ c : Char, c.toLower = c → c.toUpper = c → p c) (c : Char) : p c := by
  rcases Nat.lt_or_ge c.toNat 128 with hlt | hge
  · have hc := hascii c.toNat hlt
    rwa [Char.ofNat_toNat] at hc
  · have hval : 128 ≤ c.val.toNat := hge
    refine hother c (dif_neg fun h => ?_) (dif_neg fun h => ?_)
    · have hle : c.val.toNat ≤ 90 := UInt32.le_iff_toNat_le.mp h.2
      omega
    · have hle : c.val.toNat ≤ 122 := UInt32.le_iff_toNat_le.mp h.2
      omega

theorem toLower_toUpper : ∀ c : Char, c.toUpper.toLower = c.toLower :=
  forall_char_of_ascii (by decide +kernel) fun c _ hupper => by rw [hupper]

theorem toLower_toLower : ∀ c : Char, c.toLower.toLower = c.toLower :=
  forall_char_of_ascii (by decide +kernel) fun c hlower _ => by rw [hlower, hlower]

theorem isWordChar_toLower {c : Char} :
    Text.isWordChar c = true → Text.isWordChar c.toLower = true :=
  forall_char_of_ascii (p := fun c => Text.isWordChar c = true → Text.isWordChar c.toLower = true)
    (by decide +kernel) (fun c hlower _ h => by rwa [hlower]) c

theorem isWordChar_toUpper {c : Char} :
    Text.isWordChar c = true → Text.isWordChar c.toUpper = true :=
  forall_char_of_ascii (p := fun c => Text.isWordChar c = true → Text.isWordChar c.toUpper = true)
    (by decide +kernel) (fun c _ hupper h => by rwa [hupper]) c

/-! ## Names -/

section Names

variable {t : Table} {d e : Descriptor}

theorem isName_keyword (ht : t.WellFormed) (hd : d ∈ t.descriptors) : IsName d.keyword := by
  intro c hc
  simp only [Descriptor.keyword, Text.lower, String.toList_ofList, List.mem_map] at hc
  obtain ⟨c, hc, rfl⟩ := hc
  exact isWordChar_toLower (isName_of_isIdentifier (ht.identifier d hd) c hc)

theorem isName_ruleName (ht : t.WellFormed) (hd : d ∈ t.descriptors) : IsName d.ruleName := by
  intro c hc
  simp only [Descriptor.ruleName, Text.upper, String.toList_append, String.toList_ofList,
    List.mem_append, List.mem_map] at hc
  rcases hc with hc | ⟨c, hc, rfl⟩
  · exact List.all_eq_true.mp (by decide : "stmt_".toList.all Text.isWordChar = true) c hc
  · exact isWordChar_toUpper (isName_of_isIdentifier (ht.identifier d hd) c hc)

theorem keyword_eq_of_ruleName (h : d.ruleName = e.ruleName) : d.keyword = e.keyword := by
  have hupper : d.name.toList.map Char.toUpper = e.name.toList.map Char.toUpper := by
    simpa [Descriptor.ruleName, Text.upper, ← String.toList_inj] using h
  have hlower := congrArg (List.map Char.toLower) hupper
  simp only [List.map_map, Function.comp_def, toLower_toUpper] at hlower
  simp [Descriptor.keyword, Text.lower, hlower]

theorem nodup_ruleNames (ht : t.WellFormed) : (t.descriptors.map Descriptor.ruleName).Nodup :=
  List.Nodup.map_on (fun _ hd _ he h =>
    List.inj_on_of_nodup_map ht.keywords hd he (keyword_eq_of_ruleName h)) (.of_map _ ht.keywords)

theorem ruleName_ne_statement : d.ruleName ≠ "statement" := by
  intro h
  have hlist := congrArg String.toList h
  simp [Descriptor.ruleName] at hlist

end Names

/-! ## Reading the lines -/

section Lines

variable {t : Table} {d : Descriptor}

theorem rule?_production (ht : t.WellFormed) (hd : d ∈ t.descriptors)
    (hargs : d.grammarArgs? = none) :
    rule? (Grammar.production d).toList = some (d.ruleName, .keyword d.keyword) := by
  have hline : (Grammar.production d).toList =
      d.ruleName.toList ++ (" = \x7b".toList ++ ("^\"".toList ++
        (d.keyword.toList ++ "\"\x7d".toList))) := by
    simp [Grammar.production, hargs]
  have hrule := word_append (isName_ruleName ht hd) (" = \x7b".toList ++ ("^\"".toList ++
    (d.keyword.toList ++ "\"\x7d".toList))) rfl
  have hkeyword := word_append (isName_keyword ht hd) "\"\x7d".toList rfl
  rw [hline, rule?, hrule]
  simp only [dropPrefix?_append, Option.bind_eq_bind, Option.bind_some, hkeyword, if_true]

theorem filter_join {names : List String} (hnames : ∀ name ∈ names, IsName name) :
    (Text.join " | " names).toList.filter (· != ' ') =
      ['|'].intercalate (names.map String.toList) := by
  induction names with
  | nil => rfl
  | cons name names ih =>
      have hname : name.toList.filter (· != ' ') = name.toList := by
        refine List.filter_eq_self.mpr fun c hc => bne_iff_ne.mpr ?_
        rintro rfl
        exact (hnames name List.mem_cons_self).notMem (by decide) hc
      cases names with
      | nil => simpa [Text.join] using hname
      | cons name' names =>
          have hrest := ih fun name hname => hnames name (List.mem_cons_of_mem _ hname)
          simp only [Text.join, String.toList_append, List.filter_append, hname, hrest,
            List.map_cons, List.intercalate_cons_cons]
          rfl

theorem splitOn_filter_join {names : List String} (hne : names ≠ [])
    (hnames : ∀ name ∈ names, IsName name) :
    (((Text.join " | " names).toList.filter (· != ' ')).splitOn '|').map String.ofList = names := by
  rw [filter_join hnames, List.splitOn_intercalate]
  · simp [Function.comp_def]
  · simp only [List.forall_mem_map]
    exact fun name hname => (hnames name hname).notMem (by decide)
  · simpa using hne

theorem rule?_statement (ht : t.WellFormed) (hne : t.descriptors ≠ []) :
    rule? (Grammar.statement t).toList =
      some ("statement", .choice (t.descriptors.map Descriptor.ruleName)) := by
  have hnames : ∀ name ∈ t.descriptors.map Descriptor.ruleName, IsName name :=
    List.forall_mem_map.mpr fun d hd => isName_ruleName ht hd
  have hsplit := splitOn_filter_join (by simpa using hne) hnames
  -- The body begins with the name of a rule, so that it is not read as a keyword.
  obtain ⟨cs, hcs⟩ : ∃ cs,
      (Text.join " | " (t.descriptors.map Descriptor.ruleName)).toList = 's' :: cs := by
    cases hds : t.descriptors with
    | nil => exact absurd hds hne
    | cons d ds => cases ds <;> simp [Text.join, Descriptor.ruleName]
  have hline : (Grammar.statement t).toList =
      "statement".toList ++ (" = \x7b".toList ++ ('s' :: cs ++ ['\x7d'])) := by
    simp [Grammar.statement, Grammar.choice, hcs]
  have hname : IsName "statement" :=
    List.all_eq_true.mp (by decide : "statement".toList.all Text.isWordChar = true)
  have hrule := word_append hname (" = \x7b".toList ++ ('s' :: cs ++ ['\x7d'])) rfl
  have hchoice : ('s' :: cs ++ ['\x7d']).dropPrefix? "^\"".toList = none := rfl
  rw [hcs] at hsplit
  rw [hline, rule?, hrule]
  simp only [dropPrefix?_append, Option.bind_eq_bind, Option.bind_some, hchoice,
    List.getLast?_concat, if_true, List.dropLast_concat, hsplit]

end Lines

/-! ## Reading the text -/

theorem lines_append_line (layout : Layout) {texts : List String} (hne : "" ∉ texts) :
    (layout.append (texts.map .line)).lines.toList =
      layout.lines.toList ++ texts.map (Line.mk layout.depth) := by
  induction texts generalizing layout with
  | nil => simp [Layout.append]
  | cons text texts ih =>
      simp only [List.mem_cons, not_or] at hne
      have hpush : layout.push (.line text) =
          { layout with lines := layout.lines.push ⟨layout.depth, text⟩ } :=
        if_neg (by simpa using Ne.symm hne.1)
      have hrest := ih (layout.push (.line text)) hne.2
      rw [List.map_cons, Layout.append, List.foldl_cons]
      rw [Layout.append] at hrest
      rw [hrest, hpush]
      simp

theorem toList_render_line {texts : List String} (hne : "" ∉ texts) :
    (({} : Layout).append (texts.map .line)).render.toList =
      texts.flatMap fun text => text.toList ++ ['\n'] := by
  rw [Layout.render, lines_append_line _ hne]
  simp [String.toList_join, List.flatMap_map, Line.render]

theorem splitOn_flatMap {lines : List (List Char)} (h : ∀ line ∈ lines, '\n' ∉ line) :
    (lines.flatMap fun line => line ++ ['\n']).splitOn '\n' = lines ++ [[]] := by
  induction lines with
  | nil => rfl
  | cons line lines ih =>
      have hline := h line List.mem_cons_self
      rw [List.flatMap_cons, List.append_assoc, List.singleton_append,
        List.splitOn_append_cons_self_of_not_mem hline,
        ih fun line' hline' => h line' (List.mem_cons_of_mem _ hline')]
      rfl

theorem splitOn_render_line {texts : List String} (hne : "" ∉ texts)
    (hnewline : ∀ text ∈ texts, '\n' ∉ text.toList) :
    (({} : Layout).append (texts.map .line)).render.toList.splitOn '\n' =
      texts.map String.toList ++ [[]] := by
  rw [toList_render_line hne, ← splitOn_flatMap (List.forall_mem_map.mpr hnewline),
    List.flatMap_map]

theorem filter_isComment {comments lines : List String}
    (hcomments : ∀ comment ∈ comments, isComment comment.toList = true)
    (hlines : ∀ line ∈ lines, isComment line.toList = false) :
    ((comments ++ lines).map String.toList ++ [[]]).filter (fun line => !isComment line) =
      lines.map String.toList := by
  have hdropped : (comments.map String.toList).filter (fun line => !isComment line) = [] := by
    simp only [List.filter_eq_nil_iff, List.forall_mem_map]
    exact fun comment h => by simp [hcomments comment h]
  have hkept : (lines.map String.toList).filter (fun line => !isComment line) =
      lines.map String.toList := by
    simp only [List.filter_eq_self, List.forall_mem_map]
    exact fun line h => by simp [hlines line h]
  rw [List.map_append, List.filter_append, List.filter_append, hdropped, hkept]
  simp [isComment]

/-- The rules of a table's grammar. -/
def grammarRules (t : Table) : List (String × Expansion) :=
  t.descriptors.map (fun d => (d.ruleName, .keyword d.keyword)) ++
    [("statement", .choice (t.descriptors.map Descriptor.ruleName))]

/-- The lines of a table's grammar below its banner. -/
def grammarLines (t : Table) : List String :=
  t.descriptors.map Grammar.production ++ [Grammar.statement t]

section Text

variable {t : Table} {config : Config}

theorem exists_toList_grammarLine {line : String} (h : line ∈ grammarLines t) :
    ∃ cs, line.toList = 's' :: cs := by
  simp only [grammarLines, List.mem_append, List.mem_map, List.mem_singleton] at h
  rcases h with ⟨d, -, rfl⟩ | rfl
  · simp [Grammar.production, Descriptor.ruleName]
  · simp [Grammar.statement, Grammar.choice]

theorem newline_notMem_grammarLine (ht : t.WellFormed)
    (hargs : ∀ e ∈ t.descriptors, e.grammarArgs? = none) {line : String}
    (h : line ∈ grammarLines t) : '\n' ∉ line.toList := by
  simp only [grammarLines, List.mem_append, List.mem_map, List.mem_singleton] at h
  rcases h with ⟨d, hd, rfl⟩ | rfl
  · have hrule := (isName_ruleName ht hd).notMem (by decide : Text.isWordChar '\n' = false)
    have hkeyword := (isName_keyword ht hd).notMem (by decide : Text.isWordChar '\n' = false)
    simp [Grammar.production, hargs d hd, hrule, hkeyword]
  · have hjoin : '\n' ∉ (Text.join " | " (t.descriptors.map Descriptor.ruleName)).toList :=
      notMem_join (by decide) (List.forall_mem_map.mpr fun d hd =>
        (isName_ruleName ht hd).notMem (by decide))
    simp [Grammar.statement, Grammar.choice, hjoin]

theorem mapM_rule?_grammarLines (ht : t.WellFormed) (hne : t.descriptors ≠ [])
    (hargs : ∀ e ∈ t.descriptors, e.grammarArgs? = none) :
    ((grammarLines t).map String.toList).mapM rule? = some (grammarRules t) := by
  refine mapM_eq_some_of_forall₂ ?_
  rw [grammarLines, List.map_append, List.map_map]
  refine List.rel_append ?_ (.cons (rule?_statement ht hne) .nil)
  rw [List.forall₂_map_left_iff, List.forall₂_map_right_iff, List.forall₂_same]
  exact fun d hd => rule?_production ht hd (hargs d hd)

theorem nodup_grammarRules (ht : t.WellFormed) : ((grammarRules t).map Prod.fst).Nodup := by
  have hnames : (grammarRules t).map Prod.fst =
      t.descriptors.map Descriptor.ruleName ++ ["statement"] := by
    simp [grammarRules, Function.comp_def]
  rw [hnames]
  refine List.nodup_append.mpr ⟨nodup_ruleNames ht, List.nodup_singleton _, ?_⟩
  intro name hname name' hname'
  obtain ⟨d, -, rfl⟩ := List.mem_map.mp hname
  rw [List.mem_singleton.mp hname']
  exact ruleName_ne_statement

theorem exists_comments :
    ∃ comments : List String, banner = comments.map .line ∧ "" ∉ comments ∧
      ∀ comment ∈ comments, isComment comment.toList = true ∧ '\n' ∉ comment.toList := by
  refine ⟨[_, _], rfl, by simp, ?_⟩
  simp [isComment]

/-- The grammar is generated, and its text is read as one rule for each opcode and the choice. -/
theorem exists_rules (config : Config) (ht : t.WellFormed) (hne : t.descriptors ≠ [])
    (hargs : ∀ e ∈ t.descriptors, e.grammarArgs? = none) :
    ∃ text, Artifact.generate .grammar t config = .ok text ∧
      rules? text = some (grammarRules t) := by
  obtain ⟨text, htext⟩ : ∃ text, Artifact.generate .grammar t config = .ok text := by
    refine Artifact.exists_generate_iff.mpr ⟨hne, ?_⟩
    intro s hs d _
    obtain rfl := List.mem_singleton.mp hs
    exact ⟨by simp [Emitter.sectionAt, Grammar.emitter, Descriptor.missing?], rfl⟩
  refine ⟨text, htext, ?_⟩
  obtain ⟨comments, hbanner, hcomments, hcomment⟩ := exists_comments
  have hfragments : assembleFragments (Artifact.emitters .grammar config.paths) t =
      (comments ++ grammarLines t).map .line := by
    simp [Artifact.assembleFragments_eq, Artifact.sections, Grammar.sections, Section.fragments_eq,
      Emitter.sectionAt, Grammar.emitter, Grammar.statement, hbanner, grammarLines,
      ← List.map_eq_flatMap, Function.comp_def]
  have hempty : "" ∉ comments ++ grammarLines t := by
    rw [List.mem_append, not_or]
    refine ⟨hcomments, fun h => ?_⟩
    obtain ⟨cs, hcs⟩ := exists_toList_grammarLine h
    cases hcs
  have hnewline : ∀ line ∈ comments ++ grammarLines t, '\n' ∉ line.toList :=
    List.forall_mem_append.mpr ⟨fun line h => (hcomment line h).2,
      fun line h => newline_notMem_grammarLine ht hargs h⟩
  have hrule : ∀ line ∈ grammarLines t, isComment line.toList = false := by
    intro line h
    obtain ⟨cs, hcs⟩ := exists_toList_grammarLine h
    rw [hcs]
    rfl
  have hlines : (text.toList.splitOn '\n').filter (fun line => !isComment line) =
      (grammarLines t).map String.toList := by
    rw [Artifact.eq_render_of_generate htext, hfragments, splitOn_render_line hempty hnewline]
    exact filter_isComment (fun comment h => (hcomment comment h).1) hrule
  rw [rules?, hlines, mapM_rule?_grammarLines ht hne hargs]
  simp [nodup_grammarRules ht]

theorem lookup_grammarRules (ht : t.WellFormed) {rule : String} {expansion : Expansion}
    (h : (rule, expansion) ∈ grammarRules t) : (grammarRules t).lookup rule = some expansion := by
  refine lookup_of_unique h fun expansion' h' => ?_
  have hrule := List.inj_on_of_nodup_map (nodup_grammarRules ht) h' h rfl
  exact congrArg Prod.snd hrule

/-- The alternatives of a table's grammar. -/
def grammarAlternatives (t : Table) : List (String × String) :=
  t.descriptors.map fun d => (d.ruleName, d.keyword)

theorem mapM_keywordRule? (ht : t.WellFormed) :
    (t.descriptors.map Descriptor.ruleName).mapM (keywordRule? (grammarRules t)) =
      some (grammarAlternatives t) := by
  refine mapM_eq_some_of_forall₂ ?_
  rw [grammarAlternatives, List.forall₂_map_left_iff, List.forall₂_map_right_iff, List.forall₂_same]
  intro d hd
  have hmem : (d.ruleName, Expansion.keyword d.keyword) ∈ grammarRules t :=
    List.mem_append_left _ (List.mem_map_of_mem hd)
  rw [keywordRule?, lookup_grammarRules ht hmem]

theorem selectedRule?_eq_choose (config : Config) (ht : t.WellFormed) (hne : t.descriptors ≠ [])
    (hargs : ∀ e ∈ t.descriptors, e.grammarArgs? = none) (input : String) :
    selectedRule? t config input = choose (grammarAlternatives t) input.toList := by
  obtain ⟨text, htext, hrules⟩ := exists_rules config ht hne hargs
  have hstatement : (grammarRules t).lookup "statement" =
      some (.choice (t.descriptors.map Descriptor.ruleName)) :=
    lookup_grammarRules ht (List.mem_append_right _ (List.mem_singleton_self _))
  have halternatives : alternatives? text = some (grammarAlternatives t) := by
    rw [alternatives?, hrules, Option.bind_eq_bind, Option.bind_some, hstatement]
    exact mapM_keywordRule? ht
  rw [selectedRule?, htext]
  simp only [halternatives, Option.bind_some]

end Text

/-! ## Keywords -/

section Keywords

variable {t : Table} {d e : Descriptor} {input : String}

theorem map_toLower_keyword (e : Descriptor) :
    e.keyword.toList.map Char.toLower = e.keyword.toList := by
  simp only [Descriptor.keyword, Text.lower, String.toList_ofList, List.map_map, Function.comp_def,
    toLower_toLower]

/-- A spelling of one keyword starts with another keyword where the keyword itself does. -/
theorem afterKeyword?_spelling (hinput : Text.lower input = d.keyword) (e : Descriptor) :
    afterKeyword? e.keyword input.toList =
      if e.keyword.toList <+: d.keyword.toList then some (input.toList.drop e.keyword.length)
      else none := by
  have hlower : input.toList.map Char.toLower = d.keyword.toList := by
    rw [← hinput, Text.lower, String.toList_ofList]
  have hprefix : d.keyword.toList.take e.keyword.length = e.keyword.toList ↔
      e.keyword.toList <+: d.keyword.toList := by
    rw [List.prefix_iff_eq_take, String.length_toList, eq_comm]
  rw [afterKeyword?, List.map_take, hlower, map_toLower_keyword]
  exact if_congr hprefix rfl rfl

theorem choose_grammarAlternatives (hinput : Text.lower input = d.keyword) :
    choose (grammarAlternatives t) input.toList =
      (t.descriptors.find? fun e => e.keyword.toList <+: d.keyword.toList).map
        fun e => (e.ruleName, input.toList.drop e.keyword.length) := by
  rw [grammarAlternatives]
  induction t.descriptors with
  | nil => rfl
  | cons e ds ih =>
      rw [choose] at ih ⊢
      by_cases h : e.keyword.toList <+: d.keyword.toList
      · simp [afterKeyword?_spelling hinput, h]
      · simpa [afterKeyword?_spelling hinput, h] using ih

/-- The first opcode of the table with whose keyword the keyword of an opcode begins. -/
structure FirstPrefix (t : Table) (d e : Descriptor) : Prop where
  mem : e ∈ t.descriptors
  begins : e.keyword.toList <+: d.keyword.toList
  first : ∀ e' ∈ t.descriptors, e'.ordinal < e.ordinal → ¬ e'.keyword.toList <+: d.keyword.toList

theorem FirstPrefix.unique (ht : t.WellFormed) {e' : Descriptor} (h : FirstPrefix t d e)
    (h' : FirstPrefix t d e') : e = e' := by
  have hle : e.ordinal ≤ e'.ordinal :=
    UInt8.not_lt.mp fun hlt => h.first e' h'.mem hlt h'.begins
  have hge : e'.ordinal ≤ e.ordinal :=
    UInt8.not_lt.mp fun hlt => h'.first e h.mem hlt h.begins
  have hordinal : e.ordinal = e'.ordinal := UInt8.le_antisymm hle hge
  have hget := ht.byOrdinal?_eq_some_iff.mpr ⟨h.mem, hordinal⟩
  rw [ht.byOrdinal?_eq_some_iff.mpr ⟨h'.mem, rfl⟩] at hget
  exact (Option.some.inj hget).symm

theorem firstPrefix_of_find? (ht : t.WellFormed)
    (h : (t.descriptors.find? fun e => e.keyword.toList <+: d.keyword.toList) = some e) :
    FirstPrefix t d e := by
  obtain ⟨hbegins, i, hi, rfl, hbefore⟩ := List.find?_eq_some_iff_getElem.mp h
  refine ⟨List.getElem_mem hi, by simpa using hbegins, ?_⟩
  intro e' he' hlt
  obtain ⟨j, hj, rfl⟩ := List.getElem_of_mem he'
  have hi' := ht.ordinal i _ (List.getElem?_eq_getElem hi)
  have hj' := ht.ordinal j _ (List.getElem?_eq_getElem hj)
  rw [UInt8.lt_iff_toNat_lt, hi', hj'] at hlt
  simpa using hbefore j hlt

/-- The choice of a grammar selects the first opcode with whose keyword the input begins. -/
theorem exists_firstPrefix (ht : t.WellFormed) (hd : d ∈ t.descriptors)
    (hinput : Text.lower input = d.keyword) :
    ∃ e, FirstPrefix t d e ∧ choose (grammarAlternatives t) input.toList =
      some (e.ruleName, input.toList.drop e.keyword.length) := by
  rw [choose_grammarAlternatives hinput]
  cases hfind : t.descriptors.find? fun e => e.keyword.toList <+: d.keyword.toList with
  | none =>
      have hself := List.find?_eq_none.mp hfind d hd
      simp at hself
  | some e => exact ⟨e, firstPrefix_of_find? ht hfind, rfl⟩

theorem drop_keyword (hinput : Text.lower input = d.keyword) :
    input.toList.drop d.keyword.length = [] := by
  rw [← hinput]
  simp [Text.lower]

end Keywords

/-- On a spelling of an opcode's keyword, the `statement` rule of the generated grammar selects the
first opcode of the table with whose keyword it begins, and consumes that keyword. This is the
opcode itself, and the whole text, exactly where no opcode before it has such a keyword. -/
theorem statement_selects_first_keyword {document : String} {t : Table}
    (ht : Table.ofText document = .ok t) (hargs : ∀ e ∈ t.descriptors, e.grammarArgs? = none)
    {d : Descriptor} (hd : d ∈ t.descriptors) {input : String}
    (hinput : Text.lower input = d.keyword) (config : Config) :
    (selectedRule? t config input = some (d.ruleName, []) ↔
      ∀ e ∈ t.descriptors, e.ordinal < d.ordinal → ¬ e.keyword.toList <+: d.keyword.toList) ∧
    ∃ e, FirstPrefix t d e ∧
      selectedRule? t config input = some (e.ruleName, input.toList.drop e.keyword.length) := by
  have hwf : t.WellFormed := .of_ofText ht
  have hne : t.descriptors ≠ [] := List.ne_nil_of_mem hd
  obtain ⟨e, hfirst, hchoose⟩ := exists_firstPrefix hwf hd hinput
  rw [selectedRule?_eq_choose config hwf hne hargs, hchoose]
  -- Rule names differ where keywords do, so the rule of `d` is selected only if `e` is `d`.
  refine ⟨⟨fun h => ?_, fun h => ?_⟩, e, hfirst, rfl⟩
  · have hrule : e.ruleName = d.ruleName := congrArg Prod.fst (Option.some.inj h)
    obtain rfl : e = d :=
      List.inj_on_of_nodup_map hwf.keywords hfirst.mem hd (keyword_eq_of_ruleName hrule)
    exact hfirst.first
  · obtain rfl : e = d := hfirst.unique hwf ⟨hd, List.prefix_rfl, h⟩
    rw [drop_keyword hinput]

/-! ## A keyword that begins with another -/

/-- A document with two opcodes, of which the second begins with the first. -/
def numberedText : String := "[\x7b\"name\": \"Op1\"\x7d, \x7b\"name\": \"Op10\"\x7d]"

def op1 : Descriptor := Table.describe 0 { name := "Op1" }

def op10 : Descriptor := Table.describe 1 { name := "Op10" }

theorem ofText_numberedText : Table.ofText numberedText = .ok ⟨[op1, op10]⟩ := by decide +kernel

theorem grammarArgs?_numbered : ∀ e ∈ [op1, op10], e.grammarArgs? = none := by decide

theorem statement_selects_op1 :
    selectedRule? ⟨[op1, op10]⟩ {} "OP1" = some ("stmt_OP1", []) ∧
      selectedRule? ⟨[op1, op10]⟩ {} "oP10" ≠ some ("stmt_OP10", []) := by
  have hop1 := statement_selects_first_keyword ofText_numberedText grammarArgs?_numbered
    (by decide) (by decide : Text.lower "OP1" = op1.keyword) {}
  have hop10 := statement_selects_first_keyword ofText_numberedText grammarArgs?_numbered
    (by decide) (by decide : Text.lower "oP10" = op10.keyword) {}
  exact ⟨hop1.1.mpr (by decide), fun h => hop10.1.mp h op1 (by decide) (by decide) (by decide)⟩

/-- The keyword of an opcode need not reach the rule of the opcode: of `op1` and `op10`, the text
`op10` is taken for an `op1` with a `0` left over. -/
theorem statement_misses_op10 :
    ¬ ∀ (document : String) (t : Table), Table.ofText document = .ok t →
      (∀ e ∈ t.descriptors, e.grammarArgs? = none) → ∀ d ∈ t.descriptors, ∀ input : String,
        Text.lower input = d.keyword →
          ∀ config : Config, selectedRule? t config input = some (d.ruleName, []) := by
  intro h
  have hop10 := h numberedText ⟨[op1, op10]⟩ ofText_numberedText grammarArgs?_numbered op10
    (by decide) "op10" (by decide) {}
  rw [selectedRule?_eq_choose {} (.of_ofText ofText_numberedText) (by decide)
    grammarArgs?_numbered] at hop10
  have hchoose : choose (grammarAlternatives ⟨[op1, op10]⟩) "op10".toList =
      some ("stmt_OP1", ['0']) := by decide
  rw [hchoose] at hop10
  revert hop10
  decide

end OpcodeForge.Generated
