import OpcodeForge.Proofs.Config
import OpcodeForge.Proofs.Run

/-!
# What a run has read

A run that writes keeps the files it has read, except where a path that it writes leads to one of
them. For the table this takes a path with other components: an output with those of the table is
refused, and a manifest with those of the table would have to be read as one.
-/

namespace OpcodeForge

/-! ## Tables and manifests as texts -/

theorem Record.exists_of_ofJson?_array {items : List Json.Value} {record : Record}
    (h : Record.ofJson? (.array items) = some record) :
    ∃ name rest, items = .string name :: rest := by
  rw [Record.ofJson?, Option.bind_eq_bind, Option.bind_eq_some_iff] at h
  obtain ⟨given, hgiven, hrecord⟩ := h
  have hgiven : items.length = Record.keys.length ∧ given = items.map some := by
    rw [Json.fields?] at hgiven
    split at hgiven
    · rename_i hlength
      have hlength : items.length = Record.keys.length := by simpa using hlength
      refine ⟨hlength, ?_⟩
      simpa [hlength] using hgiven.symm
    · cases hgiven
  obtain ⟨hlength, rfl⟩ := hgiven
  cases items with
  | nil => cases hlength
  | cons name rest =>
      rw [List.map_cons] at hrecord
      split at hrecord
      · rename_i heq
        obtain ⟨rfl, -⟩ := List.cons.inj heq
        rw [Option.bind_eq_bind, Option.bind_eq_some_iff] at hrecord
        obtain ⟨text, htext, -⟩ := hrecord
        cases name with
        | string units => exact ⟨units, rest, rfl⟩
        | null | bool | number | array | object => cases htext
      · cases hrecord

theorem Manifest.exists_of_ofJson?_array {items : List Json.Value} {m : Manifest}
    (h : Manifest.ofJson? (.array items) = some m) :
    ∃ entries, items = [.array entries] ∧ entries.mapM Entry.ofJson? = some m.entries := by
  rw [Manifest.ofJson?, Option.bind_eq_bind, Option.bind_eq_some_iff] at h
  obtain ⟨given, hgiven, hmanifest⟩ := h
  match items with
  | [] =>
    cases hgiven
    cases hmanifest
  | [item] =>
    obtain rfl : given = [some item] := by simpa [Json.fields?] using hgiven.symm
    dsimp only at hmanifest
    rw [Option.bind_eq_bind, Option.bind_eq_some_iff] at hmanifest
    obtain ⟨entries, hentries, hm⟩ := hmanifest
    cases hm
    cases item with
    | array values => exact ⟨values, rfl, hentries⟩
    | null | bool | number | string | object => cases hentries
  | _ :: _ :: _ => simp [Json.fields?] at hgiven

theorem Table.exists_of_ofText {text : String} {t : Table} (h : Table.ofText text = .ok t) :
    ∃ items records, Json.parse text = some (.array items) ∧
      items.mapM Record.ofJson? = some records := by
  rw [Table.ofText] at h
  split at h
  · rename_i records hrecords
    obtain ⟨value, hparse, hlist⟩ := Option.bind_eq_some_iff.mp hrecords
    cases value with
    | array items => exact ⟨items, records, hparse, hlist⟩
    | null | bool | number | string | object => cases hlist
  · cases h

/-- No text is that of a table and that of a manifest. -/
theorem Manifest.ofText_ne_ok_of_table {text : String} {t : Table} (h : Table.ofText text = .ok t)
    (m : Manifest) : Manifest.ofText text ≠ .ok m := by
  obtain ⟨items, records, hparse, hrecords⟩ := Table.exists_of_ofText h
  rw [Manifest.ofText, hparse, Option.bind_some]
  cases hmanifest : Manifest.ofJson? (.array items) with
  | none => simp
  | some m' =>
      -- The list of entries would have to be a record, which begins with a string.
      obtain ⟨entries, rfl, hentries⟩ := Manifest.exists_of_ofJson?_array hmanifest
      rw [List.mapM_cons, Option.bind_eq_bind, Option.bind_eq_some_iff] at hrecords
      obtain ⟨record, hrecord, -⟩ := hrecords
      obtain ⟨name, rest, rfl⟩ := Record.exists_of_ofJson?_array hrecord
      simp [Entry.ofJson?, Json.fields?] at hentries

namespace Workspace

open OpcodeForge.Path (walk Step)

variable {w w' : Workspace} {location : Location}

/-! ## Other spellings -/

theorem leads_iff {steps : List Step} :
    w.Leads location steps ↔ ∀ before step after, steps = before ++ step :: after →
      w.entry? (walk location before) = some .directory ∧ step.isUsable = true := by
  induction steps generalizing location with
  | nil => simp [Leads]
  | cons step steps ih =>
      rw [Leads, ih]
      constructor
      · rintro ⟨hdirectory, husable, hrest⟩ before next after heq
        cases before with
        | nil =>
            obtain ⟨rfl, rfl⟩ := List.cons.inj heq
            exact ⟨hdirectory, husable⟩
        | cons first before =>
            obtain ⟨rfl, hsteps⟩ := List.cons.inj heq
            exact hrest before next after hsteps
      · intro h
        obtain ⟨hdirectory, husable⟩ := h [] step steps rfl
        refine ⟨hdirectory, husable, fun before next after heq => ?_⟩
        exact h (step :: before) next after (by rw [heq, List.cons_append])

/-- Where steps can be taken, others that make the same moves can be taken too, if they can in some
workspace that has no directory at their end. -/
theorem Leads.respell {steps steps' : List Step} (hleads : w.Leads location steps)
    (hmoves : steps.filter (· != .stay) = steps'.filter (· != .stay))
    (hleads' : w'.Leads location steps')
    (hend : w'.entry? (walk location steps') ≠ some .directory) : w.Leads location steps' := by
  rw [leads_iff] at hleads hleads' ⊢
  rintro before step after rfl
  obtain ⟨hdirectory, husable⟩ := hleads' before step after rfl
  refine ⟨?_, husable⟩
  rw [List.filter_append] at hmoves
  cases hrest : (step :: after).filter (· != .stay) with
  | nil =>
      -- What is left stays in place, so the end would be the directory it stays in.
      rw [Path.walk_append, ← Path.walk_filter _ (step :: after), hrest] at hend
      exact absurd hdirectory hend
  | cons next rest =>
      -- The other steps make the next move from the same location.
      rw [hrest, List.filter_eq_append_iff] at hmoves
      obtain ⟨before', more, rfl, hbefore, hmore⟩ := hmoves
      obtain ⟨idle, after', rfl, hidle, -, -⟩ := List.filter_eq_cons_iff.mp hmore
      have hfound := (hleads (before' ++ idle) next after' (by simp)).1
      have hidle : idle.filter (· != .stay) = [] := List.filter_eq_nil_iff.mpr hidle
      rwa [← Path.walk_filter, List.filter_append, hbefore, hidle, List.append_nil,
        Path.walk_filter] at hfound

/-- Where a file was found, a path with the same components finds it as well, if it finds a file
later. -/
theorem find_of_same {written made : Set Location} {p q : Path} {content content' : ByteArray}
    (h : Extends written made w w') (hsame : q.same p = true)
    (hfind : w.find p = .ok (.file content)) (hfind' : w'.find q = .ok (.file content')) :
    w.find q = .ok (.file content) := by
  obtain ⟨habsolute, hmoves⟩ := Path.moves_eq_of_same hsame
  have hstart : w.start q = w.start p := by rw [start, start, habsolute]
  have htarget : w.target q = w.target p := by rw [target, target, hstart, hmoves]
  obtain ⟨hlocate, hentry⟩ := find_eq_ok_iff.mp hfind
  obtain ⟨hlocate', hentry'⟩ := find_eq_ok_iff.mp hfind'
  obtain ⟨⟨-, -, hleads⟩, -⟩ := locate_eq_ok_iff.mp hlocate
  obtain ⟨⟨hempty, husable, hleads'⟩, -⟩ := locate_eq_ok_iff.mp hlocate'
  rw [h.start] at hleads'
  rw [← hstart] at hleads
  rw [find_eq_ok_iff, htarget]
  refine ⟨locate_eq_ok_iff.mpr ⟨⟨hempty, husable, hleads.respell ?_ hleads' ?_⟩, htarget.symm⟩,
    hentry⟩
  · rw [Path.filter_steps, Path.filter_steps, hmoves]
  · rw [Path.walk_steps, ← target, ← h.target, hentry']
    simp

end Workspace

namespace Run

open Workspace

variable {options : Options} {config : Config} {generation : Generation} {w w' : Workspace}
  {files : List (Path × String)} {file : Path × String} {path : Path}

/-! ## The table -/

theorem holds_of_writeFiles_concat (h : exec (writeFiles (files ++ [file])) w = (.ok (), w')) :
    w'.Holds file.1 file.2 := by
  induction files generalizing w with
  | nil =>
      rw [List.nil_append, writeFiles, exec_bind_eq_ok_iff] at h
      obtain ⟨_, between, hfile, hrest⟩ := h
      cases hrest
      exact holds_of_writeFile hfile
  | cons first files ih =>
      rw [List.cons_append, writeFiles, exec_bind_eq_ok_iff] at h
      obtain ⟨_, between, -, hrest⟩ := h
      exact ih hrest

/-- A manifest with the components of the table would have been read, and refused. -/
theorem manifest_same_table (hgeneration : exec (prepare config) w = (.ok generation, w))
    (hwrite : exec (writeFiles generation.files) w = (.ok (), w')) :
    config.manifest.same config.table = false := by
  obtain ⟨⟨table, published, artifacts, htable, hpublished, -, -, rfl⟩, -⟩ :=
    prepare_eq_ok_iff.mp hgeneration
  obtain ⟨⟨text, hread, hparse⟩, -⟩ := loadFile_eq_ok_iff.mp htable
  obtain ⟨hmanifest, -⟩ := loadManifest_eq_ok_iff.mp hpublished
  have hextends := writeFiles_extends
    (Generation.files ⟨artifacts, Manifest.ofTable table, config.manifest⟩) w
  rw [hwrite] at hextends
  have hholds := holds_of_writeFiles_concat hwrite
  rw [← Bool.not_eq_true]
  intro hsame
  have hread' : w.readText config.manifest = .ok text :=
    readText_eq_ok_iff.mpr (find_of_same hextends hsame (readText_eq_ok_iff.mp hread)
      (readText_eq_ok_iff.mp hholds.reads))
  rw [if_pos (isPresent_of_readText hread')] at hmanifest
  obtain ⟨text', hread'', hparse'⟩ := hmanifest
  rw [hread'] at hread''
  cases hread''
  exact Manifest.ofText_ne_ok_of_table hparse published hparse'

/-- No path that is written has the components of the table. -/
theorem same_table_of_mem_writtenPaths (hgeneration : exec (prepare config) w = (.ok generation, w))
    (hwrite : exec (writeFiles generation.files) w = (.ok (), w'))
    (hpath : path ∈ writtenPaths config) : path.same config.table = false := by
  obtain ⟨-, hinputs, -⟩ := Config.validate_eq_ok_iff.mp (validate_of_prepare hgeneration)
  rcases List.mem_append.mp hpath with houtput | hmanifest
  · exact (hinputs path houtput).1
  · rw [List.mem_singleton.mp hmanifest]
    exact manifest_same_table hgeneration hwrite

/-- A file has the same text in both workspaces. -/
def Keeps (path : Path) (w w' : Workspace) : Prop :=
  ∃ text, w.readText path = .ok text ∧ w'.readText path = .ok text

/-- A run that writes keeps the table, if it writes there under no other name. -/
theorem keeps_table (hgeneration : exec (prepare config) w = (.ok generation, w))
    (hwrite : exec (writeFiles generation.files) w = (.ok (), w'))
    (hapart : ∀ path ∈ writtenPaths config,
      w.target path = w.target config.table → path.same config.table = true) :
    Keeps config.table w w' := by
  obtain ⟨⟨table, -, -, htable, -⟩, -⟩ := prepare_eq_ok_iff.mp hgeneration
  obtain ⟨⟨text, hread, -⟩, -⟩ := loadFile_eq_ok_iff.mp htable
  have hextends := writeFiles_extends generation.files w
  rw [hwrite, Extended, targets_files hgeneration] at hextends
  refine ⟨text, hread, hextends.readText hread fun htarget => ?_⟩
  obtain ⟨path, hpath, heq⟩ := List.mem_map.mp htarget
  have hsame := hapart path hpath heq
  rw [same_table_of_mem_writtenPaths hgeneration hwrite hpath] at hsame
  cases hsame

/-! ## Plain paths -/

/-- The files are named below the root directory, and no path goes up. -/
def Plain (given : Config) : Prop :=
  ∀ path ∈ given.table :: writtenPaths given, path.isAbsolute = false ∧ .up ∉ path.moves

/-- Plain paths that lead to the same location have the same components. -/
theorem same_of_plain {root p q : Path} (hroot : root.text ≠ "")
    (hp : p.isAbsolute = false ∧ .up ∉ p.moves) (hq : q.isAbsolute = false ∧ .up ∉ q.moves)
    (h : w.target (root.join p) = w.target (root.join q)) :
    (root.join p).same (root.join q) = true := by
  obtain ⟨names, hnames⟩ := Path.exists_names hp.2
  obtain ⟨names', hnames'⟩ := Path.exists_names hq.2
  rw [target_join w root hp.1, target_join w root hq.1, hnames, hnames', Path.walk_map_down,
    Path.walk_map_down, List.append_cancel_left_eq] at h
  exact Path.same_join hroot hp.1 hq.1 (by rw [hnames, hnames', h])

/-! ## Keeping what was read -/

/-- A run that writes keeps the configuration file in use, unless a path that it writes leads there,
and the table, unless a path with other components leads there. Where the paths are plain and the
root directory is named, the table is kept in any case. -/
theorem run_written_keeps_inputs {count : Nat}
    (hrun : exec (run { options with check := false }) w = (.ok (.written count), w')) :
    ∃ config, exec (loadConfig options) w = (.ok config, w) ∧
      (∀ path ∈ configIn options w,
        w.target path ∉ (writtenPaths config).map w.target → Keeps path w w') ∧
      ((∀ path ∈ writtenPaths config,
        w.target path = w.target config.table → path.same config.table = true) →
        Keeps config.table w w') ∧
      ∀ given, config = given.resolved options.root → options.root.text ≠ "" → Plain given →
        Keeps config.table w w' := by
  obtain ⟨config, generation, hconfig, hgeneration, hwrite, -⟩ := run_eq_written_iff.mp hrun
  refine ⟨config, hconfig, ?_, keeps_table hgeneration hwrite, ?_⟩
  · intro path hpath hnot
    obtain ⟨hload, -⟩ := loadConfig_eq_ok_iff.mp hconfig
    rw [Option.mem_def.mp hpath] at hload
    obtain ⟨given, hgiven, -⟩ := hload
    obtain ⟨⟨text, hread, -⟩, -⟩ := loadFile_eq_ok_iff.mp hgiven
    have hextends := writeFiles_extends generation.files w
    rw [hwrite, Extended, targets_files hgeneration] at hextends
    exact ⟨text, hread, hextends.readText hread hnot⟩
  · rintro given rfl hroot hplain
    obtain ⟨htable, hwritten⟩ := List.forall_mem_cons.mp hplain
    refine keeps_table hgeneration hwrite fun path hpath heq => ?_
    rw [writtenPaths_resolved] at hpath
    obtain ⟨p, hp, rfl⟩ := List.mem_map.mp hpath
    exact same_of_plain hroot (hwritten p hp) htable heq

/-- Everything is written elsewhere. -/
theorem run_written_keeps_inputs_jump :
    ∃ w', exec (run { jumpOptions with check := false }) jumpWorkspace = (.ok (.written 7), w') ∧
      Keeps ⟨"config"⟩ jumpWorkspace w' ∧ Keeps ⟨"/table"⟩ jumpWorkspace w' := by
  have hload := loadConfig_jump (w := jumpWorkspace) (by decide +kernel)
  have hwritten : (exec (run { jumpOptions with check := false }) jumpWorkspace).1 =
      .ok (.written 7) := by
    rw [exec_run_of_loadConfig hload]
    decide +kernel
  rcases hrun : exec (run { jumpOptions with check := false }) jumpWorkspace with ⟨result, w'⟩
  rw [hrun] at hwritten
  obtain rfl : result = .ok (.written 7) := hwritten
  obtain ⟨config, hconfig, hkept, htable, -⟩ := run_written_keeps_inputs hrun
  rw [hload] at hconfig
  cases hconfig
  exact ⟨w', rfl, hkept ⟨"config"⟩ (configIn_of_some rfl _) (by decide +kernel),
    htable (by decide +kernel)⟩

/-- A configuration whose first output is the configuration file, and whose manifest leads to the
table through a directory that is not there yet. -/
def shadowConfigText : String :=
  "[\"table\", \"x/../table\", [\"config\", \"a\", \"b\", \"l\", \"d\", \"r\", \"o\"]]"

/-- The configuration of the text. -/
def shadowConfig : Config :=
  { jumpConfig with
    manifest := ⟨"x/../table"⟩
    outputs := { jumpConfig.outputs with grammar := ⟨"config"⟩ } }

/-- The configuration and a table of one opcode. -/
def shadowWorkspace : Workspace :=
  jumpWorkspace.insert ["config"] (.file shadowConfigText.toUTF8)

/-- The configuration file and the table are overwritten. -/
theorem run_written_overwrites_inputs :
    exec (loadConfig jumpOptions) shadowWorkspace =
        (.ok (shadowConfig.resolved ⟨"/"⟩), shadowWorkspace) ∧
      configIn jumpOptions shadowWorkspace = some ⟨"config"⟩ ∧
      (shadowConfig.resolved ⟨"/"⟩).table = ⟨"/table"⟩ ∧
      ∃ w', exec (run { jumpOptions with check := false }) shadowWorkspace =
          (.ok (.written 7), w') ∧
        (∃ text, shadowWorkspace.readText ⟨"config"⟩ = .ok text ∧
          w'.readText ⟨"config"⟩ ≠ .ok text) ∧
        ∃ text, shadowWorkspace.readText ⟨"/table"⟩ = .ok text ∧
          w'.readText ⟨"/table"⟩ ≠ .ok text := by
  have hread : shadowWorkspace.readText ⟨"config"⟩ = .ok shadowConfigText := by decide +kernel
  have hparse : Config.load shadowConfigText = .ok shadowConfig := by decide +kernel
  have hload : exec (loadConfig jumpOptions) shadowWorkspace =
      (.ok (shadowConfig.resolved ⟨"/"⟩), shadowWorkspace) :=
    loadConfig_of_config rfl hread hparse
  have hwritten : (exec (run { jumpOptions with check := false }) shadowWorkspace).1 =
        .ok (.written 7) ∧
      (exec (run { jumpOptions with check := false }) shadowWorkspace).2.readText ⟨"config"⟩ ≠
        .ok shadowConfigText ∧
      (exec (run { jumpOptions with check := false }) shadowWorkspace).2.readText ⟨"/table"⟩ ≠
        shadowWorkspace.readText ⟨"/table"⟩ := by
    rw [exec_run_of_loadConfig hload]
    decide +kernel
  have htable : (shadowWorkspace.readText ⟨"/table"⟩).isOk = true := by decide +kernel
  refine ⟨hload, configIn_of_some rfl _, by decide +kernel, ?_⟩
  rcases hrun : exec (run { jumpOptions with check := false }) shadowWorkspace with ⟨result, w'⟩
  rw [hrun] at hwritten
  obtain ⟨hresult, hconfig', htable'⟩ := hwritten
  obtain rfl : result = .ok (.written 7) := hresult
  refine ⟨w', rfl, ⟨shadowConfigText, hread, hconfig'⟩, ?_⟩
  cases htext : shadowWorkspace.readText ⟨"/table"⟩ with
  | error fault =>
      rw [htext] at htable
      cases htable
  | ok text =>
      rw [htext] at htable'
      exact ⟨text, rfl, htable'⟩

end Run

end OpcodeForge
