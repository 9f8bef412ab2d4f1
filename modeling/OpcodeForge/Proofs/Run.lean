import OpcodeForge.Proofs.Acceptance
import OpcodeForge.Proofs.Workspace
import OpcodeForge.Run

/-!
# Runs on a workspace

What the parts of a run do on a workspace. Loading and comparing leave it as it is and succeed where
the files can be read and their texts are accepted; writing extends it by the written files.
-/

namespace OpcodeForge.Run

open Workspace

variable {α β : Type} {w w' : Workspace} {path : Path}

/-- A part of a run on workspaces. -/
abbrev Action (α : Type) := ExceptT RunError (StateM Workspace) α

/-- What an action gives on a workspace, and the workspace after it. -/
def exec (action : Action α) (w : Workspace) : Except RunError α × Workspace :=
  Id.run (StateT.run (ExceptT.run action) w)

@[simp]
theorem exec_pure (a : α) (w : Workspace) : exec (pure a) w = (.ok a, w) := rfl

@[simp]
theorem exec_throw (error : RunError) (w : Workspace) :
    exec (throw error : Action α) w = (.error error, w) := rfl

@[simp]
theorem exec_readText (path : Path) (w : Workspace) :
    exec (Storage.readText path) w = (.ok (w.readText path), w) := rfl

@[simp]
theorem exec_isPresent (path : Path) (w : Workspace) :
    exec (Storage.isPresent path) w = (.ok (w.isPresent path), w) := rfl

@[simp]
theorem exec_makeDirectories (path : Path) (w : Workspace) :
    exec (Storage.makeDirectories path) w =
      (.ok (w.makeDirectories path).1, (w.makeDirectories path).2) := rfl

@[simp]
theorem exec_writeText (path : Path) (text : String) (w : Workspace) :
    exec (Storage.writeText path text) w =
      (.ok (w.writeBytes path text.toUTF8).1, (w.writeBytes path text.toUTF8).2) := rfl

theorem exec_bind (action : Action α) (next : α → Action β) (w : Workspace) :
    exec (action >>= next) w =
      match exec action w with
      | (.ok a, w') => exec (next a) w'
      | (.error error, w') => (.error error, w') := by
  unfold exec
  cases h : Id.run (StateT.run (ExceptT.run action) w) with
  | mk result w' => cases result <;> simp_all [ExceptT.run_bind]

theorem exec_bind_eq_ok_iff {action : Action α} {next : α → Action β} {b : β} :
    exec (action >>= next) w = (.ok b, w') ↔
      ∃ a between, exec action w = (.ok a, between) ∧ exec (next a) between = (.ok b, w') := by
  rw [exec_bind]
  rcases exec action w with ⟨result, between⟩
  cases result <;> simp

/-! ## Loading -/

theorem loadFile_eq_ok_iff {parse : String → Except SpecError α} {a : α} :
    exec (loadFile path parse) w = (.ok a, w') ↔
      (∃ text, w.readText path = .ok text ∧ parse text = .ok a) ∧ w' = w := by
  rw [loadFile, exec_bind_eq_ok_iff]
  simp only [exec_readText, Prod.mk.injEq, Except.ok.injEq]
  cases hread : w.readText path with
  | error fault => simp
  | ok text =>
      cases hparse : parse text <;> simp [hparse, eq_comm]

/-- The configuration file that is used in a workspace, if there is one. -/
def configIn (options : Options) (w : Workspace) : Option Path :=
  (StateT.run (configPath? options : StateM Workspace (Option Path)) w).1

theorem configIn_of_some {options : Options} (h : options.config = some path) (w : Workspace) :
    configIn options w = some path := by
  unfold configIn configPath?
  rw [h]
  rfl

theorem configIn_of_none {options : Options} (h : options.config = none) (w : Workspace) :
    configIn options w =
      if w.isPresent (options.root.join configFile) then some (options.root.join configFile)
      else none := by
  unfold configIn configPath?
  rw [h]
  change (StateT.run (if w.isPresent (options.root.join configFile) = true then
    (pure (some (options.root.join configFile)) : StateM Workspace (Option Path))
    else pure none) w).1 = _
  split <;> rfl

theorem configIn_eq_some_iff {options : Options} :
    configIn options w = some path ↔
      options.config = some path ∨
        options.config = none ∧ path = options.root.join configFile ∧ w.isPresent path = true := by
  cases hconfig : options.config with
  | some given => simp [configIn_of_some hconfig]
  | none =>
      rw [configIn_of_none hconfig]
      split <;> grind

theorem configIn_eq_none_iff {options : Options} :
    configIn options w = none ↔
      options.config = none ∧ w.isPresent (options.root.join configFile) = false := by
  cases hconfig : options.config with
  | some given => simp [configIn_of_some hconfig]
  | none => simp [configIn_of_none hconfig]

theorem exec_configPath? (options : Options) (w : Workspace) :
    exec (configPath? options) w = (.ok (configIn options w), w) := by
  cases hconfig : options.config with
  | some path => rw [configIn_of_some hconfig, configPath?, hconfig, exec_pure]
  | none =>
      simp only [configPath?, hconfig, exec_bind, exec_isPresent]
      rw [configIn_of_none hconfig]
      split <;> rfl

/-- A configuration is loaded from the file in use, and without one it has its defaults. -/
theorem loadConfig_eq_ok_iff {options : Options} {config : Config} :
    exec (loadConfig options) w = (.ok config, w') ↔
      (match configIn options w with
        | some path => ∃ given, exec (loadFile path Config.load) w = (.ok given, w) ∧
            config = given.resolved options.root
        | none => config = Config.resolved {} options.root) ∧ w' = w := by
  rw [loadConfig, exec_bind, exec_configPath?]
  cases configIn options w with
  | none => simp [eq_comm]
  | some path =>
      simp only [exec_bind_eq_ok_iff, exec_pure, Prod.mk.injEq, Except.ok.injEq, loadFile_eq_ok_iff]
      grind

/-- An explicit configuration file is read and seen from the root directory. -/
theorem loadConfig_of_config {options : Options} {text : String} {given : Config}
    (hpath : options.config = some path) (hread : w.readText path = .ok text)
    (hload : Config.load text = .ok given) :
    exec (loadConfig options) w = (.ok (given.resolved options.root), w) := by
  rw [loadConfig_eq_ok_iff, configIn_of_some hpath]
  exact ⟨⟨given, loadFile_eq_ok_iff.mpr ⟨⟨text, hread, hload⟩, rfl⟩, rfl⟩, rfl⟩

theorem loadManifest_eq_ok_iff {manifest : Manifest} :
    exec (loadManifest path) w = (.ok manifest, w') ↔
      (if w.isPresent path = true then
        ∃ text, w.readText path = .ok text ∧ Manifest.ofText text = .ok manifest
      else manifest = {}) ∧ w' = w := by
  rw [loadManifest, exec_bind, exec_isPresent]
  cases w.isPresent path with
  | false => simp [eq_comm]
  | true => simp [loadFile_eq_ok_iff]

theorem prepare_eq_ok_iff {config : Config} {generation : Generation} :
    exec (prepare config) w = (.ok generation, w') ↔
      (∃ table published artifacts,
        exec (loadFile config.table Table.ofText) w = (.ok table, w) ∧
        exec (loadManifest config.manifest) w = (.ok published, w) ∧
        published.check table = .ok () ∧ Artifact.generateAll table config = .ok artifacts ∧
        generation = ⟨artifacts, Manifest.ofTable table, config.manifest⟩) ∧ w' = w := by
  simp only [prepare, exec_bind_eq_ok_iff]
  constructor
  · rintro ⟨table, between, htable, published, between', hpublished, hrest⟩
    obtain rfl := (loadFile_eq_ok_iff.mp htable).2
    obtain rfl := (loadManifest_eq_ok_iff.mp hpublished).2
    cases hcheck : published.check table with
    | error cause => simp [hcheck] at hrest
    | ok _ =>
        cases hartifacts : Artifact.generateAll table config with
        | error cause => simp [hcheck, hartifacts] at hrest
        | ok artifacts =>
            simp only [hcheck, hartifacts, exec_pure, Prod.mk.injEq, Except.ok.injEq] at hrest
            exact ⟨⟨table, published, artifacts, htable, hpublished, hcheck, hartifacts,
              hrest.1.symm⟩, hrest.2.symm⟩
  · rintro ⟨⟨table, published, artifacts, htable, hpublished, hcheck, hartifacts, rfl⟩, rfl⟩
    refine ⟨table, _, htable, published, _, hpublished, ?_⟩
    simp [hcheck, hartifacts]

/-! ## Writing -/

theorem exec_writeFile_of_makeParent {text : String} {made : Workspace}
    (h : w.makeParent path = (true, made)) :
    exec (writeFile path text) w =
      match made.writeBytes path text.toUTF8 with
      | (true, w') => (.ok (), w')
      | (false, w') => (.error (.write path), w') := by
  unfold writeFile Workspace.makeParent at *
  cases hparent : path.parent? with
  | none =>
      simp only [hparent, Prod.mk.injEq, true_and] at h
      subst h
      simp only [exec_bind, exec_writeText]
      rcases w.writeBytes path text.toUTF8 with ⟨_ | _, w'⟩ <;> rfl
  | some parent =>
      simp only [hparent] at h
      simp only [exec_bind, exec_makeDirectories, h, if_true, exec_writeText]
      rcases made.writeBytes path text.toUTF8 with ⟨_ | _, w'⟩ <;> rfl

theorem exec_writeFile_of_not_makeParent {made : Workspace}
    (h : w.makeParent path = (false, made)) (text : String) :
    ∃ parent, path.parent? = some parent ∧
      exec (writeFile path text) w = (.error (.create parent), made) := by
  unfold writeFile Workspace.makeParent at *
  cases hparent : path.parent? with
  | none => simp [hparent] at h
  | some parent =>
      simp only [hparent] at h
      refine ⟨parent, rfl, ?_⟩
      simp [exec_bind, h]

theorem writeFile_extends (path : Path) (text : String) (w : Workspace) :
    Extends {w.target path} (w.passed path) w (exec (writeFile path text) w).2 := by
  have hparent := makeParent_extends w path
  rcases hmade : w.makeParent path with ⟨_ | _, made⟩
  · obtain ⟨parent, -, hexec⟩ := exec_writeFile_of_not_makeParent hmade text
    rw [hmade] at hparent
    rw [hexec]
    exact hparent.mono (Set.empty_subset _) subset_rfl
  · rw [hmade] at hparent
    have hwrite := writeBytes_extends made path text.toUTF8
    rw [hparent.target, hparent.passed] at hwrite
    rw [exec_writeFile_of_makeParent hmade]
    generalize made.writeBytes path text.toUTF8 = result at hwrite ⊢
    have hboth := (hparent.mono (Set.empty_subset _) subset_rfl).trans hwrite
    rcases result with ⟨_ | _, w'⟩ <;> exact hboth

theorem holds_of_writeFile {text : String} (h : exec (writeFile path text) w = (.ok (), w')) :
    w'.Holds path text := by
  rcases hmade : w.makeParent path with ⟨_ | _, made⟩
  · obtain ⟨parent, -, hexec⟩ := exec_writeFile_of_not_makeParent hmade text
    rw [hexec] at h
    cases h
  · rw [exec_writeFile_of_makeParent hmade] at h
    rcases hwrite : made.writeBytes path text.toUTF8 with ⟨_ | _, written⟩
    · rw [hwrite] at h
      cases h
    · rw [hwrite] at h
      cases h
      have hextends := writeBytes_extends made path text.toUTF8
      rw [hwrite] at hextends
      exact {
        above := fun parent hparent => hextends.made (hasParent_of_makeParent hmade parent hparent)
        reads := readText_eq_ok_iff.mpr (find_of_writeBytes hwrite) }

theorem writeFile_of_holds {text : String} (h : w.Holds path text) :
    ∃ w', exec (writeFile path text) w = (.ok (), w') ∧ Extends ∅ ∅ w w' := by
  obtain ⟨w', hwrite, hsame⟩ := writeBytes_of_find (readText_eq_ok_iff.mp h.reads)
  refine ⟨w', ?_, hsame⟩
  rw [exec_writeFile_of_makeParent (makeParent_of_hasParent h.above), hwrite]

variable {files : List (Path × String)}

/-- The locations of files. -/
def targets (w : Workspace) (files : List (Path × String)) : List Location :=
  files.map fun file => w.target file.1

/-- The locations on the way of files. -/
def ways (w : Workspace) (files : List (Path × String)) : Set Location :=
  {location | ∃ file ∈ files, location ∈ w.passed file.1}

/-- A workspace comes from another one by writing some of the files. -/
abbrev Extended (files : List (Path × String)) (w w' : Workspace) : Prop :=
  Extends {location | location ∈ targets w files} (ways w files) w w'

theorem targets_of_extends {written made : Set Location} (h : Extends written made w w')
    (files : List (Path × String)) : targets w' files = targets w files := by
  simp only [targets, h.target]

theorem ways_of_extends {written made : Set Location} (h : Extends written made w w')
    (files : List (Path × String)) : ways w' files = ways w files := by
  simp only [ways, h.passed]

theorem writeFiles_extends (files : List (Path × String)) (w : Workspace) :
    Extended files w (exec (writeFiles files) w).2 := by
  induction files generalizing w with
  | nil => exact .refl w
  | cons file files ih =>
      obtain ⟨path, text⟩ := file
      have hfile : Extended ((path, text) :: files) w (exec (writeFile path text) w).2 := by
        refine (writeFile_extends path text w).mono ?_ fun location hlocation => ?_
        · rintro location rfl
          exact List.mem_cons_self
        · exact ⟨_, List.mem_cons_self, hlocation⟩
      rw [writeFiles, exec_bind]
      rcases hexec : exec (writeFile path text) w with ⟨_ | _, between⟩
      · rw [hexec] at hfile
        exact hfile
      · rw [hexec] at hfile
        have hrest := ih between
        rw [Extended, targets_of_extends hfile, ways_of_extends hfile] at hrest
        refine hfile.trans (hrest.mono (fun _ => List.mem_cons_of_mem _) ?_)
        rintro location ⟨file, hfiles, hpassed⟩
        exact ⟨file, List.mem_cons_of_mem _ hfiles, hpassed⟩

/-- Files that are written to different locations hold what was written. -/
theorem holds_of_writeFiles (hnodup : (targets w files).Nodup)
    (h : exec (writeFiles files) w = (.ok (), w')) : ∀ file ∈ files, w'.Holds file.1 file.2 := by
  induction files generalizing w with
  | nil => simp
  | cons file files ih =>
      obtain ⟨path, text⟩ := file
      rw [writeFiles, exec_bind_eq_ok_iff] at h
      obtain ⟨_, between, hfile, hrest⟩ := h
      have hextends := writeFile_extends path text w
      have hextends' := writeFiles_extends files between
      rw [hfile] at hextends
      rw [hrest] at hextends'
      have htargets := targets_of_extends hextends files
      rw [targets, List.map_cons, List.nodup_cons] at hnodup
      rw [List.forall_mem_cons]
      -- The first file is kept because the later ones are written elsewhere.
      refine ⟨hextends'.holds (holds_of_writeFile hfile) ?_, ih (htargets ▸ hnodup.2) hrest⟩
      rw [hextends.target, htargets]
      exact hnodup.1

/-- Writing files that hold what is written changes nothing. -/
theorem writeFiles_of_holds (h : ∀ file ∈ files, w.Holds file.1 file.2) :
    ∃ w', exec (writeFiles files) w = (.ok (), w') ∧ Extends ∅ ∅ w w' := by
  induction files generalizing w with
  | nil => exact ⟨w, rfl, .refl w⟩
  | cons file files ih =>
      obtain ⟨path, text⟩ := file
      obtain ⟨hfile, hfiles⟩ := List.forall_mem_cons.mp h
      obtain ⟨between, hwrite, hsame⟩ := writeFile_of_holds hfile
      obtain ⟨w', hrest, hsame'⟩ := ih fun file hmem =>
        hsame.holds (hfiles file hmem) (Set.notMem_empty _)
      refine ⟨w', ?_, hsame.trans hsame'⟩
      rw [writeFiles, exec_bind, hwrite]
      exact hrest

/-! ## Comparing -/

theorem staleFiles_of_holds (h : ∀ file ∈ files, w.Holds file.1 file.2) :
    exec (staleFiles files) w = (.ok [], w) := by
  induction files with
  | nil => rfl
  | cons file files ih =>
      obtain ⟨path, text⟩ := file
      obtain ⟨hfile, hfiles⟩ := List.forall_mem_cons.mp h
      have hfresh : exec (isStale path text) w = (.ok false, w) := by
        simp [isStale, exec_bind, hfile.reads]
      simp [staleFiles, exec_bind, hfresh, ih hfiles]

/-! ## Runs -/

/-- A run that writes loads, makes and writes everything. -/
theorem run_eq_written_iff {options : Options} {artifacts : Nat} :
    exec (run { options with check := false }) w = (.ok (.written artifacts), w') ↔
      ∃ config generation, exec (loadConfig options) w = (.ok config, w) ∧
        exec (prepare config) w = (.ok generation, w) ∧
        exec (writeFiles generation.files) w = (.ok (), w') ∧
        artifacts = generation.artifacts.length := by
  have hload : loadConfig { options with check := false } = (loadConfig options : Action Config) :=
    rfl
  simp only [run, hload, exec_bind_eq_ok_iff]
  constructor
  · rintro ⟨config, between, hconfig, generation, between', hgeneration, hrest⟩
    obtain rfl := (loadConfig_eq_ok_iff.mp hconfig).2
    obtain rfl := (prepare_eq_ok_iff.mp hgeneration).2
    simp only [Bool.false_eq_true, if_false, exec_bind_eq_ok_iff] at hrest
    obtain ⟨_, after, hwrite, hresult⟩ := hrest
    cases hresult
    exact ⟨config, generation, hconfig, hgeneration, hwrite, rfl⟩
  · rintro ⟨config, generation, hconfig, hgeneration, hwrite, rfl⟩
    refine ⟨config, w, hconfig, generation, w, hgeneration, ?_⟩
    simp only [Bool.false_eq_true, if_false, exec_bind, hwrite, exec_pure]

theorem exec_run_of_loadConfig {options : Options} {config : Config}
    (h : exec (loadConfig options) w = (.ok config, w)) :
    exec (run { options with check := false }) w =
      exec (do
        let generation ← prepare config
        writeFiles generation.files
        pure (.written generation.artifacts.length)) w := by
  have hload : loadConfig { options with check := false } = (loadConfig options : Action Config) :=
    rfl
  rw [run, hload, exec_bind, h]
  rfl

/-- A run that compares says what is out of date. -/
theorem run_of_staleFiles {options : Options} {config : Config} {generation : Generation}
    {stale : List Path} (hconfig : exec (loadConfig options) w = (.ok config, w))
    (hgeneration : exec (prepare config) w = (.ok generation, w))
    (hstale : exec (staleFiles generation.files) w = (.ok stale, w)) :
    exec (run { options with check := true }) w =
      (.ok (if stale.isEmpty then .upToDate else .stale stale), w) := by
  have hload : loadConfig { options with check := true } = (loadConfig options : Action Config) :=
    rfl
  simp only [run, hload, exec_bind, hconfig, hgeneration, hstale, if_true, exec_pure]

/-! ## The files of a run -/

/-- The paths that a run only reads: the configuration file in use and the table. -/
def inputPaths (options : Options) (config : Config) (w : Workspace) : List Path :=
  (configIn options w).toList ++ [config.table]

/-- The paths that a run writes, in order: the outputs and the manifest. -/
def writtenPaths (config : Config) : List Path := config.outputs.toList ++ [config.manifest]

theorem writtenPaths_resolved (config : Config) (root : Path) :
    writtenPaths (config.resolved root) = (writtenPaths config).map root.join := by
  rw [writtenPaths, writtenPaths, List.map_append]
  rfl

variable {config : Config} {generation : Generation}

theorem validate_of_prepare (h : exec (prepare config) w = (.ok generation, w)) :
    config.validate = .ok () := by
  obtain ⟨⟨_, _, _, -, -, -, hartifacts, -⟩, -⟩ := prepare_eq_ok_iff.mp h
  exact (Artifact.generateAll_eq_ok_iff.mp hartifacts).1

theorem map_fst_files (h : exec (prepare config) w = (.ok generation, w)) :
    generation.files.map Prod.fst = writtenPaths config := by
  obtain ⟨⟨table, published, artifacts, -, -, -, hartifacts, rfl⟩, -⟩ := prepare_eq_ok_iff.mp h
  have hpaths : artifacts.map Artifact.path = config.outputs.toList := by
    have hmade := (Artifact.generateAll_eq_ok_iff.mp hartifacts).2
    rw [Outputs.toList, ← List.forall₂_eq_eq_eq, List.forall₂_map_left_iff,
      List.forall₂_map_right_iff]
    exact hmade.flip.imp fun a kind hmake => (Artifact.make_eq_ok_iff.mp hmake).2.1
  simp [Generation.files, writtenPaths, ← hpaths]

theorem targets_files (h : exec (prepare config) w = (.ok generation, w)) :
    targets w generation.files = (writtenPaths config).map w.target := by
  rw [← map_fst_files h, List.map_map]
  rfl

/-! ## A small workspace -/

/-- A configuration that leads to the manifest through a directory that is not there yet. -/
def jumpConfigText : String :=
  "[\"table\", \"x/../lock\", [\"g\", \"a\", \"b\", \"l\", \"d\", \"r\", \"o\"]]"

/-- The configuration of the text. -/
def jumpConfig : Config where
  table := ⟨"table"⟩
  manifest := ⟨"x/../lock"⟩
  outputs := {
    grammar := ⟨"g"⟩, astEnum := ⟨"a"⟩, astDispatch := ⟨"b"⟩, lowering := ⟨"l"⟩
    instructionDef := ⟨"d"⟩, runtimeDecoder := ⟨"r"⟩, opcodes := ⟨"o"⟩ }

/-- The configuration and a table of one opcode. -/
def jumpWorkspace : Workspace where
  entries := [
    (["table"], .file
      "[[\"Jump\", null, null, null, false, false, [\"u16\"], [\"arg0\"], null, null]]".toUTF8),
    (["config"], .file jumpConfigText.toUTF8)]

/-- A run in the root with a configuration file of its own. -/
def jumpOptions : Options := { root := ⟨"/"⟩, config := some ⟨"config"⟩ }

theorem loadConfig_jump (h : w.readText ⟨"config"⟩ = .ok jumpConfigText) :
    exec (loadConfig jumpOptions) w = (.ok (jumpConfig.resolved ⟨"/"⟩), w) := by
  have hparse : Config.load jumpConfigText = .ok jumpConfig := by decide +kernel
  exact loadConfig_of_config rfl h hparse

end OpcodeForge.Run
