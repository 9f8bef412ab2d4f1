import OpcodeForge.Proofs.Config
import OpcodeForge.Proofs.Run

/-!
# Runs that fail

A run that compares or that fails before it writes leaves the workspace as it is. A run that cannot
write one of its files has written those before it and no other, and as the manifest is the last,
what was published stays.
-/

namespace OpcodeForge

namespace Workspace

open OpcodeForge.Path (Step)

variable {w w' w'' : Workspace} {p : Path} {location : Location}

/-! ## Files -/

/-- The content of the file at a location, if there is one. -/
def file? (w : Workspace) (location : Location) : Option ByteArray :=
  match w.entry? location with
  | some (.file content) => some content
  | _ => none

theorem file?_insert_of_ne {other : Location} (hne : location ≠ []) (entry : Entry)
    (hother : other ≠ location) : (w.insert location entry).file? other = w.file? other := by
  rw [file?, file?, entry?_insert hne, if_neg hother]

theorem file?_insert_directory (hnone : w.entry? location = none) (other : Location) :
    (w.insert location .directory).file? other = w.file? other := by
  have hne : location ≠ [] := by
    rintro rfl
    cases hnone
  by_cases hother : other = location
  · rw [file?, file?, entry?_insert hne, if_pos hother, hother, hnone]
  · exact file?_insert_of_ne hne _ hother

/-- A workspace has the files of another one, but at the locations that were written. -/
def Spares (written : Set Location) (w w' : Workspace) : Prop :=
  ∀ location, location ∉ written → w'.file? location = w.file? location

namespace Spares

variable {written written' : Set Location}

theorem refl (w : Workspace) : Spares written w w := fun _ _ => rfl

theorem trans (h : Spares written w w') (h' : Spares written w' w'') : Spares written w w'' :=
  fun location hlocation => (h' location hlocation).trans (h location hlocation)

theorem mono (h : Spares written w w') (hwritten : written ⊆ written') : Spares written' w w' :=
  fun location hlocation => h location fun hmem => hlocation (hwritten hmem)

end Spares

theorem makeSteps_spares (w : Workspace) (location : Location) (steps : List Step) :
    Spares ∅ w (w.makeSteps location steps).2 := by
  induction steps generalizing w location with
  | nil => exact .refl w
  | cons step steps ih =>
      simp only [makeSteps]
      split
      · exact .refl w
      · split
        · exact ih w _
        · exact .refl w
        · rename_i hnone
          exact Spares.trans (fun other _ => file?_insert_directory hnone other) (ih _ _)

theorem makeParent_spares (w : Workspace) (p : Path) : Spares ∅ w (w.makeParent p).2 := by
  rw [makeParent]
  split
  · rw [makeDirectories]
    split
    · exact .refl w
    · split
      · exact .refl w
      · exact makeSteps_spares w _ _
  · exact .refl w

theorem writeBytes_spares (w : Workspace) (p : Path) (content : ByteArray) :
    Spares {w.target p} w (w.writeBytes p content).2 := by
  rw [writeBytes]
  split
  · exact .refl w
  · rename_i hlocate
    obtain ⟨-, rfl⟩ := locate_eq_ok_iff.mp hlocate
    split
    · exact .refl w
    · rename_i hentry
      exact fun other hother => file?_insert_of_ne (ne_nil_of_not_directory hentry) _ hother

theorem eq_of_not_writeBytes {content : ByteArray} (h : w.writeBytes p content = (false, w')) :
    w' = w := by
  rw [writeBytes] at h
  split at h
  · cases h
    rfl
  · split at h <;> cases h
    rfl

end Workspace

/-- Whether an error is about writing a file. -/
def RunError.isWriting : RunError → Bool
  | .create _ => true
  | .write _ => true
  | _ => false

namespace Run

open Workspace

variable {α β : Type} {options : Options} {config : Config} {generation : Generation}
  {w w' : Workspace} {path : Path} {text : String} {files : List (Path × String)}
  {error : RunError}

/-! ## Reading -/

/-- An action changes nothing, and if it fails, then not in writing. -/
def ReadOnly (action : Action α) : Prop :=
  ∀ w, (exec action w).2 = w ∧
    ∀ error, (exec action w).1 = .error error → error.isWriting = false

theorem readOnly_pure (a : α) : ReadOnly (pure a) := fun w => ⟨rfl, by simp⟩

theorem readOnly_throw (h : error.isWriting = false) : ReadOnly (throw error : Action α) :=
  fun w => ⟨rfl, by simp [h]⟩

theorem readOnly_readText (path : Path) : ReadOnly (Storage.readText path) :=
  fun w => ⟨rfl, by simp⟩

theorem readOnly_isPresent (path : Path) : ReadOnly (Storage.isPresent path) :=
  fun w => ⟨rfl, by simp⟩

theorem ReadOnly.bind {action : Action α} {next : α → Action β} (h : ReadOnly action)
    (hnext : ∀ a, ReadOnly (next a)) : ReadOnly (action >>= next) := by
  intro w
  obtain ⟨hsame, herror⟩ := h w
  rw [exec_bind]
  rcases hexec : exec action w with ⟨error | a, between⟩ <;> rw [hexec] at hsame herror
  · exact ⟨hsame, fun error' herror' => herror error' (by simpa using herror')⟩
  · obtain rfl : between = w := hsame
    exact hnext a between

theorem ReadOnly.eq_of_exec {action : Action α} {result : Except RunError α} (h : ReadOnly action)
    (hexec : exec action w = (result, w')) : w' = w := by
  have hsame := (h w).1
  rwa [hexec] at hsame

theorem readOnly_loadFile (path : Path) (parse : String → Except SpecError α) :
    ReadOnly (loadFile path parse) := by
  refine (readOnly_readText path).bind fun content => ?_
  cases content with
  | error fault => exact readOnly_throw rfl
  | ok text =>
      dsimp only
      cases parse text with
      | ok a => exact readOnly_pure a
      | error cause => exact readOnly_throw rfl

theorem readOnly_configPath? (options : Options) : ReadOnly (configPath? options) := by
  intro w
  rw [exec_configPath?]
  exact ⟨rfl, by simp⟩

theorem readOnly_loadConfig (options : Options) : ReadOnly (loadConfig options) := by
  refine (readOnly_configPath? options).bind fun path? => ?_
  cases path? with
  | none => exact readOnly_pure _
  | some path => exact (readOnly_loadFile path _).bind fun config => readOnly_pure _

theorem readOnly_loadManifest (path : Path) : ReadOnly (loadManifest path) := by
  refine (readOnly_isPresent path).bind fun present => ?_
  cases present with
  | false => exact readOnly_pure _
  | true => exact readOnly_loadFile path _

theorem readOnly_prepare (config : Config) : ReadOnly (prepare config) := by
  refine (readOnly_loadFile config.table _).bind fun table => ?_
  refine (readOnly_loadManifest config.manifest).bind fun published => ?_
  dsimp only
  cases Artifact.generateAll table config with
  | error cause =>
      cases published.check table with
      | error _ => exact (readOnly_throw rfl).bind fun _ => readOnly_throw rfl
      | ok _ => exact readOnly_throw rfl
  | ok artifacts =>
      cases published.check table with
      | error _ => exact (readOnly_throw rfl).bind fun _ => readOnly_pure _
      | ok _ => exact readOnly_pure _

theorem readOnly_isStale (path : Path) (text : String) : ReadOnly (isStale path text) := by
  refine (readOnly_readText path).bind fun content => ?_
  cases content with
  | ok current => exact readOnly_pure _
  | error fault =>
      cases fault with
      | missing => exact readOnly_pure _
      | obstructed => exact readOnly_throw rfl

theorem readOnly_staleFiles (files : List (Path × String)) : ReadOnly (staleFiles files) := by
  induction files with
  | nil => exact readOnly_pure _
  | cons file files ih =>
      exact (readOnly_isStale file.1 file.2).bind fun stale => ih.bind fun rest => readOnly_pure _

theorem readOnly_run_check (options : Options) :
    ReadOnly (run { options with check := true }) := by
  refine (readOnly_loadConfig _).bind fun config => ?_
  refine (readOnly_prepare config).bind fun generation => ?_
  exact (readOnly_staleFiles generation.files).bind fun stale => readOnly_pure _

/-! ## Failing in the middle -/

theorem exec_bind_eq_error_iff {action : Action α} {next : α → Action β} :
    exec (action >>= next) w = (.error error, w') ↔
      exec action w = (.error error, w') ∨
        ∃ a between, exec action w = (.ok a, between) ∧
          exec (next a) between = (.error error, w') := by
  rw [exec_bind]
  rcases exec action w with ⟨_ | a, between⟩ <;> simp

/-- The error says that the file of a path could not be written, or the directory above it not be
made. -/
def NotWritten (path : Path) (error : RunError) : Prop :=
  error = .write path ∨ ∃ parent, path.parent? = some parent ∧ error = .create parent

theorem NotWritten.isWriting (h : NotWritten path error) : error.isWriting = true := by
  obtain rfl | ⟨parent, -, rfl⟩ := h <;> rfl

theorem writeFile_spares (path : Path) (text : String) (w : Workspace) :
    Spares {w.target path} w (exec (writeFile path text) w).2 := by
  have hparent := makeParent_spares w path
  have hextends := makeParent_extends w path
  rcases hmade : w.makeParent path with ⟨_ | _, made⟩
  · obtain ⟨parent, -, hexec⟩ := exec_writeFile_of_not_makeParent hmade text
    rw [hmade] at hparent
    rw [hexec]
    exact hparent.mono (Set.empty_subset _)
  · rw [hmade] at hparent hextends
    have hwrite := writeBytes_spares made path text.toUTF8
    rw [hextends.target] at hwrite
    rw [exec_writeFile_of_makeParent hmade]
    generalize made.writeBytes path text.toUTF8 = result at hwrite ⊢
    have hboth := (hparent.mono (Set.empty_subset _)).trans hwrite
    rcases result with ⟨_ | _, w'⟩ <;> exact hboth

/-- A file that cannot be written is left alone. -/
theorem of_writeFile_error (h : exec (writeFile path text) w = (.error error, w')) :
    NotWritten path error ∧ Spares ∅ w w' := by
  have hparent := makeParent_spares w path
  rcases hmade : w.makeParent path with ⟨_ | _, made⟩
  · obtain ⟨parent, hsome, hexec⟩ := exec_writeFile_of_not_makeParent hmade text
    rw [hexec] at h
    rw [hmade] at hparent
    cases h
    exact ⟨.inr ⟨parent, hsome, rfl⟩, hparent⟩
  · rw [exec_writeFile_of_makeParent hmade] at h
    rw [hmade] at hparent
    rcases hwrite : made.writeBytes path text.toUTF8 with ⟨_ | _, after⟩
    · rw [hwrite] at h
      cases h
      obtain rfl := eq_of_not_writeBytes hwrite
      exact ⟨.inl rfl, hparent⟩
    · rw [hwrite] at h
      cases h

theorem writeFiles_spares (h : exec (writeFiles files) w = (.ok (), w')) :
    Spares {location | location ∈ targets w files} w w' := by
  induction files generalizing w with
  | nil =>
      cases h
      exact .refl _
  | cons file files ih =>
      obtain ⟨path, text⟩ := file
      rw [writeFiles, exec_bind_eq_ok_iff] at h
      obtain ⟨_, between, hfile, hrest⟩ := h
      have hspares := writeFile_spares path text w
      have hextends := writeFile_extends path text w
      rw [hfile] at hspares hextends
      have hspares' := ih hrest
      rw [targets_of_extends hextends] at hspares'
      refine (hspares.mono ?_).trans (hspares'.mono fun _ => List.mem_cons_of_mem _)
      rintro location rfl
      exact List.mem_cons_self

theorem exists_of_writeFiles_error (h : exec (writeFiles files) w = (.error error, w')) :
    ∃ before file after between, files = before ++ file :: after ∧
      exec (writeFiles before) w = (.ok (), between) ∧
      exec (writeFile file.1 file.2) between = (.error error, w') := by
  induction files generalizing w with
  | nil => cases h
  | cons file files ih =>
      rw [writeFiles, exec_bind_eq_error_iff] at h
      obtain hfile | ⟨_, between, hfile, hrest⟩ := h
      · exact ⟨[], file, files, w, rfl, rfl, hfile⟩
      · obtain ⟨before, failed, after, between', rfl, hbefore, hfailed⟩ := ih hrest
        refine ⟨file :: before, failed, after, between', rfl, ?_, hfailed⟩
        rw [writeFiles, exec_bind, hfile]
        exact hbefore

/-- Where the writing of files stops, those before are written and no others are. -/
theorem of_writeFiles_error (h : exec (writeFiles files) w = (.error error, w')) :
    ∃ before file after, files = before ++ file :: after ∧ NotWritten file.1 error ∧
      Spares {location | location ∈ targets w before} w w' ∧
      ((targets w files).Nodup → ∀ earlier ∈ before, w'.readText earlier.1 = .ok earlier.2) := by
  obtain ⟨before, file, after, between, rfl, hbefore, hfailed⟩ := exists_of_writeFiles_error h
  obtain ⟨hnamed, hspares'⟩ := of_writeFile_error hfailed
  have hspares := writeFiles_spares hbefore
  refine ⟨before, file, after, rfl, hnamed,
    hspares.trans (hspares'.mono (Set.empty_subset _)), fun hnodup earlier hearlier => ?_⟩
  have hextends := writeFiles_extends before w
  have hextends' := writeFile_extends file.1 file.2 between
  rw [hbefore] at hextends
  rw [hfailed] at hextends'
  rw [targets, List.map_append, List.map_cons] at hnodup
  have hholds := holds_of_writeFiles hnodup.of_append_left hbefore earlier hearlier
  -- The file that failed is another one.
  refine hextends'.readText hholds.reads ?_
  rw [hextends.target, hextends.target, Set.mem_singleton_iff]
  exact fun heq => List.disjoint_of_nodup_append hnodup
    (List.mem_map_of_mem hearlier) (heq ▸ List.mem_cons_self)

/-- A run fails while it reads and changes nothing, or in writing. -/
theorem run_eq_error_cases
    (h : exec (run { options with check := false }) w = (.error error, w')) :
    error.isWriting = false ∧ w' = w ∨
      ∃ config generation, exec (loadConfig options) w = (.ok config, w) ∧
        exec (prepare config) w = (.ok generation, w) ∧
        exec (writeFiles generation.files) w = (.error error, w') := by
  have hload : loadConfig { options with check := false } = (loadConfig options : Action Config) :=
    rfl
  simp only [run, hload, exec_bind_eq_error_iff, Bool.false_eq_true, if_false] at h
  obtain hconfig | ⟨config, between, hconfig, hrest⟩ := h
  · have hread := readOnly_loadConfig options
    exact .inl ⟨(hread w).2 error (by rw [hconfig]), hread.eq_of_exec hconfig⟩
  obtain rfl := (readOnly_loadConfig options).eq_of_exec hconfig
  obtain hgeneration | ⟨generation, between', hgeneration, hwrite⟩ := hrest
  · have hread := readOnly_prepare config
    exact .inl ⟨(hread between).2 error (by rw [hgeneration]), hread.eq_of_exec hgeneration⟩
  obtain rfl := (readOnly_prepare config).eq_of_exec hgeneration
  obtain hwrite | ⟨_, _, _, hresult⟩ := hwrite
  · exact .inr ⟨config, generation, hconfig, hgeneration, hwrite⟩
  · simp at hresult

/-! ## The manifest last -/

/-- Paths that a run writes and that have different components lead to different locations. -/
def NamesApart (config : Config) (w : Workspace) : Prop :=
  ∀ p ∈ writtenPaths config, ∀ q ∈ writtenPaths config, w.target p = w.target q → p.same q = true

theorem NamesApart.nodup_targets (hapart : NamesApart config w)
    (h : exec (prepare config) w = (.ok generation, w)) : (targets w generation.files).Nodup := by
  obtain ⟨hpairwise, hinputs, -⟩ := Config.validate_eq_ok_iff.mp (validate_of_prepare h)
  have hdiffer : (writtenPaths config).Pairwise fun p q => p.same q = false := by
    rw [writtenPaths, List.pairwise_append]
    refine ⟨hpairwise, List.pairwise_singleton _ _, fun output houtput path hpath => ?_⟩
    rw [List.mem_singleton.mp hpath]
    exact (hinputs output houtput).2
  rw [targets_files h, List.Nodup, List.pairwise_map]
  refine hdiffer.imp_of_mem fun {p q} hp hq hsame htarget => ?_
  rw [hapart p hp q hq htarget] at hsame
  cases hsame

/-- A comparison changes nothing, nor does a run that fails before it writes. A run that fails in
writing has written the files before the one it fails at, and all other files stay as they are, the
manifest among them. -/
theorem run_failed_intact (options : Options) (w : Workspace) :
    (exec (run { options with check := true }) w).2 = w ∧
    ∀ error w', exec (run { options with check := false }) w = (.error error, w') →
      (error.isWriting = false → w' = w) ∧
      (error.isWriting = true → ∃ config generation before file after,
        exec (loadConfig options) w = (.ok config, w) ∧
        exec (prepare config) w = (.ok generation, w) ∧
        generation.files = before ++ file :: after ∧
        generation.files.map Prod.fst = config.outputs.toList ++ [config.manifest] ∧
        NotWritten file.1 error ∧
        (∀ location, location ∉ targets w before → w'.file? location = w.file? location) ∧
        (NamesApart config w →
          (∀ earlier ∈ before, w'.readText earlier.1 = .ok earlier.2) ∧
          (∀ later ∈ file :: after, w'.file? (w.target later.1) = w.file? (w.target later.1)) ∧
          w'.file? (w.target config.manifest) = w.file? (w.target config.manifest))) := by
  refine ⟨(readOnly_run_check options w).1, fun error w' h => ?_⟩
  obtain ⟨herror, rfl⟩ | ⟨config, generation, hconfig, hgeneration, hwrite⟩ := run_eq_error_cases h
  · exact ⟨fun _ => rfl, fun herror' => by simp [herror] at herror'⟩
  obtain ⟨before, file, after, hfiles, hnamed, hspares, hholds⟩ := of_writeFiles_error hwrite
  refine ⟨fun herror => by simp [hnamed.isWriting] at herror, fun _ => ?_⟩
  have hpaths : generation.files.map Prod.fst = config.outputs.toList ++ [config.manifest] :=
    map_fst_files hgeneration
  refine ⟨config, generation, before, file, after, hconfig, hgeneration, hfiles, hpaths, hnamed,
    hspares, fun hapart => ?_⟩
  have hnodup := hapart.nodup_targets hgeneration
  refine ⟨hholds hnodup, ?_⟩
  rw [hfiles, targets, List.map_append] at hnodup
  have hlater : ∀ later ∈ file :: after,
      w'.file? (w.target later.1) = w.file? (w.target later.1) := fun later hmem =>
    hspares _ fun htarget =>
      List.disjoint_of_nodup_append hnodup htarget (List.mem_map_of_mem hmem)
  refine ⟨hlater, ?_⟩
  -- The manifest is the last file, so it is not before the one that failed.
  have hlast := congrArg List.getLast? hpaths
  rw [hfiles, List.map_append, List.getLast?_append_of_ne_nil _ (by simp),
    List.getLast?_concat] at hlast
  obtain ⟨later, hmem, hmanifest⟩ := List.mem_map.mp (List.mem_of_getLast? hlast)
  rw [← hmanifest]
  exact hlater later hmem

/-- A directory stands in the way of the second output. -/
def blockedWorkspace : Workspace := jumpWorkspace.insert ["a"] .directory

/-- The first output was written, and nothing is published. -/
theorem run_failed_intact_blocked :
    ∃ w' text, exec (run { jumpOptions with check := false }) blockedWorkspace =
        (.error (.write ⟨"/a"⟩), w') ∧
      w'.readText ⟨"/g"⟩ = .ok text ∧ w'.file? ["lock"] = none := by
  have hload := loadConfig_jump (w := blockedWorkspace) (by decide +kernel)
  have hfails : (exec (run { jumpOptions with check := false }) blockedWorkspace).1 =
      .error (.write ⟨"/a"⟩) := by
    rw [exec_run_of_loadConfig hload]
    decide +kernel
  have hapart : NamesApart (jumpConfig.resolved ⟨"/"⟩) blockedWorkspace := by
    unfold NamesApart
    decide +kernel
  rcases hrun : exec (run { jumpOptions with check := false }) blockedWorkspace with ⟨result, w'⟩
  rw [hrun] at hfails
  obtain rfl : result = .error (.write ⟨"/a"⟩) := hfails
  obtain ⟨config, generation, before, file, after, hconfig, -, hfiles, hpaths, hnamed, -, hrest⟩ :=
    ((run_failed_intact jumpOptions blockedWorkspace).2 _ _ hrun).2 rfl
  obtain rfl : config = jumpConfig.resolved ⟨"/"⟩ := by
    rw [hload] at hconfig
    cases hconfig
    rfl
  obtain ⟨hearlier, -, hmanifest⟩ := hrest hapart
  rw [hfiles] at hpaths
  cases before with
  | nil =>
      have hfirst : file.1 = ⟨"/g"⟩ := (List.cons.inj hpaths).1
      rcases hnamed with hwrite | ⟨parent, -, hcreate⟩
      · rw [hfirst] at hwrite
        simp at hwrite
      · cases hcreate
  | cons earlier before =>
      have hfirst : earlier.1 = ⟨"/g"⟩ := (List.cons.inj hpaths).1
      refine ⟨w', earlier.2, rfl, ?_, ?_⟩
      · rw [← hfirst]
        exact hearlier earlier List.mem_cons_self
      · have htarget : blockedWorkspace.target (jumpConfig.resolved ⟨"/"⟩).manifest = ["lock"] := by
          decide +kernel
        rw [← htarget, hmanifest, htarget]
        rfl

end Run

end OpcodeForge
