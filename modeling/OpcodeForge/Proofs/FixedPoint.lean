import OpcodeForge.Proofs.Appending
import OpcodeForge.Proofs.ManifestText
import OpcodeForge.Proofs.Run

/-!
# Running again

A run that writes leaves a workspace in which the next run finds the same configuration and table,
accepts the manifest that was written, and makes the same files again. So the comparison finds
nothing out of date, and writing once more changes nothing.
-/

namespace OpcodeForge.Run

open Workspace

variable {options : Options} {config : Config} {generation : Generation} {w w' : Workspace}

/-! ## Separate files -/

/-- All paths of a run lead to different locations. -/
def Separate (options : Options) (config : Config) (w : Workspace) : Prop :=
  ((inputPaths options config w ++ writtenPaths config).map w.target).Nodup

theorem Separate.nodup_targets (hseparate : Separate options config w)
    (h : exec (prepare config) w = (.ok generation, w)) : (targets w generation.files).Nodup := by
  rw [Separate, List.map_append] at hseparate
  rw [targets_files h]
  exact hseparate.of_append_right

theorem Separate.notMem_targets {path : Path} (hseparate : Separate options config w)
    (h : exec (prepare config) w = (.ok generation, w))
    (hpath : path ∈ inputPaths options config w) :
    w.target path ∉ targets w generation.files := by
  rw [Separate, List.map_append] at hseparate
  rw [targets_files h]
  exact List.disjoint_of_nodup_append hseparate (List.mem_map_of_mem hpath)

/-! ## Loading again -/

/-- What is written by default is not named as the configuration file. -/
theorem named_of_mem_writtenPaths : ∀ q ∈ writtenPaths {},
    q.isAbsolute = false ∧ q.moves = q.parts.map .down ∧ ¬[configFile.text] <+: q.parts := by
  decide +kernel

/-- A run that does without a configuration file makes none. -/
theorem isPresent_configFile_of_extended {root : Path} {text : String}
    {files : List (Path × String)}
    (hread : w.readText (root.join (Config.table {})) = .ok text)
    (habsent : w.isPresent (root.join configFile) = false)
    (hfiles : files.map Prod.fst = writtenPaths (Config.resolved {} root))
    (h : Extended files w w') :
    w'.isPresent (root.join configFile) = false := by
  -- The table was read from the root, so the root is a directory.
  obtain ⟨hroot, htable⟩ := leads_of_readText_join (by decide) (by decide) hread
  rw [show (Config.table {}).steps = [.down "ops.json"] by decide] at htable
  obtain ⟨hdirectory, -⟩ := htable
  have hleads : w.Leads (w.start (root.join configFile)) (root.join configFile).steps := by
    rw [leads_join_iff (by decide) (by decide),
      show configFile.steps = [.down configFile.text] by decide]
    exact ⟨hroot, hdirectory, by decide, trivial⟩
  refine h.isPresent_eq_false hleads habsent fun hnone hmade => ?_
  obtain ⟨file, hfile, hpassed⟩ := hmade
  have hpath : file.1 ∈ files.map Prod.fst := List.mem_map_of_mem hfile
  rw [hfiles, writtenPaths_resolved] at hpath
  obtain ⟨q, hq, hjoin⟩ := List.mem_map.mp hpath
  obtain ⟨hrelative, hmoves, hnamed⟩ := named_of_mem_writtenPaths q hq
  rw [← hjoin] at hpassed
  obtain ⟨taken, htaken, heq⟩ :=
    exists_names_of_mem_passed hrelative hmoves hroot hdirectory hpassed hnone
  have htarget : w.target (root.join configFile) = w.target root ++ [configFile.text] := by
    rw [target_join w root (by decide), show configFile.moves = [.down configFile.text] by decide]
    rfl
  rw [htarget, List.append_cancel_left_eq] at heq
  exact hnamed (heq ▸ htaken)

/-- The next run uses the same configuration. -/
theorem loadConfig_of_written (hconfig : exec (loadConfig options) w = (.ok config, w))
    (hgeneration : exec (prepare config) w = (.ok generation, w))
    (hseparate : Separate options config w)
    (h : Extended generation.files w w') :
    exec (loadConfig options) w' = (.ok config, w') := by
  obtain ⟨hload, -⟩ := loadConfig_eq_ok_iff.mp hconfig
  rw [loadConfig_eq_ok_iff]
  refine ⟨?_, rfl⟩
  cases hpath : configIn options w with
  | some path =>
      rw [hpath] at hload
      obtain ⟨given, hgiven, hresolved⟩ := hload
      obtain ⟨text, hread, hparse⟩ := (loadFile_eq_ok_iff.mp hgiven).1
      have hread' : w'.readText path = .ok text :=
        h.readText hread (hseparate.notMem_targets hgeneration (by simp [inputPaths, hpath]))
      -- A file that can be read is there, so it is still the one in use.
      have hpath' : configIn options w' = some path := by
        rw [configIn_eq_some_iff] at hpath ⊢
        exact hpath.imp_right fun ⟨hnone, hfile, _⟩ => ⟨hnone, hfile, isPresent_of_readText hread'⟩
      rw [hpath']
      exact ⟨given, loadFile_eq_ok_iff.mpr ⟨⟨text, hread', hparse⟩, rfl⟩, hresolved⟩
  | none =>
      rw [hpath] at hload
      obtain ⟨hnone, habsent⟩ := configIn_eq_none_iff.mp hpath
      obtain ⟨⟨table, -, -, htable, -⟩, -⟩ := prepare_eq_ok_iff.mp hgeneration
      obtain ⟨⟨text, hread, -⟩, -⟩ := loadFile_eq_ok_iff.mp htable
      have hfiles := map_fst_files hgeneration
      rw [hload] at hread hfiles
      have habsent' := isPresent_configFile_of_extended hread habsent hfiles h
      rw [configIn_eq_none_iff.mpr ⟨hnone, habsent'⟩]
      exact hload

/-- The next run accepts the manifest that was written and makes the same. -/
theorem prepare_of_written (hgeneration : exec (prepare config) w = (.ok generation, w))
    (hseparate : Separate options config w)
    (h : Extended generation.files w w')
    (hholds : ∀ file ∈ generation.files, w'.Holds file.1 file.2) :
    exec (prepare config) w' = (.ok generation, w') := by
  have hkept := hseparate.notMem_targets hgeneration (List.mem_append_right _ List.mem_cons_self)
  obtain ⟨⟨table, published, artifacts, htable, -, -, hartifacts, hfiles⟩, -⟩ :=
    prepare_eq_ok_iff.mp hgeneration
  obtain ⟨⟨text, hread, hparse⟩, -⟩ := loadFile_eq_ok_iff.mp htable
  have htable' : exec (loadFile config.table Table.ofText) w' = (.ok table, w') :=
    loadFile_eq_ok_iff.mpr ⟨⟨text, h.readText hread hkept, hparse⟩, rfl⟩
  have hmanifest : w'.readText config.manifest = .ok (Manifest.ofTable table).toText := by
    rw [hfiles] at hholds
    exact (hholds (config.manifest, (Manifest.ofTable table).toText)
      (List.mem_append_right _ List.mem_cons_self)).reads
  have hpublished :
      exec (loadManifest config.manifest) w' = (.ok (Manifest.ofTable table), w') := by
    rw [loadManifest_eq_ok_iff, if_pos (isPresent_of_readText hmanifest)]
    exact ⟨⟨_, hmanifest, Manifest.ofText_toText _⟩, rfl⟩
  have hcheck : (Manifest.ofTable table).check table = .ok () :=
    Manifest.check_ofTable_eq_ok_iff.mpr
      (Table.keeps_of_prefix (Table.WellFormed.of_ofText hparse) List.prefix_rfl)
  exact prepare_eq_ok_iff.mpr
    ⟨⟨table, _, artifacts, htable', hpublished, hcheck, hartifacts, hfiles⟩, rfl⟩

/-! ## The run after a run -/

/-- After a run that wrote, a comparison finds everything up to date, and one more run writes again
and leaves everything as it is. -/
theorem run_after_written {count : Nat}
    (hconfig : exec (loadConfig options) w = (.ok config, w))
    (hseparate : Separate options config w)
    (hrun : exec (run { options with check := false }) w = (.ok (.written count), w')) :
    exec (run { options with check := true }) w' = (.ok .upToDate, w') ∧
    ∃ w'', exec (run { options with check := false }) w' = (.ok (.written count), w'') ∧
      w''.current = w'.current ∧ ∀ location, w''.entry? location = w'.entry? location := by
  obtain ⟨loaded, generation, hloaded, hgeneration, hwrite, hcount⟩ := run_eq_written_iff.mp hrun
  obtain rfl : loaded = config := by
    rw [hconfig] at hloaded
    cases hloaded
    rfl
  have hextends := writeFiles_extends generation.files w
  rw [hwrite] at hextends
  have hholds := holds_of_writeFiles (hseparate.nodup_targets hgeneration) hwrite
  have hconfig' := loadConfig_of_written hconfig hgeneration hseparate hextends
  have hgeneration' := prepare_of_written hgeneration hseparate hextends hholds
  refine ⟨run_of_staleFiles hconfig' hgeneration' (staleFiles_of_holds hholds), ?_⟩
  obtain ⟨w'', hwrite', hsame⟩ := writeFiles_of_holds hholds
  refine ⟨w'', ?_, hsame.current, hsame.entry?_eq⟩
  exact run_eq_written_iff.mpr ⟨_, generation, hconfig', hgeneration', hwrite', hcount⟩

/-- Everything is written, is up to date then, and is written again as it is. -/
theorem run_after_written_jump :
    ∃ w', exec (run { jumpOptions with check := false }) jumpWorkspace = (.ok (.written 7), w') ∧
      exec (run { jumpOptions with check := true }) w' = (.ok .upToDate, w') ∧
      ∃ w'', exec (run { jumpOptions with check := false }) w' = (.ok (.written 7), w'') ∧
        w''.current = w'.current ∧ ∀ location, w''.entry? location = w'.entry? location := by
  have hconfig := loadConfig_jump (w := jumpWorkspace) (by decide +kernel)
  have hseparate : Separate jumpOptions (jumpConfig.resolved ⟨"/"⟩) jumpWorkspace := by
    rw [Separate, inputPaths, configIn_of_some rfl]
    decide +kernel
  have hwritten : (exec (run { jumpOptions with check := false }) jumpWorkspace).1 =
      .ok (.written 7) := by
    decide +kernel
  rcases hrun : exec (run { jumpOptions with check := false }) jumpWorkspace with ⟨result, w'⟩
  rw [hrun] at hwritten
  obtain rfl : result = .ok (.written 7) := hwritten
  exact ⟨w', rfl, run_after_written hconfig hseparate hrun⟩

end OpcodeForge.Run
