import OpcodeForge.Proofs.Config
import OpcodeForge.Proofs.Path
import OpcodeForge.Run

/-!
# Configurations seen from a directory

A configuration is checked when it is loaded, before its files are seen from the root directory, and
once more when the artifacts are made. Paths with the same components stay so from every directory,
so that the first check refuses nothing that the second would accept.
-/

namespace OpcodeForge

namespace Path

variable {root p q : Path}

theorem join_of_isAbsolute (h : q.isAbsolute = true) : root.join q = q := by
  rw [join, h]
  rfl

theorem join_of_empty (h : root.text = "") : root.join q = q := by
  rw [join, h]
  exact if_pos (Bool.or_true _)

theorem same_join_of_same (root : Path) (h : p.same q = true) :
    (root.join p).same (root.join q) = true := by
  obtain ⟨habsolute, hmoves⟩ := moves_eq_of_same h
  cases hq : q.isAbsolute with
  | true => rwa [join_of_isAbsolute (habsolute.trans hq), join_of_isAbsolute hq]
  | false =>
      by_cases hroot : root.text = ""
      · rwa [join_of_empty hroot, join_of_empty hroot]
      · exact same_join hroot (habsolute.trans hq) hq hmoves

theorem same_of_join (h : (root.join p).same (root.join q) = false) : p.same q = false := by
  rw [← Bool.not_eq_true] at h ⊢
  exact fun hsame => h (same_join_of_same root hsame)

end Path

namespace Config

variable {c : Config} {root : Path} {t : Table} {document : String} {cause : ConfigError}

theorem validate_of_resolved (h : (c.resolved root).validate = .ok ()) : c.validate = .ok () := by
  obtain ⟨houtputs, hinputs, hnamed⟩ := validate_eq_ok_iff.mp h
  have hmap : (c.resolved root).outputs.toList = c.outputs.toList.map root.join := rfl
  rw [hmap] at houtputs hinputs
  refine validate_eq_ok_iff.mpr ⟨?_, ?_, hnamed⟩
  · exact (List.pairwise_map.mp houtputs).imp Path.same_of_join
  · intro output houtput
    obtain ⟨htable, hmanifest⟩ := hinputs _ (List.mem_map_of_mem houtput)
    exact ⟨Path.same_of_join htable, Path.same_of_join hmanifest⟩

theorem load_eq_config_error_iff (hc : Config.ofText document = .ok c) :
    Config.load document = .error (.config cause) ↔ c.validate = .error cause := by
  rw [Config.load, hc]
  cases hvalid : c.validate with
  | ok _ => simp [bind, Except.bind, hvalid, pure, Except.pure]
  | error fault =>
      simp [bind, Except.bind, hvalid, throw, throwThe, MonadExceptOf.throw]

theorem exists_generateAll_of_not_valid (h : c.validate ≠ .ok ()) :
    ∃ cause, Artifact.generateAll t c = .error (.config cause) := by
  rw [Artifact.generateAll]
  cases hvalid : c.validate with
  | ok _ => exact absurd hvalid h
  | error cause => exact ⟨cause, rfl⟩

/-- What is valid from a directory is valid as it stands. A document that is refused when it is
loaded would be refused as well when its artifacts are made. -/
theorem resolved_only_stricter (c : Config) (root : Path) :
    ((c.resolved root).validate = .ok () → c.validate = .ok ()) ∧
    ∀ document cause, Config.ofText document = .ok c →
      Config.load document = .error (.config cause) →
      ∀ t, ∃ cause', Artifact.generateAll t (c.resolved root) = .error (.config cause') := by
  refine ⟨validate_of_resolved, fun document cause hc hload t => ?_⟩
  have hrefused := (load_eq_config_error_iff hc).mp hload
  refine exists_generateAll_of_not_valid fun hvalid => ?_
  rw [validate_of_resolved hvalid] at hrefused
  cases hrefused

/-- A configuration document that leaves open where one of the outputs goes. -/
def spelledText (opcodes : String) : String :=
  "[\"t\", \"m\", [\"g//o\", \"a\", \"b\", \"l\", \"d\", \"r\", \"" ++ opcodes ++ "\"]]"

def spelledConfig (opcodes : String) : Config where
  table := ⟨"t"⟩
  manifest := ⟨"m"⟩
  outputs := {
    grammar := ⟨"g//o"⟩, astEnum := ⟨"a"⟩, astDispatch := ⟨"b"⟩, lowering := ⟨"l"⟩
    instructionDef := ⟨"d"⟩, runtimeDecoder := ⟨"r"⟩, opcodes := ⟨opcodes⟩ }

/-- An absolute path is its own from every directory. Two spellings of one path are refused before
they are seen from a directory, and from there. -/
theorem resolved_only_stricter_spelled :
    ((spelledConfig "/g/o").resolved ⟨"w/"⟩).validate = .ok () ∧
    (spelledConfig "/g/o").validate = .ok () ∧
    Config.ofText (spelledText "g/./o") = .ok (spelledConfig "g/./o") ∧
    Config.load (spelledText "g/./o") = .error (.config .duplicateOutput) ∧
    ∃ cause, Artifact.generateAll ⟨[]⟩ ((spelledConfig "g/./o").resolved ⟨"w/"⟩) =
      .error (.config cause) := by
  have hvalid : ((spelledConfig "/g/o").resolved ⟨"w/"⟩).validate = .ok () := by decide +kernel
  have hread : Config.ofText (spelledText "g/./o") = .ok (spelledConfig "g/./o") := by
    decide +kernel
  have hload := (load_eq_config_error_iff hread).mpr
    (by decide +kernel : (spelledConfig "g/./o").validate = .error .duplicateOutput)
  obtain ⟨hstands, -⟩ := resolved_only_stricter (spelledConfig "/g/o") ⟨"w/"⟩
  obtain ⟨-, hmade⟩ := resolved_only_stricter (spelledConfig "g/./o") ⟨"w/"⟩
  exact ⟨hvalid, hstands hvalid, hread, hload, hmade _ _ hread hload _⟩

-- The converse fails: a leading dot counts only as long as nothing stands before it.
example : (spelledConfig "./g/o").validate = .ok () ∧
    ((spelledConfig "./g/o").resolved ⟨"w/"⟩).validate = .error .duplicateOutput := by
  decide +kernel

end Config

end OpcodeForge
