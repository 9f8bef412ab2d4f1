import OpcodeForge.Proofs.Lines
import OpcodeForge.Proofs.Run

/-!
# Drift

A run that compares names exactly the files that are missing or have other lines than what would be
written, in the order of writing. How the lines end makes no difference.
-/

namespace OpcodeForge.Run

open Workspace

variable {options : Options} {config : Config} {generation : Generation} {w : Workspace}
  {files : List (Path × String)}

/-- Whether a file is missing or its lines are not those of the text. -/
def isOutOfDate (w : Workspace) (file : Path × String) : Bool :=
  match w.readText file.1 with
  | .ok current => Text.splitLines current.toList != Text.splitLines file.2.toList
  | .error fault => fault == .missing

/-- The files that are out of date, in order. -/
def outOfDate (w : Workspace) (files : List (Path × String)) : List Path :=
  (files.filter (isOutOfDate w)).map Prod.fst

/-- A file that can be read or is missing is found stale exactly where it is out of date. -/
theorem isStale_eq_isOutOfDate {path : Path} {text : String}
    (h : w.readText path ≠ .error .obstructed) :
    exec (isStale path text) w = (.ok (isOutOfDate w (path, text)), w) := by
  rw [isStale, exec_bind, exec_readText]
  simp only [isOutOfDate]
  cases hread : w.readText path with
  | error fault =>
      cases fault with
      | missing => rfl
      | obstructed => exact absurd hread h
  | ok current =>
      have hlines := @Text.unifyNewlines_eq_iff current text
      simp only [exec_pure, bne, Bool.beq_eq_decide_eq, hlines]

theorem staleFiles_eq_outOfDate
    (h : ∀ path ∈ files.map Prod.fst, w.readText path ≠ .error .obstructed) :
    exec (staleFiles files) w = (.ok (outOfDate w files), w) := by
  induction files with
  | nil => rfl
  | cons file files ih =>
      obtain ⟨path, text⟩ := file
      obtain ⟨hpath, hpaths⟩ := List.forall_mem_cons.mp h
      simp only [staleFiles, exec_bind, isStale_eq_isOutOfDate hpath, ih hpaths, exec_pure]
      cases hstale : isOutOfDate w (path, text) <;> simp [outOfDate, hstale]

/-- A comparison names the files that are out of date, the outputs in their order and then the
manifest, and finds everything up to date where there is none. Texts are equal after replacing the
pairs and then the lone carriage returns exactly where they have the same lines. -/
theorem run_check_names_out_of_date
    (hconfig : exec (loadConfig options) w = (.ok config, w))
    (hgeneration : exec (prepare config) w = (.ok generation, w))
    (hreadable : ∀ path ∈ config.outputs.toList ++ [config.manifest],
      w.readText path ≠ .error .obstructed) :
    generation.files.map Prod.fst = config.outputs.toList ++ [config.manifest] ∧
    exec (run { options with check := true }) w =
      (.ok (if outOfDate w generation.files = [] then .upToDate
        else .stale (outOfDate w generation.files)), w) ∧
    ∀ text text' : String,
      Text.replaceReturns (Text.replacePairs text.toList) =
        Text.replaceReturns (Text.replacePairs text'.toList) ↔
      Text.splitLines text.toList = Text.splitLines text'.toList := by
  have hpaths : generation.files.map Prod.fst = config.outputs.toList ++ [config.manifest] :=
    map_fst_files hgeneration
  have hstale : exec (staleFiles generation.files) w = (.ok (outOfDate w generation.files), w) :=
    staleFiles_eq_outOfDate (hpaths ▸ hreadable)
  refine ⟨hpaths, ?_, ?_⟩
  · rw [run_of_staleFiles hconfig hgeneration hstale]
    simp only [List.isEmpty_iff]
  · intro text text'
    rw [← Text.unifyNewlines_eq_iff, Text.unifyNewlines, Text.unifyNewlines, String.ofList_inj,
      Text.unifyNewlineChars_eq_replace, Text.unifyNewlineChars_eq_replace]

/-- A copy with other line endings is not out of date. -/
theorem isOutOfDate_pairFeeds {path : Path} {text : String} (hreturn : '\r' ∉ text.toList)
    (hread : w.readText path = .ok (String.ofList (Text.pairFeeds text.toList))) :
    isOutOfDate w (path, text) = false := by
  rw [isOutOfDate, hread]
  simp [Text.splitLines_pairFeeds hreturn]

/-- The grammar of the small workspace. -/
def jumpGrammar : String :=
  "// this file is autogenerated, do not edit manually\n" ++
    "// to change this file edit the opcode table and re-run isagen\n" ++
    "stmt_JUMP = \x7b^\"jump\"\x7d\n" ++
    "statement = \x7bstmt_JUMP\x7d\n"

/-- The first output differs in its line endings only, the second has other lines and the others are
not there. -/
def driftedWorkspace : Workspace :=
  (jumpWorkspace.insert ["g"]
    (.file (String.ofList (Text.pairFeeds jumpGrammar.toList)).toUTF8)).insert ["a"]
    (.file "enum Instruction\n".toUTF8)

/-- All but the file with other line endings are named. -/
theorem run_check_names_drifted :
    driftedWorkspace.readText ⟨"/g"⟩ = .ok (String.ofList (Text.pairFeeds jumpGrammar.toList)) ∧
    driftedWorkspace.readText ⟨"/a"⟩ = .ok "enum Instruction\n" ∧
    driftedWorkspace.readText ⟨"/b"⟩ = .error .missing ∧
    exec (run { jumpOptions with check := true }) driftedWorkspace =
      (.ok (.stale [⟨"/a"⟩, ⟨"/b"⟩, ⟨"/l"⟩, ⟨"/d"⟩, ⟨"/r"⟩, ⟨"/o"⟩, ⟨"/x/../lock"⟩]),
        driftedWorkspace) := by
  have hconfig := loadConfig_jump (w := driftedWorkspace) (by decide +kernel)
  have hread : driftedWorkspace.readText ⟨"/g"⟩ =
      .ok (String.ofList (Text.pairFeeds jumpGrammar.toList)) := by
    rw [readText_eq_ok_iff]
    exact rfl
  have hreadable : ∀ path ∈ writtenPaths (jumpConfig.resolved ⟨"/"⟩),
      driftedWorkspace.readText path ≠ .error .obstructed := by
    have hpaths : writtenPaths (jumpConfig.resolved ⟨"/"⟩) =
        [⟨"/g"⟩, ⟨"/a"⟩, ⟨"/b"⟩, ⟨"/l"⟩, ⟨"/d"⟩, ⟨"/r"⟩, ⟨"/o"⟩, ⟨"/x/../lock"⟩] := by
      decide +kernel
    rw [hpaths, List.forall_mem_cons, hread]
    exact ⟨nofun, by decide +kernel⟩
  have hmade : (exec (prepare (jumpConfig.resolved ⟨"/"⟩)) driftedWorkspace).1.map
      (fun generation =>
        (generation.files.head?, outOfDate driftedWorkspace generation.files.tail)) =
      .ok (some (⟨"/g"⟩, jumpGrammar),
        [⟨"/a"⟩, ⟨"/b"⟩, ⟨"/l"⟩, ⟨"/d"⟩, ⟨"/r"⟩, ⟨"/o"⟩, ⟨"/x/../lock"⟩]) := by
    decide +kernel
  refine ⟨hread, by decide +kernel, by decide +kernel, ?_⟩
  rcases hprepare : exec (prepare (jumpConfig.resolved ⟨"/"⟩)) driftedWorkspace with
    ⟨_ | generation, w⟩
  · rw [hprepare] at hmade
    cases hmade
  · obtain rfl := (prepare_eq_ok_iff.mp hprepare).2
    rw [hprepare] at hmade
    obtain ⟨hhead, htail⟩ := Prod.mk.inj (Except.ok.inj hmade)
    have hgrammar := isOutOfDate_pairFeeds (by decide +kernel) hread
    have hnames : outOfDate driftedWorkspace generation.files =
        [⟨"/a"⟩, ⟨"/b"⟩, ⟨"/l"⟩, ⟨"/d"⟩, ⟨"/r"⟩, ⟨"/o"⟩, ⟨"/x/../lock"⟩] := by
      rw [← List.cons_head?_tail hhead, outOfDate, List.filter_cons_of_neg (by simp [hgrammar])]
      exact htail
    obtain ⟨-, hrun, -⟩ := run_check_names_out_of_date hconfig hprepare hreadable
    rw [hrun, hnames, if_neg (List.cons_ne_nil _ _)]

end OpcodeForge.Run
