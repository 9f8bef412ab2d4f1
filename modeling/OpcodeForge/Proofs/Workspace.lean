import Mathlib.Data.Set.Insert
import OpcodeForge.Proofs.Path

/-!
# Reading and writing in workspaces

A path leads to a location, whatever stands there, and can be followed where its steps lead through
directories. Writing makes directories on the way and puts a file at the end: directories stay,
files elsewhere keep their content, and nothing new stands beside the way.
-/

namespace OpcodeForge.Workspace

open OpcodeForge.Path (walk Step)

variable {w w' w'' : Workspace} {p : Path} {location : Location}

/-! ## Entries -/

theorem entry?_insert (hne : location ≠ []) (entry : Entry) (other : Location) :
    entry? (w.insert location entry) other =
      if other = location then some entry else w.entry? other := by
  unfold entry? insert
  by_cases hother : other = location
  · subst hother
    simp [hne]
  · rw [if_neg hother, List.find?_cons_of_neg (by simpa using Ne.symm hother), List.find?_filter]
    congr 3
    funext stored
    by_cases hstored : stored.1 = other
    · simp [hstored, hother]
    · simp [hstored]

theorem ne_nil_of_not_directory (h : w.entry? location ≠ some .directory) : location ≠ [] := by
  rintro rfl
  exact h rfl

/-! ## Following paths -/

/-- Steps can be taken one after the other, each from a directory. -/
def Leads (w : Workspace) : Location → List Step → Prop
  | _, [] => True
  | location, step :: steps =>
    w.entry? location = some .directory ∧ step.isUsable = true ∧
      w.Leads (step.apply location) steps

theorem follow_eq_ok_iff {steps : List Step} {found : Location} :
    w.follow location steps = .ok found ↔ w.Leads location steps ∧ found = walk location steps := by
  induction steps generalizing location with
  | nil => simp [follow, Leads, walk, eq_comm]
  | cons step steps ih =>
      have hwalk : walk location (step :: steps) = walk (step.apply location) steps := rfl
      rw [follow, Leads, hwalk]
      cases w.entry? location with
      | none => simp
      | some entry =>
          cases entry with
          | file content => simp
          | directory =>
              by_cases husable : step.isUsable = true
              · simp [husable, ih]
              · simp [husable]

theorem leads_append {steps more : List Step} :
    w.Leads location (steps ++ more) ↔
      w.Leads location steps ∧ w.Leads (walk location steps) more := by
  induction steps generalizing location with
  | nil => simp [Leads, walk]
  | cons step steps ih =>
      rw [List.cons_append, Leads, Leads, ih, and_assoc, and_assoc]
      rfl

/-- The location that a path leads to. -/
def target (w : Workspace) (p : Path) : Location := walk (w.start p) p.moves

theorem locate_eq_ok_iff :
    w.locate p = .ok location ↔
      (p.text ≠ "" ∧ p.isUsable = true ∧ w.Leads (w.start p) p.steps) ∧ location = w.target p := by
  rw [locate, target, ← Path.walk_steps]
  by_cases hempty : p.text = ""
  · simp [hempty]
  · by_cases husable : p.isUsable = true
    · simp [hempty, husable, follow_eq_ok_iff]
    · simp [hempty, husable]

theorem find_eq_ok_iff {entry : Entry} :
    w.find p = .ok entry ↔
      w.locate p = .ok (w.target p) ∧ w.entry? (w.target p) = some entry := by
  unfold find
  cases hlocate : w.locate p with
  | error fault => simp [bind, Except.bind]
  | ok found =>
      obtain ⟨-, rfl⟩ := locate_eq_ok_iff.mp hlocate
      cases hentry : w.entry? (w.target p) <;>
        simp [bind, Except.bind, pure, Except.pure, throw, throwThe, MonadExceptOf.throw, hentry]

theorem isPresent_eq_true_iff :
    w.isPresent p = true ↔ ∃ entry, w.find p = .ok entry := by
  unfold isPresent
  cases w.find p <;> simp

theorem fromUTF8?_eq_some_iff {content : ByteArray} {text : String} :
    String.fromUTF8? content = some text ↔ content = text.toUTF8 := by
  unfold String.fromUTF8?
  constructor
  · intro h
    split at h
    · cases h
      rfl
    · cases h
  · rintro rfl
    rw [String.toUTF8_eq_toByteArray, dif_pos text.isValidUTF8]
    rfl

theorem readText_eq_ok_iff {text : String} :
    w.readText p = .ok text ↔ w.find p = .ok (.file text.toUTF8) := by
  unfold readText
  cases w.find p with
  | error fault => simp [bind, Except.bind]
  | ok entry =>
      cases entry with
      | directory => simp [bind, Except.bind, throw, throwThe, MonadExceptOf.throw]
      | file content =>
          have htext := @fromUTF8?_eq_some_iff content text
          cases hcontent : String.fromUTF8? content with
          | none => simp_all [bind, Except.bind, throw, throwThe, MonadExceptOf.throw]
          | some found => simp_all [bind, Except.bind, pure, Except.pure]

theorem isPresent_of_readText {text : String} (h : w.readText p = .ok text) :
    w.isPresent p = true :=
  isPresent_eq_true_iff.mpr ⟨_, readText_eq_ok_iff.mp h⟩

/-! ## Seen from a directory -/

theorem start_join (w : Workspace) (p : Path) {q : Path} (hq : q.isAbsolute = false) :
    w.start (p.join q) = w.start p := by
  rw [start, start, Path.isAbsolute_join p hq]

theorem target_join (w : Workspace) (p : Path) {q : Path} (hq : q.isAbsolute = false) :
    w.target (p.join q) = walk (w.target p) q.moves := by
  rw [target, target, Path.moves_join p hq, start_join w p hq, Path.walk_append]

theorem leads_join_iff {q : Path} (hq : q.isAbsolute = false) (hne : q.text ≠ "") :
    w.Leads (w.start (p.join q)) (p.join q).steps ↔
      w.Leads (w.start p) (p.parts.filterMap Step.ofPart?) ∧ w.Leads (w.target p) q.steps := by
  rw [Path.steps_join p hq hne, start_join w p hq, leads_append, target, Path.moves, Path.movesOf,
    Path.walk_filter]

theorem leads_of_readText_join {q : Path} {text : String} (hq : q.isAbsolute = false)
    (hne : q.text ≠ "") (h : w.readText (p.join q) = .ok text) :
    w.Leads (w.start p) (p.parts.filterMap Step.ofPart?) ∧ w.Leads (w.target p) q.steps := by
  obtain ⟨hlocate, -⟩ := find_eq_ok_iff.mp (readText_eq_ok_iff.mp h)
  exact (leads_join_iff hq hne).mp (locate_eq_ok_iff.mp hlocate).1.2.2

/-- Where steps can be taken to a directory, directories stand on the way. -/
theorem directory_of_leads {steps taken : List Step} (h : w.Leads location steps)
    (hend : w.entry? (walk location steps) = some .directory) (htaken : taken <+: steps) :
    w.entry? (walk location taken) = some .directory := by
  obtain ⟨rest, rfl⟩ := htaken
  cases rest with
  | nil => rwa [List.append_nil] at hend
  | cons step rest => exact (leads_append.mp h).2.1

/-! ## Extending a workspace -/

/-- The locations on the way of steps. -/
def way (location : Location) (steps : List Step) : Set Location :=
  {other | ∃ taken, taken <+: steps ∧ other = walk location taken}

theorem apply_mem_way (location : Location) (step : Step) (steps : List Step) :
    step.apply location ∈ way location (step :: steps) :=
  ⟨[step], by simp, rfl⟩

theorem way_subset_cons (location : Location) (step : Step) (steps : List Step) :
    way (step.apply location) steps ⊆ way location (step :: steps) := by
  rintro other ⟨taken, htaken, rfl⟩
  exact ⟨step :: taken, (List.prefix_cons_inj step).mpr htaken, rfl⟩

/-- The locations on the way of a path. -/
def passed (w : Workspace) (p : Path) : Set Location := way (w.start p) p.moves

theorem target_mem_passed (w : Workspace) (p : Path) : w.target p ∈ w.passed p :=
  ⟨p.moves, List.prefix_rfl, rfl⟩

theorem way_subset_passed {q : Path} (habsolute : q.isAbsolute = p.isAbsolute)
    (hmoves : q.moves <+: p.moves) : way (w.start q) q.steps ⊆ w.passed p := by
  rintro location ⟨taken, htaken, rfl⟩
  refine ⟨taken.filter (· != .stay), ?_, ?_⟩
  · have hfilter := htaken.filter (· != .stay)
    rw [Path.filter_steps] at hfilter
    exact hfilter.trans hmoves
  · rw [Path.walk_filter, start, start, habsolute]

/-- The way of a path in a directory meets nothing new but what the path names there. -/
theorem exists_names_of_mem_passed {q : Path} {names : List String} (hq : q.isAbsolute = false)
    (hmoves : q.moves = names.map .down)
    (hleads : w.Leads (w.start p) (p.parts.filterMap Step.ofPart?))
    (hend : w.entry? (w.target p) = some .directory) (hpassed : location ∈ w.passed (p.join q))
    (hnew : w.entry? location = none) :
    ∃ taken, taken <+: names ∧ location = w.target p ++ taken := by
  obtain ⟨steps, ⟨rest, hsteps⟩, rfl⟩ := hpassed
  rw [start_join w p hq] at hnew ⊢
  rw [Path.moves_join p hq, hmoves, List.append_eq_append_iff] at hsteps
  rcases hsteps with ⟨more, hmore, -⟩ | ⟨named, rfl, hnamed⟩
  -- Up to the directory everything is there already.
  · obtain ⟨taken, htaken, rfl⟩ := List.prefix_filter_iff.mp ⟨more, hmore.symm⟩
    rw [target, Path.moves, Path.movesOf, Path.walk_filter] at hend
    rw [Path.walk_filter, directory_of_leads hleads hend htaken] at hnew
    cases hnew
  · obtain ⟨taken, htaken, rfl⟩ := List.prefix_map_iff.mp ⟨rest, hnamed.symm⟩
    exact ⟨taken, htaken, by rw [Path.walk_append, Path.walk_map_down, target]⟩

/-- A workspace comes from another one by writing at some locations and making some others:
directories stay, files that are not written keep their content, and what is new was made. -/
structure Extends (written made : Set Location) (w w' : Workspace) : Prop where
  current : w'.current = w.current
  kept : ∀ location entry, w.entry? location = some entry →
    entry = .directory ∨ location ∉ written → w'.entry? location = some entry
  fresh : ∀ location, w.entry? location = none → w'.entry? location ≠ none → location ∈ made

namespace Extends

variable {written made written' made' : Set Location}

theorem refl (w : Workspace) : Extends written made w w where
  current := rfl
  kept _ _ h _ := h
  fresh _ h h' := absurd h h'

theorem trans (h : Extends written made w w') (h' : Extends written made w' w'') :
    Extends written made w w'' where
  current := h'.current.trans h.current
  kept location entry hentry hkept :=
    h'.kept location entry (h.kept location entry hentry hkept) hkept
  fresh location hentry hfresh := by
    by_cases hmade : w'.entry? location = none
    · exact h'.fresh location hmade hfresh
    · exact h.fresh location hentry hmade

theorem mono (h : Extends written made w w') (hwritten : written ⊆ written')
    (hmade : made ⊆ made') : Extends written' made' w w' where
  current := h.current
  kept location entry hentry hkept :=
    h.kept location entry hentry (hkept.imp_right fun hnot hmem => hnot (hwritten hmem))
  fresh location hentry hfresh := hmade (h.fresh location hentry hfresh)

theorem start (h : Extends written made w w') (p : Path) : w'.start p = w.start p := by
  rw [Workspace.start, Workspace.start, h.current]

theorem target (h : Extends written made w w') (p : Path) : w'.target p = w.target p := by
  rw [Workspace.target, Workspace.target, h.start]

theorem passed (h : Extends written made w w') (p : Path) : w'.passed p = w.passed p := by
  rw [Workspace.passed, Workspace.passed, h.start]

theorem leads (h : Extends written made w w') {steps : List Step}
    (hleads : w.Leads location steps) : w'.Leads location steps := by
  induction steps generalizing location with
  | nil => trivial
  | cons step steps ih =>
      obtain ⟨hdirectory, husable, hrest⟩ := hleads
      exact ⟨h.kept _ _ hdirectory (.inl rfl), husable, ih hrest⟩

theorem locate (h : Extends written made w w') (hlocate : w.locate p = .ok location) :
    w'.locate p = .ok location := by
  obtain ⟨⟨hempty, husable, hleads⟩, rfl⟩ := locate_eq_ok_iff.mp hlocate
  exact locate_eq_ok_iff.mpr ⟨⟨hempty, husable, h.start p ▸ h.leads hleads⟩, (h.target p).symm⟩

theorem find (h : Extends written made w w') {entry : Entry} (hfind : w.find p = .ok entry)
    (hkept : entry = .directory ∨ w.target p ∉ written) : w'.find p = .ok entry := by
  obtain ⟨hlocate, hentry⟩ := find_eq_ok_iff.mp hfind
  rw [find_eq_ok_iff, h.target]
  exact ⟨h.locate hlocate, h.kept _ _ hentry hkept⟩

theorem readText (h : Extends written made w w') {text : String} (hread : w.readText p = .ok text)
    (hkept : w.target p ∉ written) : w'.readText p = .ok text :=
  readText_eq_ok_iff.mpr (h.find (readText_eq_ok_iff.mp hread) (.inr hkept))

/-- A path that could be followed to nothing still leads to nothing, unless its file was made. -/
theorem isPresent_eq_false (h : Extends written made w w') (hleads : w.Leads (w.start p) p.steps)
    (habsent : w.isPresent p = false)
    (hnew : w.entry? (w.target p) = none → w.target p ∉ made) : w'.isPresent p = false := by
  by_contra hpresent
  obtain ⟨entry, hfind⟩ := isPresent_eq_true_iff.mp (Bool.of_not_eq_false hpresent)
  obtain ⟨hlocate, hentry⟩ := find_eq_ok_iff.mp hfind
  obtain ⟨⟨hempty, husable, -⟩, -⟩ := locate_eq_ok_iff.mp hlocate
  rw [h.target] at hentry
  cases hbefore : w.entry? (w.target p) with
  | none => exact hnew hbefore (h.fresh _ hbefore (by simp [hentry]))
  | some found =>
      have hlocated := locate_eq_ok_iff.mpr ⟨⟨hempty, husable, hleads⟩, rfl⟩
      have hthere := isPresent_eq_true_iff.mpr ⟨found, find_eq_ok_iff.mpr ⟨hlocated, hbefore⟩⟩
      rw [habsent] at hthere
      cases hthere

theorem entry?_eq (h : Extends ∅ ∅ w w') (location : Location) :
    w'.entry? location = w.entry? location := by
  cases hentry : w.entry? location with
  | some entry => exact h.kept location entry hentry (.inr (Set.notMem_empty _))
  | none =>
      by_contra hfresh
      exact h.fresh location hentry hfresh

theorem insert {entry : Entry} (h : w.entry? location ≠ some .directory)
    (hwritten : w.entry? location = none ∨ location ∈ written) (hmade : location ∈ made) :
    Extends written made w (w.insert location entry) where
  current := rfl
  kept other found hfound hkept := by
    rw [entry?_insert (ne_nil_of_not_directory h), if_neg, hfound]
    rintro rfl
    rcases hkept with rfl | hnot
    · exact h hfound
    · rcases hwritten with hnone | hmem
      · simp [hnone] at hfound
      · exact hnot hmem
  fresh other hnone hfresh := by
    rw [entry?_insert (ne_nil_of_not_directory h)] at hfresh
    by_cases hother : other = location
    · exact hother ▸ hmade
    · rw [if_neg hother] at hfresh
      exact absurd hnone hfresh

end Extends

/-! ## Making directories -/

theorem makeSteps_extends (w : Workspace) (location : Location) (steps : List Step) :
    Extends ∅ (way location steps) w (w.makeSteps location steps).2 := by
  induction steps generalizing w location with
  | nil => exact .refl w
  | cons step steps ih =>
      simp only [makeSteps]
      split
      · exact .refl w
      · have hlater := way_subset_cons location step steps
        split
        · exact (ih w _).mono subset_rfl hlater
        · exact .refl w
        · rename_i hnone
          have hhere := apply_mem_way location step steps
          refine (Extends.insert ?_ (.inl hnone) hhere).trans ((ih _ _).mono subset_rfl hlater)
          simp [hnone]

/-- Directories stand wherever steps lead. -/
def Stands (w : Workspace) : Location → List Step → Prop
  | _, [] => True
  | location, step :: steps =>
    step.isUsable = true ∧ w.entry? (step.apply location) = some .directory ∧
      w.Stands (step.apply location) steps

theorem Extends.stands {written made : Set Location} (h : Extends written made w w')
    {steps : List Step} (hstands : w.Stands location steps) : w'.Stands location steps := by
  induction steps generalizing location with
  | nil => trivial
  | cons step steps ih =>
      obtain ⟨husable, hdirectory, hrest⟩ := hstands
      exact ⟨husable, h.kept _ _ hdirectory (.inl rfl), ih hrest⟩

theorem stands_of_makeSteps {steps : List Step} (h : w.makeSteps location steps = (true, w')) :
    w'.Stands location steps := by
  induction steps generalizing w location with
  | nil => trivial
  | cons step steps ih =>
      -- The next directory is there before the later ones are made, and these do not remove it.
      have hextends : ∀ start : Workspace,
          start.makeSteps (step.apply location) steps = (true, w') →
          start.entry? (step.apply location) = some .directory →
          w'.entry? (step.apply location) = some .directory := by
        intro start hmake hdirectory
        have hkept := makeSteps_extends start (step.apply location) steps
        rw [hmake] at hkept
        exact hkept.kept _ _ hdirectory (.inl rfl)
      simp only [makeSteps] at h
      split at h
      · cases h
      · rename_i husable
        refine ⟨by simpa using husable, ?_⟩
        split at h
        · rename_i hdirectory
          exact ⟨hextends _ h hdirectory, ih h⟩
        · cases h
        · rename_i hnone
          refine ⟨hextends _ h ?_, ih h⟩
          have hne : w.entry? (step.apply location) ≠ some .directory := by simp [hnone]
          rw [entry?_insert (ne_nil_of_not_directory hne), if_pos rfl]

theorem makeSteps_of_stands {steps : List Step} (h : w.Stands location steps) :
    w.makeSteps location steps = (true, w) := by
  induction steps generalizing location with
  | nil => rfl
  | cons step steps ih =>
      obtain ⟨husable, hdirectory, hrest⟩ := h
      rw [makeSteps, husable]
      simp [hdirectory, ih hrest]

theorem makeDirectories_extends (w : Workspace) {parent : Path} (h : p.parent? = some parent) :
    Extends ∅ (w.passed p) w (w.makeDirectories parent).2 := by
  rw [makeDirectories]
  split
  · exact .refl w
  · rename_i hempty
    split
    · exact .refl w
    · obtain ⟨habsolute, hmoves⟩ := Path.moves_parent h (by simpa using hempty)
      exact (makeSteps_extends w _ _).mono subset_rfl (way_subset_passed habsolute hmoves)

/-- The directory of a path and those above it are there. -/
def Made (w : Workspace) (p : Path) : Prop :=
  p.text = "" ∨ p.isUsable = true ∧ w.Stands (w.start p) p.steps

theorem Extends.made {written made : Set Location} (h : Extends written made w w')
    (hmade : w.Made p) : w'.Made p := by
  refine hmade.imp_right fun ⟨husable, hstands⟩ => ⟨husable, ?_⟩
  rw [h.start]
  exact h.stands hstands

theorem made_of_makeDirectories (h : w.makeDirectories p = (true, w')) : w'.Made p := by
  rw [makeDirectories] at h
  split at h
  · rename_i hempty
    exact .inl (by simpa using hempty)
  · split at h
    · cases h
    · rename_i husable
      have hextends := makeSteps_extends w (w.start p) p.steps
      rw [h] at hextends
      refine .inr ⟨by simpa using husable, ?_⟩
      rw [hextends.start]
      exact stands_of_makeSteps h

theorem makeDirectories_of_made (h : w.Made p) : w.makeDirectories p = (true, w) := by
  rcases h with hempty | ⟨husable, hstands⟩
  · simp [makeDirectories, hempty]
  · rw [makeDirectories, makeSteps_of_stands hstands, husable]
    simp

/-- Makes the directories above a path. -/
def makeParent (w : Workspace) (p : Path) : Bool × Workspace :=
  match p.parent? with
  | some parent => w.makeDirectories parent
  | none => (true, w)

/-- The directories above a path are there. -/
def HasParent (w : Workspace) (p : Path) : Prop :=
  ∀ parent, p.parent? = some parent → w.Made parent

/-- Making the directories above a path makes nothing beside its way. -/
theorem makeParent_extends (w : Workspace) (p : Path) :
    Extends ∅ (w.passed p) w (w.makeParent p).2 := by
  rw [makeParent]
  split
  · rename_i parent hparent
    exact makeDirectories_extends w hparent
  · exact .refl w

theorem hasParent_of_makeParent (h : w.makeParent p = (true, w')) : w'.HasParent p := by
  intro parent hparent
  rw [makeParent, hparent] at h
  exact made_of_makeDirectories h

theorem makeParent_of_hasParent (h : w.HasParent p) : w.makeParent p = (true, w) := by
  rw [makeParent]
  split
  · rename_i parent hparent
    exact makeDirectories_of_made (h parent hparent)
  · rfl

/-! ## Writing files -/

theorem writeBytes_extends (w : Workspace) (p : Path) (content : ByteArray) :
    Extends {w.target p} (w.passed p) w (w.writeBytes p content).2 := by
  rw [writeBytes]
  split
  · exact .refl w
  · rename_i hlocate
    obtain ⟨-, rfl⟩ := locate_eq_ok_iff.mp hlocate
    split
    · exact .refl w
    · rename_i hentry
      exact .insert hentry (.inr rfl) (target_mem_passed w p)

theorem find_of_writeBytes {content : ByteArray} (h : w.writeBytes p content = (true, w')) :
    w'.find p = .ok (.file content) := by
  have hextends := writeBytes_extends w p content
  rw [h] at hextends
  rw [writeBytes] at h
  split at h
  · cases h
  · rename_i hlocate
    obtain ⟨-, rfl⟩ := locate_eq_ok_iff.mp hlocate
    split at h
    · cases h
    · rename_i hentry
      rw [find_eq_ok_iff, hextends.target]
      refine ⟨hextends.locate hlocate, ?_⟩
      cases h
      rw [entry?_insert (ne_nil_of_not_directory hentry), if_pos rfl]

/-- Writing what stands there already changes nothing. -/
theorem writeBytes_of_find {content : ByteArray} (h : w.find p = .ok (.file content)) :
    ∃ w', w.writeBytes p content = (true, w') ∧ Extends ∅ ∅ w w' := by
  obtain ⟨hlocate, hentry⟩ := find_eq_ok_iff.mp h
  refine ⟨w.insert (w.target p) (.file content), by simp [writeBytes, hlocate, hentry], ?_⟩
  have hne : w.entry? (w.target p) ≠ some .directory := by simp [hentry]
  have hsame : ∀ other, entry? (w.insert (w.target p) (.file content)) other = w.entry? other := by
    intro other
    rw [entry?_insert (ne_nil_of_not_directory hne)]
    split
    · rename_i hother
      rw [hother, hentry]
    · rfl
  exact {
    current := rfl
    kept := fun location entry hfound _ => (hsame location).trans hfound
    fresh := fun location hnone hfresh => absurd ((hsame location).trans hnone) hfresh }

/-- A file holds a text, and the directories above it are there. -/
structure Holds (w : Workspace) (p : Path) (text : String) : Prop where
  above : w.HasParent p
  reads : w.readText p = .ok text

theorem Extends.holds {written made : Set Location} (h : Extends written made w w') {text : String}
    (hholds : w.Holds p text) (hkept : w.target p ∉ written) : w'.Holds p text where
  above parent hparent := h.made (hholds.above parent hparent)
  reads := h.readText hholds.reads hkept

end OpcodeForge.Workspace
