import ApiTree.Proofs.Command.Run
import ApiTree.Proofs.Json.Digits

/-!
# Broken project files

The settings of a run are found, or the user is told what is wrong with the configuration, unless
the reading of the project file ends without a message of its own: its bytes are no text, or an
integer in it has too many digits (`isTold_iff_of_project`). A command that is told of a wrong
configuration ends with its message and leaves the disk as it was.
-/

set_option autoImplicit false

namespace ApiTree

/-- The fault tells the user that something is wrong with the configuration. -/
def Fault.IsConfig (fault : Fault) : Prop :=
  ∃ report, fault.report? = some report ∧ report.kind = .config

namespace Settings

variable {disk : Disk} {environment : Environment} {path? : Option FilePath} {given : Fields}

/-- The project file that is read: the one that was asked for, or the usual one. -/
def projectPath (disk : Disk) (path? : Option FilePath) : FilePath := path?.getD (usualFile disk)

/-- A file holds the text. -/
def HasText (disk : Disk) (path : FilePath) (text : String) : Prop :=
  ∃ content, disk.read path = .ok content ∧ String.fromUTF8? content = some text

theorem hasText_of_read {path : FilePath} {text : String}
    (h : disk.read path = .ok text.toUTF8) : HasText disk path text :=
  ⟨_, h, dif_pos text.isValidUTF8⟩

/-! ## The project file -/

/-- The mapping of a project file: that of its JSON object, and none where the usual file is not
there. -/
inductive IsProject (disk : Disk) (path? : Option FilePath) : Fields → Prop where
  | absent (hpath : path? = none) (hfile : disk.isFile (usualFile disk) = false) :
      IsProject disk path? []
  | object {text : String} {entries : Fields} (htext : HasText disk (projectPath disk path?) text)
      (hjson : Json.readText text.toList = .ok (.map entries)) : IsProject disk path? entries

/-- The project file is refused: the one that was asked for is not there, or its text is not that of
a JSON object. -/
inductive IsBroken (disk : Disk) (path? : Option FilePath) : Prop where
  | missing {path : FilePath} (hpath : path? = some path) (hfile : disk.isFile path = false) :
      IsBroken disk path?
  | malformed {text : String} (htext : HasText disk (projectPath disk path?) text)
      (hjson : Json.readText text.toList = .error .malformed) : IsBroken disk path?
  | notObject {text : String} {v : Value} (htext : HasText disk (projectPath disk path?) text)
      (hjson : Json.readText text.toList = .ok v) (hkind : ∀ entries, v ≠ .map entries) :
      IsBroken disk path?

/-- The reading of a project file ends with a failure that has no message. -/
inductive ProjectFails (disk : Disk) (path : FilePath) : Failure → Prop where
  /-- Its bytes are no text. -/
  | bytes {content : ByteArray} (hread : disk.read path = .ok content)
      (htext : String.fromUTF8? content = none) : ProjectFails disk path .notText
  /-- The reader comes to an integer that has too many digits. -/
  | integer {text : String} (htext : HasText disk path text)
      (hlong : Json.readText text.toList = .error .longInteger) : ProjectFails disk path .badValue

/-- A file with a text in which no run of digits is longer than an integer may be does not fail. -/
theorem not_projectFails_of_hasShortRuns {path : FilePath} {text : String}
    (htext : HasText disk path text) (hshort : Json.HasShortRuns text.toList) (f : Failure) :
    ¬ ProjectFails disk path f := by
  obtain ⟨content, hread, htext⟩ := htext
  intro h
  cases h with
  | bytes hread' hnone =>
    obtain rfl := Except.ok.inj (hread.symm.trans hread')
    cases htext.symm.trans hnone
  | integer htext' hlong =>
    obtain ⟨content', hread', htext'⟩ := htext'
    obtain rfl := Except.ok.inj (hread.symm.trans hread')
    obtain rfl := Option.some.inj (htext.symm.trans htext')
    exact Json.readText_ne_longInteger hshort hlong

theorem loadProject_of_read {content : ByteArray}
    (hread : disk.read (projectPath disk path?) = .ok content) :
    loadProject disk path? = (readProject disk (projectPath disk path?)).map some := by
  rw [loadProject, ← projectPath, if_pos (Disk.isFile_iff.mpr ⟨content, hread⟩)]

/-- A project file that is a text has the mapping that the text writes. -/
theorem loadProject_of_text {text : String} (h : HasText disk (projectPath disk path?) text) :
    loadProject disk path? = (parseProject (projectPath disk path?).render text).map some := by
  obtain ⟨content, hread, htext⟩ := h
  rw [loadProject_of_read hread, readProject, hread]
  simp only [htext]

theorem loadProject_of_isProject {project : Fields} (h : IsProject disk path? project) :
    ∃ project?, loadProject disk path? = .ok project? ∧ project?.getD [] = project := by
  cases h with
  | absent hpath hfile =>
    subst hpath
    exact ⟨none, by rw [loadProject, Option.getD_none, if_neg (by simp [hfile])]; rfl, rfl⟩
  | object htext hjson =>
    exact ⟨some project, by rw [loadProject_of_text htext, parseProject, hjson]; rfl, rfl⟩

theorem loadProject_of_isBroken (h : IsBroken disk path?) :
    ∃ fault, loadProject disk path? = .error fault ∧ fault.IsConfig := by
  cases h with
  | missing hpath hfile =>
    subst hpath
    exact ⟨_, by rw [loadProject, Option.getD_some, if_neg (by simp [hfile])]; rfl, _, rfl, rfl⟩
  | malformed htext hjson =>
    exact ⟨_, by rw [loadProject_of_text htext, parseProject, hjson]; rfl, _, rfl, rfl⟩
  | @notObject text v htext hjson hkind =>
    refine ⟨.configNotObject (projectPath disk path?).render, ?_, _, rfl, rfl⟩
    rw [loadProject_of_text htext, parseProject, hjson]
    cases v with
    | map entries => exact absurd rfl (hkind entries)
    | _ => rfl

/-- A project file that fails ends the reading in its way. -/
theorem loadProject_of_projectFails {f : Failure}
    (h : ProjectFails disk (projectPath disk path?) f) :
    loadProject disk path? = .error (.failed f) := by
  cases h with
  | bytes hread htext =>
    rw [loadProject_of_read hread, readProject, hread]
    simp only [htext]
    rfl
  | integer htext hlong =>
    rw [loadProject_of_text htext, parseProject, hlong]
    rfl

theorem IsProject.unique {project project' : Fields} (h : IsProject disk path? project)
    (h' : IsProject disk path? project') : project' = project := by
  obtain ⟨project?, hload, rfl⟩ := loadProject_of_isProject h
  obtain ⟨project?', hload', rfl⟩ := loadProject_of_isProject h'
  rw [Except.ok.inj (hload'.symm.trans hload)]

/-- What reading the project file can come to. -/
inductive Loads (disk : Disk) (path? : Option FilePath) : Except Fault (Option Fields) → Prop where
  | found {project? : Option Fields} (h : IsProject disk path? (project?.getD [])) :
      Loads disk path? (.ok project?)
  | broken {fault : Fault} (h : IsBroken disk path?) (hfault : fault.IsConfig) :
      Loads disk path? (.error fault)
  | failed {f : Failure} (h : ProjectFails disk (projectPath disk path?) f) :
      Loads disk path? (.error (.failed f))

theorem loads_of_text {text : String} (h : HasText disk (projectPath disk path?) text) :
    Loads disk path? (loadProject disk path?) := by
  rw [loadProject_of_text h, parseProject]
  cases hjson : Json.readText text.toList with
  | error e =>
    cases e with
    | malformed => exact .broken (.malformed h hjson) ⟨_, rfl, rfl⟩
    | longInteger => exact .failed (.integer h hjson)
  | ok v =>
    cases v with
    | map entries => exact .found (.object h hjson)
    | _ => exact .broken (.notObject h hjson fun _ heq => by cases heq) ⟨_, rfl, rfl⟩

/-- A project file has a mapping, is refused or fails. -/
theorem loads_loadProject (disk : Disk) (path? : Option FilePath) :
    Loads disk path? (loadProject disk path?) := by
  cases hfile : disk.isFile (projectPath disk path?) with
  | true =>
    obtain ⟨content, hread⟩ := Disk.isFile_iff.mp hfile
    cases htext : String.fromUTF8? content with
    | some text => exact loads_of_text ⟨content, hread, htext⟩
    | none =>
      have hfails := ProjectFails.bytes hread htext
      rw [loadProject_of_projectFails hfails]
      exact .failed hfails
  | false =>
    rw [loadProject, ← projectPath, if_neg (by simp [hfile])]
    cases path? with
    | none => exact .found (.absent rfl hfile)
    | some path => exact .broken (.missing rfl hfile) ⟨_, rfl, rfl⟩

/-! ## The environment -/

/-- Steps that write entries on what was there write them all, one after the other. -/
theorem foldlM_putAll {ε α κ β : Type} [DecidableEq κ] (f : α → Except ε (List (κ × β)))
    (as : List α) (es : List (κ × β)) :
    as.foldlM (fun es a => (f a).map fun new => Entries.putAll new es) es =
      (as.mapM f).map fun news => Entries.putAll news.flatten es := by
  induction as generalizing es with
  | nil => rfl
  | cons a as ih =>
    rw [List.foldlM_cons, List.mapM_cons]
    cases f a with
    | error e => rfl
    | ok new =>
      refine (ih _).trans ?_
      cases as.mapM f with
      | error e => rfl
      | ok news => exact congrArg Except.ok List.foldl_append.symm

/-- What a variable of the environment gives to its setting: nothing if it is empty or not there. -/
def entriesFrom (environment : Environment) (p : String × String) : Except Fault Fields :=
  match environment.lookup p.1 with
  | some text =>
    if text = "" then .ok [] else (variableValue p.1 p.2 text).map fun v => [(.str p.2, v)]
  | none => .ok []

/-- The settings that the environment gives. -/
def environmentFields (environment : Environment) : Except Fault Fields :=
  (variableNames.mapM (entriesFrom environment)).map List.flatten

/-- The environment is a layer over the settings. -/
theorem overlay_eq (environment : Environment) (fields : Fields) :
    overlay environment fields =
      (environmentFields environment).map fun given => Entries.putAll given fields := by
  have hsteps : overlay environment fields = variableNames.foldlM
      (fun fields p => (entriesFrom environment p).map fun new => Entries.putAll new fields)
      fields := by
    -- one step writes at most one entry, that of its variable
    rw [overlay]
    congr 1
    funext fields ⟨name, setting⟩
    rw [entriesFrom]
    dsimp only
    cases environment.lookup name with
    | none => rfl
    | some text =>
      dsimp only
      split
      · rfl
      · cases variableValue name setting text <;> rfl
  rw [hsteps, foldlM_putAll, environmentFields]
  cases variableNames.mapM (entriesFrom environment) <;> rfl

/-- The words for a truth value in the environment. -/
def flagWords : List String := ["1", "true", "yes", "on", "0", "false", "no", "off"]

theorem parseFlag_eq_error_iff {name text : String} {fault : Fault} :
    parseFlag name text = .error fault ↔
      Text.lower (Text.trim text) ∉ flagWords ∧ fault = .badFlag name text := by
  have hwords : Text.lower (Text.trim text) ∈ flagWords ↔
      ["1", "true", "yes", "on"].contains (Text.lower (Text.trim text)) = true ∨
        ["0", "false", "no", "off"].contains (Text.lower (Text.trim text)) = true := by
    rw [List.contains_iff_mem, List.contains_iff_mem, ← List.mem_append]
    rfl
  rw [hwords, not_or, parseFlag]
  cases ["1", "true", "yes", "on"].contains (Text.lower (Text.trim text)) with
  | true => simp
  | false =>
    cases ["0", "false", "no", "off"].contains (Text.lower (Text.trim text)) with
    | true => simp
    | false => simp [eq_comm]

theorem variableValue_eq_error_iff {name setting text : String} {fault : Fault} :
    variableValue name setting text = .error fault ↔
      setting = "draft_only" ∧ Text.lower (Text.trim text) ∉ flagWords ∧
        fault = .badFlag name text := by
  rw [variableValue]
  split
  · next h => rw [map_eq_error, parseFlag_eq_error_iff, and_iff_right h]
  · next h => simp [h]

/-- The variable of a flag is given, with no word for a truth value. -/
structure IsBadFlag (environment : Environment) (name text : String) : Prop where
  lookup : environment.lookup name = some text
  nonempty : text ≠ ""
  word : Text.lower (Text.trim text) ∉ flagWords

theorem entriesFrom_eq_error_iff {name setting : String} {fault : Fault} :
    entriesFrom environment (name, setting) = .error fault ↔
      setting = "draft_only" ∧ ∃ text, IsBadFlag environment name text ∧
        fault = .badFlag name text := by
  rw [entriesFrom]
  constructor
  · intro h
    split at h
    · next text hlookup =>
      split at h
      · cases h
      · next hnonempty =>
        obtain ⟨hsetting, hword, hfault⟩ := variableValue_eq_error_iff.mp (map_eq_error.mp h)
        exact ⟨hsetting, text, ⟨hlookup, hnonempty, hword⟩, hfault⟩
    · cases h
  · rintro ⟨hsetting, text, ⟨hlookup, hnonempty, hword⟩, hfault⟩
    rw [hlookup]
    dsimp only
    rw [if_neg hnonempty, map_eq_error]
    exact variableValue_eq_error_iff.mpr ⟨hsetting, hword, hfault⟩

/-- The environment is refused for its flag alone. -/
theorem environmentFields_eq_error_iff {fault : Fault} :
    environmentFields environment = .error fault ↔
      ∃ text, IsBadFlag environment "SPECSMITH_DRAFT_ONLY" text ∧
        fault = .badFlag "SPECSMITH_DRAFT_ONLY" text := by
  rw [environmentFields, map_eq_error]
  have honly : ∀ fault, variableNames.mapM (entriesFrom environment) = .error fault →
      ∃ text, IsBadFlag environment "SPECSMITH_DRAFT_ONLY" text ∧
        fault = .badFlag "SPECSMITH_DRAFT_ONLY" text := by
    -- the variables of the other settings give any text
    intro fault h
    obtain ⟨⟨name, setting⟩, hp, h⟩ := exists_of_mapM_eq_error h
    obtain ⟨rfl, hflag⟩ := entriesFrom_eq_error_iff.mp h
    obtain rfl : name = "SPECSMITH_DRAFT_ONLY" := by simpa [variableNames] using hp
    exact hflag
  refine ⟨honly fault, ?_⟩
  rintro ⟨text, hflag, rfl⟩
  have hfails : ¬ Succeeds (variableNames.mapM (entriesFrom environment)) := by
    rw [succeeds_mapM]
    intro hall
    obtain ⟨new, hnew⟩ := hall ("SPECSMITH_DRAFT_ONLY", "draft_only") (by decide)
    cases hnew.symm.trans (entriesFrom_eq_error_iff.mpr ⟨rfl, text, hflag, rfl⟩)
  cases hread : variableNames.mapM (entriesFrom environment) with
  | ok news => exact absurd ⟨news, hread⟩ hfails
  | error fault =>
    -- there is one text in the variable
    obtain ⟨text', hflag', rfl⟩ := honly fault hread
    rw [Option.some.inj (hflag'.lookup.symm.trans hflag.lookup)]

/-! ## Faults of the settings -/

/-- What comes of the settings is told: they are found, or the configuration is wrong. -/
def IsTold (r : Except Fault Settings) : Prop :=
  (∃ s, r = .ok s) ∨ ∃ fault, r = .error fault ∧ fault.IsConfig

theorem resolve_error {fault : Fault} (h : resolve disk environment path? given = .error fault) :
    fault.IsConfig ∨ ∃ f, fault = .failed f ∧ ProjectFails disk (projectPath disk path?) f := by
  -- the fault comes from the project file, from the environment or from the values
  rw [resolve] at h
  rcases bind_eq_error.mp h with h | ⟨project, -, h⟩
  · have hloads := loads_loadProject disk path?
    rw [h] at hloads
    cases hloads with
    | broken _ hfault => exact .inl hfault
    | failed hfails => exact .inr ⟨_, rfl, hfails⟩
  rcases bind_eq_error.mp h with h | ⟨fields, -, h⟩
  · rw [overlay_eq, map_eq_error, environmentFields_eq_error_iff] at h
    obtain ⟨text, -, rfl⟩ := h
    exact .inl ⟨_, rfl, rfl⟩
  · obtain ⟨problems, -, rfl⟩ := mapError_eq_error.mp h
    exact .inl ⟨_, rfl, rfl⟩

theorem resolve_eq_failed_iff {f : Failure} :
    resolve disk environment path? given = .error (.failed f) ↔
      ProjectFails disk (projectPath disk path?) f := by
  constructor
  · intro h
    rcases resolve_error h with ⟨report, hreport, -⟩ | ⟨f', heq, hfails⟩
    · cases hreport
    · rwa [Fault.failed.inj heq]
  · intro h
    rw [resolve, loadProject_of_projectFails h]
    rfl

theorem isTold_resolve_iff : IsTold (resolve disk environment path? given) ↔
    ∀ f, ¬ ProjectFails disk (projectPath disk path?) f := by
  constructor
  · rintro (⟨s, hs⟩ | ⟨fault, hfault, report, hreport, -⟩) f hfails
    · cases hs.symm.trans (resolve_eq_failed_iff.mpr hfails)
    · rw [resolve_eq_failed_iff.mpr hfails] at hfault
      obtain rfl := Except.error.inj hfault
      cases hreport
  · intro hnone
    cases h : resolve disk environment path? given with
    | ok s => exact .inl ⟨s, rfl⟩
    | error fault =>
      rcases resolve_error h with hconfig | ⟨f, -, hfails⟩
      · exact .inr ⟨fault, rfl, hconfig⟩
      · exact absurd hfails (hnone f)

end Settings

/-! ## Commands -/

namespace Command

open Settings

theorem exitCodeOf_of_isConfig {fault : Fault} (h : fault.IsConfig) :
    exitCodeOf (.error fault) = 1 := by
  obtain ⟨report, hreport, hkind⟩ := h
  cases fault <;> cases hreport <;> first | rfl | cases hkind

section

variable {args : List String} {common : Common} {action : Action} {environment : Environment}
  {disk : Disk} {fault : Fault}

/-- A command whose settings are refused tells why and does nothing else. -/
theorem run_of_fault (hargs : Request.ofArguments args = .perform common action)
    (hfault : settingsOf disk environment common action = .error fault) (terminal : Bool) :
    run args environment terminal disk =
      ⟨exitCodeOf (.error fault), "",
        "Error: " ++ (fault.report?.map FaultReport.message).getD "Unexpected error" ++ "\n",
        disk⟩ := by
  rw [run_eq hargs, exec_execute, exec_perform, hfault]
  rfl

/-- A command ends with the message about the configuration, or with none that says what is wrong
where the project file fails. -/
theorem run_of_refused (hargs : Request.ofArguments args = .perform common action)
    (hfault : settingsOf disk environment common action = .error fault) (terminal : Bool) :
    (∃ report, fault.report? = some report ∧ report.kind = .config ∧
      run args environment terminal disk = ⟨1, "", "Error: " ++ report.message ++ "\n", disk⟩) ∨
    ∃ f, fault = .failed f ∧
      ProjectFails disk (projectPath disk (common.config.map FilePath.ofText)) f ∧
      run args environment terminal disk = ⟨1, "", "Error: Unexpected error\n", disk⟩ := by
  rw [run_of_fault hargs hfault]
  rcases resolve_error hfault with hconfig | ⟨f, rfl, hfails⟩
  · rw [exitCodeOf_of_isConfig hconfig]
    obtain ⟨report, hreport, hkind⟩ := hconfig
    exact .inl ⟨report, hreport, hkind, by rw [hreport]; rfl⟩
  · exact .inr ⟨f, rfl, hfails, rfl⟩

end

end Command

namespace Settings

open Command

/-- A working directory with nothing but a project file. -/
def projectDisk (content : ByteArray) : Disk := ⟨["w"], [(["w", projectFile], .file content)]⟩

theorem read_projectDisk (content : ByteArray) :
    (projectDisk content).read (projectPath (projectDisk content) none) = .ok content := rfl

theorem hasText_projectDisk (text : String) :
    HasText (projectDisk text.toUTF8) (projectPath (projectDisk text.toUTF8) none) text :=
  hasText_of_read (read_projectDisk _)

end Settings
end ApiTree
