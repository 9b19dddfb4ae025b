import ApiTree.Proofs.Command.Run
import ApiTree.Proofs.Settings.Project

/-!
# Validating and building strictly

One command builds the document of every version and tells all violations; the other builds, checks
and writes one document after the other and stops at the first with violations. Both come down to
functions of the documents alone (`Document.checkAll`, `Document.saveAll`), and as long as documents
without violations can be written the second ends where the first finds something
(`exitCode_validate_iff_build`).
-/

set_option autoImplicit false

namespace ApiTree

/-! ## Documents of versions in order -/

namespace Document

/-- What is found in the documents of versions, up to the first that cannot be built. -/
def checkAll (exclusions : List String) (built : String → Except Fault Fields) :
    List String → Except Fault Unit × List (String × List String)
  | [] => (.ok (), [])
  | version :: versions =>
    match built version with
    | .ok document =>
      let rest := checkAll exclusions built versions
      (rest.1, (version, validate (.map document) exclusions) :: rest.2)
    | .error fault => (.error fault, [])

/-- Documents without violations can be serialized and written, one after the other. -/
def Writable (options : WriteOptions) (built : String → Except Fault Fields) :
    List String → Disk → Prop
  | [], _ => True
  | version :: versions, d =>
    ∀ document, built version = .ok document → validate (.map document) options.exclusions = [] →
      ∃ d', save options built d version = .ok d' ∧ Writable options built versions d'

variable {options : WriteOptions} {built : String → Except Fault Fields} {d : Disk}
  {versions : List String}

/-- All documents are saved where all can be built and none has violations. -/
theorem saveAll_eq_ok_iff (hstrict : options.strict = true)
    (hwritable : Writable options built versions d) :
    (saveAll options built versions d).1 = .ok () ↔
      (checkAll options.exclusions built versions).1 = .ok () ∧
        ∀ report ∈ (checkAll options.exclusions built versions).2, report.2 = [] := by
  induction versions generalizing d with
  | nil => simp [saveAll, checkAll]
  | cons version versions ih =>
    rw [saveAll, checkAll]
    cases hbuilt : built version with
    | error fault =>
      have hsave : save options built d version = .error fault := by
        rw [save, hbuilt]
        rfl
      simp [hsave]
    | ok document =>
      by_cases hvalid : validate (.map document) options.exclusions = []
      · obtain ⟨d', hsave, hrest⟩ := hwritable document hbuilt hvalid
        simp [hsave, ih hrest, hvalid]
      · simp [save_of_violations hstrict hbuilt hvalid, hvalid]

/-- What is found first is found in the document of the first version. -/
theorem exists_of_checkAll_eq_cons {exclusions : List String} {report : String × List String}
    {rest : List (String × List String)}
    (h : (checkAll exclusions built versions).2 = report :: rest) :
    ∃ version others document, versions = version :: others ∧ built version = .ok document ∧
      report = (version, validate (.map document) exclusions) ∧
      (checkAll exclusions built others).2 = rest := by
  cases versions with
  | nil => simp [checkAll] at h
  | cons version others =>
    rw [checkAll] at h
    cases hbuilt : built version with
    | error fault => simp [hbuilt] at h
    | ok document =>
      simp only [hbuilt, List.cons.injEq] at h
      exact ⟨version, others, document, rfl, hbuilt, h.1.symm, h.2⟩

/-- The saving stops at the first document in which something is found, after those before it. -/
theorem saveAll_of_report (hstrict : options.strict = true)
    (hwritable : Writable options built versions d) {done rest : List (String × List String)}
    {version : String} {found : List String}
    (hreports : (checkAll options.exclusions built versions).2 = done ++ (version, found) :: rest)
    (hdone : ∀ report ∈ done, report.2 = []) (hfound : found ≠ []) :
    ∃ d', saveAll options built (done.map Prod.fst) d = (.ok (), d') ∧
      saveAll options built versions d = (.error (.violations found), d') := by
  induction done generalizing versions d with
  | nil =>
    obtain ⟨v, others, document, rfl, hbuilt, hreport, -⟩ := exists_of_checkAll_eq_cons hreports
    obtain ⟨-, rfl⟩ := Prod.mk.inj hreport
    exact ⟨d, rfl, by rw [saveAll, save_of_violations hstrict hbuilt hfound]⟩
  | cons report done ih =>
    rw [List.forall_mem_cons] at hdone
    obtain ⟨v, others, document, rfl, hbuilt, rfl, hothers⟩ := exists_of_checkAll_eq_cons hreports
    obtain ⟨d', hsave, hrest⟩ := hwritable document hbuilt hdone.1
    obtain ⟨d'', hbefore, hall⟩ := ih hrest hothers hdone.2
    refine ⟨d'', ?_, ?_⟩
    · rw [List.map_cons, saveAll, hsave]
      exact hbefore
    · rw [saveAll, hsave]
      exact hall

/-- Where nothing is found in any document, all are checked. -/
theorem checkAll_of_clean {exclusions : List String}
    (h : ∀ version ∈ versions, ∃ document, built version = .ok document ∧
      validate (.map document) exclusions = []) :
    (checkAll exclusions built versions).1 = .ok () ∧
      ∀ report ∈ (checkAll exclusions built versions).2, report.2 = [] := by
  induction versions with
  | nil => exact ⟨rfl, fun report hreport => by cases hreport⟩
  | cons version versions ih =>
    rw [List.forall_mem_cons] at h
    obtain ⟨⟨document, hbuilt, hvalid⟩, hrest⟩ := h
    obtain ⟨hresult, hclean⟩ := ih hrest
    simp only [checkAll, hbuilt]
    exact ⟨hresult, List.forall_mem_cons.mpr ⟨hvalid, hclean⟩⟩

/-- Nothing is told about a document when all its violations are excluded. -/
theorem validate_eq_nil_iff {document : Value} {exclusions : List String} :
    validate document exclusions = [] ↔
      ∀ violation ∈ Schema.check OpenApi.definitions OpenApi.document document,
        violation.message ∈ exclusions := by
  rw [validate, violations, List.filter_eq_nil_iff, List.forall_mem_map]
  simp only [(List.mergeSort_perm _ _).mem_iff, Bool.not_eq_true', List.contains_eq_mem,
    decide_eq_false_iff_not, not_not]

end Document

open Document

namespace Command

/-! ## Validating -/

/-- What is said about the document of a version. -/
def reportLines (console : Console) (report : String × List String) : List String :=
  if report.2.isEmpty then (console.message? .success (report.1 ++ ": valid")).toList
  else report.2.map fun violation => "Warning: " ++ (report.1 ++ ": " ++ violation) ++ "\n"

/-- The violations that are found, each after its version. -/
def labelled (report : String × List String) : List String :=
  report.2.map fun violation => report.1 ++ ": " ++ violation

variable (console : Console) {settings : Settings} {c : Catalog} {h : History} {s t : Session}

theorem exec_validateVersion_of_ok {version : String} {document : Fields}
    (hbuild : exec (Document.build version settings.legacyPrefixes) s = (.ok document, t)) :
    let report := (version, Document.validate (.map document) settings.exclusions)
    exec (validateVersion console settings version) s =
      (.ok (labelled report),
        { t with events := t.events ++ (reportLines console report).map .diagnostic }) := by
  intro report
  simp only [validateVersion, exec_bind_of_ok hbuild, exec_bind, exec_forIn_say]
  by_cases hempty : (Document.validate (.map document) settings.exclusions).isEmpty = true
  · have hnil := List.isEmpty_iff.mp hempty
    rw [if_pos hempty, reportLines, if_pos hempty, exec_bind, exec_say, hnil]
    simp [exec_pure, report, labelled, hnil]
  · rw [if_neg hempty, reportLines, if_neg hempty]
    simp [exec_pure, report, labelled, Console.message?, Function.comp_def, ← List.map_eq_flatMap]

variable {built : String → Except Fault Fields}

/-- All violations are told, version by version, up to the first document that cannot be built. -/
theorem exec_mapM_validateVersion (hr : Remembers c h s)
    (hbuilt : ∀ version,
      c.builtFrom (h.staticTree version) h.tableTree version settings.legacyPrefixes =
        built version)
    (versions : List String) :
    let checked := checkAll settings.exclusions built versions
    let t := exec (versions.mapM (validateVersion console settings)) s
    t.1 = checked.1.map (fun _ => checked.2.map labelled) ∧
      t.2.diagnostics = s.diagnostics ++ checked.2.flatMap (reportLines console) := by
  induction versions generalizing h s with
  | nil => exact ⟨rfl, by simp [checkAll, exec_pure]⟩
  | cons version versions ih =>
    obtain ⟨hanswer, hkept⟩ := hr.gives_build version settings.legacyPrefixes
    have hlogs := (onlyLogs_build version settings.legacyPrefixes).diagnostics s
    have hsame := sameAnswers_after c h (.build version settings.legacyPrefixes)
    rw [hbuilt] at hanswer
    rw [List.mapM_cons, checkAll, ← hanswer, exec_bind]
    rcases hbuild : exec (Document.build version settings.legacyPrefixes) s with ⟨fault | document, u⟩
    · rw [hbuild] at hlogs
      have hexec : exec (validateVersion console settings version) s = (.error fault, u) := by
        rw [validateVersion, exec_bind, hbuild]
      rw [hexec]
      exact ⟨rfl, by simpa using hlogs⟩
    · rw [hbuild] at hlogs hkept
      let report := (version, Document.validate (.map document) settings.exclusions)
      let next : Session :=
        { u with events := u.events ++ (reportLines console report).map .diagnostic }
      have hexec : exec (validateVersion console settings version) s = (.ok (labelled report), next) :=
        exec_validateVersion_of_ok console hbuild
      have hnext : next.diagnostics = s.diagnostics ++ reportLines console report :=
        (diagnostics_of_diagnostics u _).trans (congrArg (· ++ _) hlogs)
      have hkept' : Remembers c _ next := hkept.with_events _
      obtain ⟨hrest, hlines⟩ := ih hkept' fun v => (hsame.builtFrom v _).trans (hbuilt v)
      rw [hnext] at hlines
      rw [hexec]
      simp only
      rw [exec_bind]
      rcases hexec' : exec (versions.mapM (validateVersion console settings)) next with ⟨result, w⟩
      rw [hexec'] at hrest hlines
      cases hall : (checkAll settings.exclusions built versions).1 with
      | error fault =>
        rw [hall] at hrest
        obtain rfl := hrest
        exact ⟨rfl, by rw [List.flatMap_cons, ← List.append_assoc]; exact hlines⟩
      | ok _ =>
        rw [hall] at hrest
        obtain rfl := hrest
        exact ⟨rfl, by rw [List.flatMap_cons, ← List.append_assoc]; exact hlines⟩

theorem flatten_labelled_eq_nil {reports : List (String × List String)} :
    (reports.map labelled).flatten = [] ↔ ∀ report ∈ reports, report.2 = [] := by
  rw [List.flatten_eq_nil_iff, List.forall_mem_map]
  exact forall₂_congr fun report _ => List.map_eq_nil_iff

/-- Validating the documents of given versions. -/
def validateEach (console : Console) (settings : Settings) (versions : List String) : Run Unit := do
  let violations ← versions.mapM (validateVersion console settings)
  if !violations.flatten.isEmpty then throw (.violations violations.flatten)

/-- Nothing fails where all documents can be built and nothing is found. -/
theorem exec_validateEach (hr : Remembers c h s)
    (hbuilt : ∀ version,
      c.builtFrom (h.staticTree version) h.tableTree version settings.legacyPrefixes =
        built version)
    (versions : List String) :
    let checked := checkAll settings.exclusions built versions
    let t := exec (validateEach console settings versions) s
    (t.1 = .ok () ↔ checked.1 = .ok () ∧ ∀ report ∈ checked.2, report.2 = []) ∧
      t.2.diagnostics = s.diagnostics ++ checked.2.flatMap (reportLines console) := by
  intro checked
  obtain ⟨hresult, hlines⟩ := exec_mapM_validateVersion console hr hbuilt versions
  rw [validateEach, exec_bind, ← flatten_labelled_eq_nil]
  rcases hexec : exec (versions.mapM (validateVersion console settings)) s with ⟨result, t⟩
  rw [hexec] at hresult hlines
  change result = checked.1.map fun _ => checked.2.map labelled at hresult
  cases hall : checked.1 with
  | error fault =>
    obtain rfl : result = .error fault := by rw [hresult, hall]; rfl
    exact ⟨by simp, hlines⟩
  | ok _ =>
    obtain rfl : result = .ok (checked.2.map labelled) := by rw [hresult, hall]; rfl
    simp only
    split
    · next hfound =>
      rw [Bool.not_eq_true', List.isEmpty_eq_false_iff] at hfound
      refine ⟨iff_of_false ?_ fun h => hfound h.2, hlines⟩
      rintro ⟨⟩
    · next hfound =>
      rw [Bool.not_eq_true', List.isEmpty_eq_false_iff, not_not] at hfound
      exact ⟨iff_of_true rfl ⟨trivial, hfound⟩, hlines⟩

section

variable {disk : Disk} {versions : List String}

/-- The document of a version as a new catalog with the settings builds it. -/
def builtOn (settings : Settings) (disk : Disk) (version : String) : Except Fault Fields :=
  (exec (Document.build version settings.legacyPrefixes) { disk, catalog := settings.catalog }).1

/-- The versions that are asked for, or all. -/
def selectedOn (settings : Settings) (disk : Disk) (versions : List String) :
    Except Fault (List String) :=
  if versions.isEmpty then (exec Run.versions { disk, catalog := settings.catalog }).1
  else .ok versions

/-- How documents are written when those with violations are refused. -/
def strictOptions (settings : Settings) : Document.WriteOptions :=
  { directory := settings.outputDir, format := settings.format
    legacyPrefixes := settings.legacyPrefixes, exclusions := settings.exclusions, strict := true }

theorem builtFrom_eq_builtOn (settings : Settings) (disk : Disk) (version : String) :
    settings.catalog.builtFrom disk disk version settings.legacyPrefixes =
      builtOn settings disk version :=
  (exec_build_eq rfl).symm

theorem remembers_settings (settings : Settings) (disk : Disk) :
    Remembers settings.catalog { disk } { disk, catalog := settings.catalog } :=
  remembers_start _ _ rfl

/-- Selecting versions says nothing, and leaves what the catalog builds. -/
theorem exists_selected (settings : Settings) (disk : Disk) (versions : List String) :
    ∃ h t, exec (if versions.isEmpty then Run.versions else pure versions)
        { disk, catalog := settings.catalog } = (selectedOn settings disk versions, t) ∧
      Remembers settings.catalog h t ∧ SameAnswers settings.catalog { disk } h ∧
      t.diagnostics = [] := by
  have hr := remembers_settings settings disk
  rw [selectedOn]
  split
  · exact ⟨_, (exec Run.versions { disk, catalog := settings.catalog }).2, rfl,
      hr.gives_versions.2, sameAnswers_after _ _ .versions, onlyLogs_versions.diagnostics _⟩
  · exact ⟨_, _, rfl, hr, .refl _ _, rfl⟩

theorem validate_eq : validate console settings versions =
    (if versions.isEmpty then Run.versions else pure versions) >>= validateEach console settings := by
  rw [validate]
  split <;> rfl

/-- Validating ends with a fault when the versions cannot be read, a document cannot be built or
something is found. -/
theorem exec_validate :
    let t := exec (validate console settings versions) { disk, catalog := settings.catalog }
    (∀ fault, selectedOn settings disk versions = .error fault → t.1 = .error fault) ∧
    ∀ vs, selectedOn settings disk versions = .ok vs →
      let checked := checkAll settings.exclusions (builtOn settings disk) vs
      (t.1 = .ok () ↔ checked.1 = .ok () ∧ ∀ report ∈ checked.2, report.2 = []) ∧
      t.2.diagnostics = checked.2.flatMap (reportLines console) := by
  obtain ⟨h, u, hselect, hr, hsame, hnothing⟩ := exists_selected settings disk versions
  rw [validate_eq, exec_bind, hselect]
  refine ⟨fun fault hfault => ?_, fun vs hvs => ?_⟩
  · rw [hfault]
  · rw [hvs]
    obtain ⟨hresult, hlines⟩ := exec_validateEach console hr
      (fun version => (hsame.builtFrom version _).trans (builtFrom_eq_builtOn settings disk version))
      vs
    rw [hnothing, List.nil_append] at hlines
    exact ⟨hresult, hlines⟩

/-- The session in which documents are written, once it is told where. -/
def announced (console : Console) (settings : Settings) (s : Session) : Session :=
  { s with
    events := s.events ++ (console.message? .info ("Compiling " ++ settings.root.render ++ " into " ++
      settings.outputDir.render)).toList.map .diagnostic }

/-- The versions whose documents a command writes, where none is given for all. -/
def named? (versions : List String) : Option (List String) :=
  if versions.isEmpty then none else some versions

/-- Building is writing, which is told before and after. -/
theorem exists_exec_build {result : Except Fault (List FilePath)}
    (hwrite : exec (Document.writeAll (strictOptions settings) (named? versions))
      (announced console settings s) = (result, t)) :
    ∃ events, exec (build console settings versions true) s =
      (result.map fun _ => (), { t with events }) := by
  rw [announced, strictOptions, named?] at hwrite
  rw [build, exec_bind, exec_say]
  simp only [exec_bind, exec_forIn_say, exec_pure, hwrite]
  cases result with
  | error fault => exact ⟨t.events, rfl⟩
  | ok written => exact ⟨_, rfl⟩

theorem elim_named? (settings : Settings) (disk : Disk) (versions : List String) :
    (named? versions).elim (settings.catalog.readVersions disk) .ok =
      selectedOn settings disk versions := by
  rw [named?, selectedOn]
  split
  · exact (remembers_settings settings disk).gives_versions.1.symm
  · rfl

/-- Building strictly ends as the documents are saved. -/
theorem exec_build (hl : Lasts settings.catalog settings.outputDir disk) :
    let t := exec (build console settings versions true) { disk, catalog := settings.catalog }
    (∀ fault, selectedOn settings disk versions = .error fault → t.1 = .error fault) ∧
    ∀ vs, selectedOn settings disk versions = .ok vs →
      let saved := saveAll (strictOptions settings) (builtOn settings disk) vs disk
      t.1 = saved.1 ∧ t.2.disk = saved.2 := by
  have hlasts : Lasts settings.catalog (strictOptions settings).directory disk := hl
  have hr : Remembers settings.catalog { disk }
      (announced console settings { disk, catalog := settings.catalog }) :=
    (remembers_settings settings disk).with_events _
  obtain ⟨h', -, hkept, -, hwrite⟩ := hr.exec_writeAll hlasts
    (builtFrom_eq_builtOn settings disk) (named? versions)
  rcases hexec : exec (Document.writeAll (strictOptions settings) (named? versions))
    (announced console settings { disk, catalog := settings.catalog }) with ⟨result, t⟩
  obtain ⟨events, hbuild⟩ := exists_exec_build console hexec
  rw [hexec] at hkept hwrite
  obtain ⟨herror, hok⟩ := hwrite
  change ∀ fault, (named? versions).elim (settings.catalog.readVersions disk) .ok = _ → _ at herror
  change ∀ vs, (named? versions).elim (settings.catalog.readVersions disk) .ok = _ → _ at hok
  rw [elim_named?] at herror hok
  rw [hbuild]
  refine ⟨fun fault hfault => ?_, fun vs hvs => ?_⟩
  · obtain ⟨rfl, -⟩ := herror fault hfault
    rfl
  · obtain ⟨rfl, hdisk⟩ := hok vs hvs
    refine ⟨?_, hkept.disk.trans hdisk⟩
    change Except.map _ (Except.map _ (saveAll _ _ vs disk).1) = _
    cases (saveAll (strictOptions settings) (builtOn settings disk) vs disk).1 <;> rfl

/-- Over a tree the two steps agree, where documents without violations can be written. -/
theorem exec_validate_iff_build (hl : Lasts settings.catalog settings.outputDir disk)
    (hwritable : ∀ vs, selectedOn settings disk versions = .ok vs →
      Document.Writable (strictOptions settings) (builtOn settings disk) vs disk) :
    let start : Session := { disk, catalog := settings.catalog }
    let validated := exec (validate console settings versions) start
    let compiled := exec (build console settings versions true) start
    (validated.1 = .ok () ↔ compiled.1 = .ok ()) ∧
    ∀ vs, selectedOn settings disk versions = .ok vs →
      let reports := (checkAll settings.exclusions (builtOn settings disk) vs).2
      validated.2.diagnostics = reports.flatMap (reportLines console) ∧
      ∀ done version found rest, reports = done ++ (version, found) :: rest →
        (∀ report ∈ done, report.2 = []) → found ≠ [] →
        compiled.1 = .error (.violations found) ∧
        saveAll (strictOptions settings) (builtOn settings disk) (done.map Prod.fst) disk =
          (.ok (), compiled.2.disk) := by
  intro start validated compiled
  obtain ⟨hunread, hvalidated⟩ :
    (∀ fault, selectedOn settings disk versions = .error fault → validated.1 = .error fault) ∧ _ :=
    exec_validate console
  obtain ⟨hunread', hcompiled⟩ :
    (∀ fault, selectedOn settings disk versions = .error fault → compiled.1 = .error fault) ∧ _ :=
    exec_build console hl
  refine ⟨?_, fun vs hvs => ?_⟩
  · cases hselected : selectedOn settings disk versions with
    | error fault => rw [hunread fault hselected, hunread' fault hselected]
    | ok vs =>
      rw [(hvalidated vs hselected).1, (hcompiled vs hselected).1]
      exact (saveAll_eq_ok_iff rfl (hwritable vs hselected)).symm
  · refine ⟨(hvalidated vs hvs).2, fun done version found rest hreports hdone hfound => ?_⟩
    obtain ⟨d, hbefore, hall⟩ := saveAll_of_report rfl (hwritable vs hvs) hreports hdone hfound
    obtain ⟨hresult, hdisk⟩ := hcompiled vs hvs
    rw [hall] at hresult hdisk
    exact ⟨hresult, by rw [hdisk]; exact hbefore⟩

end

/-- What is wrong with a bare document. -/
def bareViolations : List String :=
  ["The property '#/' 'openapi' is a required property",
    "The property '#/info' 'title' is a required property"]

/-- A project file that excludes these violations. -/
def projectText : String :=
  "\x7b\"validation_exclusions\": [
    \"The property '#/' 'openapi' is a required property\",
    \"The property '#/info' 'title' is a required property\"]\x7d"

/-- A tree below `spec` with an empty file for one version, the project file and other files. -/
def projectTree (others : List (List String × DiskEntry)) : Disk :=
  ⟨["w"],
    (["w", "specsmith.json"], .file projectText.toUTF8) ::
      (["w", "spec"], .directory) ::
      (["w", "spec", "open_api"], .directory) ::
      (["w", "spec", "open_api", "1.yml"], .file "".toUTF8) :: others⟩

/-- The settings of the project with a root. -/
def projectSettings (rootText : String) : Settings :=
  { root := FilePath.ofText rootText, exclusions := bareViolations }

theorem isTree_projectTree : (projectTree []).IsTree := by
  refine ⟨⟨by decide, ?_, ?_, fun l content h => ?_⟩, by decide⟩
  · simp only [projectTree, List.forall_mem_cons]
    exact ⟨by decide, by decide, by decide, by decide, fun _ h => by cases h⟩
  · simp only [projectTree, List.forall_mem_cons]
    exact ⟨rfl, rfl, rfl, rfl, fun _ h => by cases h⟩
  · have hkeys : ∀ l ∈ Entries.keys (projectTree []).entries, ¬ l <+: ["w"] := by decide
    exact hkeys l (List.mem_map_of_mem (f := Prod.fst) h)

section

variable {rootText version : String}

theorem settingsOf_projectTree (rootText : String) (versions : List String) :
    settingsOf (projectTree []) [] { root := some rootText } (.validate versions) =
      .ok (projectSettings rootText) := by
  have htext : Settings.HasText (projectTree []) (Settings.projectPath (projectTree []) none)
      projectText := Settings.hasText_of_read rfl
  have hjson : Json.readText projectText.toList =
      .ok (.map [(.str "validation_exclusions", .seq (bareViolations.map .str))]) := by
    cbv
  rw [settingsOf, Settings.resolve, Option.map_none, Settings.loadProject_of_text htext,
    Settings.parseProject, hjson]
  rfl

/-- The documents of versions to which the tree gives nothing are bare. -/
theorem builtOn_projectTree
    (htable : (projectSettings rootText).catalog.readTable (projectTree []) = .ok [])
    (hstatic : StaticPart.files (projectTree []) (projectSettings rootText).catalog.root version = []) :
    builtOn (projectSettings rootText) (projectTree []) version = .ok (bare version) := by
  rw [← builtFrom_eq_builtOn]
  exact builtFrom_of_nothing hstatic htable fun k hk => by cases OperationTable.mem_operations.mp hk

theorem validate_bare : ∀ version ∈ ["draft", "1"],
    Document.validate (.map (bare version)) bareViolations = [] := by
  simp only [validate_eq_nil_iff]
  decide +kernel

/-- The entry of the file with a document. -/
def writtenFile (version : String) (content : ByteArray) : List String × DiskEntry :=
  (["w", "openapi", version ++ ".json"], .file content)

theorem save_projectTree {d : Disk} {d' : ByteArray → Disk} (hversion : version ∈ ["draft", "1"])
    (hbuilt : builtOn (projectSettings rootText) (projectTree []) version = .ok (bare version))
    (hwrite : ∀ content,
      d.write (fileOf ⟨.relative, ["openapi"]⟩ .json version) content = .ok (d' content)) :
    ∃ content, save (strictOptions (projectSettings rootText))
      (builtOn (projectSettings rootText) (projectTree [])) d version = .ok (d' content) := by
  obtain ⟨text, htext⟩ : ∃ text, DocumentFormat.json.write (.map (bare version)) = .ok text :=
    ⟨_, rfl⟩
  exact ⟨_, save_eq_ok.mpr
    ⟨_, text, hbuilt, fun _ => validate_bare version hversion, htext, hwrite _⟩⟩

theorem write_draft_projectTree (content : ByteArray) :
    (projectTree []).write (fileOf ⟨.relative, ["openapi"]⟩ .json "draft") content =
      .ok (projectTree [(["w", "openapi"], .directory), writtenFile "draft" content]) := by
  cbv

theorem write_one_projectTree (content content' : ByteArray) :
    (projectTree [(["w", "openapi"], .directory), writtenFile "draft" content]).write
        (fileOf ⟨.relative, ["openapi"]⟩ .json "1") content' =
      .ok (projectTree [(["w", "openapi"], .directory), writtenFile "draft" content,
        writtenFile "1" content']) := by
  cbv

/-- Validating exits with zero where nothing is found in any document. -/
theorem exitCode_validate_of_clean {args : List String} {common : Common} {versions vs : List String}
    {environment : Environment} {disk : Disk} {settings : Settings}
    (hargs : Request.ofArguments args = .perform common (.validate versions)) (terminal : Bool)
    (hsettings : settingsOf disk environment common (.validate versions) = .ok settings)
    (hvs : selectedOn settings disk versions = .ok vs)
    (hclean : ∀ version ∈ vs, ∃ document, builtOn settings disk version = .ok document ∧
      Document.validate (.map document) settings.exclusions = []) :
    (run args environment terminal disk).exitCode = 0 := by
  have hrun := (run_of_perform hargs environment terminal disk).1
  rw [hrun, exec_perform, hsettings, exitCodeOf_eq_zero_iff]
  exact ((exec_validate _).2 vs hvs).1.mpr (checkAll_of_clean hclean)

end

theorem readTable_spec : (projectSettings "spec").catalog.readTable (projectTree []) = .ok [] := by
  cbv

theorem files_spec_draft :
    StaticPart.files (projectTree []) (projectSettings "spec").catalog.root "draft" = [] := by
  cbv

theorem isDirectory_spec : (projectTree []).isDirectory (projectSettings "spec").root = true := by
  cbv

theorem selectedOn_spec : selectedOn (projectSettings "spec") (projectTree []) [] = .ok ["draft"] := by
  rw [← elim_named?]
  change (projectSettings "spec").catalog.readVersions (projectTree []) = _
  rw [Catalog.readVersions, readTable_spec]
  cbv

theorem readTable_detour :
    (projectSettings "openapi/../spec").catalog.readTable (projectTree []) = .ok [] := by
  cbv

theorem files_detour_draft :
    StaticPart.files (projectTree []) (projectSettings "openapi/../spec").catalog.root "draft" = [] := by
  cbv

theorem files_detour_one :
    StaticPart.files (projectTree []) (projectSettings "openapi/../spec").catalog.root "1" = [] := by
  cbv

/-- The documents of both versions are bare as long as the root is not found. -/
theorem builtOn_detour : ∀ version ∈ ["draft", "1"],
    builtOn (projectSettings "openapi/../spec") (projectTree []) version = .ok (bare version) := by
  simp only [List.forall_mem_cons]
  exact ⟨builtOn_projectTree readTable_detour files_detour_draft,
    builtOn_projectTree readTable_detour files_detour_one, fun _ h => by cases h⟩

/-- Once the directory of documents is there, the empty file is found, which is no static part. -/
theorem readStatic_detour (content : ByteArray) :
    (projectSettings "openapi/../spec").catalog.readStatic
        (projectTree [(["w", "openapi"], .directory), writtenFile "draft" content]) "1" =
      .error (.notMapping "openapi/../spec/open_api/1.yml") := by
  cbv

/-- Once the first document is written, the second cannot be built. -/
theorem exec_build_detour (console : Console) :
    let settings := projectSettings "openapi/../spec"
    (exec (build console settings ["draft", "1"] true)
        { disk := projectTree [], catalog := settings.catalog }).1 =
      .error (.notMapping "openapi/../spec/open_api/1.yml") := by
  intro settings
  let start := announced console settings { disk := projectTree [], catalog := settings.catalog }
  have hr : Remembers settings.catalog { disk := projectTree [] } start :=
    (remembers_settings settings (projectTree [])).with_events _
  obtain ⟨content, hsave⟩ :=
    save_projectTree (by decide) (builtOn_detour "draft" (by decide)) write_draft_projectTree
  have hwrite := hr.exec_writeAll_pair (builtFrom_eq_builtOn settings _) hsave
    (show "1" ≠ "draft" by decide) rfl (readStatic_detour content)
  rcases hexec : exec (Document.writeAll (strictOptions settings) (named? ["draft", "1"])) start with
    ⟨result, t⟩
  obtain ⟨events, hbuild⟩ := exists_exec_build console hexec
  rw [hbuild]
  obtain rfl : result = _ := (congrArg Prod.fst hexec).symm.trans hwrite
  rfl

end Command
end ApiTree
