import ApiTree.Proofs.Catalog.Reading
import ApiTree.Proofs.Document.Save

/-!
# Writing documents into a directory

Versions without slashes are written as files of one directory, each under a name of its own. What
was written is there afterwards, and all other files are as they were (`Holds`). The directory may be
that of the tree: the catalog answers as before, and a second run writes what is already there
(`writeAll_of_tree`).
-/

set_option autoImplicit false

namespace ApiTree.Document

variable {c : Catalog} {options : WriteOptions} {directory : FilePath} {format : DocumentFormat}
  {built : String → Except Fault Fields} {d d' d'' : Disk} {v w : String} {versions : List String}

/-! ## Names of files -/

/-- A version without a slash is the name of its file up to the extension. -/
theorem fileOf_eq (hv : '/' ∉ v.toList) :
    fileOf directory format v =
      ⟨directory.anchor, directory.segments ++ [v ++ ("." ++ format.render)]⟩ := by
  have hname : FilePath.IsName (v ++ ("." ++ format.render)) := by
    refine ⟨fun heq => ?_, fun heq => ?_, ?_⟩
    · have hlength := congrArg (fun s : String => s.toList.length) heq
      cases format <;> simp [DocumentFormat.render] at hlength
    · have hlength := congrArg (fun s : String => s.toList.length) heq
      cases format <;> simp [DocumentFormat.render] at hlength
    · rw [String.toList_append, List.mem_append]
      rintro (hslash | hslash)
      · exact hv hslash
      · cases format <;> exact absurd hslash (by decide)
  rw [fileOf, String.append_assoc, FilePath.ofText_eq_of_isName hname, FilePath.join, if_pos rfl]

theorem locate_fileOf (hv : '/' ∉ v.toList) {l : List String}
    (h : d.locate (fileOf directory format v) = .ok l) :
    ∃ above, d.locate directory = .ok above ∧ l = above ++ [v ++ ("." ++ format.render)] := by
  have hname := name_fileOf_ne directory format v
  rw [fileOf_eq hv] at h hname
  rw [FilePath.name, List.getLast?_concat, Option.getD_some] at hname
  rw [Disk.locate, Disk.walk_concat_eq_ok hname] at h
  obtain ⟨above, habove, -, hl⟩ := h
  exact ⟨above, habove, hl⟩

/-- Two versions do not share a file. -/
theorem eq_of_locate_fileOf (hv : '/' ∉ v.toList) (hw : '/' ∉ w.toList) {l : List String}
    (h : d.locate (fileOf directory format v) = .ok l)
    (h' : d.locate (fileOf directory format w) = .ok l) : v = w := by
  obtain ⟨above, habove, rfl⟩ := locate_fileOf hv h
  obtain ⟨above', habove', heq⟩ := locate_fileOf hw h'
  obtain rfl := Except.ok.inj (habove.symm.trans habove')
  have hname := List.singleton_inj.mp (List.append_cancel_left heq)
  rw [← String.toList_inj] at hname
  simp only [String.toList_append] at hname
  exact String.toList_inj.mp (List.append_cancel_right hname)

/-! ## What is written -/

/-- The second disk holds the documents of the given versions, of which none was to be refused, and
every other file as the first disk has it. -/
structure Holds (options : WriteOptions) (built : String → Except Fault Fields)
    (versions : List String) (d d' : Disk) : Prop where
  documents : ∀ v ∈ versions, ∃ document text, built v = .ok document ∧
    (options.strict = true → validate (.map document) options.exclusions = []) ∧
    options.format.write (.map document) = .ok text ∧
    d'.read (fileOf options.directory options.format v) = .ok text.toUTF8
  others : ∀ l, (∀ v ∈ versions, d'.locate (fileOf options.directory options.format v) ≠ .ok l) →
    ∀ content, d'.entryAt l = some (.file content) ↔ d.entryAt l = some (.file content)

/-- The file of a version that was not written is as it was. -/
theorem Holds.entryAt_iff (h : Holds options built versions d d')
    (hversions : ∀ w ∈ versions, '/' ∉ w.toList) (hv : '/' ∉ v.toList) (hnot : v ∉ versions)
    {l : List String} (hl : d'.locate (fileOf options.directory options.format v) = .ok l)
    (content : ByteArray) :
    d'.entryAt l = some (.file content) ↔ d.entryAt l = some (.file content) := by
  refine h.others l (fun w hw hsame => hnot ?_) content
  rwa [eq_of_locate_fileOf hv (hversions w hw) hl hsame]

/-- One more document is saved, and then those of other versions. -/
theorem Holds.cons (hl : Lasts c options.directory d) (hv : '/' ∉ v.toList)
    (hversions : ∀ w ∈ versions, '/' ∉ w.toList) (hsave : save options built d v = .ok d')
    (hkeeps : d'.Keeps d'') (h : Holds options built versions d' d'') :
    Holds options built (v :: versions) d d'' := by
  obtain ⟨document, text, hbuilt, hvalid, htext, hwrite⟩ := save_eq_ok.mp hsave
  obtain ⟨l, hlocate, hwrote, -⟩ := exists_wrote hl.tree hl.directory hwrite
  have hlocate' := Disk.locate_of_directories hkeeps.home hkeeps.directories hlocate
  refine ⟨fun u hu => ?_, fun m hm content => ?_⟩
  · by_cases hmem : u ∈ versions
    · exact h.documents u hmem
    · -- the file is not written again
      obtain rfl : u = v := (List.mem_cons.mp hu).resolve_right hmem
      refine ⟨document, text, hbuilt, hvalid, htext, Disk.read_eq_ok.mpr ⟨l, hlocate', ?_⟩⟩
      exact (h.entryAt_iff hversions hv hmem hlocate' _).mpr hwrote.entry
  · rw [List.forall_mem_cons] at hm
    rw [h.others m hm.2]
    refine hwrote.others m (fun heq => hm.1 ?_) content
    rw [heq, hlocate']

/-- What was saved without a failure is there. -/
theorem holds_saveAll (hl : Lasts c options.directory d)
    (hversions : ∀ w ∈ versions, '/' ∉ w.toList)
    (hsaved : (saveAll options built versions d).1 = .ok ()) :
    Holds options built versions d (saveAll options built versions d).2 := by
  induction versions generalizing d with
  | nil => exact ⟨fun v hv => absurd hv List.not_mem_nil, fun _ _ _ => Iff.rfl⟩
  | cons v versions ih =>
    rw [List.forall_mem_cons] at hversions
    rw [saveAll] at hsaved ⊢
    cases hsave : save options built d v with
    | error fault => rw [hsave] at hsaved; cases hsaved
    | ok d' =>
      rw [hsave] at hsaved
      have hl' := (hl.save hsave).1
      exact (ih hl' hversions.2 hsaved).cons hl hversions.1 hversions.2 hsave
        (hl'.saveAll versions).2

/-- Documents that are there already are saved without a change. -/
theorem saveAll_of_holds (h : ∀ v ∈ versions, ∃ document text, built v = .ok document ∧
      (options.strict = true → validate (.map document) options.exclusions = []) ∧
      options.format.write (.map document) = .ok text ∧
      d.read (fileOf options.directory options.format v) = .ok text.toUTF8) :
    saveAll options built versions d = (.ok (), d) := by
  induction versions with
  | nil => rfl
  | cons v versions ih =>
    rw [List.forall_mem_cons] at h
    obtain ⟨⟨document, text, hbuilt, hvalid, htext, hread⟩, hrest⟩ := h
    have hsave : save options built d v = .ok d :=
      save_eq_ok.mpr ⟨document, text, hbuilt, hvalid, htext,
        Disk.write_of_read (segments_fileOf_ne_nil _ _ _) hread⟩
    rw [saveAll, hsave]
    exact ih hrest

/-! ## Writing in a session -/

section

variable {h : History} {s : Session} {disk : Disk} {named : Option (List String)}

/-- Versions of a table are named without slashes. -/
theorem noSlash_of_selected (hnamed : ∀ vs ∈ named, ∀ v ∈ vs, '/' ∉ v.toList)
    (h : named.elim (c.readVersions disk) .ok = .ok versions) : ∀ v ∈ versions, '/' ∉ v.toList := by
  cases named with
  | none => exact fun v hv => (OperationTable.isToken_of_mem_versions h hv).noSlash
  | some vs =>
    obtain rfl := Except.ok.inj h
    exact hnamed _ rfl

variable {paths : List FilePath}

/-- A catalog whose answers are those about a tree writes the documents of this tree, and goes on
giving these answers. -/
theorem exec_writeAll_of_same (hr : Remembers c h s) (hsame : SameAnswers c { disk } h)
    (hl : Lasts c options.directory h.disk) (named : Option (List String)) :
    let saved := saveAll options (c.builtFrom disk disk · options.legacyPrefixes)
    ∃ h', SameAnswers c { disk } h' ∧ Remembers c h' (exec (writeAll options named) s).2 ∧
      Lasts c options.directory h'.disk ∧
      (∀ fault, named.elim (c.readVersions disk) .ok = .error fault →
        (exec (writeAll options named) s).1 = .error fault ∧ h'.disk = h.disk) ∧
      ∀ vs, named.elim (c.readVersions disk) .ok = .ok vs →
        (exec (writeAll options named) s).1 = (saved vs h.disk).1.map
          (fun _ => vs.map (fileOf options.directory options.format)) ∧
        h'.disk = (saved vs h.disk).2 := by
  intro saved
  obtain ⟨h', hsame', hkept, hlasts, hresult⟩ :=
    hr.exec_writeAll hl (fun version => hsame.builtFrom version options.legacyPrefixes) named
  have hversions : c.readVersions h.tableTree = c.readVersions disk := by
    rw [Catalog.readVersions, hsame.table]
    rfl
  rw [hversions] at hresult
  exact ⟨h', hsame.trans hsame', hkept, hlasts, hresult⟩

/-- What is written without a failure is there. -/
theorem exists_holds_of_ok (hr : Remembers c h s) (hsame : SameAnswers c { disk } h)
    (hl : Lasts c options.directory h.disk) (hnamed : ∀ vs ∈ named, ∀ v ∈ vs, '/' ∉ v.toList)
    (hpaths : (exec (writeAll options named) s).1 = .ok paths) :
    ∃ vs, named.elim (c.readVersions disk) .ok = .ok vs ∧
      paths = vs.map (fileOf options.directory options.format) ∧
      Holds options (c.builtFrom disk disk · options.legacyPrefixes) vs h.disk
        (exec (writeAll options named) s).2.disk := by
  obtain ⟨h', -, hkept, -, herror, hok⟩ := exec_writeAll_of_same hr hsame hl named
  cases hvs : named.elim (c.readVersions disk) .ok with
  | error fault => cases (herror fault hvs).1.symm.trans hpaths
  | ok vs =>
    obtain ⟨hresult, hdisk⟩ := hok vs hvs
    obtain ⟨⟨⟩, hsaved, hfiles⟩ := map_eq_ok.mp (hresult.symm.trans hpaths)
    rw [hkept.disk, hdisk]
    exact ⟨vs, rfl, hfiles.symm, holds_saveAll hl (noSlash_of_selected hnamed hvs) hsaved⟩

/-- The first document that is refused ends the run, after those before it were written. -/
theorem holds_of_violations (hr : Remembers c h s) (hsame : SameAnswers c { disk } h)
    (hl : Lasts c options.directory h.disk) (hnamed : ∀ vs ∈ named, ∀ v ∈ vs, '/' ∉ v.toList)
    {done rest : List String} {document : Fields}
    (hvs : named.elim (c.readVersions disk) .ok = .ok (done ++ v :: rest))
    (hstrict : options.strict = true) (hdone : Succeeds (exec (writeAll options (some done)) s).1)
    (hdocument : c.builtFrom disk disk v options.legacyPrefixes = .ok document)
    (hfound : validate (.map document) options.exclusions ≠ []) :
    let t := exec (writeAll options named) s
    t.1 = .error (.violations (validate (.map document) options.exclusions)) ∧
      Holds options (c.builtFrom disk disk · options.legacyPrefixes) done h.disk t.2.disk ∧
      ∀ l, t.2.disk.locate (fileOf options.directory options.format v) = .ok l → ∀ content,
        t.2.disk.entryAt l = some (.file content) ↔ h.disk.entryAt l = some (.file content) := by
  intro t
  obtain ⟨_, -, -, -, -, hfirst⟩ := exec_writeAll_of_same hr hsame hl (some done)
  obtain ⟨h', -, hkept, -, -, hok⟩ := exec_writeAll_of_same hr hsame hl named
  rw [(hfirst done rfl).1, succeeds_map] at hdone
  obtain ⟨⟨⟩, hdone⟩ := hdone
  obtain ⟨hresult, hdisk⟩ := hok _ hvs
  rw [saveAll_of_violations hdone hstrict hdocument hfound] at hresult hdisk
  have hslash := noSlash_of_selected hnamed hvs
  have hslashDone (w : String) (hw : w ∈ done) := hslash w (List.mem_append_left _ hw)
  have hholds := holds_saveAll hl hslashDone hdone
  rw [hkept.disk, hdisk]
  refine ⟨hresult, hholds, fun l => hholds.entryAt_iff hslashDone (hslash v (by simp)) ?_⟩
  -- a version that was written has no violations
  intro hmem
  obtain ⟨document', text, hdocument', hvalid, -⟩ := hholds.documents v hmem
  obtain rfl := Except.ok.inj (hdocument'.symm.trans hdocument)
  exact hfound (hvalid hstrict)

end

/-- A tree below `spec` that has one operation, in one version, and then other files. -/
def datedTree (others : List (List String × DiskEntry)) : Disk :=
  ⟨["w"],
    (["w", "spec"], .directory) ::
      (["w", "spec", "get"], .directory) ::
      (["w", "spec", "get", "1.yml"], .file "\x7b\x7d".toUTF8) :: others⟩

/-- The catalog of the tree at a root. -/
def datedCatalog (rootText : String) : Catalog := Catalog.make (FilePath.ofText rootText) "/api"

/-- The operation of the tree. -/
def dated : OperationKey := ⟨"get", "/api"⟩

/-- The text of the draft, in which there is no operation. -/
def draftText : String :=
  "\x7b\n  \"info\": \x7b\n    \"version\": \"draft\"\n  \x7d,\n  \"paths\": \x7b\x7d\n\x7d\n"

/-- The entry of the file with the draft in a directory. -/
def draftIn (directory : List String) : List String × DiskEntry :=
  (directory ++ ["draft.json"], .file draftText.toUTF8)

theorem isTree_datedTree : (datedTree []).IsTree := by
  refine ⟨⟨by decide, ?_, ?_, fun l content h => ?_⟩, by decide⟩
  · simp only [datedTree, List.forall_mem_cons]
    exact ⟨by decide, by decide, by decide, fun _ h => by cases h⟩
  · simp only [datedTree, List.forall_mem_cons]
    exact ⟨rfl, rfl, rfl, fun _ h => by cases h⟩
  · have hkeys : ∀ l ∈ Entries.keys (datedTree []).entries, ¬ l <+: ["w"] := by decide
    exact hkeys l (List.mem_map_of_mem (f := Prod.fst) h)

section

variable {rootText : String} {others : List (List String × DiskEntry)} {p : FilePath}

/-- Where the root is found, the operation is read. -/
theorem readTable_datedTree
    (hdiscover : Fragment.discover (datedTree others) (FilePath.ofText rootText) = [p])
    (hfile : (datedTree others).read (FilePath.ofText p.render) = .ok "\x7b\x7d".toUTF8)
    (hplace : Place.ofPath (FilePath.ofText rootText) (FilePath.ofText p.render) "/api" =
      { kind := .versionedOperation, operation := some dated, version := some "1" })
    (hp : FilePath.ofText p.render = p) :
    (datedCatalog rootText).readTable (datedTree others) = .ok [(dated, [("1", [])])] := by
  have hfiles : OperationTable.files (datedTree others) (FilePath.ofText rootText) "/api" = [p] := by
    rw [hp] at hplace
    rw [OperationTable.files, hdiscover, List.filter_cons_of_pos (by rw [hplace]; rfl),
      List.filter_nil]
  have hbuild := OperationTable.collect_build (datedTree others) (FilePath.ofText rootText) "/api"
  rw [hfiles, List.foldlM_cons, OperationTable.addLoaded_eq (Fragment.read_of_braces hfile)
    (congrArg Place.operation hplace) (congrArg Place.version hplace) (by decide)] at hbuild
  exact hbuild

/-- The draft is saved without operations when none of them resolves. -/
theorem save_draft {table : OperationTable} {directory : FilePath} {d : Disk}
    (hstatic : StaticPart.files (datedTree []) (datedCatalog rootText).root "draft" = [])
    (htable : (datedCatalog rootText).readTable (datedTree []) = .ok table)
    (hnone : ∀ k ∈ table.operations, ∃ fault,
      table.resolve (OperationKey.parse k.slug "/api") (some "draft") = .error fault)
    (hwrite : (datedTree []).write (fileOf directory .json "draft") draftText.toUTF8 = .ok d) :
    save { directory } ((datedCatalog rootText).builtFrom (datedTree []) (datedTree []) · [])
      (datedTree []) "draft" = .ok d := by
  have hbuilt : (datedCatalog rootText).builtFrom (datedTree []) (datedTree []) "draft" [] =
      .ok (bare "draft") := builtFrom_of_nothing hstatic htable hnone
  have htext : DocumentFormat.json.write (.map (bare "draft")) = .ok draftText := by
    cbv
  exact save_eq_ok.mpr ⟨_, draftText, hbuilt, fun h => (by cases h), htext, hwrite⟩

end

end ApiTree.Document
