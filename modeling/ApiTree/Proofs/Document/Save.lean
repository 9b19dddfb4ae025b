import ApiTree.Proofs.Catalog.SameAnswers
import ApiTree.Proofs.Document.Isolation

/-!
# Saving documents

Writing the document of a version comes down to a function on the disk, `save`, once it is known what
documents the catalog builds; and the catalog goes on building the same ones, for the files of
documents are no fragments. A whole run of the writer is then `saveAll`: it saves documents in order
and stops at the first that cannot be saved (`Remembers.exec_mapM_write`).
-/

set_option autoImplicit false

namespace ApiTree

namespace Run

theorem exec_tell (e : Event) (s : Session) :
    exec (tell e) s = (.ok (), { s with events := s.events ++ [e] }) :=
  rfl

/-- Telling things one after the other. -/
theorem exec_forIn_tell {α : Type} (f : α → Event) (xs : List α) (s : Session) :
    exec (forIn xs PUnit.unit fun x _ => do
        tell (f x)
        pure (ForInStep.yield PUnit.unit)) s =
      (.ok PUnit.unit, { s with events := s.events ++ xs.map f }) := by
  induction xs generalizing s with
  | nil => simp [exec_pure]
  | cons x xs ih =>
    rw [List.forIn_cons]
    simp only [exec_bind, exec_tell, exec_pure]
    refine (ih _).trans ?_
    simp

theorem exec_writeFile (path : FilePath) (text : String) (s : Session) :
    exec (writeFile path text) s =
      match s.disk.write path text.toUTF8 with
      | .ok disk => (.ok (), { s with disk })
      | .error f => (.error (.failed f), s) := by
  simp only [writeFile, exec_bind, exec_get]
  cases s.disk.write path text.toUTF8 <;> rfl

end Run

namespace Document

/-- The disk with the document of a version in its file, where `built` gives the documents. -/
def save (options : WriteOptions) (built : String → Except Fault Fields) (d : Disk)
    (version : String) : Except Fault Disk := do
  let document ← built version
  let found := validate (.map document) options.exclusions
  if options.strict && !found.isEmpty then throw (.violations found)
  let text ← (options.format.write (.map document)).mapError .failed
  (d.write (fileOf options.directory options.format version) text.toUTF8).mapError .failed

/-- The documents of versions are saved in order, until one cannot be saved. -/
def saveAll (options : WriteOptions) (built : String → Except Fault Fields) :
    List String → Disk → Except Fault Unit × Disk
  | [], d => (.ok (), d)
  | version :: versions, d =>
    match save options built d version with
    | .ok d' => saveAll options built versions d'
    | .error fault => (.error fault, d)

variable {c : Catalog} {h : History} {s : Session} {options : WriteOptions} {d d' : Disk}
  {built : String → Except Fault Fields}

/-! ## Files of documents -/

/-- Whatever slashes a version has, its file has the extension of the format. -/
theorem exists_segments_fileOf (directory : FilePath) (format : DocumentFormat) (version : String) :
    ∃ before start,
      (fileOf directory format version).segments = before ++ [start ++ ("." ++ format.render)] := by
  have hending : '/' ∉ ("." ++ format.render).toList ∧ 2 ≤ ("." ++ format.render).toList.length := by
    cases format <;> decide
  obtain ⟨before, start, hsegments⟩ :=
    FilePath.exists_segments_ofText_append version hending.1 hending.2
  rw [fileOf, String.append_assoc, FilePath.join]
  split
  · exact ⟨directory.segments ++ before, start, by rw [hsegments, List.append_assoc]⟩
  · exact ⟨before, start, hsegments⟩

theorem exists_name_fileOf (directory : FilePath) (format : DocumentFormat) (version : String) :
    ∃ start, (fileOf directory format version).name = start ++ ("." ++ format.render) := by
  obtain ⟨before, start, hsegments⟩ := exists_segments_fileOf directory format version
  exact ⟨start, by rw [FilePath.name, hsegments, List.getLast?_concat]; rfl⟩

theorem segments_fileOf_ne_nil (directory : FilePath) (format : DocumentFormat)
    (version : String) : (fileOf directory format version).segments ≠ [] := by
  obtain ⟨before, start, hsegments⟩ := exists_segments_fileOf directory format version
  rw [hsegments]
  exact List.concat_ne_nil _ _

/-- The name of a file of a document is no way back. -/
theorem name_fileOf_ne (directory : FilePath) (format : DocumentFormat) (version : String) :
    (fileOf directory format version).name ≠ ".." := by
  obtain ⟨start, hname⟩ := exists_name_fileOf directory format version
  rw [hname]
  intro heq
  have hlast := congrArg (fun s : String => s.toList.getLast?) heq
  cases format <;> simp [DocumentFormat.render] at hlast

/-- The file of a document is no fragment. -/
theorem endsWith_name_fileOf (directory : FilePath) (format : DocumentFormat) (version : String) :
    Text.endsWith (fileOf directory format version).name ".yml" = false := by
  obtain ⟨start, hname⟩ := exists_name_fileOf directory format version
  rw [hname, Text.endsWith, Bool.eq_false_iff, ne_eq, List.isSuffixOf_iff_suffix,
    ← List.reverse_prefix]
  cases format <;> simp [DocumentFormat.render]

theorem isProper_fileOf {directory : FilePath} (h : directory.IsProper) (format : DocumentFormat)
    (version : String) : (fileOf directory format version).IsProper :=
  h.join (FilePath.isProper_ofText _)

/-- The file of a document is written where it is then found, and the fragments stay. -/
theorem exists_wrote (htree : d.IsTree) {directory : FilePath} (hdirectory : directory.IsProper)
    {format : DocumentFormat} {version : String} {content : ByteArray}
    (hwrite : d.write (fileOf directory format version) content = .ok d') :
    ∃ l, d'.locate (fileOf directory format version) = .ok l ∧ d.Wrote d' l content ∧
      d.Keeps d' := by
  obtain ⟨above, -, hlocate, hwrote, hkeeps⟩ := htree.write
    (isProper_fileOf hdirectory format version) (segments_fileOf_ne_nil _ _ _)
    (name_fileOf_ne _ _ _) hwrite
  exact ⟨_, hlocate, hwrote, hkeeps (endsWith_name_fileOf _ _ _)⟩

/-! ## Saving one document -/

theorem save_eq_ok {version : String} :
    save options built d version = .ok d' ↔
      ∃ document text, built version = .ok document ∧
        (options.strict = true → validate (.map document) options.exclusions = []) ∧
        options.format.write (.map document) = .ok text ∧
        d.write (fileOf options.directory options.format version) text.toUTF8 = .ok d' := by
  rw [save, bind_eq_ok]
  refine (exists_congr fun document => and_congr_right fun _ => ?_).trans
    (exists_congr fun document => exists_and_left.symm)
  by_cases hrefused :
      (options.strict && !(validate (.map document) options.exclusions).isEmpty) = true
  · have hfound := hrefused
    rw [Bool.and_eq_true, Bool.not_eq_true', List.isEmpty_eq_false_iff] at hfound
    rw [if_pos hrefused]
    refine iff_of_false (fun hthrow => by cases hthrow) ?_
    rintro ⟨text, hvalid, -⟩
    exact hfound.2 (hvalid hfound.1)
  · have hvalid : options.strict = true → validate (.map document) options.exclusions = [] := by
      simpa using hrefused
    rw [if_neg hrefused]
    simp only [bind_eq_ok, mapError_eq_ok, and_iff_right hvalid]

/-- A document with violations is refused where they are not allowed. -/
theorem save_of_violations {version : String} {document : Fields} (hstrict : options.strict = true)
    (hbuilt : built version = .ok document)
    (hfound : validate (.map document) options.exclusions ≠ []) :
    save options built d version =
      .error (.violations (validate (.map document) options.exclusions)) := by
  have hrefused :
      (options.strict && !(validate (.map document) options.exclusions).isEmpty) = true := by
    rw [hstrict, Bool.true_and, Bool.not_eq_true', List.isEmpty_eq_false_iff]
    exact hfound
  rw [save, hbuilt, ok_bind, if_pos hrefused]
  rfl

/-- Documents are written beside the tree of a catalog: the disk is a tree, the paths are proper, and
the root of the catalog is a directory or leads nowhere back. -/
structure Lasts (c : Catalog) (directory : FilePath) (d : Disk) : Prop where
  tree : d.IsTree
  directory : directory.IsProper
  root : c.root.IsProper
  found : d.isDirectory c.root = true ∨ ".." ∉ c.root.segments

theorem Lasts.save (hl : Lasts c options.directory d) {version : String}
    (hsave : Document.save options built d version = .ok d') :
    Lasts c options.directory d' ∧ d.Keeps d' := by
  obtain ⟨document, text, -, -, -, hwrite⟩ := save_eq_ok.mp hsave
  obtain ⟨l, -, hwrote, hkeeps⟩ := exists_wrote hl.tree hl.directory hwrite
  exact ⟨⟨hwrote.tree, hl.directory, hl.root, hl.found.imp_left hkeeps.isDirectory⟩, hkeeps⟩

/-! ## Saving documents in order -/

theorem saveAll_append {versions more : List String}
    (h : (saveAll options built versions d).1 = .ok ()) :
    saveAll options built (versions ++ more) d =
      saveAll options built more (saveAll options built versions d).2 := by
  induction versions generalizing d with
  | nil => rfl
  | cons version versions ih =>
    rw [List.cons_append, saveAll, saveAll]
    rw [saveAll] at h
    cases hsave : save options built d version with
    | error fault => rw [hsave] at h; cases h
    | ok d' =>
      rw [hsave] at h
      exact ih h

/-- The first document that is refused ends the saving after those before it. -/
theorem saveAll_of_violations {done rest : List String} {version : String} {document : Fields}
    (hdone : (saveAll options built done d).1 = .ok ()) (hstrict : options.strict = true)
    (hbuilt : built version = .ok document)
    (hfound : validate (.map document) options.exclusions ≠ []) :
    saveAll options built (done ++ version :: rest) d =
      (.error (.violations (validate (.map document) options.exclusions)),
        (saveAll options built done d).2) := by
  rw [saveAll_append hdone, saveAll, save_of_violations hstrict hbuilt hfound]

theorem Lasts.saveAll (hl : Lasts c options.directory d) (versions : List String) :
    Lasts c options.directory (Document.saveAll options built versions d).2 ∧
      d.Keeps (Document.saveAll options built versions d).2 := by
  induction versions generalizing d with
  | nil => exact ⟨hl, .refl d⟩
  | cons version versions ih =>
    rw [Document.saveAll]
    cases hsave : Document.save options built d version with
    | error fault => exact ⟨hl, .refl d⟩
    | ok d' =>
      obtain ⟨hl', hfirst⟩ := hl.save hsave
      obtain ⟨hl'', hkeeps⟩ := ih hl'
      exact ⟨hl'', hfirst.trans hkeeps⟩

/-! ## Documents without operations -/

/-- The document of a version to which a tree gives nothing. -/
def bare (version : String) : Fields :=
  [("info", .single "version" (.str version)), ("paths", .map [])]

/-- A document is bare when no file belongs to its static part and no operation resolves. -/
theorem builtFrom_of_nothing {table : OperationTable} {disk : Disk} {version : String}
    {legacyPrefixes : List String} (hstatic : StaticPart.files d c.root version = [])
    (htable : c.readTable disk = .ok table)
    (hnone : ∀ k ∈ table.operations, ∃ fault,
      table.resolve (OperationKey.parse k.slug c.base) (some version) = .error fault) :
    c.builtFrom d disk version legacyPrefixes = .ok (bare version) := by
  have hread : c.readStatic d version = .ok [("info", .single "version" (.str version))] := by
    rw [Catalog.readStatic_eq, hstatic]
    rfl
  have hpaths (components : Value) :
      (paths table c.base components version legacyPrefixes).collect.1 = .ok [] := by
    rw [collect_paths]
    exact foldlM_addEntry_of_error hnone []
  rw [Catalog.builtFrom, hread, ok_bind, htable, ok_bind]
  simp only
  rw [hpaths]
  rfl

/-! ## Writing one document -/

/-- What is left of writing a document once it is built. -/
theorem exec_write_of_ok {version : String} {document : Fields} {t : Session}
    (hbuild : exec (build version options.legacyPrefixes) s = (.ok document, t)) :
    ∃ events, exec (write options version) s =
      match save options (fun _ => .ok document) t.disk version with
      | .ok d' => (.ok (fileOf options.directory options.format version),
          { t with disk := d', events })
      | .error fault => (.error fault, { t with events }) := by
  simp only [write, exec_bind_of_ok hbuild, exec_bind, Run.exec_forIn_tell, save, ok_bind]
  -- a refused document, one without a text, one that cannot be written, and one that is written
  by_cases hrefused : (options.strict && !(validate (.map document) options.exclusions).isEmpty) = true
  · rw [if_pos hrefused, if_pos hrefused]
    exact ⟨_, rfl⟩
  · rw [if_neg hrefused, if_neg hrefused]
    cases htext : options.format.write (.map document) with
    | error f => exact ⟨_, rfl⟩
    | ok text =>
      simp only [exec_bind, Run.exec_writeFile, Except.mapError, ok_bind]
      cases t.disk.write (fileOf options.directory options.format version) text.toUTF8 with
      | error f => exact ⟨_, rfl⟩
      | ok d' =>
        simp only [Run.exec_tell, exec_pure]
        exact ⟨_, rfl⟩

theorem exec_write_of_error {version : String} {fault : Fault} {t : Session}
    (hbuild : exec (build version options.legacyPrefixes) s = (.error fault, t)) :
    exec (write options version) s = (.error fault, t) := by
  rw [write, exec_bind, hbuild]

end Document

open Document

variable {c : Catalog} {h : History} {s : Session} {options : WriteOptions}
  {built : String → Except Fault Fields}

/-- A catalog that has written a file remembers what it did. -/
theorem Remembers.with_disk (hr : Remembers c h s) (disk : Disk) (events : List Event) :
    Remembers c { h with disk } { s with disk, events } :=
  ⟨rfl, hr.settings, hr.table, hr.readable, hr.versions, hr.static, hr.makeable⟩

/-- A document is written as it is saved. -/
theorem Remembers.exec_write (hr : Remembers c h s)
    (hbuilt : ∀ version,
      c.builtFrom (h.staticTree version) h.tableTree version options.legacyPrefixes = built version)
    (version : String) :
    let h' := h.after c (.build version options.legacyPrefixes)
    match save options built h.disk version with
    | .ok disk => (exec (write options version) s).1 =
          .ok (fileOf options.directory options.format version) ∧
        Remembers c { h' with disk } (exec (write options version) s).2
    | .error fault => (exec (write options version) s).1 = .error fault ∧
        Remembers c h' (exec (write options version) s).2 := by
  intro h'
  obtain ⟨hanswer, hkept⟩ := hr.gives_build version options.legacyPrefixes
  rw [hbuilt] at hanswer
  rcases hbuild : exec (build version options.legacyPrefixes) s with ⟨fault | document, t⟩
  · rw [hbuild] at hanswer hkept
    rw [exec_write_of_error hbuild, save, ← hanswer]
    exact ⟨rfl, hkept⟩
  · rw [hbuild] at hanswer hkept
    obtain ⟨events, hexec⟩ := exec_write_of_ok hbuild
    have hsave : save options (fun _ => .ok document) t.disk version =
        save options built h.disk version := by
      rw [hkept.disk, (h.tree_after c (.build version options.legacyPrefixes)).2.2, save, save,
        ← hanswer]
    rw [hexec, hsave]
    cases save options built h.disk version with
    | error fault => exact ⟨rfl, hkept.with_events events⟩
    | ok disk => exact ⟨rfl, hkept.with_disk disk events⟩

theorem Remembers.exec_write_of_save (hr : Remembers c h s)
    (hbuilt : ∀ version,
      c.builtFrom (h.staticTree version) h.tableTree version options.legacyPrefixes = built version)
    {version : String} {disk : Disk}
    (hsave : Document.save options built h.disk version = .ok disk) :
    (exec (write options version) s).1 =
        .ok (fileOf options.directory options.format version) ∧
      Remembers c { h.after c (.build version options.legacyPrefixes) with disk }
        (exec (write options version) s).2 := by
  have hwrite := hr.exec_write hbuilt version
  rw [hsave] at hwrite
  exact hwrite

/-- When a document was written, the catalog answers as before. -/
theorem Document.Lasts.sameAnswers (hl : Lasts c options.directory h.disk) {version : String} {disk : Disk}
    (hsave : Document.save options built h.disk version = .ok disk) (q : Query) :
    SameAnswers c h { h.after c q with disk } := by
  obtain ⟨hl', hkeeps⟩ := hl.save hsave
  obtain ⟨hread, hstatic⟩ :=
    c.read_of_keeps hl.root hl.tree.sound hl'.tree.sound hkeeps hl.found
  have hdisk := (h.tree_after c q).2.2
  exact (sameAnswers_after c h q).trans
    (sameAnswers_edit (by rw [hdisk, hread]) fun v => by rw [hdisk, hstatic])

/-! ## Writing documents in order -/

/-- Documents are written as they are saved, and then the catalog answers as before. -/
theorem Remembers.exec_mapM_write (hr : Remembers c h s) (hl : Lasts c options.directory h.disk)
    (hbuilt : ∀ version,
      c.builtFrom (h.staticTree version) h.tableTree version options.legacyPrefixes = built version)
    (versions : List String) :
    ∃ h', SameAnswers c h h' ∧ Remembers c h' (exec (versions.mapM (write options)) s).2 ∧
      (exec (versions.mapM (write options)) s).1 = (saveAll options built versions h.disk).1.map
        (fun _ => versions.map (fileOf options.directory options.format)) ∧
      h'.disk = (saveAll options built versions h.disk).2 := by
  induction versions generalizing h s with
  | nil => exact ⟨h, .refl c h, hr, rfl, rfl⟩
  | cons version versions ih =>
    rw [List.mapM_cons, saveAll, exec_bind]
    cases hsave : save options built h.disk version with
    | error fault =>
      have hwrite := hr.exec_write hbuilt version
      rcases hexec : exec (write options version) s with ⟨result, t⟩
      rw [hexec, hsave] at hwrite
      obtain ⟨rfl, hkept⟩ := hwrite
      exact ⟨_, sameAnswers_after c h _, hkept, rfl, (h.tree_after c _).2.2⟩
    | ok disk =>
      obtain ⟨hwrite, hkept⟩ := hr.exec_write_of_save hbuilt hsave
      rcases hexec : exec (write options version) s with ⟨result, t⟩
      rw [hexec] at hwrite hkept
      obtain rfl := hwrite
      have hsame := hl.sameAnswers hsave (.build version options.legacyPrefixes)
      obtain ⟨h', hsame', hkept', hresult, hdisk⟩ := ih hkept (hl.save hsave).1
        fun v => (hsame.builtFrom v _).trans (hbuilt v)
      refine ⟨h', hsame.trans hsame', ?_⟩
      simp only
      rw [exec_bind]
      rcases hrest : exec (versions.mapM (write options)) t with ⟨rest, u⟩
      rw [hrest] at hkept' hresult
      cases hall : (saveAll options built versions disk).1 with
      | error fault =>
        rw [hall] at hresult
        obtain rfl := hresult
        exact ⟨hkept', rfl, hdisk⟩
      | ok _ =>
        rw [hall] at hresult
        obtain rfl := hresult
        exact ⟨hkept', rfl, hdisk⟩

/-- To write the documents of one version is to write its document. -/
theorem exec_writeAll_singleton (version : String) :
    exec (writeAll options (some [version])) s =
      ((exec (write options version) s).1.map ([·]), (exec (write options version) s).2) := by
  rw [writeAll, exec_bind, exec_pure]
  simp only [List.mapM_cons, List.mapM_nil, exec_bind, pure_bind]
  rcases exec (write options version) s with ⟨fault | p, t⟩ <;> rfl

/-- The documents of the given versions, or of all, are written as they are saved. -/
theorem Remembers.exec_writeAll (hr : Remembers c h s) (hl : Lasts c options.directory h.disk)
    (hbuilt : ∀ version,
      c.builtFrom (h.staticTree version) h.tableTree version options.legacyPrefixes = built version)
    (versions : Option (List String)) :
    ∃ h', SameAnswers c h h' ∧ Remembers c h' (exec (writeAll options versions) s).2 ∧
      Lasts c options.directory h'.disk ∧
      (∀ fault, versions.elim (c.readVersions h.tableTree) .ok = .error fault →
        (exec (writeAll options versions) s).1 = .error fault ∧ h'.disk = h.disk) ∧
      ∀ vs, versions.elim (c.readVersions h.tableTree) .ok = .ok vs →
        (exec (writeAll options versions) s).1 = (saveAll options built vs h.disk).1.map
          (fun _ => vs.map (fileOf options.directory options.format)) ∧
        h'.disk = (saveAll options built vs h.disk).2 := by
  cases versions with
  | some vs =>
    obtain ⟨h', hsame, hkept, hresult, hdisk⟩ := hr.exec_mapM_write hl hbuilt vs
    rw [writeAll, exec_bind, exec_pure]
    refine ⟨h', hsame, hkept, hdisk ▸ (hl.saveAll vs).1, ?_, ?_⟩
    · intro fault hfault
      cases hfault
    · intro vs' hvs
      obtain rfl := Except.ok.inj hvs
      exact ⟨hresult, hdisk⟩
  | none =>
    obtain ⟨hanswer, hkept⟩ := hr.gives_versions
    obtain ⟨htable, hstatic, hdisk⟩ := h.tree_readTable c
    have hsame : SameAnswers c h (h.readTable c) := sameAnswers_after c h .versions
    rw [Option.elim_none, writeAll, exec_bind, ← hanswer]
    rcases hexec : exec Run.versions s with ⟨fault | vs, t⟩
    · rw [hexec] at hkept
      refine ⟨_, hsame, hkept, hdisk ▸ hl, ?_, ?_⟩
      · intro fault' hfault
        obtain rfl := Except.error.inj hfault
        exact ⟨rfl, hdisk⟩
      · intro vs hvs
        cases hvs
    · rw [hexec] at hkept
      obtain ⟨h', hsame', hkept', hresult, hdisk'⟩ := hkept.exec_mapM_write (hdisk.symm ▸ hl)
        (fun v => by rw [htable, hstatic, hbuilt]) vs
      rw [hdisk] at hresult hdisk'
      refine ⟨h', hsame.trans hsame', hkept', hdisk' ▸ (hl.saveAll vs).1, ?_, ?_⟩
      · intro fault hfault
        cases hfault
      · intro vs' hvs
        obtain rfl := Except.ok.inj hvs
        exact ⟨hresult, hdisk'⟩

/-- When a document was written, the static part of another version is that of the tree with the
file. -/
theorem Remembers.exec_writeAll_pair (hr : Remembers c h s)
    (hbuilt : ∀ version,
      c.builtFrom (h.staticTree version) h.tableTree version options.legacyPrefixes = built version)
    {first second : String} {disk : Disk} {fault : Fault}
    (hsave : Document.save options built h.disk first = .ok disk) (hne : second ≠ first)
    (hunread : h.staticTree? second = none) (hfault : c.readStatic disk second = .error fault) :
    (exec (writeAll options (some [first, second])) s).1 = .error fault := by
  obtain ⟨hfirst, hkept⟩ := hr.exec_write_of_save hbuilt hsave
  rcases hwrite : exec (write options first) s with ⟨result, t⟩
  rw [hwrite] at hfirst hkept
  obtain rfl := hfirst
  have hsecond : (exec (build second options.legacyPrefixes) t).1 = .error fault := by
    rw [(hkept.gives_build second options.legacyPrefixes).1, Catalog.builtFrom, History.staticTree]
    simp only
    rw [h.staticTree?_after_build c hne, hunread, Option.getD_none, hfault]
    rfl
  rcases hbuild : exec (build second options.legacyPrefixes) t with ⟨result, u⟩
  rw [hbuild] at hsecond
  obtain rfl := hsecond
  simp only [writeAll, exec_bind, exec_pure, List.mapM_cons, hwrite, exec_write_of_error hbuild]

end ApiTree
