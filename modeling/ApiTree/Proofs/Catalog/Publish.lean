import ApiTree.Proofs.Catalog.Lookup
import ApiTree.Proofs.Catalog.StaticFiles
import ApiTree.Proofs.Document.Build

/-!
# Publishing a version

A tree gains a file of an operation for a version, or loses one. The file is read into the table of
operations beside what is read with and without it, so that the tables of the two trees differ in
this version only (`Gains.readTable`). From there on nothing that is asked of another version sees
the file. If its operation is new, the document of another version comes upon it and leaves it out,
for which its slug has to be read as the operation itself.
-/

set_option autoImplicit false

namespace ApiTree

/-! ## The table -/

namespace OperationTable

variable {table table' : OperationTable} {k : OperationKey} {v : String} {d d' : Disk}
  {root : FilePath} {base : String} {path : FilePath}

theorem addLoaded_congr
    (h : Fragment.read d' (FilePath.ofText path.render) =
      Fragment.read d (FilePath.ofText path.render)) (table : OperationTable) :
    addLoaded d' root base table path = addLoaded d root base table path := by
  rw [addLoaded, addLoaded, collect_eq_exec, collect_eq_exec, Fragment.fst_exec_load,
    Fragment.fst_exec_load, h]

/-- The file of an operation for a version is added to the table. -/
theorem addLoaded_eq {content : Fields}
    (hread : Fragment.read d (FilePath.ofText path.render) = .ok content)
    (hkey : (Place.ofPath root (FilePath.ofText path.render) base).operation = some k)
    (hversion : (Place.ofPath root (FilePath.ofText path.render) base).version = some v)
    (hv : v ≠ "") (table : OperationTable) :
    addLoaded d root base table path = .ok (table.add k v content) := by
  rw [addLoaded, collect_eq_exec, Fragment.fst_exec_load, hread]
  simp only [Except.map, bind, Except.bind, hkey, hversion, Fragment.versionToken, if_neg hv]
  rfl

theorem alike_addLoaded (h : (Entries.keys table).Nodup) :
    Alike (fun added added' => added' = added ∧ (Entries.keys added).Nodup)
      (addLoaded d root base table path) (addLoaded d root base table path) := by
  cases hadded : addLoaded d root base table path with
  | error fault => exact .error fault
  | ok added =>
    refine .ok ⟨rfl, ?_⟩
    rcases addLoaded_eq_ok hadded with rfl | ⟨key, version, content, -, rfl⟩
    · exact h
    · exact Entries.nodup_keys_put _ _ h

/-- A file that is added to both tables makes no difference. -/
theorem Adds.addLoaded (h : Adds k v table table') (d : Disk) (root : FilePath) (base : String)
    (path : FilePath) :
    Alike (Adds k v) (addLoaded d root base table path) (addLoaded d root base table' path) := by
  rw [OperationTable.addLoaded, OperationTable.addLoaded]
  cases (Fragment.load d root base path.render).collect.1 with
  | error fault => exact .error fault
  | ok f =>
    simp only [bind, Except.bind]
    cases f.operation with
    | none => exact .ok h
    | some key => exact .ok (h.add key f.versionToken f.content)

end OperationTable

open OperationTable

section Gains

variable {d d' : Disk} {root p : FilePath}

/-- Where a file is added to the others, the tables of the two trees differ in its version only. -/
theorem Fragment.Gains.build (h : Fragment.Gains d d' root p) (hd' : d'.Sound)
    (hroot : root.IsProper) {base : String} {content : Fields}
    (hread : Fragment.read d' p = .ok content) {k : OperationKey} {v : String}
    (hkey : (Place.ofPath root p base).operation = some k)
    (hversion : (Place.ofPath root p base).version = some v) (hv : v ≠ "") :
    Alike (Adds k v) (OperationTable.build d root base).collect.1
      (OperationTable.build d' root base).collect.1 := by
  obtain ⟨before, after, hfiles, hfiles'⟩ := h.exists_split hd' hroot
  have hp : FilePath.ofText p.render = p :=
    Fragment.ofText_render_of_mem hd' hroot (h.files.mem_iff.mpr List.mem_cons_self)
  -- every other file is read alike
  have hsame (q : FilePath) (hq : q ∈ before ++ after) (table : OperationTable) :
      addLoaded d' root base table q = addLoaded d root base table q := by
    have hmem : q ∈ Fragment.discover d root := hfiles ▸ hq
    refine addLoaded_congr ?_ table
    rw [Fragment.ofText_render_of_mem hd' hroot (h.files.mem_iff.mpr (List.mem_cons_of_mem p hmem))]
    exact Fragment.read_congr (h.same q hmem)
  have hoperation : (Place.ofPath root p base).kind.isOperation = true :=
    Place.isOperation_of_operation hkey
  rw [collect_build, collect_build, OperationTable.files, OperationTable.files, hfiles, hfiles',
    List.filter_append, List.filter_append, List.filter_cons, if_pos hoperation,
    List.foldlM_append, List.foldlM_append]
  -- up to the file one table is made, which holds each operation once
  refine Alike.bind (R := fun table table' => table' = table ∧ (Entries.keys table).Nodup)
    (Alike.foldlM (fun q hq table table' hboth => ?_) ⟨rfl, List.nodup_nil⟩)
    fun table table' hboth => ?_
  · obtain ⟨rfl, honce⟩ := hboth
    rw [hsame q (List.mem_append_left after (List.mem_of_mem_filter hq))]
    exact alike_addLoaded honce
  -- after it the two tables are filled alike
  · obtain ⟨rfl, honce⟩ := hboth
    have hadded := addLoaded_eq (hp.symm ▸ hread) (hp.symm ▸ hkey) (hp.symm ▸ hversion) hv table'
    rw [List.foldlM_cons, hadded]
    refine Alike.foldlM (fun q hq table table' htables => ?_) (adds_add honce k v content)
    rw [hsame q (List.mem_append_right before (List.mem_of_mem_filter hq))]
    exact htables.addLoaded d root base q

/-- The file of an operation is in no static part. -/
theorem Fragment.Gains.readStatic (h : Fragment.Gains d d' root p) (hd' : d'.Sound)
    (hroot : root.IsProper) (hstatic : Place.isOperationFile root p = true) (c : Catalog)
    (hc : c.root = root) (w : String) : c.readStatic d' w = c.readStatic d w := by
  obtain ⟨before, after, hfiles, hfiles'⟩ := h.exists_split hd' hroot
  refine c.readStatic_congr ?_ fun q hq => ?_
  · rw [StaticPart.files, StaticPart.files, hc, hfiles, hfiles', List.filter_append,
      List.filter_append, List.filter_cons, if_neg (by simp [hstatic])]
  · rw [hc] at hq
    have hmem := (StaticPart.mem_files.mp hq).1
    rw [Fragment.ofText_render_of_mem hd' hroot (h.files.mem_iff.mpr (List.mem_cons_of_mem p hmem))]
    exact Fragment.read_congr (h.same q hmem)

end Gains

/-! ## The operations of a document -/

namespace Document

/-- The paths with what is said of one more operation. An operation that is at fault changes
nothing, unless the fault has no message. -/
def addEntry (entry : OperationKey → Except Fault Fields) (paths : Fields) (k : OperationKey) :
    Except Fault Fields :=
  match entry k with
  | .ok operation => .ok (addOperation paths k operation)
  | .error fault =>
    match fault.report? with
    | some _ => .ok paths
    | none => .error fault

section

variable {table table' : OperationTable} {base : String} {components : Value} {w : String}
  {legacyPrefixes : List String}

/-- The paths of a document are made operation by operation, whatever the log. -/
theorem collect_paths :
    (paths table base components w legacyPrefixes).collect.1 =
      table.operations.foldlM
        (addEntry (operationEntry table base components w legacyPrefixes)) [] := by
  refine fst_exec_foldlM (fun written k lines => ?_) table.operations [] []
  rw [addEntry]
  cases operationEntry table base components w legacyPrefixes k with
  | ok operation => rfl
  | error fault =>
    simp only
    cases fault.report? <;> rfl

/-- An operation that does not resolve is left out. -/
theorem addEntry_of_error {l : OperationKey} {fault : Fault}
    (h : table.resolve (OperationKey.parse l.slug base) (some w) = .error fault)
    (written : Fields) :
    addEntry (operationEntry table base components w legacyPrefixes) written l = .ok written := by
  obtain ⟨report, hreport⟩ := exists_report_of_resolve h
  rw [addEntry, operationEntry_of_error h]
  simp only [hreport]

/-- Operations that do not resolve leave nothing in a document. -/
theorem foldlM_addEntry_of_error {keys : List OperationKey}
    (h : ∀ k ∈ keys, ∃ fault,
      table.resolve (OperationKey.parse k.slug base) (some w) = .error fault)
    (written : Fields) :
    keys.foldlM (addEntry (operationEntry table base components w legacyPrefixes)) written =
      .ok written := by
  induction keys with
  | nil => rfl
  | cons k keys ih =>
    rw [List.forall_mem_cons] at h
    obtain ⟨⟨fault, hfault⟩, hrest⟩ := h
    rw [List.foldlM_cons, addEntry_of_error hfault]
    exact ih hrest

variable {k : OperationKey} {v : String}

/-- For another version an operation is described, or left out, in both tables alike. -/
theorem addEntry_of_adds (h : Adds k v table table') (hv : v ≠ draft)
    (hw : versionOrDraft (some w) ≠ v) :
    addEntry (operationEntry table' base components w legacyPrefixes) =
      addEntry (operationEntry table base components w legacyPrefixes) := by
  funext written l
  have hresolve {content : Fields} :
      table'.resolve (OperationKey.parse l.slug base) (some w) = .ok content ↔
        table.resolve (OperationKey.parse l.slug base) (some w) = .ok content :=
    h.resolve_eq_ok_iff hv hw
  cases hl : table.resolve (OperationKey.parse l.slug base) (some w) with
  | ok content =>
    rw [addEntry, addEntry, operationEntry_of_ok components legacyPrefixes hl,
      operationEntry_of_ok components legacyPrefixes (hresolve.mpr hl)]
  | error fault =>
    cases hl' : table'.resolve (OperationKey.parse l.slug base) (some w) with
    | ok content =>
      rw [hresolve.mp hl'] at hl
      cases hl
    | error fault' => rw [addEntry_of_error hl, addEntry_of_error hl']

/-- The paths of the document of another version are the same, if the slug of the operation is read
as the operation. -/
theorem paths_of_adds (h : Adds k v table table') (hv : v ≠ draft)
    (hw : versionOrDraft (some w) ≠ v) (hk : OperationKey.parse k.slug base = k) :
    (paths table' base components w legacyPrefixes).collect.1 =
      (paths table base components w legacyPrefixes).collect.1 := by
  rw [collect_paths, collect_paths, addEntry_of_adds h hv hw]
  rcases h.operations with hsame | ⟨hnew, before, after, hbefore, hafter⟩
  · rw [hsame]
  · rw [hbefore, hafter, List.foldlM_append, List.foldlM_append]
    -- the new operation comes up and is passed over
    refine congrArg (_ >>= ·) (funext fun written => ?_)
    have hskip : table.resolve (OperationKey.parse k.slug base) (some w) =
        .error (.unknownOperation k.slug (versionOrDraft (some w)) table.known) := by
      rw [hk, OperationTable.resolve, Entries.get?_eq_none_iff.mpr hnew]
    rw [List.foldlM_cons, addEntry_of_error hskip]
    rfl

end

end Document

/-! ## Answers -/

namespace Catalog

variable (c : Catalog)

theorem freshAnswer_resolve (hc : c.forget = c) (d : Disk) (operation : String ⊕ OperationKey)
    (version : Option String) :
    c.freshAnswer d (.resolve operation version) =
      (c.readTable d >>= fun table =>
        table.resolve (operation.elim (OperationKey.parse · c.base) id) version).map .fields := by
  have hgives := ((remembers_start c d hc).gives_resolve
    (operation.elim (OperationKey.parse · c.base) id) version).map Answer.fields
  rw [freshAnswer, hc, Query.ask, exec_bind, Run.exec_catalog]
  exact hgives.1

theorem freshAnswer_staticDocument (hc : c.forget = c) (d : Disk) (version : String) :
    c.freshAnswer d (.staticDocument version) = (c.readStatic d version).map .fields := by
  have hgives := ((remembers_start c d hc).gives_staticDocument version).map Answer.fields
  rw [freshAnswer, hc]
  exact hgives.1

end Catalog

theorem map_fields_eq_ok {r : Except Fault Fields} {content : Fields} :
    r.map Answer.fields = .ok (.fields content) ↔ r = .ok content := by
  cases r <;> simp [Except.map]

theorem versionOrDraft_ne {version : Option String} {v : String} (hdraft : v ≠ draft)
    (h : version ≠ some v) : versionOrDraft version ≠ v := by
  cases version with
  | none => exact Ne.symm hdraft
  | some w =>
    rw [versionOrDraft]
    split
    · exact Ne.symm hdraft
    · exact fun hw => h (congrArg some hw)

/-- A tree that gains or loses the file of an operation for a dated version gives for every other
version, the draft included, what it gave: an operation resolves to the same fragment, the static
part is the same, and so is the document, or the fault that there is instead of it. Of the versions
this one alone may come or go. -/
theorem Catalog.other_versions_of_gains {c : Catalog} {rootText base : String} {draftOnly : Bool}
    {exclusions : Option (List String)}
    (hc : c = Catalog.make (FilePath.ofText rootText) base draftOnly exclusions)
    (hbase : Place.IsPlainBase base) {d d' : Disk} (hd' : d'.Sound) {p : FilePath}
    (hgains : Fragment.Gains d d' c.root p)
    (hblank : ∀ part ∈ Place.parts c.root p, ∀ x ∈ part.toList, Text.isBlank x = false)
    {content : Fields} (hread : Fragment.read d' p = .ok content) {k : OperationKey} {v : String}
    (hkey : (Place.ofPath c.root p c.base).operation = some k)
    (hversion : (Place.ofPath c.root p c.base).version = some v) (hdated : v ≠ draft) :
    (∀ operation version, version ≠ some v → ∀ fragment,
      c.freshAnswer d' (.resolve operation version) = .ok (.fields fragment) ↔
        c.freshAnswer d (.resolve operation version) = .ok (.fields fragment)) ∧
    (∀ w, c.freshAnswer d' (.staticDocument w) = c.freshAnswer d (.staticDocument w)) ∧
    (∀ w, w ≠ v → ∀ legacyPrefixes,
      c.freshAnswer d' (.build w legacyPrefixes) = c.freshAnswer d (.build w legacyPrefixes)) ∧
    (c.readVersions d').map (·.filter (· ≠ v)) = (c.readVersions d).map (·.filter (· ≠ v)) := by
  have hforget : c.forget = c := by rw [hc]; rfl
  have hroot : c.root.IsProper := by rw [hc]; exact FilePath.isProper_ofText rootText
  have htrim : c.base = trimBase base := by rw [hc]; rfl
  have hproper : p.IsProper :=
    hd'.isProper hroot (Fragment.mem_discover.mp
      (hgains.files.mem_iff.mpr List.mem_cons_self)).2.1
  -- the version is a name, and no operation but this one is read from its slug
  have hv : v ≠ "" := Place.ne_empty_of_mem_parts (fun s hs => (hproper s hs).nonempty)
    (Place.mem_of_version hversion)
  have hslug : OperationKey.parse k.slug c.base = k := by
    have hp : FilePath.ofText p.render = p := FilePath.ofText_render hproper
    have hbelow : k.IsBelow c.base := Place.isBelow_of_ofPath (hp.symm ▸ hkey)
    rw [htrim] at hkey hbelow ⊢
    exact OperationKey.parse_slug hbelow (Place.isLegible_of_ofParts hkey hbase hblank)
  have htables := hgains.build hd' hroot hread hkey hversion hv
  have hstatics (w : String) : c.readStatic d' w = c.readStatic d w := by
    refine hgains.readStatic hd' hroot ?_ c rfl w
    rw [Place.isOperationFile, Place.ofPath, Place.kind_ofParts defaultBase c.base]
    exact Place.isOperation_of_operation hkey
  refine ⟨fun operation version hother fragment => ?_, fun w => ?_, fun w hw legacyPrefixes => ?_,
    ?_⟩
  · rw [c.freshAnswer_resolve hforget, c.freshAnswer_resolve hforget, map_fields_eq_ok,
      map_fields_eq_ok]
    exact htables.bind_eq_ok_iff fun table table' htable =>
      htable.resolve_eq_ok_iff hdated (versionOrDraft_ne hdated hother)
  · rw [c.freshAnswer_staticDocument hforget, c.freshAnswer_staticDocument hforget, hstatics w]
  · rw [freshAnswer_build, freshAnswer_build, Catalog.builtFrom, Catalog.builtFrom, hstatics w]
    refine congrArg (Answer.fields <$> ·) (congrArg (_ >>= ·) (funext fun document => ?_))
    refine (htables.bind_eq fun table table' htable => ?_).symm
    have hother := versionOrDraft_ne hdated fun hw' => hw (Option.some.inj hw')
    simp only [Document.paths_of_adds htable hdated hother hslug]
  · have hmap (r : Except Fault OperationTable) : (r.map versions).map (·.filter (· ≠ v)) =
        r.map fun table => table.versions.filter (· ≠ v) := by cases r <;> rfl
    rw [Catalog.readVersions, Catalog.readVersions, hmap, hmap]
    exact (htables.map_eq fun table table' htable => htable.versions.symm).symm

/-- The dated file of an operation is deleted from a tree, and the other versions stay. -/
theorem other_versions_of_gains_widgets :
    let p : FilePath := ⟨.relative, ["widgets", "get", "20210301.yml"]⟩
    let d := releases.delete p
    Fragment.Gains d releases releasesCatalog.root p ∧
      (∀ fragment,
        releasesCatalog.freshAnswer releases (.resolve (.inl "GET /widgets") (some "beta")) =
            .ok (.fields fragment) ↔
          releasesCatalog.freshAnswer d (.resolve (.inl "GET /widgets") (some "beta")) =
            .ok (.fields fragment)) ∧
      (∀ legacyPrefixes, releasesCatalog.freshAnswer releases (.build "beta" legacyPrefixes) =
        releasesCatalog.freshAnswer d (.build "beta" legacyPrefixes)) ∧
      (releasesCatalog.readVersions d).map (·.filter (· ≠ "20210301")) =
        .ok ["beta", "draft"] := by
  intro p d
  have hp : p ∈ Fragment.discover releases releasesCatalog.root := by
    rw [discover_releases]
    decide
  have hgains := Fragment.gains_of_delete sound_releases hp
  have hsolid (s : String) (h : s.toList.any Text.isBlank = false) :
      ∀ x ∈ s.toList, Text.isBlank x = false := by simpa [List.any_eq_false] using h
  have hplain : Place.IsPlainBase "/api" :=
    ⟨.inr ⟨['a', 'p', 'i'], rfl, by decide⟩, hsolid "/api" (by decide)⟩
  have hplace : Place.ofPath releasesCatalog.root p releasesCatalog.base =
      ⟨.versionedOperation, none, some ⟨"get", "/api/widgets"⟩, some "20210301"⟩ := by decide
  have hparts : Place.parts releasesCatalog.root p = ["widgets", "get", "20210301"] := by decide
  have hblank : ∀ part ∈ Place.parts releasesCatalog.root p, ∀ x ∈ part.toList,
      Text.isBlank x = false := by
    rw [hparts]
    simp only [List.forall_mem_cons]
    exact ⟨hsolid _ (by decide), hsolid _ (by decide), hsolid _ (by decide), fun _ h => by cases h⟩
  have hc : releasesCatalog = Catalog.make (FilePath.ofText ".") "/api" := rfl
  obtain ⟨hresolve, -, hbuild, hversions⟩ := Catalog.other_versions_of_gains hc hplain
    sound_releases hgains hblank (Fragment.read_of_braces rfl)
    (congrArg Place.operation hplace) (congrArg Place.version hplace) (by decide)
  refine ⟨hgains, hresolve _ _ (by decide), hbuild "beta" (by decide), ?_⟩
  refine hversions.symm.trans ?_
  rw [readVersions_releases]
  rfl

end ApiTree
