import ApiTree.Proofs.Catalog.Lookup
import ApiTree.Proofs.Catalog.Table

/-!
# Where fragments come from

Of the files of a tree that are one operation in one version the last one counts. An operation
resolves to what is in the file that counts for the version, or else in the one that counts for the
draft (`resolve_build_iff`). Which file that is depends on the names of the files alone, so that the
tables of two trees with the same files differ only in what comes from files that differ.
-/

set_option autoImplicit false

namespace ApiTree.OperationTable

section

variable (root : FilePath) (base : String) (k : OperationKey)

/-- The file is the operation `k` in the version `v`. -/
def isFileOf (v : String) (path : FilePath) : Bool :=
  let place := Place.ofPath root (FilePath.ofText path.render) base
  place.operation = some k && versionOrDraft place.version = v

/-- The file that counts for the operation in the version. -/
def origin? (paths : List FilePath) (v : String) : Option FilePath :=
  (paths.filter (isFileOf root base k v)).getLast?

/-- The file to which the operation resolves for the version. -/
def resolvedOrigin? (paths : List FilePath) (version : Option String) : Option FilePath :=
  (origin? root base k paths (versionOrDraft version)).or (origin? root base k paths draft)

end

variable {disk : Disk} {root : FilePath} {base : String} {k : OperationKey} {v : String}

theorem isFileOf_iff {path : FilePath} : isFileOf root base k v path = true ↔
    (Place.ofPath root (FilePath.ofText path.render) base).operation = some k ∧
      versionOrDraft (Place.ofPath root (FilePath.ofText path.render) base).version = v := by
  rw [isFileOf, Bool.and_eq_true, decide_eq_true_eq, decide_eq_true_eq]

/-- A file that can be read changes what the table has for its own operation and version. -/
theorem lookup_addFile {path : FilePath} {content : Fields}
    (h : Fragment.read disk (FilePath.ofText path.render) = .ok content) (table : OperationTable)
    (k : OperationKey) (v : String) :
    (addFile disk root base table path).lookup k v =
      if isFileOf root base k v path then some content else table.lookup k v := by
  rw [addFile, h]
  cases hkey : (Place.ofPath root (FilePath.ofText path.render) base).operation with
  | none =>
    rw [if_neg]
    rw [isFileOf_iff, hkey]
    rintro ⟨hnone, -⟩
    cases hnone
  | some l =>
    -- the version of the fragment is the one of its place
    refine (lookup_add l k _ v content).trans (if_congr ?_ rfl rfl)
    rw [isFileOf_iff, hkey, Option.some.injEq]
    rfl

/-- The table has what is in the last file of an operation in a version. -/
theorem lookup_foldl {paths : List FilePath} (h : Fragment.Readable disk paths)
    (table : OperationTable) (k : OperationKey) (v : String) {content : Fields} :
    (paths.foldl (addFile disk root base) table).lookup k v = some content ↔
      (∃ path, origin? root base k paths v = some path ∧
        Fragment.read disk (FilePath.ofText path.render) = .ok content) ∨
      origin? root base k paths v = none ∧ table.lookup k v = some content := by
  induction paths using List.reverseRecOn with
  | nil => simp [origin?]
  | append_singleton paths path ih =>
    obtain ⟨own, hown⟩ := h path (by simp)
    rw [List.foldl_append, List.foldl_cons, List.foldl_nil, lookup_addFile hown, origin?,
      List.filter_append]
    cases hfile : isFileOf root base k v path with
    | true => simp [hfile, hown]
    | false =>
      simp only [hfile, List.filter_cons, List.filter_nil, Bool.false_eq_true, if_false,
        List.append_nil]
      exact ih fun p hp => h p (List.mem_append_left _ hp)

theorem origin?_mem {paths : List FilePath} {path : FilePath}
    (h : origin? root base k paths v = some path) : path ∈ paths :=
  List.mem_of_mem_filter (List.mem_of_getLast? h)

theorem resolvedOrigin?_mem {paths : List FilePath} {version : Option String} {path : FilePath}
    (h : resolvedOrigin? root base k paths version = some path) : path ∈ paths := by
  rcases Option.or_eq_some_iff.mp h with h | ⟨-, h⟩
  · exact origin?_mem h
  · exact origin?_mem h

/-- An operation of a tree resolves to what is in the file that counts. -/
theorem resolve_build_iff {table : OperationTable}
    (hload : Fragment.Readable disk (files disk root base))
    (h : (build disk root base).collect.1 = .ok table) {version : Option String}
    {content : Fields} : table.resolve k version = .ok content ↔
      ∃ path, resolvedOrigin? root base k (files disk root base) version = some path ∧
        Fragment.read disk (FilePath.ofText path.render) = .ok content := by
  obtain rfl : _ = table := Except.ok.inj ((build_eq hload).symm.trans h)
  have hlookup (v : String) (content : Fields) :
      OperationTable.lookup ((files disk root base).foldl (addFile disk root base) []) k v =
        some content ↔ ∃ path, origin? root base k (files disk root base) v = some path ∧
          Fragment.read disk (FilePath.ofText path.render) = .ok content := by
    rw [lookup_foldl hload, or_iff_left]
    rintro ⟨-, hnil⟩
    cases hnil
  -- a file that counts can be read, so that there is a fragment if there is a file
  have hnone (v : String) (hv : origin? root base k (files disk root base) v = none) :
      OperationTable.lookup ((files disk root base).foldl (addFile disk root base) []) k v =
        none := by
    rw [Option.eq_none_iff_forall_ne_some]
    intro content hcontent
    obtain ⟨path, hpath, -⟩ := (hlookup v content).mp hcontent
    rw [hv] at hpath
    cases hpath
  rw [resolve_eq_ok_iff, resolvedOrigin?]
  cases hfile : origin? root base k (files disk root base) (versionOrDraft version) with
  | none => rw [hnone _ hfile, Option.none_or, Option.none_or, hlookup]
  | some path =>
    obtain ⟨own, hown⟩ := hload path (origin?_mem hfile)
    rw [(hlookup _ own).mpr ⟨path, hfile, hown⟩, Option.some_or, Option.some_or]
    simp [hown]

/-! ## Two trees with the same files -/

theorem keys_addFile {disk' : Disk} {table table' : OperationTable} {path : FilePath}
    (hkeys : Entries.keys table' = Entries.keys table)
    (hload : ∃ content, Fragment.read disk (FilePath.ofText path.render) = .ok content)
    (hload' : ∃ content, Fragment.read disk' (FilePath.ofText path.render) = .ok content) :
    Entries.keys (addFile disk' root base table' path) =
      Entries.keys (addFile disk root base table path) := by
  obtain ⟨content, hcontent⟩ := hload
  obtain ⟨content', hcontent'⟩ := hload'
  rw [addFile, addFile, hcontent, hcontent']
  cases (Place.ofPath root (FilePath.ofText path.render) base).operation with
  | none => exact hkeys
  | some key => exact Entries.keys_put_congr key _ _ hkeys

/-- Trees with the same files have the same operations. -/
theorem operations_congr {disk' : Disk} {table table' : OperationTable}
    (hfiles : files disk' root base = files disk root base)
    (hload : Fragment.Readable disk (files disk root base))
    (hload' : Fragment.Readable disk' (files disk root base))
    (h : (build disk root base).collect.1 = .ok table)
    (h' : (build disk' root base).collect.1 = .ok table') :
    table'.operations = table.operations := by
  rw [build_eq hload] at h
  rw [build_eq (hfiles ▸ hload'), hfiles] at h'
  obtain rfl := Except.ok.inj h
  obtain rfl := Except.ok.inj h'
  have hkeys (paths : List FilePath) (hpaths : ∀ p ∈ paths, p ∈ files disk root base) :
      Entries.keys (paths.foldl (addFile disk' root base) []) =
        Entries.keys (paths.foldl (addFile disk root base) []) := by
    induction paths using List.reverseRecOn with
    | nil => rfl
    | append_singleton paths path ih =>
      have hpath := hpaths path (by simp)
      rw [List.foldl_append, List.foldl_append, List.foldl_cons, List.foldl_cons, List.foldl_nil,
        List.foldl_nil]
      exact keys_addFile (ih fun p hp => hpaths p (List.mem_append_left _ hp)) (hload path hpath)
        (hload' path hpath)
  rw [operations, operations, hkeys _ fun p hp => hp]

end ApiTree.OperationTable
