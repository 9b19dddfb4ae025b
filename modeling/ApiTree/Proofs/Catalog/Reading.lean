import ApiTree.Proofs.Catalog.Table
import ApiTree.Proofs.Catalog.Versions
import ApiTree.Proofs.Document.Compile
import ApiTree.Proofs.Fragment.Discover

/-!
# What readings depend on

The static part of a version depends on which files it is made of and on what these hold. The table
of operations is read file by file, whatever the log; each of its versions is a token, which is not
empty and holds no slash.
-/

set_option autoImplicit false

namespace ApiTree

namespace Document

theorem expandedContribution_congr {d d' : Disk} {path : String}
    (h : Fragment.read d' (FilePath.ofText path) = Fragment.read d (FilePath.ofText path))
    (root : FilePath) (base : String) :
    expandedContribution d' root base path = expandedContribution d root base path := by
  rw [expandedContribution, expandedContribution, unexpandedContribution, unexpandedContribution,
    collect_eq_exec, collect_eq_exec, Fragment.fst_exec_load, Fragment.fst_exec_load, h]

end Document

/-- The static part of a version is the same where the same files make it and hold the same. -/
theorem Catalog.readStatic_congr (c : Catalog) {d d' : Disk} {version : String}
    (hfiles : StaticPart.files d' c.root version = StaticPart.files d c.root version)
    (hread : ∀ p ∈ StaticPart.files d c.root version,
      Fragment.read d' (FilePath.ofText p.render) = Fragment.read d (FilePath.ofText p.render)) :
    c.readStatic d' version = c.readStatic d version := by
  rw [readStatic_eq, readStatic_eq, hfiles, Document.collect_mergeFiles,
    Document.collect_mergeFiles, Document.mergeEach_congr]
  intro path hpath
  obtain ⟨p, hp, rfl⟩ := List.mem_map.mp hpath
  exact Document.expandedContribution_congr (hread p hp) c.root c.base

namespace OperationTable

/-- The table with the fragment in a file, if it can be read. -/
def addLoaded (disk : Disk) (root : FilePath) (base : String) (table : OperationTable)
    (path : FilePath) : Except Fault OperationTable := do
  let f ← (Fragment.load disk root base path.render).collect.1
  match f.operation with
  | some key => return table.add key f.versionToken f.content
  | none => return table

theorem collect_build (disk : Disk) (root : FilePath) (base : String) :
    (build disk root base).collect.1 =
      (files disk root base).foldlM (addLoaded disk root base) [] := by
  have hload (path : FilePath) (t : List LogLine) :
      (exec (Fragment.load disk root base path.render) t).1 =
        (Fragment.load disk root base path.render).collect.1 := by
    rw [collect_eq_exec, Fragment.fst_exec_load, Fragment.fst_exec_load]
  have hadd (table : OperationTable) (path : FilePath) (t : List LogLine) :
      (exec (do
        let f ← Fragment.load disk root base path.render
        match f.operation with
        | some key => return OperationTable.add table key f.versionToken f.content
        | none => return table) t).1 = addLoaded disk root base table path :=
    fst_exec_bind (hload path t) fun f t => by cases f.operation <;> rfl
  exact (fst_exec_bind (g := pure) (fst_exec_foldlM hadd _ [] []) fun table t => rfl).trans
    (bind_pure _)

/-- A text that can be the token of a version: it is not empty and holds no slash. -/
structure IsToken (v : String) : Prop where
  nonempty : v ≠ ""
  noSlash : '/' ∉ v.toList

theorem isToken_draft : IsToken draft := ⟨by decide, by decide⟩

theorem isToken_versionToken {f : Fragment} (h : ∀ v, f.version = some v → '/' ∉ v.toList) :
    IsToken f.versionToken := by
  rw [Fragment.versionToken]
  split
  · next v hversion =>
    split
    · exact isToken_draft
    · next hv => exact ⟨hv, h v hversion⟩
  · exact isToken_draft

/-- A file that can be loaded leaves the table as it is, or adds a fragment under a token. -/
theorem addLoaded_eq_ok {disk : Disk} {root : FilePath} {base : String}
    {table added : OperationTable} {path : FilePath}
    (h : addLoaded disk root base table path = .ok added) :
    added = table ∨
      ∃ key version content, IsToken version ∧ added = table.add key version content := by
  rw [addLoaded, collect_eq_exec, Fragment.fst_exec_load] at h
  cases hread : Fragment.read disk (FilePath.ofText path.render) with
  | error fault => rw [hread] at h; cases h
  | ok content =>
    rw [hread] at h
    simp only [Except.map, bind, Except.bind] at h
    split at h
    · refine .inr ⟨_, _, _, isToken_versionToken fun v hv => ?_, (Except.ok.inj h).symm⟩
      exact Place.noSlash_of_version hv
    · exact .inl (Except.ok.inj h).symm

section Induction

variable {disk : Disk} {root : FilePath} {base : String} {P : OperationTable → Prop}
  {start table : OperationTable}

/-- What each fragment that is added keeps is kept by the files of a tree. -/
theorem foldlM_addLoaded_induction (hadd : ∀ table key version content, P table → IsToken version →
      P (OperationTable.add table key version content)) (hstart : P start) {paths : List FilePath}
    (h : paths.foldlM (addLoaded disk root base) start = .ok table) : P table := by
  induction paths generalizing start with
  | nil =>
    obtain rfl := Except.ok.inj h
    exact hstart
  | cons path paths ih =>
    rw [List.foldlM_cons] at h
    obtain ⟨added, hadded, hrest⟩ := bind_eq_ok.mp h
    rcases addLoaded_eq_ok hadded with rfl | ⟨key, version, content, hversion, rfl⟩
    · exact ih hstart hrest
    · exact ih (hadd start key version content hstart hversion) hrest

/-- What holds of the empty table and is kept by each fragment that is added holds of the table of a
tree. -/
theorem build_induction (hnil : P []) (hadd : ∀ table key version content, P table → IsToken version →
      P (OperationTable.add table key version content))
    (h : (build disk root base).collect.1 = .ok table) : P table := by
  rw [collect_build] at h
  exact foldlM_addLoaded_induction hadd hnil h

end Induction

/-- The versions of a tree are those that its table gives and the draft. -/
theorem readVersions_eq_ok {c : Catalog} {d : Disk} {versions : List String} :
    c.readVersions d = .ok versions ↔
      ∃ table, c.readTable d = .ok table ∧ table.datedVersions ++ [draft] = versions :=
  map_eq_ok

theorem draft_mem_versions {c : Catalog} {d : Disk} {versions : List String}
    (h : c.readVersions d = .ok versions) : draft ∈ versions := by
  obtain ⟨table, -, rfl⟩ := readVersions_eq_ok.mp h
  exact List.mem_append_right _ List.mem_cons_self

/-- Each fragment of the table of a tree stands under a token. -/
theorem isToken_of_readTable {c : Catalog} {d : Disk} {table : OperationTable}
    (h : c.readTable d = .ok table) :
    ∀ e ∈ table, ∀ token ∈ Entries.keys e.2, IsToken token := by
  refine build_induction (P := fun t => ∀ e ∈ t, ∀ token ∈ Entries.keys e.2, IsToken token)
    (fun e he => by cases he) (fun t key version content ht hversion e he token htoken => ?_) h
  rcases Entries.mem_put he with rfl | he
  · rcases Entries.mem_keys_put.mp htoken with rfl | htoken
    · exact hversion
    · cases hkey : Entries.get? key t with
      | none => rw [hkey] at htoken; cases htoken
      | some fragments =>
        rw [hkey] at htoken
        exact ht (key, fragments) (Entries.mem_of_get? hkey) token htoken
  · exact ht e he token htoken

/-- Each version of a tree is a token. -/
theorem isToken_of_mem_versions {c : Catalog} {d : Disk} {versions : List String}
    (h : c.readVersions d = .ok versions) {v : String} (hv : v ∈ versions) : IsToken v := by
  obtain ⟨table, htable, rfl⟩ := readVersions_eq_ok.mp h
  rcases List.mem_append.mp hv with hv | hv
  · obtain ⟨-, e, he, htoken⟩ := (mem_datedVersions table v).mp hv
    exact isToken_of_readTable htable e he v htoken
  · rw [List.mem_singleton.mp hv]
    exact isToken_draft

end OperationTable
end ApiTree
