import ApiTree.Proofs.Catalog.Step
import ApiTree.Proofs.Entries
import ApiTree.Proofs.Fragment.Place

/-!
# Reading the table of operations

If every operation of a tree can be read, its table is read, holds each operation once, and holds
operations below the base path only.
-/

set_option autoImplicit false

namespace ApiTree

theorem Fragment.exec_load {disk : Disk} {root : FilePath} {base path : String} {content : Fields}
    (h : Fragment.read disk (FilePath.ofText path) = .ok content) (lines : List LogLine) :
    exec (Fragment.load disk root base path) lines =
      let place := Place.ofPath root (FilePath.ofText path) base
      (.ok ⟨path, content, place.kind, place.component, place.operation, place.version⟩,
        lines) := by
  rw [load, readLogged, h]
  rfl

/-- Each of the files holds a mapping that can be read. -/
def Fragment.Readable (disk : Disk) (paths : List FilePath) : Prop :=
  ∀ p ∈ paths, ∃ content, Fragment.read disk (FilePath.ofText p.render) = .ok content

namespace OperationTable

/-- The table with the fragment in a file, if it is one of an operation and can be read. -/
def addFile (disk : Disk) (root : FilePath) (base : String) (table : OperationTable)
    (path : FilePath) : OperationTable :=
  let file := FilePath.ofText path.render
  let place := Place.ofPath root file base
  match place.operation, Fragment.read disk file with
  | some key, .ok content =>
    table.add key
      (Fragment.versionToken ⟨path.render, content, place.kind, place.component, place.operation,
        place.version⟩) content
  | _, _ => table

/-- The table of a tree holds what is in the files of its operations. -/
theorem build_eq {disk : Disk} {root : FilePath} {base : String}
    (hload : Fragment.Readable disk (files disk root base)) :
    (build disk root base).collect.1 =
      .ok ((files disk root base).foldl (addFile disk root base) []) := by
  -- each round adds one file to the table and writes nothing to the log
  refine congrArg Prod.fst (exec_bind_of_ok (exec_foldlM_eq (addFile disk root base) _ []
    (files disk root base) (fun path hpath table => ?_) []) _)
  obtain ⟨content, hread⟩ := hload path hpath
  rw [exec_bind_of_ok (Fragment.exec_load hread []), addFile, hread]
  cases (Place.ofPath root (FilePath.ofText path.render) base).operation <;> rfl

/-- The table holds each operation once, and operations below the base path only. -/
structure IsOf (base : String) (table : OperationTable) : Prop where
  nodup : (Entries.keys table).Nodup
  below : ∀ k ∈ Entries.keys table, k.IsBelow base

variable {base : String} {table : OperationTable}

theorem isOf_nil (base : String) : IsOf base [] := by
  refine ⟨List.nodup_nil, fun k hk => ?_⟩
  cases hk

theorem IsOf.addFile (h : table.IsOf base) (disk : Disk) (root path : FilePath) :
    (addFile disk root base table path).IsOf base := by
  rw [OperationTable.addFile]
  split
  · next key content hkey _ =>
    refine ⟨Entries.nodup_keys_put _ _ h.nodup, fun k hk => ?_⟩
    rcases Entries.mem_keys_put.mp hk with rfl | hk
    · exact Place.isBelow_of_ofPath hkey
    · exact h.below k hk
  · exact h

theorem isOf_foldl (disk : Disk) (root : FilePath) (paths : List FilePath) (h : table.IsOf base) :
    (paths.foldl (OperationTable.addFile disk root base) table).IsOf base := by
  induction paths generalizing table with
  | nil => exact h
  | cons path paths ih => exact ih (h.addFile disk root path)

/-- A tree of which every operation can be read has a table. -/
theorem exists_build {disk : Disk} {root : FilePath}
    (hload : Fragment.Readable disk (files disk root base)) :
    ∃ table : OperationTable, (build disk root base).collect.1 = .ok table ∧ table.IsOf base :=
  ⟨_, build_eq hload, isOf_foldl disk root _ (isOf_nil base)⟩

theorem mem_operations {k : OperationKey} : k ∈ table.operations ↔ k ∈ Entries.keys table :=
  List.mem_mergeSort

theorem IsOf.nodup_operations (h : table.IsOf base) : table.operations.Nodup :=
  (List.mergeSort_perm _ _).nodup_iff.mpr h.nodup

/-- An operation of the table is not resolved only for want of the version and of a draft. -/
theorem resolve_error {k : OperationKey} (hk : k ∈ table.operations) {version : Option String}
    {fault : Fault} (h : table.resolve k version = .error fault) :
    ∃ defined, fault =
      .unknownVersion k.slug (versionOrDraft version) defined table.known := by
  rw [resolve] at h
  cases hget : Entries.get? k table with
  | none => exact absurd (mem_operations.mp hk) (Entries.get?_eq_none_iff.mp hget)
  | some fragments =>
    simp only [hget] at h
    split at h
    · cases h
    · exact ⟨_, (Except.error.inj h).symm⟩

end OperationTable
end ApiTree
