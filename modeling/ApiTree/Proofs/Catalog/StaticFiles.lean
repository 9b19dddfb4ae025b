import ApiTree.Proofs.Catalog.Reading

/-!
# Static files that are named after a version

A file that is no operation and is named after a version belongs to the static part of this version.
Whether it belongs to that of another one is decided by its name alone: the draft takes every file
whose name is not made of digits and points, although the name of a version may be any. A file that
is named by digits and points is of consequence to its own version only.
-/

set_option autoImplicit false

namespace ApiTree

namespace StaticPart

theorem mem_files {d : Disk} {root p : FilePath} {version : String} :
    p ∈ files d root version ↔ p ∈ Fragment.discover d root ∧
      Place.isOperationFile root p = false ∧ belongs root version p = true := by
  rw [files, List.mem_mergeSort, List.mem_filter, Bool.and_eq_true, Bool.not_eq_true']

/-- The name of a version is made of digits and points. -/
def IsNumbered (version : String) : Prop :=
  ∀ c ∈ version.toList, c = '.' ∨ Text.isDigit c = true

theorem isVersionedFile_iff {p : FilePath} {v : String} (hstem : p.stem = v) (hv : v ≠ "") :
    Place.isVersionedFile p = true ↔ IsNumbered v := by
  rw [Place.isVersionedFile, hstem, Bool.and_eq_true, List.all_eq_true]
  simp only [ne_eq, decide_eq_true_eq, Bool.or_eq_true]
  exact and_iff_right hv

theorem belongs_own {root p : FilePath} {v : String} (hstem : p.stem = v) (hv : v ≠ draft) :
    belongs root v p = true := by
  rw [belongs, if_neg hv, hstem, beq_self_eq_true, Bool.true_or]

/-- A file that is named by digits and points belongs to no other version. -/
theorem not_belongs_of_versioned {root p : FilePath} {w : String}
    (hversioned : Place.isVersionedFile p = true) (hw : w ≠ p.stem) : belongs root w p = false := by
  rw [belongs]
  split
  · rw [hversioned]
    rfl
  · rw [hversioned, beq_eq_false_iff_ne.mpr (Ne.symm hw), Bool.not_true, Bool.and_false]
    rfl

theorem belongs_draft {root p : FilePath} (h : Place.isVersionedFile p = false) :
    belongs root draft p = true := by
  rw [belongs, if_pos rfl, h]
  rfl

end StaticPart

/-- A tree with one operation in two versions, each with a static file. -/
def releases : Disk :=
  ⟨["w"],
    [(["w", "open_api"], .directory),
      (["w", "open_api", "20210301.yml"], .file "\x7b\x7d".toUTF8),
      (["w", "open_api", "beta.yml"], .file "\x7b\x7d".toUTF8),
      (["w", "widgets"], .directory),
      (["w", "widgets", "get"], .directory),
      (["w", "widgets", "get", "20210301.yml"], .file "\x7b\x7d".toUTF8),
      (["w", "widgets", "get", "beta.yml"], .file "\x7b\x7d".toUTF8)]⟩

/-- The catalog of the working directory. -/
def releasesCatalog : Catalog := Catalog.make (FilePath.ofText ".") "/api"

theorem sound_releases : releases.Sound := by
  refine ⟨by decide, by decide, ?_, ?_⟩
  · simp only [releases, List.forall_mem_cons]
    exact ⟨rfl, rfl, rfl, rfl, rfl, rfl, rfl, fun _ h => by cases h⟩
  · have hbelow : ∀ e ∈ releases.entries, ¬ e.1 <+: releases.home := by decide
    exact fun location content h => hbelow (location, .file content) h

theorem discover_releases : Fragment.discover releases releasesCatalog.root =
    [⟨.relative, ["open_api", "20210301.yml"]⟩, ⟨.relative, ["open_api", "beta.yml"]⟩,
     ⟨.relative, ["widgets", "get", "20210301.yml"]⟩,
     ⟨.relative, ["widgets", "get", "beta.yml"]⟩] :=
  Fragment.discover_eq_of_pairwise rfl rfl (by decide)

theorem readVersions_releases :
    releasesCatalog.readVersions releases = .ok ["20210301", "beta", "draft"] := by
  have hfiles : OperationTable.files releases (FilePath.ofText ".") "/api" =
      [⟨.relative, ["widgets", "get", "20210301.yml"]⟩,
       ⟨.relative, ["widgets", "get", "beta.yml"]⟩] := by
    change (Fragment.discover releases releasesCatalog.root).filter _ = _
    rw [discover_releases]
    decide
  have hload : Fragment.Readable releases
      (OperationTable.files releases (FilePath.ofText ".") "/api") := by
    rw [hfiles]
    intro p hp
    simp only [List.mem_cons, List.not_mem_nil, or_false] at hp
    rcases hp with rfl | rfl
    · exact ⟨[], Fragment.read_of_braces rfl⟩
    · exact ⟨[], Fragment.read_of_braces rfl⟩
  have htable : releasesCatalog.readTable releases =
      .ok [(⟨"get", "/api/widgets"⟩, [("20210301", []), ("beta", [])])] := by
    refine (OperationTable.build_eq hload).trans ?_
    rw [hfiles, List.foldl_cons, List.foldl_cons, List.foldl_nil, OperationTable.addFile,
      OperationTable.addFile, Fragment.read_of_braces rfl, Fragment.read_of_braces rfl]
    cbv
  rw [Catalog.readVersions, htable]
  cbv

end ApiTree
