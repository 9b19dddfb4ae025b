import ApiTree.Catalog.Static
import ApiTree.Catalog.Table
import ApiTree.Proofs.Fragment.Discover

/-!
# Trees that hold the same files

Two trees hold the same files if the same names lead from their roots to files with the same content,
whatever the roots are called and in whatever order the files are listed. What a file is depends on
the names that lead to it from the root only, and such trees list the same names in the same order
(`SameFiles.discover`).
-/

set_option autoImplicit false

namespace ApiTree

/-- Names lead from the root to a file with this content. -/
def Disk.Has (d : Disk) (root : FilePath) (names : List String) (content : ByteArray) : Prop :=
  ∃ base, d.locate root = .ok base ∧ names ≠ [] ∧ (base ++ names, .file content) ∈ d.entries

theorem Disk.has_iff {d : Disk} {root : FilePath} {base names : List String} {content : ByteArray}
    (h : d.locate root = .ok base) :
    d.Has root names content ↔ names ≠ [] ∧ (base ++ names, .file content) ∈ d.entries := by
  refine ⟨?_, fun ⟨hnames, hmem⟩ => ⟨base, h, hnames, hmem⟩⟩
  rintro ⟨base', hbase', hnames, hmem⟩
  rw [Except.ok.inj (h.symm.trans hbase')]
  exact ⟨hnames, hmem⟩

/-- The same names lead from the two roots to files with the same content. -/
def SameFiles (d d' : Disk) (root root' : FilePath) : Prop :=
  ∀ names content, d.Has root names content ↔ d'.Has root' names content

/-- The first names are before the second when they are written with slashes. -/
def FilePath.Before (names more : List String) : Prop :=
  String.intercalate "/" names < String.intercalate "/" more

instance : Std.Irrefl FilePath.Before := ⟨fun _ h => lt_irrefl _ h⟩

instance : Std.Antisymm FilePath.Before := ⟨fun _ _ h h' => absurd h' (lt_asymm h)⟩

/-! ## Paths by the names below the root -/

namespace FilePath

/-- Paths below a root are in the order of their names. -/
theorem render_under_lt_iff (root : FilePath) {names more : List String} (hnames : names ≠ [])
    (hmore : more ≠ []) :
    (root.under names).render < (root.under more).render ↔ Before names more := by
  obtain ⟨start, hstart⟩ := exists_render_under root
  have hkeep {s t : String} (h : s < t) : start ++ s < start ++ t := by
    rw [String.lt_iff_toList_lt, String.toList_append, String.toList_append]
    exact List.append_left_lt (String.lt_iff_toList_lt.mp h)
  rw [hstart names hnames, hstart more hmore, Before]
  refine ⟨fun h => ?_, hkeep⟩
  -- the texts go on after the same start, so another order of the names would contradict
  rcases lt_trichotomy (String.intercalate "/" names) (String.intercalate "/" more) with
    hlt | heq | hgt
  · exact hlt
  · rw [heq] at h
    exact absurd h (lt_irrefl _)
  · exact absurd (hkeep hgt) (lt_asymm h)

theorem render_under_le_iff (root : FilePath) {names more : List String} (hnames : names ≠ [])
    (hmore : more ≠ []) :
    (root.under names).render ≤ (root.under more).render ↔ ¬ Before more names := by
  rw [← render_under_lt_iff root hmore hnames, not_lt]

theorem name_under (root : FilePath) {names : List String} (hnames : names ≠ []) :
    (root.under names).name = names.getLast?.getD "" := by
  rw [name, under, List.getLast?_append_of_ne_nil _ hnames]

end FilePath

namespace Place

/-- The parts of a file are those of the names that lead to it from the root. -/
theorem parts_under_eq (root root' : FilePath) (names : List String) :
    parts root (root.under names) = parts root' (root'.under names) := by
  rw [parts, parts, FilePath.below?_under, FilePath.below?_under]
  rfl

/-- What a file is does not depend on the root above it. -/
theorem ofPath_under (root root' : FilePath) (names : List String) (base : String) :
    ofPath root (root.under names) base = ofPath root' (root'.under names) base := by
  rw [ofPath, ofPath, parts_under_eq root root']

theorem isIndexFile_under (root root' : FilePath) (names : List String) :
    isIndexFile root (root.under names) = isIndexFile root' (root'.under names) := by
  rw [isIndexFile, isIndexFile, parts_under_eq root root']

end Place

namespace StaticPart

variable (root root' : FilePath) {names more : List String}

/-- To which versions a file belongs does not depend on the root above it. -/
theorem belongs_under (hnames : names ≠ []) (version : String) :
    belongs root version (root.under names) = belongs root' version (root'.under names) := by
  have hname : (root.under names).name = (root'.under names).name := by
    rw [FilePath.name_under root hnames, FilePath.name_under root' hnames]
  rw [belongs, belongs, Place.isVersionedFile, Place.isVersionedFile, FilePath.stem, FilePath.stem,
    hname, Place.isIndexFile_under root root']

/-- Which of two files is merged first does not depend on the root above them. -/
theorem before_under (hnames : names ≠ []) (hmore : more ≠ []) :
    before root (root.under names) (root.under more) =
      before root' (root'.under names) (root'.under more) := by
  have hle : decide ((root.under names).render ≤ (root.under more).render) =
      decide ((root'.under names).render ≤ (root'.under more).render) := by
    rw [decide_eq_decide, FilePath.render_under_le_iff root hnames hmore,
      FilePath.render_under_le_iff root' hnames hmore]
  rw [before, before, hle, Place.isIndexFile_under root root', Place.isIndexFile_under root root']

end StaticPart

/-! ## The files that are listed -/

namespace Fragment

variable {d d' : Disk} {root root' : FilePath} {p : FilePath} {names : List String}

theorem mem_discover_iff_has (hd : d.Sound) : p ∈ discover d root ↔ ∃ names content,
    d.Has root names content ∧ Text.endsWith (names.getLast?.getD "") ".yml" = true ∧
      p = root.under names := by
  rw [mem_discover, Disk.mem_filesBelow]
  constructor
  · rintro ⟨-, ⟨base, names, content, hbase, hnames, hmem, rfl⟩, hends⟩
    refine ⟨names, content, ⟨base, hbase, hnames, hmem⟩, ?_, rfl⟩
    rwa [← FilePath.name_under root hnames]
  · rintro ⟨names, content, ⟨base, hbase, hnames, hmem⟩, hends, rfl⟩
    refine ⟨Disk.isDirectory_iff.mpr ⟨base, hbase, hd.entryAt_of_prefix hmem hnames⟩,
      ⟨base, names, content, hbase, hnames, hmem, rfl⟩, ?_⟩
    rwa [FilePath.name_under root hnames]

/-- The names that lead from the root to the files that are listed, in order. -/
def namesBelow (d : Disk) (root : FilePath) : List (List String) :=
  (discover d root).map fun p => (root.below? p).getD []

theorem map_namesBelow (hd : d.Sound) : (namesBelow d root).map root.under = discover d root := by
  rw [namesBelow, List.map_map]
  refine (List.map_congr_left fun p hp => ?_).trans (List.map_id _)
  obtain ⟨names, -, -, -, rfl⟩ := (mem_discover_iff_has hd).mp hp
  rw [Function.comp_apply, FilePath.below?_under, Option.getD_some, id]

theorem mem_namesBelow (hd : d.Sound) : names ∈ namesBelow d root ↔
    ∃ content, d.Has root names content ∧
      Text.endsWith (names.getLast?.getD "") ".yml" = true := by
  rw [namesBelow, List.mem_map]
  constructor
  · rintro ⟨p, hp, hnames⟩
    obtain ⟨names', content, hhas, hends, rfl⟩ := (mem_discover_iff_has hd).mp hp
    rw [FilePath.below?_under, Option.getD_some] at hnames
    rw [← hnames]
    exact ⟨content, hhas, hends⟩
  · rintro ⟨content, hhas, hends⟩
    refine ⟨root.under names, (mem_discover_iff_has hd).mpr ⟨names, content, hhas, hends, rfl⟩, ?_⟩
    rw [FilePath.below?_under, Option.getD_some]

theorem ne_nil_of_mem_namesBelow (hd : d.Sound) (h : names ∈ namesBelow d root) : names ≠ [] := by
  obtain ⟨content, ⟨base, -, hnames, -⟩, -⟩ := (mem_namesBelow hd).mp h
  exact hnames

/-- Each file is listed once. -/
theorem nodup_discover (hd : d.Sound) : (discover d root).Nodup := by
  rw [discover]
  split
  · refine (List.mergeSort_perm _ _).nodup_iff.mpr (List.Nodup.filter _ ?_)
    rw [Disk.filesBelow]
    cases d.locate root with
    | error f => exact List.nodup_nil
    | ok base =>
      have honce := List.Nodup.of_map Prod.fst hd.once
      refine List.Nodup.map_on (fun e he e' he' heq => ?_) (honce.filter _)
      -- entries below one directory have one path only if they stand at one location
      obtain ⟨hmem, hbelow⟩ := List.mem_filter.mp he
      obtain ⟨hmem', hbelow'⟩ := List.mem_filter.mp he'
      simp only [Bool.and_eq_true, List.isPrefixOf_iff_prefix] at hbelow hbelow'
      obtain ⟨⟨-, names, hnames⟩, -⟩ := hbelow
      obtain ⟨⟨-, more, hmore⟩, -⟩ := hbelow'
      rw [Disk.pathOf, Disk.pathOf, ← hnames, ← hmore, List.drop_left, List.drop_left] at heq
      have hlocation : e.1 = e'.1 := by
        rw [← hnames, ← hmore, FilePath.under_inj.mp heq]
      exact List.inj_on_of_nodup_map hd.once hmem hmem' hlocation
  · exact List.nodup_nil

/-- The names are listed in strict order. -/
theorem pairwise_namesBelow (hd : d.Sound) (hroot : root.IsProper) :
    (namesBelow d root).Pairwise FilePath.Before := by
  rw [namesBelow, List.pairwise_map]
  refine ((pairwise_discover d root).and (nodup_discover hd)).imp_of_mem
    fun {p q} hp hq hpq => ?_
  obtain ⟨hle, hne⟩ := hpq
  have hrender : p.render ≠ q.render := fun heq => hne (by
    rw [← ofText_render_of_mem hd hroot hp, ← ofText_render_of_mem hd hroot hq, heq])
  obtain ⟨names, -, ⟨-, -, hnames, -⟩, -, rfl⟩ := (mem_discover_iff_has hd).mp hp
  obtain ⟨more, -, ⟨-, -, hmore, -⟩, -, rfl⟩ := (mem_discover_iff_has hd).mp hq
  rw [FilePath.below?_under, FilePath.below?_under]
  exact (FilePath.render_under_lt_iff root hnames hmore).mp (lt_of_le_of_ne hle hrender)

end Fragment

namespace SameFiles

open Fragment

variable {d d' : Disk} {root root' : FilePath}

/-- Trees that hold the same files list the same names in the same order. -/
theorem namesBelow_eq (h : SameFiles d d' root root') (hd : d.Sound) (hd' : d'.Sound)
    (hroot : root.IsProper) (hroot' : root'.IsProper) :
    namesBelow d root = namesBelow d' root' := by
  -- lists in strict order are equal if they have the same members
  refine (pairwise_namesBelow hd hroot).eq_of_mem_iff (pairwise_namesBelow hd' hroot')
    fun names => ?_
  rw [mem_namesBelow hd, mem_namesBelow hd']
  exact exists_congr fun content => and_congr_left fun _ => h names content

end SameFiles

/-- A file of the first tree and the one of the second to which the same names lead. -/
def Counterpart (d d' : Disk) (root root' : FilePath) (p p' : FilePath) : Prop :=
  ∃ names content, d.Has root names content ∧ d'.Has root' names content ∧
    p = root.under names ∧ p' = root'.under names

namespace SameFiles

open Fragment

variable {d d' : Disk} {root root' : FilePath}

/-- The lists of files of both trees are made of one list of names. -/
theorem exists_names (h : SameFiles d d' root root') (hd : d.Sound) (hd' : d'.Sound)
    (hroot : root.IsProper) (hroot' : root'.IsProper) :
    ∃ listed : List (List String),
      (∀ names ∈ listed, names ≠ [] ∧
        Counterpart d d' root root' (root.under names) (root'.under names)) ∧
      discover d root = listed.map root.under ∧ discover d' root' = listed.map root'.under := by
  refine ⟨namesBelow d root, fun names hmem => ⟨ne_nil_of_mem_namesBelow hd hmem, ?_⟩,
    (map_namesBelow hd).symm, ?_⟩
  · obtain ⟨content, hhas, -⟩ := (mem_namesBelow hd).mp hmem
    exact ⟨names, content, hhas, (h names content).mp hhas, rfl, rfl⟩
  · rw [h.namesBelow_eq hd hd' hroot hroot', map_namesBelow hd']

theorem forall₂_map {listed : List (List String)} (h : ∀ names ∈ listed, names ≠ [] ∧
      Counterpart d d' root root' (root.under names) (root'.under names)) :
    List.Forall₂ (Counterpart d d' root root') (listed.map root.under) (listed.map root'.under) := by
  rw [List.forall₂_map_left_iff, List.forall₂_map_right_iff, List.forall₂_same]
  exact fun names hnames => (h names hnames).2

/-- Trees that hold the same files list counterparts. -/
theorem discover (h : SameFiles d d' root root') (hd : d.Sound) (hd' : d'.Sound)
    (hroot : root.IsProper) (hroot' : root'.IsProper) :
    List.Forall₂ (Counterpart d d' root root') (discover d root) (discover d' root') := by
  obtain ⟨listed, hlisted, heq, heq'⟩ := h.exists_names hd hd' hroot hroot'
  rw [heq, heq']
  exact forall₂_map hlisted

/-- Counterparts are operations in both trees. -/
theorem operationFiles (h : SameFiles d d' root root') (hd : d.Sound) (hd' : d'.Sound)
    (hroot : root.IsProper) (hroot' : root'.IsProper) (base : String) :
    List.Forall₂ (Counterpart d d' root root') (OperationTable.files d root base)
      (OperationTable.files d' root' base) := by
  obtain ⟨listed, hlisted, heq, heq'⟩ := h.exists_names hd hd' hroot hroot'
  rw [OperationTable.files, OperationTable.files, heq, heq', List.filter_map, List.filter_map]
  have hkeep : ((fun p => (Place.ofPath root' p base).kind.isOperation) ∘ root'.under) =
      ((fun p => (Place.ofPath root p base).kind.isOperation) ∘ root.under) :=
    funext fun names => by
      rw [Function.comp_apply, Function.comp_apply, Place.ofPath_under root root']
  rw [hkeep]
  exact forall₂_map fun names hnames => hlisted names (List.mem_of_mem_filter hnames)

/-- Counterparts belong to the static part of a version in both trees, and in the same order. -/
theorem staticFiles (h : SameFiles d d' root root') (hd : d.Sound) (hd' : d'.Sound)
    (hroot : root.IsProper) (hroot' : root'.IsProper) (version : String) :
    List.Forall₂ (Counterpart d d' root root') (StaticPart.files d root version)
      (StaticPart.files d' root' version) := by
  obtain ⟨listed, hlisted, heq, heq'⟩ := h.exists_names hd hd' hroot hroot'
  rw [StaticPart.files, StaticPart.files, heq, heq', List.filter_map, List.filter_map]
  have hkeep : listed.filter ((fun p => !Place.isOperationFile root' p &&
        StaticPart.belongs root' version p) ∘ root'.under) =
      listed.filter ((fun p => !Place.isOperationFile root p &&
        StaticPart.belongs root version p) ∘ root.under) := by
    refine List.filter_congr fun names hnames => ?_
    rw [Function.comp_apply, Function.comp_apply, Place.isOperationFile, Place.isOperationFile,
      Place.ofPath_under root root', StaticPart.belongs_under root root' (hlisted names hnames).1]
  rw [hkeep]
  generalize hkept : listed.filter _ = kept
  have hmem : ∀ names ∈ kept, names ∈ listed := fun names hnames =>
    List.mem_of_mem_filter (hkept ▸ hnames)
  -- the names themselves can be sorted, by either root
  have hsort : (kept.map root.under).mergeSort (StaticPart.before root) =
      (kept.mergeSort fun names more =>
        StaticPart.before root (root.under names) (root.under more)).map root.under :=
    (List.map_mergeSort (f := root.under) fun _ _ _ _ => rfl).symm
  have hsort' : (kept.map root'.under).mergeSort (StaticPart.before root') =
      (kept.mergeSort fun names more =>
        StaticPart.before root (root.under names) (root.under more)).map root'.under :=
    (List.map_mergeSort (f := root'.under) fun names hnames more hmore =>
      StaticPart.before_under root root' (hlisted names (hmem names hnames)).1
        (hlisted more (hmem more hmore)).1).symm
  rw [hsort, hsort']
  exact forall₂_map fun names hnames => hlisted names (hmem names (List.mem_mergeSort.mp hnames))

end SameFiles
end ApiTree
