import ApiTree.Fragment.Load
import ApiTree.Proofs.Disk.Write
import ApiTree.Proofs.Sorted

/-!
# The files of a tree

The files that are found below a root, each of which is read under the path by which it is listed.
Trees that list the same files differ in what these hold only. A tree that gains a file lists it
somewhere among the others (`Gains.exists_split`), and so does a tree from which it is deleted.
-/

set_option autoImplicit false

namespace ApiTree.Fragment

theorem mem_discover {d : Disk} {root p : FilePath} :
    p ∈ discover d root ↔
      d.isDirectory root = true ∧ p ∈ d.filesBelow root ∧ Text.endsWith p.name ".yml" = true := by
  rw [discover]
  split
  · next hroot => rw [List.mem_mergeSort, List.mem_filter, hroot]; simp
  · next hroot => simp [hroot]

/-- Fragments that are in the order of their paths are listed as they are. -/
theorem discover_eq_of_pairwise {d : Disk} {root : FilePath} {files : List FilePath}
    (hroot : d.isDirectory root = true)
    (hfiles : (d.filesBelow root).filter (fun p => Text.endsWith p.name ".yml") = files)
    (hsorted : files.Pairwise fun p q => p.render ≤ q.render) : discover d root = files := by
  rw [discover, if_pos hroot, hfiles]
  exact List.mergeSort_of_pairwise (hsorted.imp fun h => decide_eq_true h)

/-- What is found below a root depends on the files there only. -/
theorem discover_congr {d d' : Disk} {root : FilePath}
    (hroot : d'.isDirectory root = d.isDirectory root)
    (hfiles : d'.filesBelow root = d.filesBelow root) : discover d' root = discover d root := by
  rw [discover, discover, hroot, hfiles]

/-- What a file says depends on its content only. -/
theorem read_congr {d d' : Disk} {p : FilePath} (h : d'.read p = d.read p) :
    read d' p = read d p := by
  rw [read, read, h]

/-- A file of a tree is found again under the text of its path. -/
theorem ofText_render_of_mem {d : Disk} (hd : d.Sound) {root p : FilePath} (hroot : root.IsProper)
    (hp : p ∈ discover d root) : FilePath.ofText p.render = p :=
  FilePath.ofText_render (hd.isProper hroot (mem_discover.mp hp).2.1)

/-- Writing to a file of a tree changes what this file holds and nothing else of the tree. -/
theorem exists_write {d : Disk} (hd : d.Sound) {root p : FilePath} (hp : p ∈ discover d root)
    (content : ByteArray) :
    ∃ d', d.write p content = .ok d' ∧ discover d' root = discover d root ∧
      ∀ q ∈ discover d root, q ≠ p → d'.read q = d.read q := by
  obtain ⟨-, hfile, -⟩ := mem_discover.mp hp
  obtain ⟨d', hwrite, -, hroot, hfiles, -, hothers⟩ := hd.write_below hfile content
  exact ⟨d', hwrite, discover_congr hroot hfiles, fun q hq hqp =>
    hothers q (mem_discover.mp hq).2.1 hqp⟩

/-! ## One file more -/

/-- The second tree has the file `p` beside those of the first, which hold what they held. -/
structure Gains (d d' : Disk) (root p : FilePath) : Prop where
  files : (discover d' root).Perm (p :: discover d root)
  same : ∀ q ∈ discover d root, d'.read q = d.read q

/-- A tree gains what is deleted from it. -/
theorem gains_of_delete {d : Disk} (hd : d.Sound) {root p : FilePath}
    (hp : p ∈ discover d root) : Gains (d.delete p) d root p := by
  obtain ⟨hroot, hfile, hname⟩ := mem_discover.mp hp
  obtain ⟨hroot', hfiles, hothers⟩ := hd.delete_below hfile
  refine ⟨?_, fun q hq => (hothers q (mem_discover.mp hq).2.1).symm⟩
  rw [discover, discover, hroot', if_pos hroot, if_pos hroot]
  refine (List.mergeSort_perm _ _).trans ((hfiles.filter _).trans ?_)
  rw [List.filter_cons_of_pos (by exact hname)]
  exact (List.mergeSort_perm _ _).symm.cons p

theorem pairwise_discover (d : Disk) (root : FilePath) :
    (discover d root).Pairwise fun p q => p.render ≤ q.render := by
  rw [discover]
  split
  · exact pairwise_mergeSort_by FilePath.render _
  · exact List.Pairwise.nil

/-- A new file is listed somewhere among the others, whose order stays. -/
theorem Gains.exists_split {d d' : Disk} {root p : FilePath} (h : Gains d d' root p)
    (hd' : d'.Sound) (hroot : root.IsProper) :
    ∃ before after, discover d root = before ++ after ∧
      discover d' root = before ++ p :: after := by
  refine exists_split_of_perm (fun q hq r hr hqr hrq => ?_) (pairwise_discover d root)
    (pairwise_discover d' root) h.files
  -- files of a tree with one text are one file
  rw [← ofText_render_of_mem hd' hroot hq, ← ofText_render_of_mem hd' hroot hr,
    String.le_antisymm hqr hrq]

/-! ## Files that are no fragments -/

/-- Below a directory the path of a file ends in the name of the file. -/
theorem name_pathOf (root : FilePath) {base location : List String} (hbelow : base <+: location)
    (hne : base ≠ location) : (Disk.pathOf root base location).name = location.getLast?.getD "" := by
  obtain ⟨names, rfl⟩ := hbelow
  have hnil : names ≠ [] := by
    rintro rfl
    exact hne (List.append_nil base).symm
  rw [Disk.pathOf, FilePath.name, List.drop_left, List.getLast?_append_of_ne_nil _ hnil,
    List.getLast?_append_of_ne_nil _ hnil]

/-- The files that a tree lists are the fragments of the disk below its root. -/
theorem filter_filesBelow {d : Disk} {root : FilePath} {base : List String}
    (hbase : d.locate root = .ok base) :
    (d.filesBelow root).filter (fun p => Text.endsWith p.name ".yml") =
      ((d.entries.filter Disk.isFragment).filter fun e =>
        base.isPrefixOf e.1 && base ≠ e.1).map fun e => Disk.pathOf root base e.1 := by
  rw [Disk.filesBelow, hbase]
  simp only [List.filter_map, List.filter_filter]
  refine congrArg _ (List.filter_congr fun e _ => ?_)
  rw [Bool.eq_iff_iff]
  simp only [Function.comp_apply, Bool.and_eq_true, decide_eq_true_eq, List.isPrefixOf_iff_prefix,
    Disk.isFragment]
  constructor
  · rintro ⟨hname, ⟨hfile, hbelow⟩, hne⟩
    rw [name_pathOf root hbelow hne] at hname
    exact ⟨⟨hbelow, hne⟩, hfile, hname⟩
  · rintro ⟨⟨hbelow, hne⟩, hfile, hname⟩
    rw [← name_pathOf root hbelow hne] at hname
    exact ⟨hname, ⟨hfile, hbelow⟩, hne⟩

/-- A file that a tree lists, by its location. -/
theorem mem_discover_iff {d : Disk} {root p : FilePath} :
    p ∈ discover d root ↔ d.isDirectory root = true ∧ ∃ base names content,
      d.locate root = .ok base ∧ names ≠ [] ∧
      (base ++ names, .file content) ∈ d.entries.filter Disk.isFragment ∧
      p = ⟨root.anchor, root.segments ++ names⟩ := by
  rw [mem_discover]
  refine and_congr_right fun _ => ?_
  rw [Disk.mem_filesBelow]
  constructor
  · rintro ⟨⟨base, names, content, hbase, hnames, hmem, rfl⟩, hname⟩
    refine ⟨base, names, content, hbase, hnames, List.mem_filter.mpr ⟨hmem, ?_⟩, rfl⟩
    rw [FilePath.name, List.getLast?_append_of_ne_nil _ hnames] at hname
    rw [Disk.isFragment, List.getLast?_append_of_ne_nil _ hnames, hname]
    rfl
  · rintro ⟨base, names, content, hbase, hnames, hmem, rfl⟩
    obtain ⟨hmem, hfragment⟩ := List.mem_filter.mp hmem
    refine ⟨⟨base, names, content, hbase, hnames, hmem, rfl⟩, ?_⟩
    rw [Disk.isFragment, Bool.and_eq_true, List.getLast?_append_of_ne_nil _ hnames] at hfragment
    rw [FilePath.name, List.getLast?_append_of_ne_nil _ hnames]
    exact hfragment.2

/-- Names that lead nowhere back lead to what is below. -/
theorem walk_eq_append {d : Disk} {location names l : List String} (hnames : ".." ∉ names)
    (hwalk : d.walk location names = .ok l) : l = location ++ names := by
  induction names generalizing location with
  | nil => rw [List.append_nil, ← Except.ok.inj hwalk]
  | cons name names ih =>
    rw [List.mem_cons, not_or] at hnames
    obtain ⟨-, hrest⟩ := Disk.walk_cons_eq_ok.mp hwalk
    rw [if_neg (Ne.symm hnames.1)] at hrest
    rw [ih hnames.2 hrest, List.append_assoc]
    rfl

/-- A tree whose fragments stay lists the files that it listed, which hold what they held. Its root
was a directory, or no part of it leads back: else the root could be found by way of a directory that
was not there before. -/
theorem discover_of_keeps {d d' : Disk} (hd : d.Sound) (hd' : d'.Sound) (h : d.Keeps d')
    {root : FilePath} (hroot : d.isDirectory root = true ∨ ".." ∉ root.segments) :
    discover d' root = discover d root ∧ ∀ q ∈ discover d root, d'.read q = d.read q := by
  constructor
  · by_cases hdirectory : d.isDirectory root = true
    · obtain ⟨base, hbase, -⟩ := Disk.isDirectory_iff.mp hdirectory
      have hbase' := Disk.locate_of_directories h.home h.directories hbase
      rw [discover, discover, if_pos hdirectory, if_pos (h.isDirectory hdirectory), filter_filesBelow hbase,
        filter_filesBelow hbase', h.fragments]
    · -- a fragment below the root would have been there before, and the root with it
      have hnone : discover d root = [] := by rw [discover, if_neg hdirectory]
      rw [hnone, List.eq_nil_iff_forall_not_mem]
      intro p hp
      obtain ⟨-, base, names, content, hbase, hnames, hmem, -⟩ := mem_discover_iff.mp hp
      rw [h.fragments] at hmem
      have hmem := List.mem_of_mem_filter hmem
      have hwalk := hbase
      rw [Disk.locate, h.home] at hwalk
      obtain rfl := walk_eq_append (hroot.resolve_left hdirectory) hwalk
      refine hdirectory (Disk.isDirectory_iff.mpr ⟨_, ?_, hd.entryAt_of_prefix hmem hnames⟩)
      rw [List.append_assoc] at hmem
      exact hd.walk_eq hmem
  · intro q hq
    obtain ⟨-, base, names, content, hbase, -, hmem, rfl⟩ := mem_discover_iff.mp hq
    have hmem' := hmem
    rw [← h.fragments] at hmem'
    have hbase' := Disk.locate_of_directories h.home h.directories hbase
    rw [hd.read_eq hbase (List.mem_of_mem_filter hmem),
      hd'.read_eq hbase' (List.mem_of_mem_filter hmem')]

end ApiTree.Fragment
