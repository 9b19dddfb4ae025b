import ApiTree.Disk.Basic
import ApiTree.Proofs.Disk.FilePath
import ApiTree.Proofs.Entries
import ApiTree.Proofs.Except

/-!
# Trees of files

A disk is sound if its locations are those of a tree: each stands once, in a directory, and is made
of names. Below a directory each file is then found at the path by which it is listed
(`Sound.locate_eq`), and writing to that path changes the content of this file and nothing else
(`Sound.write_eq`).
-/

set_option autoImplicit false

namespace ApiTree.Disk

/-- The locations are those of a tree of files, in which the working directory is a directory. -/
structure Sound (d : Disk) : Prop where
  once : (Entries.keys d.entries).Nodup
  names : ∀ e ∈ d.entries, ∀ s ∈ e.1, FilePath.IsName s ∧ s ≠ ".."
  parents : ∀ e ∈ d.entries, d.entryAt e.1.dropLast = some .directory
  home : ∀ location content, (location, .file content) ∈ d.entries → ¬ location <+: d.home

/-! ## Walking -/

/-- Names lead on from a location only if a directory stands there. -/
theorem walk_cons_eq_ok {d : Disk} {location names l : List String} {name : String} :
    d.walk location (name :: names) = .ok l ↔ d.entryAt location = some .directory ∧
      d.walk (if name = ".." then location.dropLast else location ++ [name]) names = .ok l := by
  rw [walk]
  cases d.entryAt location with
  | none => simp
  | some e => cases e <;> simp

theorem walk_append (d : Disk) (location names more : List String) :
    d.walk location (names ++ more) = d.walk location names >>= fun l => d.walk l more := by
  induction names generalizing location with
  | nil => rfl
  | cons name names ih =>
    rw [List.cons_append, walk, walk]
    cases d.entryAt location with
    | none => rfl
    | some e =>
      cases e with
      | file content => rfl
      | directory => exact ih _

/-- A name that leads nowhere back leads into a directory. -/
theorem walk_concat_eq_ok {d : Disk} {location names l : List String} {name : String}
    (hname : name ≠ "..") :
    d.walk location (names ++ [name]) = .ok l ↔ ∃ above, d.walk location names = .ok above ∧
      d.entryAt above = some .directory ∧ l = above ++ [name] := by
  rw [walk_append, bind_eq_ok]
  refine exists_congr fun above => and_congr_right fun _ => ?_
  rw [walk_cons_eq_ok, if_neg hname, walk, Except.ok.injEq]
  exact and_congr_right fun _ => eq_comm

/-- Names that lead from directory to directory do so where these are directories too. -/
theorem walk_of_directories {d d' : Disk}
    (h : ∀ l, d.entryAt l = some .directory → d'.entryAt l = some .directory)
    {location names l : List String} (hwalk : d.walk location names = .ok l) :
    d'.walk location names = .ok l := by
  induction names generalizing location with
  | nil => exact hwalk
  | cons name names ih =>
    obtain ⟨hlocation, hrest⟩ := walk_cons_eq_ok.mp hwalk
    exact walk_cons_eq_ok.mpr ⟨h location hlocation, ih hrest⟩

/-- A path leads to where its name stands in the directory to which its parent leads. -/
theorem locate_eq_ok_iff {d : Disk} {p : FilePath} (hne : p.segments ≠ []) (hname : p.name ≠ "..")
    {l : List String} :
    d.locate p = .ok l ↔ ∃ above, d.locate p.parent = .ok above ∧
      d.entryAt above = some .directory ∧ l = above ++ [p.name] := by
  rw [locate, FilePath.segments_eq_concat hne]
  exact walk_concat_eq_ok hname

theorem find_eq_ok {d : Disk} {p : FilePath} {e : DiskEntry} :
    d.find p = .ok e ↔ ∃ l, d.locate p = .ok l ∧ d.entryAt l = some e := by
  rw [find]
  cases d.locate p with
  | error f => simp [bind, Except.bind]
  | ok l =>
    cases hentry : d.entryAt l <;>
      simp [bind, Except.bind, pure, Except.pure, throw, throwThe, MonadExceptOf.throw, hentry]

theorem isDirectory_iff {d : Disk} {p : FilePath} :
    d.isDirectory p = true ↔ ∃ l, d.locate p = .ok l ∧ d.entryAt l = some .directory := by
  rw [isDirectory, ← find_eq_ok]
  cases d.find p with
  | error f => simp
  | ok e => cases e <;> simp

theorem read_eq_ok {d : Disk} {p : FilePath} {content : ByteArray} :
    d.read p = .ok content ↔ ∃ l, d.locate p = .ok l ∧ d.entryAt l = some (.file content) := by
  rw [read, ← find_eq_ok]
  cases d.find p with
  | error f => simp [bind, Except.bind]
  | ok e =>
    cases e <;> simp [bind, Except.bind, pure, Except.pure, throw, throwThe, MonadExceptOf.throw]

theorem isFile_iff {d : Disk} {p : FilePath} :
    d.isFile p = true ↔ ∃ content, d.read p = .ok content := by
  simp only [read_eq_ok, ← find_eq_ok]
  rw [isFile]
  cases d.find p with
  | error f => simp
  | ok e => cases e <;> simp

/-- The disks have the same directories and the same working directory. -/
structure SameDirectories (d d' : Disk) : Prop where
  home : d'.home = d.home
  directories : ∀ l, d'.entryAt l = some .directory ↔ d.entryAt l = some .directory

theorem SameDirectories.locate_eq_ok {d d' : Disk} (h : SameDirectories d d') {p : FilePath}
    {l : List String} : d'.locate p = .ok l ↔ d.locate p = .ok l := by
  rw [locate, locate, h.home]
  constructor
  · exact walk_of_directories fun l => (h.directories l).mp
  · exact walk_of_directories fun l => (h.directories l).mpr

theorem SameDirectories.isDirectory {d d' : Disk} (h : SameDirectories d d') (p : FilePath) :
    d'.isDirectory p = d.isDirectory p := by
  rw [Bool.eq_iff_iff, isDirectory_iff, isDirectory_iff]
  exact exists_congr fun l => and_congr h.locate_eq_ok (h.directories l)

/-- Where the names lead to a directory, making the directories on the way changes nothing. -/
theorem makeDirectories_of_walk {d : Disk} {location names l : List String}
    (hwalk : d.walk location names = .ok l) (hl : d.entryAt l = some .directory) :
    d.makeDirectories location names = .ok d := by
  induction names generalizing location with
  | nil => rfl
  | cons name names ih =>
    obtain ⟨-, hrest⟩ := walk_cons_eq_ok.mp hwalk
    -- the next location is the last one, or names lead on from it
    have hnext : d.entryAt (if name = ".." then location.dropLast else location ++ [name]) =
        some .directory := by
      cases names with
      | nil =>
        obtain rfl := Except.ok.inj hrest
        exact hl
      | cons other names => exact (walk_cons_eq_ok.mp hrest).1
    rw [makeDirectories]
    simp only [hnext]
    exact ih hrest

/-! ## Locations of a sound disk -/

theorem entryAt_eq_directory_cases {d : Disk} {l : List String}
    (h : d.entryAt l = some .directory) :
    l <+: d.home ∨ (l, .directory) ∈ d.entries := by
  rw [entryAt] at h
  split at h
  · next hhome => exact .inl (List.isPrefixOf_iff_prefix.mp hhome)
  · exact .inr (Entries.mem_of_get? h)

theorem entryAt_of_prefix_home {d : Disk} {l : List String} (h : l <+: d.home) :
    d.entryAt l = some .directory := by
  rw [entryAt, if_pos (List.isPrefixOf_iff_prefix.mpr h)]

variable {d : Disk}

/-- What stands above a location is a directory. -/
theorem Sound.entryAt_of_prefix (h : d.Sound) {above below : List String} {e : DiskEntry}
    (hmem : (above ++ below, e) ∈ d.entries) (hbelow : below ≠ []) :
    d.entryAt above = some .directory := by
  -- from the location up, one name at a time
  induction below using List.reverseRecOn generalizing e with
  | nil => exact absurd rfl hbelow
  | append_singleton below name ih =>
    have hparent := h.parents _ hmem
    rw [← List.append_assoc, List.dropLast_concat] at hparent
    by_cases hempty : below = []
    · rwa [hempty, List.append_nil] at hparent
    · rcases entryAt_eq_directory_cases hparent with hhome | hdirectory
      · exact entryAt_of_prefix_home ((List.prefix_append above below).trans hhome)
      · exact ih hdirectory hempty

theorem Sound.entryAt_file (h : d.Sound) {l : List String} {content : ByteArray}
    (hmem : (l, .file content) ∈ d.entries) : d.entryAt l = some (.file content) := by
  rw [entryAt, if_neg fun hhome => h.home l content hmem (List.isPrefixOf_iff_prefix.mp hhome)]
  exact Entries.get?_of_mem h.once hmem

/-- From a directory the names that lead to a location below it lead to each place on the way. -/
theorem Sound.walk_eq (h : d.Sound) {above names below : List String} {e : DiskEntry}
    (hmem : (above ++ (names ++ below), e) ∈ d.entries) :
    d.walk above names = .ok (above ++ names) := by
  induction names generalizing above with
  | nil => rw [walk, List.append_nil]
  | cons name names ih =>
    have hname : name ≠ ".." := (h.names _ hmem name (by simp)).2
    rw [walk, h.entryAt_of_prefix hmem (by simp)]
    simp only [if_neg hname]
    rw [List.cons_append, List.append_cons] at hmem
    rw [ih hmem, List.append_cons above name names]

/-! ## Files below a directory -/

theorem mem_filesBelow {root p : FilePath} :
    p ∈ d.filesBelow root ↔ ∃ base names content, d.locate root = .ok base ∧ names ≠ [] ∧
      (base ++ names, .file content) ∈ d.entries ∧
      p = ⟨root.anchor, root.segments ++ names⟩ := by
  rw [filesBelow]
  cases hbase : d.locate root with
  | error f => simp
  | ok base =>
    simp only [List.mem_map, List.mem_filter, Bool.and_eq_true, decide_eq_true_eq]
    constructor
    · rintro ⟨⟨l, e⟩, ⟨hmem, ⟨hfile, hprefix⟩, hne⟩, rfl⟩
      obtain ⟨names, rfl⟩ := List.isPrefixOf_iff_prefix.mp hprefix
      cases e with
      | directory => cases hfile
      | file content =>
        refine ⟨base, names, content, rfl, fun hnames => hne ?_, hmem, ?_⟩
        · rw [hnames, List.append_nil]
        · rw [pathOf, List.drop_left]
    · rintro ⟨base', names, content, hlocate, hnames, hmem, rfl⟩
      obtain rfl := Except.ok.inj hlocate
      refine ⟨(base ++ names, .file content), ⟨hmem, ⟨rfl, ?_⟩, ?_⟩, ?_⟩
      · exact List.isPrefixOf_iff_prefix.mpr (List.prefix_append base names)
      · exact fun heq =>
          hnames (List.append_cancel_left (heq.symm.trans (List.append_nil base).symm))
      · rw [pathOf, List.drop_left]

/-- A file below a directory is found at the path by which it is listed. -/
theorem Sound.locate_eq (h : d.Sound) {root : FilePath} {base names : List String}
    {content : ByteArray} (hbase : d.locate root = .ok base)
    (hmem : (base ++ names, .file content) ∈ d.entries) :
    d.locate ⟨root.anchor, root.segments ++ names⟩ = .ok (base ++ names) := by
  rw [locate] at hbase ⊢
  simp only at hbase ⊢
  rw [walk_append, hbase]
  rw [← List.append_nil names] at hmem
  exact h.walk_eq hmem

theorem Sound.read_eq (h : d.Sound) {root : FilePath} {base names : List String}
    {content : ByteArray} (hbase : d.locate root = .ok base)
    (hmem : (base ++ names, .file content) ∈ d.entries) :
    d.read ⟨root.anchor, root.segments ++ names⟩ = .ok content :=
  read_eq_ok.mpr ⟨_, h.locate_eq hbase hmem, h.entryAt_file hmem⟩

/-- The path of a file below a proper path is proper. -/
theorem Sound.isProper (h : d.Sound) {root p : FilePath} (hroot : root.IsProper)
    (hp : p ∈ d.filesBelow root) : p.IsProper := by
  obtain ⟨base, names, content, -, -, hmem, rfl⟩ := mem_filesBelow.mp hp
  exact FilePath.isProper_append hroot fun s hs =>
    (h.names _ hmem s (List.mem_append_right base hs)).1

/-! ## Other content in a file -/

/-- The file below a directory gets the content that is written to it. -/
theorem Sound.write_eq (h : d.Sound) {root p : FilePath} (hp : p ∈ d.filesBelow root)
    (content : ByteArray) :
    ∃ location old before after, d.locate p = .ok location ∧
      d.entries = before ++ (location, .file old) :: after ∧
      d.write p content = .ok ⟨d.home, before ++ (location, .file content) :: after⟩ := by
  obtain ⟨base, names, old, hbase, hnames, hmem, rfl⟩ := mem_filesBelow.mp hp
  have hlocate := h.locate_eq hbase hmem
  obtain ⟨before, after, hentries, hput⟩ :=
    Entries.put_eq_of_get? (DiskEntry.file content) (Entries.get?_of_mem h.once hmem)
  refine ⟨base ++ names, old, before, after, hlocate, hentries, ?_⟩
  -- the directories on the way are there
  have hparent : d.entryAt (base ++ names.dropLast) = some .directory := by
    rw [← List.dropLast_append_of_ne_nil hnames]
    exact h.parents _ hmem
  have hwalk : d.walk (if root.anchor = .relative then d.home else [])
      (root.segments ++ names.dropLast) = .ok (base ++ names.dropLast) := by
    rw [locate] at hbase
    rw [walk_append, hbase]
    rw [← List.dropLast_append_getLast hnames] at hmem
    exact h.walk_eq hmem
  have hmake := makeDirectories_of_walk hwalk hparent
  rw [← List.dropLast_append_of_ne_nil hnames] at hmake
  rw [write]
  simp only [FilePath.parent, hmake, bind, Except.bind, hlocate, h.entryAt_file hmem]
  rw [hput]
  rfl

section Overwrite

/-- A disk with a file among its entries. -/
def withFile (home : List String) (before after : List (List String × DiskEntry))
    (location : List String) (content : ByteArray) : Disk :=
  ⟨home, before ++ (location, .file content) :: after⟩

variable {home location : List String} {before after : List (List String × DiskEntry)}
  {old : ByteArray}

theorem mem_withFile {content : ByteArray} :
    (location, .file content) ∈ (withFile home before after location content).entries :=
  List.mem_append_right before List.mem_cons_self

/-- Another content of a file changes nothing at other locations. -/
theorem entryAt_withFile (old content : ByteArray) {l : List String} (hl : l ≠ location) :
    (withFile home before after location content).entryAt l =
      (withFile home before after location old).entryAt l := by
  have hget (e : DiskEntry) : Entries.get? l (before ++ (location, e) :: after) =
      Entries.get? l (before ++ after) := by
    induction before with
    | nil => exact if_neg (Ne.symm hl)
    | cons f before ih =>
      rw [List.cons_append, List.cons_append, Entries.get?, Entries.get?, ih]
  rw [withFile, withFile, entryAt, entryAt, hget, hget]

theorem Sound.directory_withFile (h : (withFile home before after location old).Sound)
    (content : ByteArray) {l : List String}
    (hl : (withFile home before after location old).entryAt l = some .directory) :
    (withFile home before after location content).entryAt l = some .directory := by
  rw [entryAt_withFile old, hl]
  -- a file stands at the location, and no directory
  rintro rfl
  rw [h.entryAt_file mem_withFile] at hl
  cases hl

theorem Sound.withFile (h : (withFile home before after location old).Sound)
    (content : ByteArray) : (withFile home before after location content).Sound := by
  have hentry (e : List String × DiskEntry)
      (he : e ∈ before ++ (location, .file content) :: after) :
      ∃ f ∈ before ++ (location, .file old) :: after, f.1 = e.1 ∧
        ∀ c, e.2 = .file c → ∃ c', f.2 = .file c' := by
    rcases List.mem_append.mp he with he | he
    · exact ⟨e, List.mem_append_left _ he, rfl, fun c hc => ⟨c, hc⟩⟩
    · rcases List.mem_cons.mp he with rfl | he
      · exact ⟨(location, .file old), by simp, rfl, fun c _ => ⟨old, rfl⟩⟩
      · exact ⟨e, by simp [he], rfl, fun c hc => ⟨c, hc⟩⟩
  refine ⟨?_, fun e he => ?_, fun e he => ?_, fun l c hlc => ?_⟩
  · have honce := h.once
    simp only [Disk.withFile, Entries.keys, List.map_append, List.map_cons] at honce ⊢
    exact honce
  · obtain ⟨f, hf, hkey, -⟩ := hentry e he
    rw [← hkey]
    exact h.names f hf
  · obtain ⟨f, hf, hkey, -⟩ := hentry e he
    rw [← hkey]
    exact h.directory_withFile content (h.parents f hf)
  · obtain ⟨⟨m, e⟩, hf, hkey, hfile⟩ := hentry _ hlc
    obtain ⟨c', rfl⟩ := hfile c rfl
    obtain rfl : m = l := hkey
    exact h.home m c' hf

theorem Sound.sameDirectories_withFile (h : (Disk.withFile home before after location old).Sound)
    (content : ByteArray) : SameDirectories (Disk.withFile home before after location old)
      (Disk.withFile home before after location content) :=
  ⟨rfl, fun _ => ⟨(h.withFile content).directory_withFile old, h.directory_withFile content⟩⟩

theorem Sound.filesBelow_withFile (h : (Disk.withFile home before after location old).Sound)
    (content : ByteArray) (root : FilePath) :
    (Disk.withFile home before after location content).filesBelow root =
      (Disk.withFile home before after location old).filesBelow root := by
  have hlocate {l : List String} :=
    (h.sameDirectories_withFile content).locate_eq_ok (p := root) (l := l)
  rw [filesBelow, filesBelow]
  cases hbase : (Disk.withFile home before after location old).locate root with
  | error f =>
    cases hbase' : (Disk.withFile home before after location content).locate root with
    | error f => rfl
    | ok base =>
      rw [hlocate, hbase] at hbase'
      cases hbase'
  | ok base =>
    rw [hlocate.mpr hbase]
    simp only [Disk.withFile, List.filter_append, List.filter_cons, List.map_append]
    split <;> rfl

end Overwrite

/-- Writing to a file below a directory gives this file the content and leaves the others as they
are. -/
theorem Sound.write_below (h : d.Sound) {root p : FilePath} (hp : p ∈ d.filesBelow root)
    (content : ByteArray) :
    ∃ d', d.write p content = .ok d' ∧ d'.Sound ∧ d'.isDirectory root = d.isDirectory root ∧
      d'.filesBelow root = d.filesBelow root ∧ d'.read p = .ok content ∧
      ∀ q ∈ d.filesBelow root, q ≠ p → d'.read q = d.read q := by
  obtain ⟨location, old, before, after, hlocate, hentries, hwrite⟩ := h.write_eq hp content
  obtain ⟨home, entries⟩ := d
  obtain rfl : entries = _ := hentries
  have hsame := h.sameDirectories_withFile content
  refine ⟨_, hwrite, h.withFile content, hsame.isDirectory root, h.filesBelow_withFile content root,
    ?_, fun q hq hqp => ?_⟩
  · exact read_eq_ok.mpr ⟨location, hsame.locate_eq_ok.mpr hlocate,
      (h.withFile content).entryAt_file mem_withFile⟩
  · obtain ⟨base, names, c, hbase, -, hmem, rfl⟩ := mem_filesBelow.mp hq
    rw [h.read_eq hbase hmem]
    refine (h.withFile content).read_eq (hsame.locate_eq_ok.mpr hbase) ?_
    -- the file stands at another location, since it has another path
    obtain ⟨base', names', c', hbase', -, hmem', rfl⟩ := mem_filesBelow.mp hp
    obtain rfl := Except.ok.inj (hbase.symm.trans hbase')
    have hother : base ++ names ≠ location := by
      rintro rfl
      have hnames := Except.ok.inj ((h.locate_eq hbase hmem').symm.trans hlocate)
      exact hqp (by rw [List.append_cancel_left hnames])
    simp only [Disk.withFile, List.mem_append, List.mem_cons, Prod.mk.injEq, hother, false_and,
      false_or] at hmem ⊢
    exact hmem

/-! ## Files that are deleted -/

theorem Sound.not_mem_keys_erase (h : d.Sound) {location : List String} {e : DiskEntry}
    (hmem : (location, e) ∈ d.entries) :
    location ∉ Entries.keys (Entries.erase location d.entries) := by
  have hkeys := (Entries.perm_cons_erase (Entries.get?_of_mem h.once hmem)).map Prod.fst
  exact (List.nodup_cons.mp (hkeys.nodup_iff.mp h.once)).1

/-- Without one of its files a disk has at other locations what it had. -/
theorem Sound.entryAt_erase (h : d.Sound) {location : List String} {content : ByteArray}
    (hmem : (location, .file content) ∈ d.entries) (l : List String) :
    entryAt { d with entries := Entries.erase location d.entries } l =
      if l = location then none else d.entryAt l := by
  by_cases hl : l = location
  · have hhome : ¬ location.isPrefixOf d.home = true :=
      fun hhome => h.home location content hmem (List.isPrefixOf_iff_prefix.mp hhome)
    rw [if_pos hl, hl, entryAt, if_neg hhome]
    exact Entries.get?_eq_none_iff.mpr (h.not_mem_keys_erase hmem)
  · rw [if_neg hl, entryAt, entryAt, Entries.get?_erase_of_ne (Ne.symm hl)]

theorem Sound.sameDirectories_erase (h : d.Sound) {location : List String} {content : ByteArray}
    (hmem : (location, .file content) ∈ d.entries) :
    SameDirectories d { d with entries := Entries.erase location d.entries } := by
  refine ⟨rfl, fun l => ?_⟩
  rw [h.entryAt_erase hmem]
  split
  · next hl =>
    rw [hl, h.entryAt_file hmem]
    simp
  · exact Iff.rfl

/-- Deleting a file below a directory takes this file away and leaves the others as they are. -/
theorem Sound.delete_below (h : d.Sound) {root p : FilePath} (hp : p ∈ d.filesBelow root) :
    (d.delete p).isDirectory root = d.isDirectory root ∧
      (d.filesBelow root).Perm (p :: (d.delete p).filesBelow root) ∧
      ∀ q ∈ (d.delete p).filesBelow root, (d.delete p).read q = d.read q := by
  obtain ⟨base, names, content, hbase, hnames, hmem, rfl⟩ := mem_filesBelow.mp hp
  have hdelete : d.delete ⟨root.anchor, root.segments ++ names⟩ =
      { d with entries := Entries.erase (base ++ names) d.entries } := by
    rw [delete, h.locate_eq hbase hmem]
  have hsame := h.sameDirectories_erase hmem
  rw [hdelete]
  refine ⟨hsame.isDirectory root, ?_, fun q hq => ?_⟩
  · rw [filesBelow, filesBelow, hbase, hsame.locate_eq_ok.mpr hbase]
    have hperm := Entries.perm_cons_erase (Entries.get?_of_mem h.once hmem)
    refine ((hperm.filter _).map _).trans ?_
    rw [List.filter_cons_of_pos, List.map_cons, pathOf, List.drop_left]
    simpa using hnames
  · obtain ⟨base', names', c, hbase', -, hmem', rfl⟩ := mem_filesBelow.mp hq
    rw [hsame.locate_eq_ok] at hbase'
    have hbelow := (Entries.erase_sublist _ _).subset hmem'
    rw [h.read_eq hbase' hbelow, read_eq_ok]
    refine ⟨_, hsame.locate_eq_ok.mpr (h.locate_eq hbase' hbelow), ?_⟩
    -- the deleted file stood at another location
    rw [h.entryAt_erase hmem, if_neg, h.entryAt_file hbelow]
    intro hlocation
    rw [hlocation] at hmem'
    exact h.not_mem_keys_erase hmem (List.mem_map_of_mem hmem')

end ApiTree.Disk
