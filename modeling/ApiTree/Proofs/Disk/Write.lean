import ApiTree.Proofs.Disk.Tree

/-!
# Writing files

Writing a file makes the directories on the way that are missing and puts the file into the last of
them; what stood elsewhere stays. The disk stays a tree (`IsTree.write`), and as long as no fragment
is written the tree has the fragments that it had (`Keeps`).
-/

set_option autoImplicit false

namespace ApiTree.Disk

/-- The text can stand in the location of a file. -/
def IsStep (s : String) : Prop := FilePath.IsName s ∧ s ≠ ".."

instance (s : String) : Decidable (IsStep s) :=
  inferInstanceAs (Decidable (FilePath.IsName s ∧ s ≠ ".."))

/-- The disk is a tree of files, and the working directory has a location of names too. -/
structure IsTree (d : Disk) : Prop where
  sound : d.Sound
  home : ∀ s ∈ d.home, IsStep s

variable {d d' d'' : Disk}

/-- A path leads where it did as long as the directories are there. -/
theorem locate_of_directories (hhome : d'.home = d.home)
    (h : ∀ l, d.entryAt l = some .directory → d'.entryAt l = some .directory) {p : FilePath}
    {l : List String} (hl : d.locate p = .ok l) : d'.locate p = .ok l := by
  rw [locate, hhome]
  exact walk_of_directories h hl

/-! ## One more entry -/

theorem entryAt_put {l m : List String} (hl : ¬ l <+: d.home) (e : DiskEntry) :
    ({ d with entries := Entries.put l e d.entries } : Disk).entryAt m =
      if l = m then some e else d.entryAt m := by
  rw [entryAt, entryAt, Entries.get?_put]
  by_cases hm : m <+: d.home
  · have hlm : l ≠ m := by
      rintro rfl
      exact hl hm
    simp [hm, hlm]
  · simp [hm]

theorem not_prefix_home {l : List String} (hl : d.entryAt l ≠ some .directory) :
    ¬ l <+: d.home :=
  fun hhome => hl (entryAt_of_prefix_home hhome)

/-- What stands above a directory is a directory. -/
theorem Sound.entryAt_dropLast (h : d.Sound) {l : List String}
    (hl : d.entryAt l = some .directory) : d.entryAt l.dropLast = some .directory := by
  rcases entryAt_eq_directory_cases hl with hhome | hmem
  · exact entryAt_of_prefix_home ((List.dropLast_prefix l).trans hhome)
  · exact h.parents _ hmem

/-- A file or a directory is put into a directory. -/
theorem IsTree.put (h : d.IsTree) {l : List String} (hl : d.entryAt l ≠ some .directory)
    (hparent : d.entryAt l.dropLast = some .directory) (hnames : ∀ s ∈ l, IsStep s)
    (e : DiskEntry) : ({ d with entries := Entries.put l e d.entries } : Disk).IsTree := by
  have hhome := not_prefix_home hl
  refine ⟨⟨Entries.nodup_keys_put _ _ h.sound.once, fun f hf => ?_, fun f hf => ?_,
    fun m content hm => ?_⟩, h.home⟩
  · rcases Entries.mem_put hf with rfl | hf
    · exact hnames
    · exact h.sound.names f hf
  · rw [entryAt_put hhome]
    rcases Entries.mem_put hf with rfl | hf
    · -- only the empty location is above itself
      rw [if_neg, hparent]
      intro hself
      have hlength : l.length = l.dropLast.length := congrArg List.length hself
      rw [List.length_dropLast] at hlength
      have hnil : l = [] := List.length_eq_zero_iff.mp (by omega)
      exact hhome (hnil ▸ List.nil_prefix)
    · have hother : l ≠ f.1.dropLast := fun hself => hl (hself ▸ h.sound.parents f hf)
      rw [if_neg hother, h.sound.parents f hf]
  · rcases Entries.mem_put hm with heq | hm
    · rw [(Prod.mk.inj heq).1]
      exact hhome
    · exact h.sound.home m content hm

/-! ## Fragments -/

/-- The entry is a file that a tree of fragments lists. -/
def isFragment (e : List String × DiskEntry) : Bool :=
  (e.2 matches .file _) && Text.endsWith (e.1.getLast?.getD "") ".yml"

/-- The second disk has the directories of the first, perhaps more, and the same fragments. -/
structure Keeps (d d' : Disk) : Prop where
  home : d'.home = d.home
  directories : ∀ l, d.entryAt l = some .directory → d'.entryAt l = some .directory
  fragments : d'.entries.filter isFragment = d.entries.filter isFragment

theorem Keeps.refl (d : Disk) : Keeps d d := ⟨rfl, fun _ h => h, rfl⟩

theorem Keeps.trans (h : Keeps d d') (h' : Keeps d' d'') : Keeps d d'' :=
  ⟨h'.home.trans h.home, fun l hl => h'.directories l (h.directories l hl),
    h'.fragments.trans h.fragments⟩

theorem Keeps.isDirectory (h : Keeps d d') {p : FilePath} (hp : d.isDirectory p = true) :
    d'.isDirectory p = true := by
  obtain ⟨l, hl, hentry⟩ := isDirectory_iff.mp hp
  exact isDirectory_iff.mpr
    ⟨l, locate_of_directories h.home h.directories hl, h.directories l hentry⟩

/-- What is put where no fragment is, and is none, keeps the fragments. -/
theorem keeps_put {l : List String} (hl : d.entryAt l ≠ some .directory) {e : DiskEntry}
    (hnew : isFragment (l, e) = false) (hold : ∀ f, d.entryAt l = some f → isFragment (l, f) = false) :
    Keeps d { d with entries := Entries.put l e d.entries } := by
  refine ⟨rfl, fun m hm => ?_, ?_⟩
  · rw [entryAt_put (not_prefix_home hl), if_neg, hm]
    rintro rfl
    exact hl hm
  · rw [entryAt, if_neg fun hhome => not_prefix_home hl (List.isPrefixOf_iff_prefix.mp hhome)] at hold
    exact Entries.filter_put hnew hold

/-! ## Making directories -/

/-- A directory is made where nothing is. -/
theorem IsTree.makeDirectory (h : d.IsTree) {l : List String} (hl : d.entryAt l = none)
    (hparent : d.entryAt l.dropLast = some .directory) (hnames : ∀ s ∈ l, IsStep s) :
    let made : Disk := { d with entries := Entries.put l .directory d.entries }
    made.IsTree ∧ Keeps d made ∧ made.entryAt l = some .directory ∧
      ∀ m content, made.entryAt m = some (.file content) ↔ d.entryAt m = some (.file content) := by
  intro made
  have hno : d.entryAt l ≠ some .directory := by
    rw [hl]
    exact nofun
  have hentry (m : List String) : made.entryAt m = if l = m then some .directory else d.entryAt m :=
    entryAt_put (not_prefix_home hno) .directory
  refine ⟨h.put hno hparent hnames .directory, keeps_put hno rfl fun f hf => ?_, ?_, fun m c => ?_⟩
  · rw [hl] at hf
    cases hf
  · rw [hentry, if_pos rfl]
  · rw [hentry]
    split
    · next hm => simp [← hm, hl]
    · rfl

/-- Making directories leaves the files where they are, and leads from directory to directory. -/
theorem IsTree.makeDirectories (h : d.IsTree) {location names : List String}
    (hlocation : d.entryAt location = some .directory) (hsteps : ∀ s ∈ location, IsStep s)
    (hnames : ∀ s ∈ names, FilePath.IsName s)
    (hmake : d.makeDirectories location names = .ok d') :
    d'.IsTree ∧ Keeps d d' ∧
      (∀ l content, d'.entryAt l = some (.file content) ↔ d.entryAt l = some (.file content)) ∧
      ∃ l, d'.walk location names = .ok l ∧ d'.entryAt l = some .directory ∧
        ∀ s ∈ l, IsStep s := by
  induction names generalizing d location with
  | nil =>
    obtain rfl := Except.ok.inj hmake
    exact ⟨h, .refl _, fun _ _ => Iff.rfl, location, rfl, hlocation, hsteps⟩
  | cons name names ih =>
    rw [List.forall_mem_cons] at hnames
    rw [Disk.makeDirectories] at hmake
    have hwalk (hkeeps : Keeps d d') {l : List String} :
        d'.walk location (name :: names) = .ok l ↔
          d'.walk (if name = ".." then location.dropLast else location ++ [name]) names = .ok l :=
      walk_cons_eq_ok.trans (and_iff_right (hkeeps.directories location hlocation))
    generalize hnext : (if name = ".." then location.dropLast else location ++ [name]) = next
      at hmake hwalk
    have hnextSteps : ∀ s ∈ next, IsStep s := by
      rw [← hnext]
      split
      · exact fun s hs => hsteps s (List.mem_of_mem_dropLast hs)
      · next hname =>
        intro s hs
        rcases List.mem_append.mp hs with hs | hs
        · exact hsteps s hs
        · exact List.mem_singleton.mp hs ▸ ⟨hnames.1, hname⟩
    cases hentry : d.entryAt next with
    | none =>
      -- only a name leads to where nothing is
      have hparent : d.entryAt next.dropLast = some .directory := by
        rw [← hnext] at hentry ⊢
        split
        · next hname =>
          rw [if_pos hname, h.sound.entryAt_dropLast hlocation] at hentry
          cases hentry
        · rw [List.dropLast_concat]
          exact hlocation
      obtain ⟨hmade, hfirst, hdirectory, hsame⟩ := h.makeDirectory hentry hparent hnextSteps
      rw [hentry] at hmake
      obtain ⟨htree, hkeeps, hfiles, l, hl, hrest⟩ := ih hmade hdirectory hnextSteps hnames.2 hmake
      exact ⟨htree, hfirst.trans hkeeps, fun l content => (hfiles l content).trans (hsame l content),
        l, (hwalk (hfirst.trans hkeeps)).mpr hl, hrest⟩
    | some e =>
      rw [hentry] at hmake
      cases e with
      | file content => cases hmake
      | directory =>
        obtain ⟨htree, hkeeps, hfiles, l, hl, hrest⟩ := ih h hentry hnextSteps hnames.2 hmake
        exact ⟨htree, hkeeps, hfiles, l, (hwalk hkeeps).mpr hl, hrest⟩

/-! ## The file -/

/-- A file was written: it holds the content, and every other file is where it was. -/
structure Wrote (d d' : Disk) (l : List String) (content : ByteArray) : Prop where
  tree : d'.IsTree
  entry : d'.entryAt l = some (.file content)
  others : ∀ m, m ≠ l → ∀ c, d'.entryAt m = some (.file c) ↔ d.entryAt m = some (.file c)
  home : d'.home = d.home
  directories : ∀ m, d.entryAt m = some .directory → d'.entryAt m = some .directory

/-- The steps of writing a file. -/
theorem write_eq_ok {p : FilePath} {content : ByteArray} (h : d.write p content = .ok d'') :
    ∃ d' l, d.makeDirectories (if p.anchor = .relative then d.home else []) p.parent.segments =
        .ok d' ∧ d'.locate p = .ok l ∧ d'.entryAt l ≠ some .directory ∧
      d'' = { d' with entries := Entries.put l (.file content) d'.entries } := by
  rw [write] at h
  cases hmake : d.makeDirectories (if p.anchor = .relative then d.home else []) p.parent.segments with
  | error f => rw [hmake] at h; cases h
  | ok d' =>
    cases hl : d'.locate p with
    | error f => simp [hmake, hl, bind, Except.bind] at h
    | ok l =>
      simp only [hmake, hl, bind, Except.bind] at h
      refine ⟨d', l, rfl, hl, fun hdirectory => ?_, ?_⟩
      · rw [hdirectory] at h
        cases h
      · split at h
        · cases h
        · exact (Except.ok.inj h).symm

/-- A file is written under its name into the directory to which the way leads. -/
theorem IsTree.write (h : d.IsTree) {p : FilePath} (hp : p.IsProper) (hne : p.segments ≠ [])
    (hname : p.name ≠ "..") {content : ByteArray} (hwrite : d.write p content = .ok d'') :
    ∃ above, d''.locate p.parent = .ok above ∧ d''.locate p = .ok (above ++ [p.name]) ∧
      Wrote d d'' (above ++ [p.name]) content ∧
      (Text.endsWith p.name ".yml" = false → Keeps d d'') := by
  obtain ⟨d', l, hmake, hlocate, hno, hd''⟩ := write_eq_ok hwrite
  -- the directories on the way
  have hstart : d.entryAt (if p.anchor = .relative then d.home else []) = some .directory := by
    split
    · exact entryAt_of_prefix_home List.prefix_rfl
    · exact entryAt_of_prefix_home List.nil_prefix
  have hsteps : ∀ s ∈ (if p.anchor = .relative then d.home else []), IsStep s := by
    split
    · exact h.home
    · exact fun s hs => by cases hs
  have hparents : ∀ s ∈ p.parent.segments, FilePath.IsName s :=
    fun s hs => hp s (List.mem_of_mem_dropLast hs)
  obtain ⟨htree, hkeeps, hfiles, above, hwalk, hdirectory, habove⟩ :=
    h.makeDirectories hstart hsteps hparents hmake
  -- the name in the last of them
  have hparent : d'.locate p.parent = .ok above := by
    rw [locate, hkeeps.home]
    exact hwalk
  obtain rfl : l = above ++ [p.name] := by
    obtain ⟨above', habove', -, hl⟩ := (locate_eq_ok_iff hne hname).mp hlocate
    rw [hl, Except.ok.inj (hparent.symm.trans habove')]
  have hput := htree.put hno (by rw [List.dropLast_concat]; exact hdirectory)
    (fun s hs => (List.mem_append.mp hs).elim (habove s) fun hs =>
      List.mem_singleton.mp hs ▸ ⟨hp _ (FilePath.segments_eq_concat hne ▸ by simp), hname⟩)
    (.file content)
  rw [← hd''] at hput
  have hentry (m : List String) : d''.entryAt m =
      if above ++ [p.name] = m then some (.file content) else d'.entryAt m := by
    rw [hd'', entryAt_put (not_prefix_home hno)]
  have hhome : d''.home = d'.home := by rw [hd'']
  have hdirectories (m : List String) (hm : d'.entryAt m = some .directory) :
      d''.entryAt m = some .directory := by
    have hother : above ++ [p.name] ≠ m := fun heq => hno (heq ▸ hm)
    rw [hentry, if_neg hother, hm]
  refine ⟨above, locate_of_directories hhome hdirectories hparent,
    locate_of_directories hhome hdirectories hlocate,
    ⟨hput, by rw [hentry, if_pos rfl], fun m hm c => ?_, hhome.trans hkeeps.home, fun m hm => ?_⟩,
    fun hyml => ?_⟩
  · rw [hentry, if_neg (Ne.symm hm), hfiles]
  · exact hdirectories m (hkeeps.directories m hm)
  · rw [hd'']
    exact hkeeps.trans (keeps_put hno (by simp [isFragment, hyml]) fun f _ => by
      simp [isFragment, hyml])

/-- Writing what a file holds already changes nothing. -/
theorem write_of_read {p : FilePath} (hne : p.segments ≠ []) {content : ByteArray}
    (h : d.read p = .ok content) : d.write p content = .ok d := by
  obtain ⟨l, hlocate, hentry⟩ := read_eq_ok.mp h
  -- the way to the file leads through a directory
  have hwalk := hlocate
  rw [locate, FilePath.segments_eq_concat hne, walk_append, bind_eq_ok] at hwalk
  obtain ⟨above, habove, hlast⟩ := hwalk
  have hget : Entries.get? l d.entries = some (.file content) := by
    rw [entryAt] at hentry
    split at hentry
    · cases hentry
    · exact hentry
  rw [write]
  simp only [makeDirectories_of_walk habove (walk_cons_eq_ok.mp hlast).1, bind, Except.bind, hlocate,
    hentry, Entries.put_of_get? hget]
  rfl

end ApiTree.Disk
