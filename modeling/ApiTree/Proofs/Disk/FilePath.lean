import ApiTree.Proofs.Fragment.Place

/-!
# Paths and their texts

A path is proper if each of its segments can be the name of a file. A proper path is read back from
its text, and the name of a file with an extension is its stem with the extension.
-/

set_option autoImplicit false

namespace ApiTree.FilePath

/-- The text can be the name of a file: it is not empty and no point, and holds no slash. -/
structure IsName (s : String) : Prop where
  nonempty : s ≠ ""
  noPoint : s ≠ "."
  noSlash : '/' ∉ s.toList

instance (s : String) : Decidable (IsName s) :=
  decidable_of_iff (s ≠ "" ∧ s ≠ "." ∧ '/' ∉ s.toList)
    ⟨fun ⟨h, h', h''⟩ => ⟨h, h', h''⟩, fun ⟨h, h', h''⟩ => ⟨h, h', h''⟩⟩

/-- Each segment of the path can be the name of a file. -/
def IsProper (p : FilePath) : Prop := ∀ s ∈ p.segments, IsName s

instance (p : FilePath) : Decidable p.IsProper :=
  inferInstanceAs (Decidable (∀ s ∈ p.segments, IsName s))

theorem isProper_ofText (text : String) : (ofText text).IsProper := by
  intro s hs
  obtain ⟨hnonempty, hslash⟩ := segments_ofText hs
  rw [ofText, List.mem_filter] at hs
  have hkept := hs.2
  simp only [ne_eq, Bool.and_eq_true, decide_eq_true_eq] at hkept
  exact ⟨hnonempty, hkept.2, hslash⟩

theorem isProper_append {anchor : Anchor} {segments names : List String}
    (h : IsProper ⟨anchor, segments⟩) (hnames : ∀ s ∈ names, IsName s) :
    IsProper ⟨anchor, segments ++ names⟩ := by
  intro s hs
  rcases List.mem_append.mp hs with hs | hs
  · exact h s hs
  · exact hnames s hs

theorem IsProper.join {p q : FilePath} (hp : p.IsProper) (hq : q.IsProper) : (p.join q).IsProper := by
  rw [FilePath.join]
  split
  · exact isProper_append hp hq
  · exact hq

/-- A path that leads anywhere is its parent and its name. -/
theorem segments_eq_concat {p : FilePath} (hne : p.segments ≠ []) :
    p.segments = p.parent.segments ++ [p.name] := by
  rw [name, List.getLast?_eq_some_getLast hne]
  exact (List.dropLast_append_getLast hne).symm

/-! ## Reading the text of a path -/

theorem IsName.forall_not {s : String} (h : IsName s) : ∀ c ∈ s.toList, (c == '/') = false := by
  intro c hc
  rw [beq_eq_false_iff_ne]
  rintro rfl
  exact h.noSlash hc

/-- Names with slashes between them are cut into the names. -/
theorem splitWhere_intercalate {names : List String} (hne : names ≠ [])
    (h : ∀ s ∈ names, IsName s) :
    Text.splitWhere (· == '/') (String.intercalate "/" names).toList = names.map String.toList :=
  Text.splitWhere_intercalate hne fun s hs => (h s hs).noSlash

/-- The segments of the text of names, whatever slashes stand before it. -/
theorem segments_slashes (n : Nat) {names : List String} (h : ∀ s ∈ names, IsName s) :
    ((Text.splitWhere (· == '/')
        (List.replicate n '/' ++ (String.intercalate "/" names).toList)).map String.ofList).filter
      (fun p => p ≠ "" && p ≠ ".") = names := by
  induction n with
  | zero =>
    rw [List.replicate_zero, List.nil_append]
    by_cases hne : names = []
    · subst hne
      rfl
    · have hnames : names.map (String.ofList ∘ String.toList) = names :=
        List.map_id'' (fun _ => String.ofList_toList) names
      rw [splitWhere_intercalate hne h, List.map_map, hnames, List.filter_eq_self]
      intro s hs
      simpa using ⟨(h s hs).nonempty, (h s hs).noPoint⟩
  | succ n ih =>
    have hslash := Text.splitWhere_append_cons (p := (· == '/')) (s := '/') rfl []
      (List.replicate n '/' ++ (String.intercalate "/" names).toList)
    rw [List.replicate_succ, List.cons_append]
    rw [List.nil_append] at hslash
    rw [hslash, List.map_append, List.filter_append, ih]
    rfl

theorem takeWhile_slashes (n : Nat) {names : List String} (h : ∀ s ∈ names, IsName s) :
    ((List.replicate n '/' ++ (String.intercalate "/" names).toList).takeWhile
      (· == '/')).length = n := by
  have hstop : (String.intercalate "/" names).toList.takeWhile (· == '/') = [] := by
    cases names with
    | nil => rfl
    | cons s names =>
      have hne : s.toList ≠ [] := fun hnil =>
        (h s List.mem_cons_self).nonempty (String.toList_eq_nil_iff.mp hnil)
      obtain ⟨c, cs, hcs⟩ := List.exists_cons_of_ne_nil hne
      have hc := (h s List.mem_cons_self).forall_not c (hcs ▸ List.mem_cons_self)
      obtain ⟨rest, hrest⟩ : ∃ rest, (String.intercalate "/" (s :: names)).toList =
          s.toList ++ rest := by
        cases names with
        | nil => exact ⟨[], by simp⟩
        | cons t names =>
          exact ⟨_, by rw [String.intercalate_cons_cons, String.append_assoc,
            String.toList_append]⟩
      rw [hrest, hcs, List.cons_append, List.takeWhile_cons_of_neg (by simp [hc])]
  rw [List.takeWhile_append_of_pos fun c hc => by rw [List.eq_of_mem_replicate hc]; rfl, hstop]
  simp

/-- A proper path is read back from its text. -/
theorem ofText_render {p : FilePath} (h : p.IsProper) : ofText p.render = p := by
  obtain ⟨anchor, segments⟩ := p
  have hsegments : ∀ s ∈ segments, IsName s := h
  -- the text is slashes and then the names, but for the working directory itself
  have hread (n : Nat) (hrender : (render ⟨anchor, segments⟩).toList =
        List.replicate n '/' ++ (String.intercalate "/" segments).toList) :
      ofText (render ⟨anchor, segments⟩) =
        ⟨(ofText (String.ofList (List.replicate n '/'))).anchor, segments⟩ := by
    have hslashes : ((List.replicate n '/').takeWhile (· == '/')).length = n := by simp
    rw [ofText, ofText, hrender, String.toList_ofList]
    simp only [hslashes, takeWhile_slashes n hsegments, segments_slashes n hsegments]
  cases anchor with
  | relative =>
    cases segments with
    | nil => rfl
    | cons s segments => exact hread 0 (by simp [render, anchorText])
  | root => exact hread 1 (by simp [render, anchorText])
  | doubleRoot => exact hread 2 (by simp [render, anchorText])

/-- A name is read as itself. -/
theorem ofText_eq_of_isName {s : String} (h : IsName s) : ofText s = ⟨.relative, [s]⟩ := by
  have hrender : (⟨.relative, [s]⟩ : FilePath).render = s := by
    simp [render, anchorText, String.intercalate_singleton]
  rw [← ofText_render (p := ⟨.relative, [s]⟩) fun t ht => List.mem_singleton.mp ht ▸ h, hrender]

/-- What is added to the text of a path, and has no slash, ends its last segment. -/
theorem exists_segments_ofText_append (text : String) {ending : String}
    (hslash : '/' ∉ ending.toList) (hlong : 2 ≤ ending.toList.length) :
    ∃ before start, (ofText (text ++ ending)).segments = before ++ [start ++ ending] := by
  have hpieces : ∀ c ∈ ending.toList, (c == '/') = false := fun c hc =>
    beq_eq_false_iff_ne.mpr fun heq => hslash (heq ▸ hc)
  obtain ⟨before, last, hsplit⟩ := Text.exists_splitWhere_append hpieces text.toList
  have hkept (s : String) (hs : String.ofList last ++ ending = s) : 2 ≤ s.toList.length := by
    rw [← hs, String.toList_append, List.length_append]
    omega
  refine ⟨(before.map String.ofList).filter fun p => p ≠ "" && p ≠ ".", String.ofList last, ?_⟩
  rw [ofText, String.toList_append]
  simp only [hsplit, List.map_append, List.map_cons, List.map_nil, List.filter_append]
  rw [String.ofList_append, String.ofList_toList]
  refine congrArg _ (List.filter_eq_self.mpr fun s hs => ?_)
  have hs := List.mem_singleton.mp hs
  rw [Bool.and_eq_true, decide_eq_true_eq, decide_eq_true_eq]
  refine ⟨fun heq => ?_, fun heq => ?_⟩
  · exact absurd (hkept "" (hs.symm.trans heq)) (by decide)
  · exact absurd (hkept "." (hs.symm.trans heq)) (by decide)

/-- A name with the extension of the tree is its stem with the extension. -/
theorem stemOf_append {v : String} (hv : v ≠ "") : stemOf (v ++ ".yml") = v := by
  have hlist : (v ++ ".yml").toList = v.toList ++ '.' :: ['y', 'm', 'l'] := by simp
  have hsplit : Text.splitLast (· == '.') (v.toList ++ '.' :: ['y', 'm', 'l']) =
      (v.toList, ['y', 'm', 'l']) :=
    Text.splitLast_append_cons rfl v.toList (by simp)
  have hempty : v.toList.isEmpty = false := by
    rw [List.isEmpty_eq_false_iff]
    exact fun hnil => hv (String.toList_eq_nil_iff.mp hnil)
  rw [stemOf, hlist, hsplit]
  change (if (v.toList.isEmpty || false) = true then _ else String.ofList v.toList) = v
  rw [hempty, String.ofList_toList]
  rfl

/-- A file with the extension of the tree is named after its stem. -/
theorem stem_eq {p : FilePath} {v : String} (hname : p.name = v ++ ".yml") (hv : v ≠ "") :
    p.stem = v := by
  rw [stem, hname, stemOf_append hv]

/-! ## Paths below a root -/

/-- The path that leads on from a root by names. -/
def under (root : FilePath) (names : List String) : FilePath := ⟨root.anchor, root.segments ++ names⟩

theorem below?_under (root : FilePath) (names : List String) :
    root.below? (root.under names) = some names := by
  have hprefix : root.segments.isPrefixOf (root.segments ++ names) = true :=
    List.isPrefixOf_iff_prefix.mpr (List.prefix_append root.segments names)
  rw [below?, under, hprefix, List.drop_left]
  simp

theorem under_inj {root : FilePath} {names more : List String} :
    root.under names = root.under more ↔ names = more := by
  rw [under, under, FilePath.mk.injEq, List.append_cancel_left_eq, and_iff_right rfl]

theorem under_append (root : FilePath) (names more : List String) :
    root.under (names ++ more) = (root.under names).under more := by
  rw [under, under, under, List.append_assoc]

/-- Names that follow others are written after these and a slash. -/
theorem intercalate_append {names more : List String} (hnames : names ≠ []) (hmore : more ≠ []) :
    String.intercalate "/" (names ++ more) =
      String.intercalate "/" names ++ "/" ++ String.intercalate "/" more := by
  induction names with
  | nil => exact absurd rfl hnames
  | cons s names ih =>
    cases names with
    | nil =>
      obtain ⟨t, more, rfl⟩ := List.exists_cons_of_ne_nil hmore
      rw [List.singleton_append, String.intercalate_cons_cons, String.intercalate_singleton]
    | cons t names =>
      rw [List.cons_append, List.cons_append, String.intercalate_cons_cons, ← List.cons_append,
        ih (List.cons_ne_nil t names), String.intercalate_cons_cons]
      simp only [String.append_assoc]

/-- The texts of all paths below a root start with one text, and the names follow it. -/
theorem exists_render_under (root : FilePath) : ∃ start : String, ∀ names ≠ [],
    (root.under names).render = start ++ String.intercalate "/" names := by
  obtain ⟨anchor, segments⟩ := root
  have hrender (names : List String) (hnames : names ≠ []) :
      (under ⟨anchor, segments⟩ names).render =
        anchorText anchor ++ String.intercalate "/" (segments ++ names) := by
    rw [under, render]
    split
    · next hnil => exact absurd (List.append_eq_nil_iff.mp hnil).2 hnames
    · rfl
  by_cases hsegments : segments = []
  · refine ⟨anchorText anchor, fun names hnames => ?_⟩
    rw [hrender names hnames, hsegments, List.nil_append]
  · refine ⟨anchorText anchor ++ String.intercalate "/" segments ++ "/", fun names hnames => ?_⟩
    rw [hrender names hnames, intercalate_append hsegments hnames]
    simp only [String.append_assoc]

end ApiTree.FilePath
