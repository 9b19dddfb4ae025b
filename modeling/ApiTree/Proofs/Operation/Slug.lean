import ApiTree.Fragment.Place
import ApiTree.Proofs.Text.Case
import ApiTree.Proofs.Text.Trim

/-!
# Reading the slug of an operation

An operation is written as its slug and the slug is read as a descriptor. `parse_slug` says when the
key that is read is the one that was written: the base path is empty or starts with exactly one
slash, and the path of the operation holds no space and does not end with a blank. For a base path
that is empty or holds a character other than blanks and slashes there is no other case,
`parse_slug_eq_iff`.

The second direction counts the characters that are neither blank nor slashes. What reading does to
a path keeps them all, so that a path that is put below the base path a second time has too many.
-/

set_option autoImplicit false

namespace ApiTree

open Text

namespace OperationKey

/-- A character that is neither blank nor a slash. -/
def isSolid (c : Char) : Bool := !isBlank c && c != '/'

theorem isSolid_iff {c : Char} : isSolid c = true ↔ isBlank c = false ∧ (c == '/') = false := by
  rw [isSolid, Bool.and_eq_true, Bool.not_eq_true', bne, Bool.not_eq_true']

theorem isSolid_of_isBlank {c : Char} (h : isBlank c = true) : isSolid c = false := by
  rw [isSolid, h]; rfl

theorem isSolid_of_isSlash {c : Char} (h : (c == '/') = true) : isSolid c = false := by
  simp [isSolid, bne, h]

/-! ## Normal paths -/

theorem countP_normalPath (path : List Char) :
    (normalPath path).countP isSolid = path.countP isSolid := by
  rw [normalPath]
  by_cases hempty : (trimWhile (· == '/') path).isEmpty = true
  · have hpath := countP_trimWhile (p := (· == '/')) (fun _ => isSolid_of_isSlash) path
    rw [List.isEmpty_iff.mp hempty] at hpath
    rw [if_pos hempty, ← hpath]
  · rw [if_neg hempty, List.countP_cons_of_neg (by decide),
      countP_trimWhile (fun _ => isSolid_of_isSlash),
      countP_trimWhile (fun _ => isSolid_of_isBlank)]

theorem normalPath_eq_nil_or (path : List Char) :
    normalPath path = [] ∨ ∃ x, normalPath path = '/' :: x ∧ x.head? ≠ some '/' := by
  rw [normalPath]
  by_cases hempty : (trimWhile (· == '/') path).isEmpty = true
  · exact .inl (if_pos hempty)
  · refine .inr ⟨_, if_neg hempty, fun hslash => ?_⟩
    exact absurd (head?_trimWhile hslash) (by decide)

/-- The normal path of one that starts with exactly one slash is trimmed at its end only. -/
theorem normalPath_slash_cons {c : Char} (hc : c ≠ '/') (xs : List Char) :
    normalPath ('/' :: c :: xs) =
      '/' :: dropEndWhile (· == '/') (dropEndWhile isBlank (c :: xs)) := by
  have hc' : (c == '/') = false := beq_eq_false_iff_ne.mpr hc
  -- there is something between the slashes, and no blank before the first one
  have hnonempty : (trimWhile (· == '/') ('/' :: c :: xs)).isEmpty = false := by
    rw [trimWhile, List.dropWhile_cons_of_pos (by rfl), List.dropWhile_cons_of_neg (by simp [hc]),
      dropEndWhile_cons_of_neg (p := (· == '/')) hc']
    rfl
  have hblank : trimWhile isBlank ('/' :: c :: xs) = '/' :: dropEndWhile isBlank (c :: xs) := by
    rw [trimWhile, List.dropWhile_cons_of_neg (by decide), dropEndWhile_cons_of_neg (by decide)]
  -- trimming blanks at the end does not bring a slash to the start
  have hhead : ∀ a, (dropEndWhile isBlank (c :: xs)).head? = some a → (a == '/') = false := by
    intro a ha
    obtain ⟨t, ht⟩ := List.rdropWhile_prefix isBlank (c :: xs)
    rw [dropEndWhile_eq_rdropWhile] at ha
    have hfirst := congrArg List.head? ht
    rw [List.head?_append, ha] at hfirst
    rwa [← Option.some.inj hfirst] at hc'
  simp only [normalPath, hnonempty, hblank, Bool.false_eq_true, if_false]
  rw [trimWhile, List.dropWhile_cons_of_pos (by rfl), dropWhile_eq_self hhead]

/-- Text that neither starts nor ends with a slash. -/
structure Trimmed (cs : List Char) : Prop where
  nonempty : cs ≠ []
  first : cs.head? ≠ some '/'
  last : cs.getLast? ≠ some '/'

theorem Trimmed.append {xs ys : List Char} (hxs : Trimmed xs) (hys : Trimmed ys) (mid : List Char) :
    Trimmed (xs ++ mid ++ ys) := by
  refine ⟨?_, ?_, ?_⟩
  · simp [hxs.nonempty]
  · rw [List.append_assoc, List.head?_append_of_ne_nil _ hxs.nonempty]
    exact hxs.first
  · rw [List.getLast?_append_of_ne_nil _ hys.nonempty]
    exact hys.last

theorem normalPath_prefix {xs : List Char} (hxs : Trimmed xs) :
    normalPath ('/' :: xs) <+: '/' :: xs := by
  obtain ⟨c, ys, rfl⟩ := List.exists_cons_of_ne_nil hxs.nonempty
  have hc : c ≠ '/' := fun hslash => hxs.first (by rw [hslash]; rfl)
  rw [normalPath_slash_cons hc, List.prefix_cons_inj]
  exact (List.rdropWhile_prefix _ _).trans (List.rdropWhile_prefix _ _)

/-- A path that starts with exactly one slash and does not end with one is normal when it does not
end with a blank. -/
theorem normalPath_eq_self_iff {xs : List Char} (hxs : Trimmed xs) :
    normalPath ('/' :: xs) = '/' :: xs ↔ ∀ a, xs.getLast? = some a → isBlank a = false := by
  obtain ⟨c, ys, rfl⟩ := List.exists_cons_of_ne_nil hxs.nonempty
  have hc : c ≠ '/' := fun hslash => hxs.first (by rw [hslash]; rfl)
  rw [normalPath_slash_cons hc, List.cons.injEq]
  constructor
  · rintro ⟨-, htrim⟩ a ha
    -- if both trimmings together cut nothing, neither does the first
    have hkeep : dropEndWhile isBlank (c :: ys) = c :: ys := by
      have hprefix := List.rdropWhile_prefix isBlank (c :: ys)
      have hle := (List.rdropWhile_prefix (· == '/') (dropEndWhile isBlank (c :: ys))).length_le
      rw [← dropEndWhile_eq_rdropWhile, htrim] at hle
      exact hprefix.eq_of_length_le hle
    exact getLast?_dropEndWhile (hkeep.symm ▸ ha)
  · intro hblank
    rw [dropEndWhile_eq_self hblank, dropEndWhile_eq_self]
    · exact ⟨rfl, rfl⟩
    · intro a ha
      exact beq_eq_false_iff_ne.mpr fun hslash => hxs.last (hslash ▸ ha)

/-! ## Paths below the base path -/

theorem startsWith_append_slash (s t : String) :
    startsWith s (t ++ "/") = true ↔ t.toList ++ ['/'] <+: s.toList := by
  rw [startsWith, List.isPrefixOf_iff_prefix, String.toList_append]
  rfl

/-- A path starts with the base path in some case, or is put below it. -/
theorem mount_cases {base : String} (hbase : base ≠ "") (path : List Char) :
    (lowerAfter [] base.toList <+: lowerAfter [] path ∧
      mount base path = base.toList ++ path.drop base.toList.length) ∨
    mount base path = base.toList ++ path := by
  rw [mount, if_neg hbase]
  simp only
  split
  · rename_i hstart
    refine .inl ⟨?_, by rw [String.length_toList]⟩
    rw [Bool.or_eq_true, decide_eq_true_eq, startsWith_append_slash] at hstart
    rcases hstart with heq | hprefix
    · rw [lower, lower, String.ofList_inj, String.toList_ofList] at heq
      exact heq ▸ List.prefix_refl _
    · rw [lower, lower, String.toList_ofList, String.toList_ofList, String.toList_ofList] at hprefix
      exact (List.prefix_append _ _).trans hprefix
  · exact .inr rfl

/-- A path that starts with the base path in some spelling of the same length, and ends there or goes
on with a slash, gets the spelling of the base path. -/
theorem mount_append_of_lower {base : String} {spelling tail : List Char}
    (hlower : lowerAfter [] spelling = lowerAfter [] base.toList)
    (hlength : spelling.length = base.toList.length)
    (htail : tail = [] ∨ ∃ rest, tail = '/' :: rest) :
    mount base (spelling ++ tail) = base.toList ++ tail := by
  by_cases hbase : base = ""
  · rw [hbase, String.toList_empty, List.length_nil, List.length_eq_zero_iff] at hlength
    rw [mount, if_pos hbase, hbase, hlength]
    rfl
  · rw [mount, if_neg hbase]
    simp only
    rw [if_pos, ← String.length_toList, ← hlength, List.drop_left]
    rw [Bool.or_eq_true, decide_eq_true_eq, startsWith_append_slash]
    rcases htail with rfl | ⟨rest, rfl⟩
    · left
      rw [List.append_nil, lower, lower, String.toList_ofList, hlower]
    · right
      rw [lower, lower, String.toList_ofList, String.toList_ofList, String.toList_ofList,
        lowerAfter_append_slash, hlower]
      exact ⟨_, List.append_assoc _ _ _⟩

/-- A path that is the base path, or goes on after it with a slash, stays as it is. -/
theorem mount_append (base : String) {tail : List Char}
    (htail : tail = [] ∨ ∃ rest, tail = '/' :: rest) :
    mount base (base.toList ++ tail) = base.toList ++ tail :=
  mount_append_of_lower rfl rfl htail

/-! ## Keys of a tree -/

/-- The key is that of an operation of a tree with the given base path. -/
structure IsBelow (base : String) (k : OperationKey) : Prop where
  method : k.method ∈ methods
  path : ∃ segments : List String, (∀ s ∈ segments, s ≠ "" ∧ '/' ∉ s.toList) ∧
    k.path = Place.operationPath base segments

theorem trimmed_of_not_mem {s : String} (hs : s ≠ "" ∧ '/' ∉ s.toList) : Trimmed s.toList :=
  ⟨fun hnil => hs.1 (String.toList_inj.mp hnil),
    fun hfirst => hs.2 (List.mem_of_mem_head? hfirst),
    fun hlast => hs.2 (List.mem_of_getLast? hlast)⟩

theorem trimmed_intercalate {segments : List String} (hne : segments ≠ [])
    (h : ∀ s ∈ segments, s ≠ "" ∧ '/' ∉ s.toList) :
    Trimmed (String.intercalate "/" segments).toList := by
  -- each name is free of slashes, and one slash stands between two of them
  induction segments with
  | nil => exact absurd rfl hne
  | cons s segments ih =>
    have hs := trimmed_of_not_mem (h s List.mem_cons_self)
    cases segments with
    | nil =>
      rw [String.intercalate_singleton]
      exact hs
    | cons t segments =>
      rw [String.intercalate_cons_cons, String.toList_append, String.toList_append]
      exact hs.append (ih (List.cons_ne_nil t segments)
        fun u hu => h u (List.mem_cons_of_mem s hu)) _

theorem getLast?_trimBase (base : String) : (trimBase base).toList.getLast? ≠ some '/' := by
  rw [trimBase, String.toList_ofList]
  intro hlast
  exact absurd (getLast?_dropEndWhile hlast) (by decide)

theorem trimBase_eq_self {path : String} (h : path.toList.getLast? ≠ some '/') :
    trimBase path = path := by
  rw [trimBase, dropEndWhile_eq_self, String.ofList_toList]
  intro a ha
  exact beq_eq_false_iff_ne.mpr fun hslash => h (hslash ▸ ha)

theorem trimBase_trimBase (base : String) : trimBase (trimBase base) = trimBase base :=
  trimBase_eq_self (getLast?_trimBase base)

/-- What the path of an operation adds to the base path. -/
def IsTail (tail : List Char) : Prop := tail = [] ∨ ∃ xs, tail = '/' :: xs ∧ Trimmed xs

/-- The path of an operation and its slug, without the slash that stands for an empty path. -/
theorem IsBelow.exists_tail {base : String} {k : OperationKey} (hk : k.IsBelow base) :
    ∃ tail, IsTail tail ∧ (trimBase k.path).toList = (trimBase base).toList ++ tail ∧
      k.path = if (trimBase base).toList ++ tail = [] then "/"
        else String.ofList ((trimBase base).toList ++ tail) := by
  obtain ⟨segments, hsegments, hpath⟩ := hk.path
  rw [Place.operationPath] at hpath
  by_cases hempty : segments = []
  · refine ⟨[], .inl rfl, ?_⟩
    simp only [List.append_nil, hpath, hempty, List.isEmpty_nil, if_true, String.toList_eq_nil_iff]
    by_cases hbase : trimBase base = ""
    · rw [hbase]
      exact ⟨rfl, rfl⟩
    · simp [hbase, trimBase_trimBase]
  · have htrimmed := trimmed_intercalate hempty hsegments
    refine ⟨'/' :: (String.intercalate "/" segments).toList, .inr ⟨_, rfl, htrimmed⟩, ?_⟩
    have hlist : k.path.toList =
        (trimBase base).toList ++ '/' :: (String.intercalate "/" segments).toList := by
      rw [hpath]
      simp [hempty]
    rw [← hlist, trimBase_eq_self, if_neg, String.ofList_toList]
    · exact ⟨rfl, rfl⟩
    · rw [hlist]
      simp
    · rw [hlist, List.getLast?_append_of_ne_nil _ (List.cons_ne_nil _ _),
        List.getLast?_cons_of_ne_nil htrimmed.nonempty]
      exact htrimmed.last

theorem IsTail.append {xs ys : List Char} (hxs : IsTail xs) (hys : IsTail ys) :
    IsTail (xs ++ ys) := by
  rcases hxs with rfl | ⟨xs, rfl, htrimmed⟩
  · exact hys
  · rcases hys with rfl | ⟨ys, rfl, htrimmed'⟩
    · rw [List.append_nil]
      exact .inr ⟨xs, rfl, htrimmed⟩
    · exact .inr ⟨xs ++ '/' :: ys, rfl, by simpa using htrimmed.append htrimmed' ['/']⟩

theorem IsTail.normalPath_eq {path : List Char} (h : IsTail path)
    (hblank : ∀ a, path.getLast? = some a → isBlank a = false) : normalPath path = path := by
  rcases h with rfl | ⟨xs, rfl, htrimmed⟩
  · rfl
  · rw [List.getLast?_cons_of_ne_nil htrimmed.nonempty] at hblank
    exact (normalPath_eq_self_iff htrimmed).mpr hblank

/-! ## Reading slugs -/

theorem isSolid_of_mem_method {m : String} (hm : m ∈ methods) :
    ∀ c ∈ m.toList, isSolid c = true := by
  have hall : methods.all (fun m => m.toList.all isSolid) = true := by decide
  intro c hc
  exact List.all_eq_true.mp (List.all_eq_true.mp hall m hm) c hc

theorem lower_method {m : String} (hm : m ∈ methods) : lower m = m := by
  have hall : methods.all (fun m => lower m == m) = true := by rfl
  exact eq_of_beq (List.all_eq_true.mp hall m hm)

theorem method_ne_nil {m : String} (hm : m ∈ methods) : m.toList ≠ [] := by
  have hall : methods.all (fun m => !m.toList.isEmpty) = true := by decide
  intro hnil
  have := List.all_eq_true.mp hall m hm
  rw [hnil] at this
  cases this

/-- The text can stand for a method in a descriptor: it holds something, but neither blanks nor
slashes. -/
structure IsWord (m : String) : Prop where
  nonempty : m ≠ ""
  solid : ∀ c ∈ m.toList, isSolid c = true

instance (m : String) : Decidable (IsWord m) :=
  have := List.decidableBAll (fun c => isSolid c = true) m.toList
  decidable_of_iff (m ≠ "" ∧ ∀ c ∈ m.toList, isSolid c = true)
    ⟨fun ⟨h, h'⟩ => ⟨h, h'⟩, fun ⟨h, h'⟩ => ⟨h, h'⟩⟩

theorem isWord_of_mem_methods {m : String} (hm : m ∈ methods) : IsWord m :=
  ⟨fun hempty => method_ne_nil hm (by rw [hempty]; rfl), isSolid_of_mem_method hm⟩

theorem IsWord.ne_nil {m : String} (hm : IsWord m) : m.toList ≠ [] :=
  fun hnil => hm.nonempty (String.toList_eq_nil_iff.mp hnil)

/-- What ends with a word ends with neither a blank nor a slash. -/
theorem IsWord.getLast?_append {m : String} (hm : IsWord m) (path : List Char) {a : Char}
    (ha : (path ++ '/' :: m.toList).getLast? = some a) : isBlank a = false ∧ (a == '/') = false := by
  rw [List.getLast?_append_of_ne_nil _ (List.cons_ne_nil _ _),
    List.getLast?_cons_of_ne_nil hm.ne_nil] at ha
  exact isSolid_iff.mp (hm.solid a (List.mem_of_getLast? ha))

/-- Text that ends with a method loses blanks only at its start. -/
theorem trimWhile_append_method {m : String} (hm : IsWord m) (path : List Char) :
    trimWhile isBlank (path ++ '/' :: m.toList) = path.dropWhile isBlank ++ '/' :: m.toList := by
  have hdrop : (path ++ '/' :: m.toList).dropWhile isBlank =
      path.dropWhile isBlank ++ '/' :: m.toList := by
    rw [List.dropWhile_append]
    split
    · rename_i hempty
      rw [List.isEmpty_iff.mp hempty, List.nil_append]
      exact List.dropWhile_cons_of_neg (by decide)
    · rfl
  rw [trimWhile, hdrop]
  exact dropEndWhile_eq_self fun a ha => (hm.getLast?_append _ ha).1

theorem splitDescriptor_append_method {m : String} (hm : IsWord m) {path : List Char}
    (hspace : ' ' ∉ path) : splitDescriptor (path ++ '/' :: m.toList) = (m.toList, path) := by
  have hsolid (c : Char) (hc : c ∈ m.toList) := isSolid_iff.mp (hm.solid c hc)
  have hcontains : (path ++ '/' :: m.toList).contains ' ' = false := by
    rw [← Bool.not_eq_true, List.contains_iff_mem, List.mem_append, List.mem_cons]
    rintro (hpath | hslash | hmethod)
    · exact hspace hpath
    · exact absurd hslash (by decide)
    · exact absurd (hsolid ' ' hmethod).1 (by decide)
  rw [splitDescriptor, hcontains, dropEndWhile_eq_self fun a ha => (hm.getLast?_append _ ha).2,
    splitLast_append_cons (by rfl) path fun c hc => (hsolid c hc).2]
  rfl

theorem slug_toList (k : OperationKey) :
    k.slug.toList = (trimBase k.path).toList ++ '/' :: k.method.toList := by
  rw [slug, String.toList_append, String.toList_append, List.append_assoc]
  rfl

/-- The key that is read from the path of an operation and its method, as far as the path is
read. -/
theorem parse_slug_eq {base : String} {k : OperationKey} (hm : k.method ∈ methods)
    (hspace : ' ' ∉ (trimBase k.path).toList.dropWhile isBlank) :
    parse k.slug base =
      let path := mount (trimBase base)
        (normalPath ((trimBase k.path).toList.dropWhile isBlank))
      ⟨k.method, if path.isEmpty then "/" else String.ofList path⟩ := by
  have hword := isWord_of_mem_methods hm
  rw [parse, slug_toList, trimWhile_append_method hword, splitDescriptor_append_method hword hspace]
  simp only [make, String.ofList_toList, lower_method hm]

/-- The slug of the key can be read: the base path is empty or starts with exactly one slash, and
the path of the operation holds no space and does not end with a blank. -/
structure IsLegible (base : String) (k : OperationKey) : Prop where
  base : trimBase base = "" ∨ ∃ c rest, (trimBase base).toList = '/' :: c :: rest ∧ c ≠ '/'
  noSpace : ' ' ∉ k.path.toList
  last : ∀ c, k.path.toList.getLast? = some c → isBlank c = false

theorem isTail_base {base : String} (h : trimBase base = "" ∨
    ∃ c rest, (trimBase base).toList = '/' :: c :: rest ∧ c ≠ '/') :
    IsTail (trimBase base).toList := by
  rcases h with hbase | ⟨c, rest, hbase, hc⟩
  · rw [hbase]
    exact .inl rfl
  · have hlast := getLast?_trimBase base
    rw [hbase, List.getLast?_cons_cons] at hlast
    exact .inr ⟨c :: rest, hbase, List.cons_ne_nil c rest, by simpa using hc, hlast⟩

theorem IsTail.dropWhile_eq {path : List Char} (h : IsTail path) :
    path.dropWhile isBlank = path := by
  rcases h with rfl | ⟨xs, rfl, -⟩
  · rfl
  · exact List.dropWhile_cons_of_neg (by decide)

theorem eq_nil_or_toList_eq {path : String} {cs : List Char}
    (h : path = if cs = [] then "/" else String.ofList cs) : cs = [] ∨ path.toList = cs := by
  by_cases hcs : cs = []
  · exact .inl hcs
  · rw [h, if_neg hcs, String.toList_ofList]
    exact .inr rfl

/-- A legible slug is read as the key that was written. -/
theorem parse_slug {base : String} {k : OperationKey} (hk : k.IsBelow base)
    (hl : k.IsLegible base) : parse k.slug base = k := by
  obtain ⟨tail, htail, htrim, hpath⟩ := hk.exists_tail
  have hwhole := (isTail_base hl.base).append htail
  have hmount := mount_append (trimBase base) (htail.imp_right fun ⟨xs, h, _⟩ => ⟨xs, h⟩)
  rw [← htrim] at hwhole hpath hmount
  -- neither normalizing nor putting the path below the base path changes it
  have hnormal : normalPath (trimBase k.path).toList = (trimBase k.path).toList := by
    refine hwhole.normalPath_eq fun a ha => ?_
    rcases eq_nil_or_toList_eq hpath with hnil | hlist
    · rw [hnil] at ha
      cases ha
    · rw [← hlist] at ha
      exact hl.last a ha
  have hspace : ' ' ∉ (trimBase k.path).toList := by
    rcases eq_nil_or_toList_eq hpath with hnil | hlist
    · rw [hnil]
      exact List.not_mem_nil
    · rw [← hlist]
      exact hl.noSpace
  rw [parse_slug_eq hk.method (by rwa [hwhole.dropWhile_eq]), hwhole.dropWhile_eq, hnormal, hmount]
  simp only [List.isEmpty_iff, ← hpath]

/-! ## Slugs that are not read back -/

theorem head?_eq_of_lowerAfter_prefix {before before' xs ys : List Char} (hne : xs ≠ [])
    (h : lowerAfter before xs <+: lowerAfter before' ys) :
    (lowerAfter before xs).head? = (lowerAfter before' ys).head? := by
  obtain ⟨t, ht⟩ := h
  have hpos : lowerAfter before xs ≠ [] := fun hnil => by
    have := length_le_length_lowerAfter before xs
    rw [hnil] at this
    exact hne (List.length_eq_zero_iff.mp (Nat.le_zero.mp this))
  rw [← ht, List.head?_append_of_ne_nil _ hpos]

/-- Only a base path that starts with exactly one slash is found at the start of a normal path. -/
theorem exists_of_lowerAfter_prefix {base path : List Char} (hne : base ≠ [])
    (h : lowerAfter [] base <+: lowerAfter [] (normalPath path)) :
    ∃ rest, base = '/' :: rest ∧ rest.head? ≠ some '/' := by
  obtain ⟨c, rest, rfl⟩ := List.exists_cons_of_ne_nil hne
  have hfirst := head?_eq_of_lowerAfter_prefix hne h
  -- a normal path starts with one slash, and lower case keeps the slashes
  rcases normalPath_eq_nil_or path with hnil | ⟨xs, hcons, hxs⟩
  · have hlength := (length_le_length_lowerAfter [] (c :: rest)).trans h.length_le
    rw [hnil] at hlength
    exact absurd hlength (Nat.not_succ_le_zero _)
  · rw [hcons, lowerAfter_slash_cons] at h hfirst
    have hslash : c = '/' := Option.some.inj (head?_lowerAfter_slash hfirst)
    rw [hslash, lowerAfter_slash_cons, List.prefix_cons_inj] at h
    refine ⟨rest, by rw [hslash], fun hrest => ?_⟩
    obtain ⟨rest, rfl⟩ := List.head?_eq_some_iff.mp hrest
    have hsecond := head?_eq_of_lowerAfter_prefix (List.cons_ne_nil '/' rest) h
    exact hxs (head?_lowerAfter_slash hsecond.symm)

/-- The base path is found at the start of the normal path, and the rest of it is what the path adds
to the base path, only if the path is normal already. -/
theorem normalPath_eq_of_drop {base tail : List Char} (hwhole : IsTail (base ++ tail))
    (hlower : lowerAfter [] base <+: lowerAfter [] (normalPath (base ++ tail)))
    (hdrop : (normalPath (base ++ tail)).drop base.length = tail) :
    normalPath (base ++ tail) = base ++ tail := by
  have hprefix : normalPath (base ++ tail) <+: base ++ tail := by
    rcases hwhole with hnil | ⟨xs, hcons, hxs⟩
    · rw [hnil]
      exact List.nil_prefix
    · rw [hcons]
      exact normalPath_prefix hxs
  obtain ⟨cut, hcut⟩ := hprefix
  have hlength := congrArg List.length hcut
  have hrest := congrArg List.length hdrop
  rw [List.length_append, List.length_append] at hlength
  rw [List.length_drop] at hrest
  suffices hnil : cut.length = 0 by
    rw [List.length_eq_zero_iff.mp hnil, List.append_nil] at hcut
    exact hcut
  by_cases hle : base.length ≤ (normalPath (base ++ tail)).length
  · omega
  · -- Nothing follows the base path, so what is cut off it would be missing from its lower case.
    have hbase : base = normalPath (base ++ tail) ++ cut := by
      have htail : tail = [] := List.length_eq_zero_iff.mp (by omega)
      rw [hcut, htail, List.append_nil]
    have hlow := length_lowerAfter_append [] [] (normalPath (base ++ tail)) cut
    rw [← hbase] at hlow
    have := hlower.length_le
    omega

theorem countP_splitField (cs : List Char) :
    (splitField cs).1.countP isSolid + (splitField cs).2.countP isSolid = cs.countP isSolid := by
  have hblank : ∀ c, isBlank c = true → isSolid c = false := fun _ => isSolid_of_isBlank
  rw [splitField, countP_dropWhile hblank, ← List.countP_append, List.takeWhile_append_dropWhile,
    countP_dropWhile hblank]

/-- A path that is put below the base path after a method was read from it has too many characters
that are neither blank nor slashes. -/
theorem splitField_ne_of_solid {base tail : List Char} {m : String} (hm : m ∈ methods)
    (hsolid : ∃ c ∈ base, isSolid c = true)
    (hlower : lowerAfter [] (splitField ((base ++ tail).dropWhile isBlank ++ '/' :: m.toList)).1 =
      m.toList) :
    normalPath (splitField ((base ++ tail).dropWhile isBlank ++ '/' :: m.toList)).2 ≠ tail := by
  intro htail
  -- counting: the fields hold all solid characters, the method among them a second time
  have hfields := countP_splitField ((base ++ tail).dropWhile isBlank ++ '/' :: m.toList)
  generalize splitField ((base ++ tail).dropWhile isBlank ++ '/' :: m.toList) = fields at *
  have hmethod : m.toList.countP isSolid = m.toList.length :=
    List.countP_eq_length.mpr (isSolid_of_mem_method hm)
  have hfirst : fields.1.length ≤ m.toList.length := by
    rw [← hlower]
    exact length_le_length_lowerAfter [] fields.1
  have hcount : fields.1.countP isSolid ≤ fields.1.length := List.countP_le_length
  have hbase : 0 < base.countP isSolid := List.countP_pos_iff.mpr hsolid
  have hblank : ∀ c, isBlank c = true → isSolid c = false := fun _ => isSolid_of_isBlank
  rw [List.countP_append, countP_dropWhile hblank, List.countP_append, List.countP_cons_of_neg
    (by decide), hmethod, ← htail, countP_normalPath] at hfields
  omega

/-- The first field of a slug that holds a space is taken for the method, so that the slug is not
read back. -/
theorem not_mem_space_of_parse_slug {base : String} {k : OperationKey} (hk : k.IsBelow base)
    (hbase : trimBase base = "" ∨ ∃ c ∈ (trimBase base).toList, isSolid c = true)
    (h : parse k.slug base = k) : ' ' ∉ (trimBase k.path).toList.dropWhile isBlank := by
  intro hspace
  obtain ⟨tail, htail, htrim, hkpath⟩ := hk.exists_tail
  rw [htrim] at hspace
  have hcontains : (((trimBase base).toList ++ tail).dropWhile isBlank ++
      '/' :: k.method.toList).contains ' ' = true :=
    List.contains_iff_mem.mpr (List.mem_append_left _ hspace)
  rw [parse, slug_toList, trimWhile_append_method (isWord_of_mem_methods hk.method), htrim,
    splitDescriptor, if_pos hcontains] at h
  have hmethod := congrArg (fun l : OperationKey => l.method.toList) h
  have hpath := congrArg OperationKey.path h
  simp only [make, lower, String.toList_ofList] at hmethod hpath
  -- the first field is the method, which holds no slash
  have hstart : (((trimBase base).toList ++ tail).dropWhile isBlank).head? ≠ some '/' := by
    intro hhead
    obtain ⟨xs, hxs⟩ := List.head?_eq_some_iff.mp hhead
    have hmem : '/' ∈ k.method.toList := by
      rw [← hmethod, hxs]
      exact List.mem_cons_self
    exact absurd (isSolid_of_mem_method hk.method '/' hmem) (by decide)
  rcases hbase with hbase | hbase
  · rw [hbase] at hstart hspace
    rcases htail with rfl | ⟨xs, rfl, -⟩
    · cases hspace
    · exact hstart rfl
  · have hne : (trimBase base).toList ≠ [] := fun hnil => by simp [hnil] at hbase
    rcases mount_cases (fun hnil => hne (String.toList_inj.mpr hnil)) (normalPath _) with
      ⟨hlower, -⟩ | hmount
    · obtain ⟨xs, hxs, -⟩ := exists_of_lowerAfter_prefix hne hlower
      rw [hxs] at hstart
      exact hstart rfl
    · refine splitField_ne_of_solid hk.method hbase hmethod ?_
      rw [hmount, hkpath] at hpath
      simp only [List.isEmpty_iff, List.append_eq_nil_iff, hne, false_and, if_false,
        String.ofList_inj] at hpath
      exact List.append_cancel_left hpath

theorem IsTail.isBlank_of_normalPath_eq {path : List Char} (h : IsTail path)
    (hnormal : normalPath path = path) : ∀ a, path.getLast? = some a → isBlank a = false := by
  rcases h with rfl | ⟨xs, rfl, htrimmed⟩
  · intro a ha
    cases ha
  · rw [List.getLast?_cons_of_ne_nil htrimmed.nonempty]
    exact (normalPath_eq_self_iff htrimmed).mp hnormal

/-- The base path is empty or starts with exactly one slash, and the path is normal, if the path
that is read is the one that was written. -/
theorem normalPath_eq_of_mount_eq {base : String} {tail : List Char} (htail : IsTail tail)
    (hbase : trimBase base = "" ∨ ∃ c ∈ (trimBase base).toList, isSolid c = true)
    (h : mount (trimBase base) (normalPath (((trimBase base).toList ++ tail).dropWhile isBlank)) =
      (trimBase base).toList ++ tail) :
    IsTail (trimBase base).toList ∧
      normalPath ((trimBase base).toList ++ tail) = (trimBase base).toList ++ tail := by
  rcases hbase with hbase | hsolid
  -- below no base path the path itself is normal
  · rw [hbase, mount, if_pos rfl] at h
    change normalPath (tail.dropWhile isBlank) = tail at h
    rw [htail.dropWhile_eq] at h
    rw [hbase]
    exact ⟨.inl rfl, h⟩
  · have hne : (trimBase base).toList ≠ [] := fun hnil => by simp [hnil] at hsolid
    rcases mount_cases (fun hnil => hne (String.toList_inj.mpr hnil)) (normalPath _) with
      ⟨hlower, hmount⟩ | hmount
    -- the base path was found, so that only what follows it was put below it
    · obtain ⟨rest, hrest, hfirst⟩ := exists_of_lowerAfter_prefix hne hlower
      have hlast := getLast?_trimBase base
      have hstart : IsTail (trimBase base).toList := by
        cases rest with
        | nil => exact absurd (by rw [hrest]; rfl) hlast
        | cons c rest =>
          rw [hrest, List.getLast?_cons_cons] at hlast
          exact .inr ⟨c :: rest, hrest, List.cons_ne_nil c rest, hfirst, hlast⟩
      have hwhole := hstart.append htail
      rw [hmount, hwhole.dropWhile_eq] at h
      rw [hwhole.dropWhile_eq] at hlower
      exact ⟨hstart, normalPath_eq_of_drop hwhole hlower (List.append_cancel_left h)⟩
    · rw [hmount] at h
      -- the whole path was put below the base path: its solid characters are too many
      have hcount := congrArg (List.countP isSolid) (List.append_cancel_left h)
      have hblank : ∀ c, isBlank c = true → isSolid c = false := fun _ => isSolid_of_isBlank
      rw [countP_normalPath, countP_dropWhile hblank, List.countP_append] at hcount
      have hpos : 0 < (trimBase base).toList.countP isSolid := List.countP_pos_iff.mpr hsolid
      omega

/-- Two paths without a slash at the end of the second are written alike only if they are one. -/
theorem eq_of_path_eq {xs ys : List Char} (hlast : ys.getLast? ≠ some '/')
    (h : (if xs.isEmpty then "/" else String.ofList xs) =
      if ys = [] then "/" else String.ofList ys) (hnil : ys = [] → xs = []) : xs = ys := by
  by_cases hys : ys = []
  · rw [hys, hnil hys]
  · rw [if_neg hys] at h
    cases xs with
    | nil =>
      have hslash := congrArg String.toList h
      rw [String.toList_ofList] at hslash
      exact absurd (by rw [← hslash]; rfl) hlast
    | cons x xs => exact String.ofList_injective h

/-- For a base path that is empty or holds a character other than blanks and slashes, exactly the
legible slugs are read as the keys that were written. -/
theorem parse_slug_eq_iff {base : String} {k : OperationKey} (hk : k.IsBelow base)
    (hbase : trimBase base = "" ∨ ∃ c ∈ (trimBase base).toList, isSolid c = true) :
    parse k.slug base = k ↔ k.IsLegible base := by
  refine ⟨fun h => ?_, parse_slug hk⟩
  have hspace := not_mem_space_of_parse_slug hk hbase h
  obtain ⟨tail, htail, htrim, hkpath⟩ := hk.exists_tail
  rw [parse_slug_eq hk.method hspace] at h
  have hpath := congrArg OperationKey.path h
  simp only [htrim] at hpath hspace
  have hmount := eq_of_path_eq (htrim ▸ getLast?_trimBase k.path) (hpath.trans hkpath)
    fun hnil => by
      rw [List.append_eq_nil_iff] at hnil
      rw [String.toList_eq_nil_iff.mp hnil.1, hnil.2]
      rfl
  obtain ⟨hstart, hnormal⟩ := normalPath_eq_of_mount_eq htail hbase hmount
  have hwhole := hstart.append htail
  rw [hwhole.dropWhile_eq] at hspace
  refine ⟨?_, ?_, ?_⟩
  · rcases hstart with hnil | ⟨xs, hcons, hxs⟩
    · exact .inl (String.toList_eq_nil_iff.mp hnil)
    · obtain ⟨c, rest, rfl⟩ := List.exists_cons_of_ne_nil hxs.nonempty
      exact .inr ⟨c, rest, hcons, fun hslash => hxs.first (by rw [hslash]; rfl)⟩
  · rcases eq_nil_or_toList_eq hkpath with hnil | hlist
    · rw [hkpath, if_pos hnil]
      decide
    · rwa [hlist]
  · rcases eq_nil_or_toList_eq hkpath with hnil | hlist
    · rw [hkpath, if_pos hnil]
      rintro c hc
      obtain rfl := Option.some.inj hc
      decide
    · rw [hlist]
      exact hwhole.isBlank_of_normalPath_eq hnormal

end OperationKey
end ApiTree
