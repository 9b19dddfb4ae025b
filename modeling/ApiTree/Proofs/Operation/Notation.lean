import ApiTree.Proofs.Fragment.Place

/-!
# Notations of an operation

An operation is written with its method in front, `GET /widgets`, or as a path that ends with its
method, `/widgets/get`. Without blanks in the path the two are read as one key, whatever the case of
the method. The key of a file is read back from both of its notations, and an ASCII base path may
then be written in any case (`parse_notations`).
-/

set_option autoImplicit false

namespace ApiTree

open Text

namespace OperationKey

/-- The path of the key that is read where a descriptor writes the given path. -/
def pathOf (base : String) (path : List Char) : String :=
  let path := mount (trimBase base) (normalPath path)
  if path.isEmpty then "/" else String.ofList path

theorem parse_of_splitDescriptor {descriptor : String} (method path : List Char)
    (h : splitDescriptor (trimWhile isBlank descriptor.toList) = (method, path)) (base : String) :
    parse descriptor base = make (String.ofList method) (pathOf base path) := by
  rw [parse, h]
  rfl

/-! ## The method in front and at the end -/

theorem IsWord.noBlank {m : String} (hm : IsWord m) : ∀ c ∈ m.toList, isBlank c = false :=
  fun c hc => (isSolid_iff.mp (hm.solid c hc)).1

/-- A path that ends with a method is cut before the method. -/
theorem parse_append_slash {m : String} (hm : IsWord m) {path : String}
    (hpath : ∀ c ∈ path.toList, isBlank c = false) (base : String) :
    parse (path ++ "/" ++ m) base = make m (pathOf base path.toList) := by
  have hlist : (path ++ "/" ++ m).toList = path.toList ++ '/' :: m.toList := by simp
  have hspace : ' ' ∉ path.toList := fun hspace => absurd (hpath ' ' hspace) (by decide)
  rw [parse_of_splitDescriptor m.toList path.toList, String.ofList_toList]
  rw [hlist, trimWhile_append_method hm,
    dropWhile_eq_self fun c hc => hpath c (List.mem_of_mem_head? hc),
    splitDescriptor_append_method hm hspace]

/-- A word alone is a method without a path. -/
theorem splitDescriptor_word {m : String} (hm : IsWord m) :
    splitDescriptor m.toList = (m.toList, []) := by
  have hslash : ∀ c ∈ m.toList, (c == '/') = false :=
    fun c hc => (isSolid_iff.mp (hm.solid c hc)).2
  have hcontains : m.toList.contains ' ' = false := by
    rw [← Bool.not_eq_true, List.contains_iff_mem]
    exact fun hspace => absurd (hm.noBlank ' ' hspace) (by decide)
  have hsplit : splitLast (· == '/') m.toList = ([], m.toList) := by
    have hafter : (m.toList.reverse.takeWhile (!· == '/')).reverse = m.toList := by
      rw [List.takeWhile_eq_self_iff.mpr, List.reverse_reverse]
      intro c hc
      rw [hslash c (List.mem_reverse.mp hc)]
      rfl
    rw [splitLast, hafter, Nat.sub_self, Nat.zero_sub, List.take_zero]
  rw [splitDescriptor, hcontains,
    dropEndWhile_eq_self fun c hc => hslash c (List.mem_of_getLast? hc), hsplit]
  rfl

/-- A method in front is cut off at the space after it. -/
theorem splitDescriptor_space {m path : List Char} (hm : ∀ c ∈ m, isBlank c = false)
    (hne : m ≠ []) (hpath : ∀ c ∈ path, isBlank c = false) :
    splitDescriptor (m ++ ' ' :: path) = (m, path) := by
  have hcontains : (m ++ ' ' :: path).contains ' ' = true :=
    List.contains_iff_mem.mpr (List.mem_append_right m List.mem_cons_self)
  have hfirst : (m ++ ' ' :: path).dropWhile isBlank = m ++ ' ' :: path := by
    refine dropWhile_eq_self fun c hc => hm c ?_
    rw [List.head?_append_of_ne_nil m hne] at hc
    exact List.mem_of_mem_head? hc
  have hkeep : ∀ c ∈ m, (!isBlank c) = true := fun c hc => by rw [hm c hc]; rfl
  rw [splitDescriptor, if_pos hcontains, splitField, hfirst,
    List.takeWhile_append_of_pos hkeep, List.dropWhile_append_of_pos hkeep,
    List.takeWhile_cons_of_neg (by decide), List.dropWhile_cons_of_neg (by decide),
    List.dropWhile_cons_of_pos (by decide), List.append_nil,
    dropWhile_eq_self fun c hc => hpath c (List.mem_of_mem_head? hc)]

/-- A descriptor with the method in front is cut after the method. -/
theorem parse_append_space {m : String} (hm : IsWord m) {path : String}
    (hpath : ∀ c ∈ path.toList, isBlank c = false) (base : String) :
    parse (m ++ " " ++ path) base = make m (pathOf base path.toList) := by
  have hlist : (m ++ " " ++ path).toList = m.toList ++ ' ' :: path.toList := by simp
  have hfirst : (m.toList ++ ' ' :: path.toList).dropWhile isBlank =
      m.toList ++ ' ' :: path.toList := by
    refine dropWhile_eq_self fun c hc => hm.noBlank c ?_
    rw [List.head?_append_of_ne_nil _ hm.ne_nil] at hc
    exact List.mem_of_mem_head? hc
  rw [parse_of_splitDescriptor m.toList path.toList, String.ofList_toList]
  rw [hlist, trimWhile, hfirst]
  by_cases hnil : path.toList = []
  -- the space is trimmed away, and what is left is read as a path that ends with the method
  · rw [hnil, dropEndWhile_eq_rdropWhile, List.rdropWhile_concat_pos _ _ _ (by decide),
      ← dropEndWhile_eq_rdropWhile,
      dropEndWhile_eq_self fun c hc => hm.noBlank c (List.mem_of_getLast? hc)]
    exact splitDescriptor_word hm
  · rw [dropEndWhile_eq_self fun c hc => hpath c ?_]
    · exact splitDescriptor_space hm.noBlank hm.ne_nil hpath
    · rw [List.getLast?_append_of_ne_nil _ (List.cons_ne_nil _ _),
        List.getLast?_cons_of_ne_nil hnil] at hc
      exact List.mem_of_getLast? hc

/-! ## The case of letters -/

theorem isSolid_of_letter (c : Char) (hlow : 65 ≤ c.toNat) (hhigh : c.toNat ≤ 122) :
    isSolid c = true := by
  have hblank : isBlank c = false := by
    simp only [isBlank, Bool.or_eq_false_iff, Bool.and_eq_false_iff, decide_eq_false_iff_not,
      beq_eq_false_iff_ne]
    omega
  have hslash : (c == '/') = false := by
    rw [beq_eq_false_iff_ne]
    rintro rfl
    exact absurd hlow (by decide)
  exact isSolid_iff.mpr ⟨hblank, hslash⟩

theorem isBlank_of_letter (c : Char) (hlow : 65 ≤ c.toNat) (hhigh : c.toNat ≤ 122) :
    isBlank c = false :=
  (isSolid_iff.mp (isSolid_of_letter c hlow hhigh)).1

/-- A word stays one in every case. -/
theorem IsWord.of_sameLetters {m m' : String} (hm : IsWord m) (h : SameLetters m' m) :
    IsWord m' := by
  refine ⟨fun hempty => hm.ne_nil ?_, h.forall_mem isSolid_of_letter hm.solid⟩
  have hlength := h.length_eq
  rw [hempty, String.toList_empty, List.length_nil] at hlength
  exact List.length_eq_zero_iff.mp hlength.symm

theorem trimmed_map_toLower {cs : List Char} : Trimmed (cs.map Char.toLower) ↔ Trimmed cs := by
  have hslash (c? : Option Char) : c?.map Char.toLower = some '/' ↔ c? = some '/' := by
    cases c? with
    | none => simp
    | some c => simp [toLower_eq_slash_iff]
  constructor
  · rintro ⟨hne, hfirst, hlast⟩
    rw [List.head?_map, ne_eq, hslash] at hfirst
    rw [List.getLast?_map, ne_eq, hslash] at hlast
    exact ⟨fun hnil => hne (by rw [hnil]; rfl), hfirst, hlast⟩
  · rintro ⟨hne, hfirst, hlast⟩
    refine ⟨fun hnil => hne (List.map_eq_nil_iff.mp hnil), ?_, ?_⟩
    · rwa [List.head?_map, ne_eq, hslash]
    · rwa [List.getLast?_map, ne_eq, hslash]

theorem isTail_map_toLower {cs : List Char} : IsTail (cs.map Char.toLower) ↔ IsTail cs := by
  constructor
  · rintro (hnil | ⟨ys, hys, htrimmed⟩)
    · exact .inl (List.map_eq_nil_iff.mp hnil)
    · obtain ⟨c, xs, rfl, hc, rfl⟩ := List.map_eq_cons_iff.mp hys
      exact .inr ⟨xs, by rw [(toLower_eq_slash_iff c).mp hc], trimmed_map_toLower.mp htrimmed⟩
  · rintro (rfl | ⟨xs, rfl, htrimmed⟩)
    · exact .inl rfl
    · exact .inr ⟨_, rfl, trimmed_map_toLower.mpr htrimmed⟩

/-! ## Spellings of the base path -/

/-- The text spells a base path: it can be the start of a normal path, and it is found to be the
base path when both are lowered. -/
structure IsSpelling (spelling base : List Char) : Prop where
  start : IsTail spelling
  lower : lowerAfter [] spelling = lowerAfter [] base
  length : spelling.length = base.length
  noBlank : ∀ c ∈ spelling, isBlank c = false

theorem isSpelling_self {base : String} (hbase : Place.IsPlainBase base) :
    IsSpelling (trimBase base).toList (trimBase base).toList :=
  ⟨isTail_base hbase.trimBase_cases, rfl, rfl, Place.isBlank_of_mem_trimBase hbase.noBlank⟩

/-- An ASCII base path in any case is a spelling of it. -/
theorem isSpelling_of_sameLetters {base spelling : String} (hbase : Place.IsPlainBase base)
    (hascii : IsAscii base) (h : SameLetters spelling (trimBase base)) :
    IsSpelling spelling.toList (trimBase base).toList := by
  have hself := isSpelling_self hbase
  have htrimmed : IsAscii (trimBase base) := by
    intro c hc
    rw [trimBase, String.toList_ofList] at hc
    exact hascii c ((List.rdropWhile_prefix _ _).subset hc)
  refine ⟨?_, ?_, h.length_eq, h.forall_mem isBlank_of_letter hself.noBlank⟩
  · rw [← isTail_map_toLower, h, isTail_map_toLower]
    exact hself.start
  · rw [lowerAfter_of_ascii (h.isAscii htrimmed), lowerAfter_of_ascii htrimmed, h]

/-- What follows a spelling of the base path is put below the base path. -/
theorem pathOf_append {base : String} {spelling tail : List Char}
    (h : IsSpelling spelling (trimBase base).toList) (htail : IsTail tail)
    (hblank : ∀ c ∈ tail, isBlank c = false) :
    pathOf base (spelling ++ tail) =
      if (trimBase base).toList ++ tail = [] then "/"
      else String.ofList ((trimBase base).toList ++ tail) := by
  have hnormal : normalPath (spelling ++ tail) = spelling ++ tail := by
    refine (h.start.append htail).normalPath_eq fun c hc => ?_
    rcases List.mem_append.mp (List.mem_of_getLast? hc) with hc | hc
    · exact h.noBlank c hc
    · exact hblank c hc
  rw [pathOf, hnormal,
    mount_append_of_lower h.lower h.length (htail.imp_right fun ⟨xs, hxs, _⟩ => ⟨xs, hxs⟩)]
  simp only [List.isEmpty_iff]

/-- A method in capitals is the method in another case. -/
theorem sameLetters_upper {m : String} (hm : m ∈ methods) : SameLetters (upper m) m := by
  have hall : methods.all (fun m => decide (SameLetters (upper m) m)) = true := by rfl
  exact of_decide_eq_true (List.all_eq_true.mp hall m hm)

theorem lower_upper {m : String} (hm : m ∈ methods) : lower (upper m) = m := by
  have hascii : ∀ m ∈ methods, IsAscii m := by decide
  rw [(sameLetters_upper hm).lower_eq (hascii m hm), lower_method hm]

/-- The key of an operation is read from both of its notations, the base path in any spelling. -/
theorem IsBelow.parse_spelling {base : String} {k : OperationKey} (hk : k.IsBelow base)
    (hpath : ∀ c ∈ k.path.toList, isBlank c = false) :
    ∃ slugEnd pathEnd, k.slug = trimBase base ++ slugEnd ∧ k.path = trimBase base ++ pathEnd ∧
      ∀ spelling : String, IsSpelling spelling.toList (trimBase base).toList →
        parse (spelling ++ slugEnd) base = k ∧
          parse (upper k.method ++ " " ++ (spelling ++ pathEnd)) base = k := by
  obtain ⟨tail, htail, htrim, hkpath⟩ := hk.exists_tail
  have hblank : ∀ c ∈ tail, isBlank c = false := by
    intro c hc
    rcases eq_nil_or_toList_eq hkpath with hnil | hlist
    · rw [(List.append_eq_nil_iff.mp hnil).2] at hc
      cases hc
    · exact hpath c (hlist ▸ List.mem_append_right _ hc)
  refine ⟨String.ofList tail ++ "/" ++ k.method,
    if (trimBase base).toList ++ tail = [] then "/" else String.ofList tail, ?_, ?_, ?_⟩
  · rw [← String.toList_inj, slug_toList, htrim]
    simp
  · rw [hkpath]
    split
    · next hnil =>
      rw [String.toList_eq_nil_iff.mp (List.append_eq_nil_iff.mp hnil).1]
      rfl
    · rw [String.ofList_append, String.ofList_toList]
  · intro spelling hspelling
    have hread := pathOf_append hspelling htail hblank
    rw [← hkpath] at hread
    have hwhole : ∀ c ∈ (spelling ++ String.ofList tail).toList, isBlank c = false := by
      rw [String.toList_append, String.toList_ofList]
      exact List.forall_mem_append.mpr ⟨hspelling.noBlank, hblank⟩
    constructor
    · have hword := isWord_of_mem_methods hk.method
      rw [← String.append_assoc, ← String.append_assoc, parse_append_slash hword hwhole,
        String.toList_append, String.toList_ofList, hread, make, lower_method hk.method]
    · have hword := (isWord_of_mem_methods hk.method).of_sameLetters (sameLetters_upper hk.method)
      rw [parse_append_space hword, make, lower_upper hk.method]
      · refine congrArg (OperationKey.mk k.method) ?_
        split
        -- the path of the root operation is a slash that stands for no path at all
        · next hnil =>
          obtain ⟨hbase, -⟩ := List.append_eq_nil_iff.mp hnil
          have hempty := hspelling.length
          rw [hbase, List.length_nil, List.length_eq_zero_iff, String.toList_eq_nil_iff] at hempty
          rw [hkpath, if_pos hnil, hempty, pathOf, String.toList_eq_nil_iff.mp hbase]
          rfl
        · rw [String.toList_append, String.toList_ofList, hread]
      · split
        · rw [String.toList_append]
          exact List.forall_mem_append.mpr ⟨hspelling.noBlank, by simp; decide⟩
        · exact hwhole

/-- Both notations of an operation are read as one key. With the method in front or at the end of a
path without blanks, each in any case, the same key is read. The key of a file below the root is read
from its slug and from its other notation, if the base path is empty or starts with one slash; and if
the base path is ASCII, its part of both may be written in any case. -/
theorem parse_notations (base : String) :
    (∀ path method front back : String, (∀ c ∈ path.toList, isBlank c = false) →
      IsAscii method → IsWord method → SameLetters front method → SameLetters back method →
        parse (front ++ " " ++ path) base = parse (path ++ "/" ++ back) base) ∧
    (Place.IsPlainBase base → ∀ (root : FilePath) (text : String) (names : List String)
      (k : OperationKey), root.below? (FilePath.ofText text) = some names →
      (∀ s ∈ names, ∀ c ∈ s.toList, isBlank c = false) →
      (Place.ofPath root (FilePath.ofText text) base).operation = some k →
        parse k.slug base = k ∧ parse k.render base = k ∧
        ∃ slugEnd pathEnd, k.slug = trimBase base ++ slugEnd ∧ k.path = trimBase base ++ pathEnd ∧
          (IsAscii base → ∀ spelling, SameLetters spelling (trimBase base) →
            parse (spelling ++ slugEnd) base = k ∧
              parse (upper k.method ++ " " ++ (spelling ++ pathEnd)) base = k)) := by
  constructor
  · intro path method front back hpath hascii hmethod hfront hback
    have hlower : make front = make back := by
      funext path
      rw [make, make, hfront.lower_eq hascii, hback.lower_eq hascii]
    rw [parse_append_space (hmethod.of_sameLetters hfront) hpath,
      parse_append_slash (hmethod.of_sameLetters hback) hpath, hlower]
  · intro hbase root text names k hbelow hnames hoperation
    have hparts : ∀ s ∈ Place.parts root (FilePath.ofText text), ∀ c ∈ s.toList,
        isBlank c = false :=
      Place.forall_mem_parts_of_below (P := fun s => ∀ c ∈ s.toList, isBlank c = false)
        (fun name hname c hc => hname c (Place.withoutExtension_subset name hc))
        (by rw [hbelow]; exact hnames)
    obtain ⟨folder, after, method, hmethod, hsplit, -, -, rfl⟩ :=
      Place.exists_split_of_operation hoperation
    have hpath := Place.isBlank_of_mem_operationPath hbase.noBlank fun s hs =>
      hparts s (hsplit ▸ List.mem_append_left _ hs)
    obtain ⟨slugEnd, pathEnd, hslug, hend, hread⟩ :=
      (Place.isBelow_of_ofPath hoperation).parse_spelling hpath
    obtain ⟨hself, hself'⟩ := hread _ (isSpelling_self hbase)
    rw [← hslug] at hself
    rw [← hend] at hself'
    exact ⟨hself, hself', slugEnd, pathEnd, hslug, hend, fun hascii spelling hletters =>
      hread spelling (isSpelling_of_sameLetters hbase hascii hletters)⟩

/-- An operation in folders that are named like the base path and like a method. -/
theorem parse_notations_nested :
    Place.IsPlainBase "/api/" ∧
      (Place.ofPath ⟨.relative, ["spec"]⟩ (FilePath.ofText "spec/api/get/post.yml")
        "/api/").operation = some ⟨"post", "/api/api/get"⟩ ∧
      parse "PoSt api/get" "/api/" = parse "api/get/pOST" "/api/" ∧
      parse "/api/api/get/post" "/api/" = ⟨"post", "/api/api/get"⟩ ∧
      parse "POST /api/api/get" "/api/" = ⟨"post", "/api/api/get"⟩ ∧
      parse "/API/api/get/post" "/api/" = ⟨"post", "/api/api/get"⟩ ∧
      parse "POST /Api/api/get" "/api/" = ⟨"post", "/api/api/get"⟩ := by
  have hbase : Place.IsPlainBase "/api/" :=
    ⟨.inr ⟨"api/".toList, rfl, by decide⟩, by simp [isBlank]⟩
  have hoperation : (Place.ofPath ⟨.relative, ["spec"]⟩ (FilePath.ofText "spec/api/get/post.yml")
      "/api/").operation = some ⟨"post", "/api/api/get"⟩ := rfl
  have hbelow : (⟨.relative, ["spec"]⟩ : FilePath).below? (FilePath.ofText "spec/api/get/post.yml") =
      some ["api", "get", "post.yml"] := rfl
  obtain ⟨hwords, hfiles⟩ := parse_notations "/api/"
  have hword := hwords "api/get" "post" "PoSt" "pOST" (by simp [isBlank]) (by decide) (by decide)
    (by decide) (by decide)
  obtain ⟨hslug, hrender, slugEnd, pathEnd, hslugEnd, hpathEnd, hspelling⟩ :=
    hfiles hbase _ _ _ _ hbelow (by simp [isBlank]) hoperation
  -- what follows the base path in the slug and in the path of the key
  have hbaseText : trimBase "/api/" = "/api" := rfl
  have hslugText : slug ⟨"post", "/api/api/get"⟩ = "/api" ++ "/api/get/post" := rfl
  have hpathText : "/api/api/get" = "/api" ++ "/api/get" := rfl
  rw [hslugText, hbaseText, String.append_right_inj] at hslugEnd
  rw [hbaseText] at hpathEnd
  have hpathEnd := (String.append_right_inj _).mp (hpathText.symm.trans hpathEnd)
  obtain ⟨hcapitals, -⟩ := hspelling (by decide) "/API" (by decide)
  obtain ⟨-, hcapital⟩ := hspelling (by decide) "/Api" (by decide)
  rw [← hslugEnd] at hcapitals
  rw [← hpathEnd] at hcapital
  exact ⟨hbase, hoperation, hword, hslug, hrender, hcapitals, hcapital⟩

end OperationKey
end ApiTree
