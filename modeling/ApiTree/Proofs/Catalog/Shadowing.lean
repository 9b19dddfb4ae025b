import ApiTree.Proofs.Catalog.Resolution

/-!
# Files that are lost to others

Two files can be the same operation in the same version. Then what is in the last of them counts, and
the other is lost without a message. They always stand below one method; and if they stand in its
folder or are named after it, one of them is lost only if the other is a version that is called
`draft` or starts with a point (`Catalog.lost_of_tree`).
-/

set_option autoImplicit false

namespace ApiTree

/-- The parts of a path up to the last one that is a method. -/
def Place.methodParts (root path : FilePath) : List String :=
  Text.dropEndWhile (!methods.contains ·) (parts root path)

/-- The file is named after a method or stands in a folder that is. -/
def Place.IsDirect (root path : FilePath) : Prop :=
  (parts root path).length ≤ (methodParts root path).length + 1

/-- Below the root the first file is lost to the second: the file that a method names to the version
that is called `draft`, or a file without a name before the extension to the one that is named after
this extension. -/
inductive Fragment.LostTo (root : FilePath) : FilePath → FilePath → Prop
  | draft (folder : List String) {method : String} (h : method ∈ methods) :
    LostTo root (root.under (folder ++ [method ++ ".yml"]))
      (root.under (folder ++ [method, "draft.yml"]))
  | hidden (folder : List String) {method : String} (h : method ∈ methods) :
    LostTo root (root.under (folder ++ [method, ".yml"]))
      (root.under (folder ++ [method, ".yml.yml"]))

open FilePath (IsName)

/-! ## Keys of operations -/

namespace Place

theorem operationPath_injective {base : String} {folder other : List String}
    (hfolder : ∀ s ∈ folder, IsName s) (hother : ∀ s ∈ other, IsName s)
    (h : operationPath base folder = operationPath base other) : folder = other := by
  -- the path of the base itself is not that of a folder below it
  have hbelow {names : List String} (hnames : ∀ s ∈ names, IsName s) (hne : names ≠ []) :
      operationPath base [] ≠ operationPath base names := by
    intro heq
    obtain ⟨s, names, rfl⟩ := List.exists_cons_of_ne_nil hne
    have hlength := congrArg String.length heq
    simp only [operationPath, List.isEmpty_nil, List.isEmpty_cons, if_true, Bool.false_eq_true,
      if_false, String.length_append] at hlength
    have hs : (String.intercalate "/" (s :: names)).length ≠ 0 := by
      intro hzero
      have hsplit := FilePath.splitWhere_intercalate hne hnames
      rw [String.length_eq_zero_iff.mp hzero] at hsplit
      have hempty : s.toList = [] := (List.cons.inj hsplit).1.symm
      exact (hnames s List.mem_cons_self).nonempty (String.toList_eq_nil_iff.mp hempty)
    split at hlength
    · next hbase =>
      rw [hbase] at hlength
      exact hs (by simpa using hlength)
    · have hone : String.length "/" = 1 := rfl
      omega
  by_cases hnil : folder = []
  · subst hnil
    by_contra hne
    exact hbelow hother (Ne.symm hne) h
  · by_cases hnil' : other = []
    · subst hnil'
      exact absurd h.symm (hbelow hfolder hnil)
    · rw [operationPath, operationPath, if_neg (by simpa using hnil), if_neg (by simpa using hnil')]
        at h
      have hnames : String.intercalate "/" folder = String.intercalate "/" other := by
        rw [← String.toList_inj] at h ⊢
        simpa using h
      have hsplit := FilePath.splitWhere_intercalate hnil hfolder
      rw [hnames, FilePath.splitWhere_intercalate hnil' hother] at hsplit
      exact (List.map_injective_iff.mpr (fun s t hst => String.toList_inj.mp hst) hsplit).symm

/-- A file of a tree that is an operation: the folders that lead to its method, the method, and the
parts after the method, of which the last is its version. -/
structure Split (root : FilePath) (base : String) (path : FilePath) (folder : List String)
    (method : String) (after : List String) : Prop where
  isName : ∀ s ∈ folder, IsName s
  isMethod : method ∈ methods
  parts_eq : parts root path = folder ++ method :: after
  methodParts_eq : methodParts root path = folder ++ [method]
  operation_eq : (ofPath root path base).operation = some ⟨method, operationPath base folder⟩
  version_eq : (ofPath root path base).version = after.getLast?

/-- The parts of a file are the names that lead to it, the last without its extension. -/
theorem parts_under (root : FilePath) (names : List String) (name : String) :
    parts root (root.under (names ++ [name])) = names ++ [withoutExtension name] := by
  rw [parts, FilePath.below?_under]
  simp only [Option.getD_some, List.getLast?_concat, List.dropLast_concat]

/-- A name with the extension is what stands before it and the extension, or the extension alone. -/
theorem withoutExtension_cases {name : String} (h : Text.endsWith name ".yml" = true) :
    name = withoutExtension name ++ ".yml" ∨ name = ".yml" := by
  obtain ⟨start, hstart⟩ := List.isSuffixOf_iff_suffix.mp h
  have hname : name = String.ofList start ++ ".yml" := by
    rw [← String.toList_inj, String.toList_append, String.toList_ofList, hstart]
  by_cases hempty : String.ofList start = ""
  · right
    rw [hname, hempty]
    rfl
  · left
    rw [withoutExtension, if_pos h, hname, FilePath.stemOf_append hempty]

theorem withoutExtension_append {v : String} (hv : v ≠ "") : withoutExtension (v ++ ".yml") = v := by
  have hends : Text.endsWith (v ++ ".yml") ".yml" = true := by
    rw [Text.endsWith, List.isSuffixOf_iff_suffix, String.toList_append]
    exact List.suffix_append _ _
  rw [withoutExtension, if_pos hends, FilePath.stemOf_append hv]

end Place

/-! ## Files of operations -/

namespace Fragment

variable {d : Disk} {root p q : FilePath} {base : String} {k l : OperationKey}

/-- A file of a tree is found below the root under names. -/
theorem exists_under_of_mem (hd : d.Sound) (hp : p ∈ discover d root) :
    ∃ names name, p = root.under (names ++ [name]) ∧ (∀ s ∈ names ++ [name], IsName s) ∧
      Text.endsWith name ".yml" = true := by
  obtain ⟨-, hfile, hends⟩ := mem_discover.mp hp
  obtain ⟨above, names, content, -, hne, hmem, rfl⟩ := Disk.mem_filesBelow.mp hfile
  obtain ⟨init, name, rfl⟩ := (List.eq_nil_or_concat' names).resolve_left hne
  refine ⟨init, name, rfl, fun s hs => ?_, ?_⟩
  · exact (hd.names _ hmem s (List.mem_append_right above hs)).1
  · rwa [FilePath.name, ← List.append_assoc, List.getLast?_concat] at hends

/-- No part of a file of a tree is empty. -/
theorem ne_empty_of_mem_parts (hd : d.Sound) (hp : p ∈ discover d root) {s : String}
    (hs : s ∈ Place.parts root p) : s ≠ "" := by
  obtain ⟨names, name, rfl, hnames, -⟩ := exists_under_of_mem hd hp
  rw [List.forall_mem_append, List.forall_mem_singleton] at hnames
  rw [Place.parts_under] at hs
  rcases List.mem_append.mp hs with hs | hs
  · exact (hnames.1 s hs).nonempty
  · rw [List.mem_singleton.mp hs]
    exact Place.withoutExtension_ne_empty hnames.2.nonempty

/-- The parts of a file that is an operation split at the last method. -/
theorem split_of_mem {folder after : List String} {method : String} (hd : d.Sound)
    (hp : p ∈ discover d root) (hk : (Place.ofPath root p base).operation = some k)
    (hparts : Place.parts root p = folder ++ method :: after) (hmethod : method ∈ methods)
    (hafter : ∀ s ∈ after, s ∉ methods) : Place.Split root base p folder method after := by
  obtain ⟨names, name, rfl, hnames, -⟩ := exists_under_of_mem hd hp
  obtain ⟨-, -, -, -, -, -, hstatic, -⟩ := Place.exists_split_of_operation hk
  have hplace : Place.ofParts base (folder ++ method :: after) = _ :=
    Place.ofParts_append_cons (hparts ▸ hstatic) hmethod hafter
  rw [OperationKey.make, OperationKey.lower_method hmethod] at hplace
  refine ⟨fun s hs => ?_, hmethod, hparts, ?_, ?_, ?_⟩
  · -- the folder is among the names but the last, which keep their extension
    have hdrop := congrArg List.dropLast hparts
    rw [Place.parts_under, List.dropLast_concat,
      List.dropLast_append_of_ne_nil (List.cons_ne_nil method after)] at hdrop
    exact hnames s (List.mem_append_left _ (hdrop ▸ List.mem_append_left _ hs))
  · rw [Place.methodParts, hparts]
    exact Text.dropEndWhile_append_cons (by simpa using hmethod) folder
      fun s hs => by simpa using hafter s hs
  · rw [Place.ofPath, hparts, hplace]
    cases after <;> rfl
  · rw [Place.ofPath, hparts, hplace]
    cases after <;> rfl

theorem exists_split_of_mem (hd : d.Sound) (hp : p ∈ discover d root)
    (hk : (Place.ofPath root p base).operation = some k) :
    ∃ folder method after, Place.Split root base p folder method after := by
  obtain ⟨folder, after, method, hmethod, hparts, hafter, -, -⟩ :=
    Place.exists_split_of_operation hk
  exact ⟨folder, method, after, split_of_mem hd hp hk hparts hmethod hafter⟩

/-- Files are the same operation exactly if the same method leads to them. -/
theorem operation_eq_iff (hd : d.Sound) (hp : p ∈ discover d root) (hq : q ∈ discover d root)
    (hk : (Place.ofPath root p base).operation = some k)
    (hl : (Place.ofPath root q base).operation = some l) :
    k = l ↔ Place.methodParts root p = Place.methodParts root q := by
  obtain ⟨folder, method, after, hsplit⟩ := exists_split_of_mem hd hp hk
  obtain ⟨folder', method', after', hsplit'⟩ := exists_split_of_mem hd hq hl
  obtain rfl := Option.some.inj (hsplit.operation_eq.symm.trans hk)
  obtain rfl := Option.some.inj (hsplit'.operation_eq.symm.trans hl)
  rw [hsplit.methodParts_eq, hsplit'.methodParts_eq, OperationKey.mk.injEq]
  constructor
  · rintro ⟨rfl, hpath⟩
    rw [Place.operationPath_injective hsplit.isName hsplit'.isName hpath]
  · intro hparts
    obtain ⟨rfl, hmethod⟩ := List.append_inj' hparts rfl
    exact ⟨List.singleton_inj.mp hmethod, rfl⟩

/-! ## Files that are the same operation in the same version -/

/-- The version that a file of an operation is; without one it is the draft. -/
theorem token_eq {folder after : List String} {method : String} (hd : d.Sound)
    (hp : p ∈ discover d root) (h : Place.Split root base p folder method after) :
    versionOrDraft (Place.ofPath root p base).version = after.getLast?.getD draft := by
  rw [h.version_eq]
  cases hlast : after.getLast? with
  | none => rfl
  | some v =>
    have hmem : v ∈ Place.parts root p := by
      rw [h.parts_eq]
      exact List.mem_append_right _ (List.mem_cons_of_mem _ (List.mem_of_getLast? hlast))
    rw [versionOrDraft, Option.getD_some]
    exact if_neg (ne_empty_of_mem_parts hd hp hmem)

/-- A file is named after its last part, or its name is the extension and so is its last part. -/
theorem eq_under_of_parts_eq {names : List String} {last : String} (hd : d.Sound)
    (hp : p ∈ discover d root) (h : Place.parts root p = names ++ [last]) :
    p = root.under (names ++ [last ++ ".yml"]) ∨
      p = root.under (names ++ [".yml"]) ∧ last = ".yml" := by
  obtain ⟨above, name, rfl, -, hends⟩ := exists_under_of_mem hd hp
  rw [Place.parts_under] at h
  obtain ⟨rfl, hlast⟩ := List.append_inj' h rfl
  obtain rfl := List.singleton_inj.mp hlast
  rcases Place.withoutExtension_cases hends with hcase | rfl
  · exact .inl (by rw [← hcase])
  · exact .inr ⟨rfl, by decide⟩

/-- A file that is an operation and no version of it is named after the method. -/
theorem eq_under_of_split_nil {folder : List String} {method : String} (hd : d.Sound)
    (hp : p ∈ discover d root) (h : Place.Split root base p folder method []) :
    p = root.under (folder ++ [method ++ ".yml"]) := by
  rcases eq_under_of_parts_eq hd hp h.parts_eq with hname | ⟨-, rfl⟩
  · exact hname
  · -- no method is the extension
    exact absurd h.isMethod (by decide)

/-- A version in the folder of the method is named after its version. -/
theorem eq_under_of_split_singleton {folder : List String} {method v : String} (hd : d.Sound)
    (hp : p ∈ discover d root) (h : Place.Split root base p folder method [v]) :
    p = root.under (folder ++ [method, v ++ ".yml"]) ∨
      p = root.under (folder ++ [method, ".yml"]) ∧ v = ".yml" := by
  have hparts := h.parts_eq
  rw [List.append_cons folder method [v]] at hparts
  have hname := eq_under_of_parts_eq hd hp hparts
  rwa [List.append_assoc, List.append_assoc] at hname

/-- What is lost and what it is lost to are one operation in one version. -/
theorem LostTo.same_version (h : LostTo root p q)
    (hk : (Place.ofPath root p base).operation = some k) :
    (Place.ofPath root q base).operation = some k ∧
      versionOrDraft (Place.ofPath root p base).version =
        versionOrDraft (Place.ofPath root q base).version := by
  obtain ⟨-, -, -, -, -, -, hstatic, -⟩ := Place.exists_split_of_operation hk
  have hparts (folder : List String) (method name : String) :
      Place.parts root (root.under (folder ++ [method, name])) =
        folder ++ [method, Place.withoutExtension name] := by
    rw [List.append_cons folder method [name], Place.parts_under, List.append_assoc,
      List.singleton_append]
  rw [Place.ofPath] at hk ⊢
  rw [Place.ofPath]
  cases h with
  | @draft folder method h =>
    have hname : Place.withoutExtension (method ++ ".yml") = method :=
      Place.withoutExtension_append fun hnil => OperationKey.method_ne_nil h (by rw [hnil]; rfl)
    have hdraft : Place.withoutExtension "draft.yml" = "draft" := by decide
    rw [Place.parts_under, hname] at hk hstatic ⊢
    have hstatic' : ∀ s ∈ folder ++ [method, "draft"], s ∉ staticFolders := by
      rw [List.append_cons]
      exact List.forall_mem_append.mpr ⟨hstatic, by decide⟩
    rw [Place.ofParts_append_cons hstatic h (by simp)] at hk ⊢
    rw [hparts, hdraft, Place.ofParts_append_cons hstatic' h (by decide)]
    exact ⟨hk, rfl⟩
  | @hidden folder method h =>
    have hsame : Place.parts root (root.under (folder ++ [method, ".yml.yml"])) =
        Place.parts root (root.under (folder ++ [method, ".yml"])) := by
      rw [hparts, hparts]
      rfl
    rw [hsame]
    exact ⟨hk, rfl⟩

/-- What is lost comes before what it is lost to. -/
theorem LostTo.render_lt (h : LostTo root p q) : p.render < q.render := by
  have hlt (folder : List String) {names more : List String} (hnames : names ≠ []) (hmore : more ≠ [])
      (h : String.intercalate "/" names < String.intercalate "/" more) :
      (root.under (folder ++ names)).render < (root.under (folder ++ more)).render := by
    obtain ⟨start, hstart⟩ := FilePath.exists_render_under (root.under folder)
    rw [FilePath.under_append, FilePath.under_append, hstart names hnames, hstart more hmore,
      String.lt_iff_toList_lt, String.toList_append, String.toList_append]
    exact List.append_left_lt (String.lt_iff_toList_lt.mp h)
  cases h with
  | @draft folder method h =>
    refine hlt folder (List.cons_ne_nil _ _) (List.cons_ne_nil _ _) ?_
    rw [String.intercalate_singleton, String.intercalate_cons_cons, String.intercalate_singleton,
      String.append_assoc, String.lt_iff_toList_lt, String.toList_append, String.toList_append]
    exact List.append_left_lt (by decide)
  | @hidden folder method h =>
    refine hlt folder (List.cons_ne_nil _ _) (List.cons_ne_nil _ _) ?_
    rw [String.intercalate_cons_cons, String.intercalate_cons_cons, String.intercalate_singleton,
      String.intercalate_singleton, String.lt_iff_toList_lt, String.toList_append,
      String.toList_append (t := ".yml.yml")]
    exact List.append_left_lt (by decide)

/-- Of two files that are named after a method or stand in its folder, and that are one operation in
one version, one is lost to the other. -/
theorem lostTo_of_same_version (hd : d.Sound) (hp : p ∈ discover d root) (hq : q ∈ discover d root)
    (hk : (Place.ofPath root p base).operation = some k)
    (hl : (Place.ofPath root q base).operation = some k)
    (hversion : versionOrDraft (Place.ofPath root p base).version =
      versionOrDraft (Place.ofPath root q base).version)
    (hdirect : Place.IsDirect root p) (hdirect' : Place.IsDirect root q) (hne : p ≠ q) :
    LostTo root p q ∨ LostTo root q p := by
  obtain ⟨folder, method, after, hsplit⟩ := exists_split_of_mem hd hp hk
  obtain ⟨folder', method', after', hsplit'⟩ := exists_split_of_mem hd hq hl
  have hparts := (operation_eq_iff hd hp hq hk hl).mp rfl
  rw [hsplit.methodParts_eq, hsplit'.methodParts_eq] at hparts
  obtain ⟨rfl, hmethod⟩ := List.append_inj' hparts rfl
  obtain rfl := List.singleton_inj.mp hmethod
  rw [token_eq hd hp hsplit, token_eq hd hq hsplit'] at hversion
  have hshort {z : FilePath} {rest : List String} (h : Place.Split root base z folder method rest)
      (hz : Place.IsDirect root z) : rest = [] ∨ ∃ v, rest = [v] := by
    rw [Place.IsDirect, h.parts_eq, h.methodParts_eq, List.length_append, List.length_append,
      List.length_cons, List.length_singleton] at hz
    rw [← List.length_eq_zero_iff, ← List.length_eq_one_iff]
    omega
  have hmethod := hsplit.isMethod
  rcases hshort hsplit hdirect with rfl | ⟨v, rfl⟩ <;>
    rcases hshort hsplit' hdirect' with rfl | ⟨w, rfl⟩
  · -- both are named after the method
    exact absurd ((eq_under_of_split_nil hd hp hsplit).trans
      (eq_under_of_split_nil hd hq hsplit').symm) hne
  · obtain rfl : ApiTree.draft = w := hversion
    obtain rfl := eq_under_of_split_nil hd hp hsplit
    rcases eq_under_of_split_singleton hd hq hsplit' with rfl | ⟨-, hv⟩
    · exact .inl (.draft folder hmethod)
    · exact absurd hv (by decide)
  · obtain rfl : v = ApiTree.draft := hversion
    obtain rfl := eq_under_of_split_nil hd hq hsplit'
    rcases eq_under_of_split_singleton hd hp hsplit with rfl | ⟨-, hv⟩
    · exact .inr (.draft folder hmethod)
    · exact absurd hv (by decide)
  · obtain rfl : v = w := hversion
    rcases eq_under_of_split_singleton hd hp hsplit with rfl | ⟨rfl, rfl⟩ <;>
      rcases eq_under_of_split_singleton hd hq hsplit' with rfl | ⟨rfl, hv⟩
    · exact absurd rfl hne
    · subst hv
      exact .inr (.hidden folder hmethod)
    · exact .inl (.hidden folder hmethod)
    · exact absurd rfl hne

/-- The last of the files that are an operation in a version comes after all others. -/
theorem render_le_of_getLast? {v : String} (hlast : (filesOf d root base k v).getLast? = some q)
    (hp : p ∈ filesOf d root base k v) : p.render ≤ q.render := by
  have hsorted : (filesOf d root base k v).Pairwise fun p q => p.render ≤ q.render :=
    (pairwise_discover d root).sublist List.filter_sublist
  obtain ⟨before, hbefore⟩ := List.getLast?_eq_some_iff.mp hlast
  rw [hbefore] at hp hsorted
  rcases List.mem_append.mp hp with hp | hp
  · exact (List.pairwise_append.mp hsorted).2.2 p hp q List.mem_cons_self
  · rw [List.mem_singleton.mp hp]

end Fragment

open Fragment

theorem versionOrDraft_versionOrDraft (version : Option String) :
    versionOrDraft (some (versionOrDraft version)) = versionOrDraft version := by
  cases version with
  | none => rfl
  | some v =>
    by_cases hv : v = ""
    · rw [hv]
      rfl
    · simp only [versionOrDraft, if_neg hv]

/-- Two files of a tree are the same operation exactly if the same method leads to both. If they are
named after it or stand in its folder, and are not the same file, they are also the same version
exactly if one of them is lost to the other. The operation in the version of a file resolves to what
is in the last file that is both. This is the file itself, unless another one is, to which it is lost
if all files that are both are named after the method or stand in its folder. -/
theorem Catalog.lost_of_tree {c : Catalog} {rootText base : String} {draftOnly : Bool}
    {exclusions : Option (List String)}
    (hc : c = Catalog.make (FilePath.ofText rootText) base draftOnly exclusions) {d : Disk}
    (hd : d.Sound) {p : FilePath} (hp : p ∈ discover d c.root) {k : OperationKey}
    (hk : (Place.ofPath c.root p c.base).operation = some k) :
    let version (q : FilePath) := versionOrDraft (Place.ofPath c.root q c.base).version
    let files := filesOf d c.root c.base k (version p)
    (∀ q ∈ discover d c.root, ∀ l, (Place.ofPath c.root q c.base).operation = some l →
      (k = l ↔ Place.methodParts c.root p = Place.methodParts c.root q) ∧
      (Place.IsDirect c.root p → Place.IsDirect c.root q → p ≠ q →
        (k = l ∧ version p = version q ↔ LostTo c.root p q ∨ LostTo c.root q p))) ∧
    (OperationsLoad d c.root c.base → ∃ q content, files.getLast? = some q ∧
      Fragment.read d q = .ok content ∧
      c.freshAnswer d (.resolve (.inr k) (some (version p))) = .ok (.fields content) ∧
      ((∀ z ∈ files, Place.IsDirect c.root z) →
        q = p ∧ (∀ z ∈ discover d c.root, ¬ LostTo c.root p z) ∨ LostTo c.root p q)) := by
  intro version files
  refine ⟨fun q hq l hl => ⟨operation_eq_iff hd hp hq hk hl, fun hdirect hdirect' hne => ?_⟩,
    fun hload => ?_⟩
  · constructor
    · rintro ⟨rfl, hversion⟩
      exact lostTo_of_same_version hd hp hq hk hl hversion hdirect hdirect' hne
    · rintro (hlost | hlost)
      · obtain ⟨hkey, hversion⟩ := hlost.same_version hk
        exact ⟨Option.some.inj (hkey.symm.trans hl), hversion⟩
      · obtain ⟨hkey, hversion⟩ := hlost.same_version hl
        exact ⟨Option.some.inj (hk.symm.trans hkey), hversion.symm⟩
  · have hmem : p ∈ files := mem_filesOf.mpr ⟨hp, hk, rfl⟩
    obtain ⟨q, hlast⟩ : ∃ q, files.getLast? = some q :=
      Option.isSome_iff_exists.mp (List.getLast?_isSome.mpr (List.ne_nil_of_mem hmem))
    obtain ⟨hq, hkey, hversion⟩ := mem_filesOf.mp (List.mem_of_getLast? hlast)
    have hcounts : (filesOf d c.root c.base k (versionOrDraft (some (version p)))).getLast?.or
        (filesOf d c.root c.base k draft).getLast? = some q := by
      rw [versionOrDraft_versionOrDraft, hlast]
      rfl
    obtain ⟨content, hcontent, hanswer⟩ := Catalog.freshAnswer_of_last hc hd hload hcounts
    refine ⟨q, content, hlast, hcontent, hanswer, fun hdirect => ?_⟩
    by_cases hself : q = p
    · refine .inl ⟨hself, fun z hz hlost => ?_⟩
      -- what the file is lost to would come after it
      obtain ⟨hkey', hversion'⟩ := hlost.same_version hk
      have hle := render_le_of_getLast? hlast (mem_filesOf.mpr ⟨hz, hkey', hversion'.symm⟩)
      rw [hself] at hle
      exact absurd hlost.render_lt (not_lt_of_ge hle)
    · refine .inr ?_
      rcases lostTo_of_same_version hd hp hq hk hkey hversion.symm (hdirect p hmem)
        (hdirect q (List.mem_of_getLast? hlast)) (Ne.symm hself) with hlost | hlost
      · exact hlost
      · exact absurd hlost.render_lt (not_lt_of_ge (render_le_of_getLast? hlast hmem))

/-- The draft that the method names is lost to the version that is called so. -/
theorem lost_of_tree_twoDrafts :
    let named : FilePath := ⟨.relative, ["widgets", "get.yml"]⟩
    let called : FilePath := ⟨.relative, ["widgets", "get", "draft.yml"]⟩
    LostTo releasesCatalog.root named called ∧
      releasesCatalog.freshAnswer twoDrafts (.resolve (.inr ⟨"get", "/api/widgets"⟩) (some "draft")) =
        .ok (.fields [(.str "id", .str "B")]) := by
  intro named called
  have hnamed : named ∈ discover twoDrafts releasesCatalog.root := by
    rw [discover_twoDrafts]
    decide
  have hcalled : called ∈ discover twoDrafts releasesCatalog.root := by
    rw [discover_twoDrafts]
    decide
  obtain ⟨hpairs, hanswers⟩ := Catalog.lost_of_tree (c := releasesCatalog) (p := named)
    (k := ⟨"get", "/api/widgets"⟩) (rfl : _ = Catalog.make (FilePath.ofText ".") "/api")
    sound_twoDrafts hnamed (by decide)
  constructor
  · have hlost := ((hpairs called hcalled ⟨"get", "/api/widgets"⟩ (by decide)).2
      (by rw [Place.IsDirect]; decide) (by rw [Place.IsDirect]; decide) (by decide)).mp
      ⟨rfl, by decide⟩
    exact hlost.resolve_right fun h => absurd h.render_lt (by decide)
  · obtain ⟨q, content, hlast, hcontent, hanswer, -⟩ := hanswers operationsLoad_twoDrafts
    rw [filesOf_twoDrafts] at hlast
    obtain rfl : called = q := Option.some.inj hlast
    obtain ⟨-, -, -, hother⟩ := read_twoDrafts
    rw [← Except.ok.inj (hother.symm.trans hcontent)] at hanswer
    exact hanswer

/-- Two files of a tree can be one operation in one version, and then only one of them is found. -/
theorem not_found_twoDrafts :
    let named : FilePath := ⟨.relative, ["widgets", "get.yml"]⟩
    let called : FilePath := ⟨.relative, ["widgets", "get", "draft.yml"]⟩
    named ≠ called ∧
      Fragment.filesOf twoDrafts releasesCatalog.root releasesCatalog.base ⟨"get", "/api/widgets"⟩
        "draft" = [named, called] ∧
      Fragment.read twoDrafts named = .ok [(.str "id", .str "A")] ∧
      releasesCatalog.freshAnswer twoDrafts (.resolve (.inr ⟨"get", "/api/widgets"⟩) (some "draft")) ≠
        .ok (.fields [(.str "id", .str "A")]) := by
  intro named called
  have hfiles : Fragment.filesOf twoDrafts releasesCatalog.root releasesCatalog.base
      ⟨"get", "/api/widgets"⟩ "draft" = [named, called] := by
    rw [filesOf_twoDrafts]
    decide
  obtain ⟨-, hnamed, -, hcalled⟩ := read_twoDrafts
  refine ⟨by decide, hfiles, hnamed, ?_⟩
  have hcounts : (Fragment.filesOf twoDrafts releasesCatalog.root releasesCatalog.base
      ⟨"get", "/api/widgets"⟩ (versionOrDraft (some "draft"))).getLast?.or
      (Fragment.filesOf twoDrafts releasesCatalog.root releasesCatalog.base
        ⟨"get", "/api/widgets"⟩ draft).getLast? = some called := by
    rw [versionOrDraft, if_neg (by decide), hfiles]
    rfl
  obtain ⟨content, hcontent, hanswer⟩ := Catalog.freshAnswer_of_last
    (rfl : releasesCatalog = Catalog.make (FilePath.ofText ".") "/api") sound_twoDrafts
    operationsLoad_twoDrafts hcounts
  rw [hanswer, ← Except.ok.inj (hcalled.symm.trans hcontent)]
  simp

end ApiTree
