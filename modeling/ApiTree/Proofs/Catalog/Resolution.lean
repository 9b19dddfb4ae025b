import ApiTree.Proofs.Catalog.Origin
import ApiTree.Proofs.Catalog.Publish

/-!
# What an operation resolves to

The files of a tree alone say what an operation resolves to: the last file that is the operation in
the version that is asked for, or else the last one that is its draft. Without either there is a
fault, which tells whether the tree has the operation at all, and lists the operations that it has
(`Catalog.resolve_of_tree`).
-/

set_option autoImplicit false

namespace ApiTree

/-- The files of a tree that are the operation `k` in the version `v`, in order. A file of an
operation that is in no version is the draft. -/
def Fragment.filesOf (d : Disk) (root : FilePath) (base : String) (k : OperationKey) (v : String) :
    List FilePath :=
  (discover d root).filter fun p =>
    (Place.ofPath root p base).operation = some k &&
      versionOrDraft (Place.ofPath root p base).version = v

/-- Each file of a tree that is an operation holds a mapping that can be read. -/
def Fragment.OperationsLoad (d : Disk) (root : FilePath) (base : String) : Prop :=
  ∀ p ∈ discover d root, (Place.ofPath root p base).kind.isOperation = true →
    ∃ content, read d p = .ok content

/-- The first operation comes before the second, by path and then by method. -/
def OperationKey.Precedes (k l : OperationKey) : Prop :=
  k.path < l.path ∨ k.path = l.path ∧ k.method < l.method

theorem OperationKey.Precedes.ne {k l : OperationKey} (h : k.Precedes l) : k ≠ l := by
  rintro rfl
  rcases h with hlt | ⟨-, hlt⟩
  · exact lt_irrefl _ hlt
  · exact lt_irrefl _ hlt

theorem OperationKey.Precedes.asymm {k l : OperationKey} (h : k.Precedes l) : ¬ l.Precedes k := by
  rintro (hlt' | ⟨hpath', hlt'⟩) <;> rcases h with hlt | ⟨hpath, hlt⟩
  · exact lt_asymm hlt hlt'
  · exact hlt'.ne' hpath
  · exact hlt.ne' hpath'
  · exact lt_asymm hlt hlt'

instance : Std.Irrefl OperationKey.Precedes := ⟨fun _ h => h.ne rfl⟩

instance : Std.Antisymm OperationKey.Precedes := ⟨fun _ _ h h' => absurd h' h.asymm⟩

theorem Fragment.mem_filesOf {d : Disk} {root : FilePath} {base : String} {k : OperationKey}
    {v : String} {p : FilePath} :
    p ∈ filesOf d root base k v ↔ p ∈ discover d root ∧
      (Place.ofPath root p base).operation = some k ∧
        versionOrDraft (Place.ofPath root p base).version = v := by
  rw [filesOf, List.mem_filter, Bool.and_eq_true, decide_eq_true_eq, decide_eq_true_eq]

theorem Fragment.filesOf_ne_nil_iff {d : Disk} {root : FilePath} {base : String} {k : OperationKey}
    {v : String} : filesOf d root base k v ≠ [] ↔ ∃ p ∈ discover d root,
      (Place.ofPath root p base).operation = some k ∧
        versionOrDraft (Place.ofPath root p base).version = v := by
  rw [ne_eq, List.eq_nil_iff_forall_not_mem, not_forall_not]
  exact exists_congr fun p => mem_filesOf

namespace OperationTable

variable {d : Disk} {root : FilePath} {base : String} {k : OperationKey} {v : String}

theorem mem_files_iff {p : FilePath} : p ∈ files d root base ↔
    p ∈ Fragment.discover d root ∧ (Place.ofPath root p base).kind.isOperation = true :=
  List.mem_filter

/-- The file that counts is the last one of the tree that is the operation in the version. -/
theorem origin?_files (hd : d.Sound) (hroot : root.IsProper) :
    origin? root base k (files d root base) v = (Fragment.filesOf d root base k v).getLast? := by
  rw [origin?, files, Fragment.filesOf, List.filter_filter]
  refine congrArg List.getLast? (List.filter_congr fun p hp => ?_)
  rw [isFileOf, Fragment.ofText_render_of_mem hd hroot hp]
  -- what has an operation is a file of one
  cases hkey : (Place.ofPath root p base).operation with
  | none => rfl
  | some l => rw [Place.ofPath, Place.isOperation_of_operation hkey, Bool.and_true]

theorem readable_files (hd : d.Sound) (hroot : root.IsProper)
    (hload : Fragment.OperationsLoad d root base) :
    Fragment.Readable d (files d root base) := by
  intro p hp
  obtain ⟨hmem, hkind⟩ := mem_files_iff.mp hp
  rw [Fragment.ofText_render_of_mem hd hroot hmem]
  exact hload p hmem hkind

/-! ## What a table holds -/

/-- A table has the operations of the files that are put into it. -/
theorem mem_keys_foldl {paths : List FilePath} (hload : Fragment.Readable d paths)
    (table : OperationTable) :
    k ∈ Entries.keys (paths.foldl (addFile d root base) table) ↔
      k ∈ Entries.keys table ∨
        ∃ p ∈ paths, (Place.ofPath root (FilePath.ofText p.render) base).operation = some k := by
  induction paths generalizing table with
  | nil => simp
  | cons p paths ih =>
    obtain ⟨content, hcontent⟩ := hload p List.mem_cons_self
    rw [List.foldl_cons, ih fun q hq => hload q (List.mem_cons_of_mem p hq)]
    have hadded : k ∈ Entries.keys (addFile d root base table p) ↔
        (Place.ofPath root (FilePath.ofText p.render) base).operation = some k ∨
          k ∈ Entries.keys table := by
      rw [addFile, hcontent]
      cases (Place.ofPath root (FilePath.ofText p.render) base).operation with
      | none => simp
      | some l =>
        refine Entries.mem_keys_put.trans (or_congr_left ?_)
        rw [Option.some.injEq, eq_comm]
    rw [hadded, List.exists_mem_cons_iff, or_comm (a := _ = some k), or_assoc]

/-- The operations of a tree are those of its files. -/
theorem mem_keys_build {table : OperationTable} (hd : d.Sound) (hroot : root.IsProper)
    (hload : Fragment.OperationsLoad d root base)
    (h : (build d root base).collect.1 = .ok table) :
    k ∈ Entries.keys table ↔
      ∃ p ∈ Fragment.discover d root, (Place.ofPath root p base).operation = some k := by
  have hreadable := readable_files hd hroot hload
  obtain rfl : _ = table := Except.ok.inj ((build_eq hreadable).symm.trans h)
  rw [mem_keys_foldl hreadable]
  constructor
  · rintro (hk | ⟨p, hp, hkey⟩)
    · cases hk
    · have hmem := (mem_files_iff.mp hp).1
      rw [Fragment.ofText_render_of_mem hd hroot hmem] at hkey
      exact ⟨p, hmem, hkey⟩
  · rintro ⟨p, hp, hkey⟩
    refine .inr ⟨p, mem_files_iff.mpr ⟨hp, Place.isOperation_of_operation hkey⟩, ?_⟩
    rw [Fragment.ofText_render_of_mem hd hroot hp]
    exact hkey

/-- The operations of a table that holds each once are in strict order. -/
theorem pairwise_precedes {table : OperationTable} (h : table.operations.Nodup) :
    table.operations.Pairwise OperationKey.Precedes := by
  refine ((pairwise_operations table).and h).imp fun {k l} hkl => ?_
  obtain ⟨hbefore, hne⟩ := hkl
  rcases before_iff.mp hbefore with hlt | ⟨hpath, hmethod⟩
  · exact .inl hlt
  · refine .inr ⟨hpath, lt_of_le_of_ne hmethod fun heq => hne ?_⟩
    rw [OperationKey.mk.injEq]
    exact ⟨heq, hpath⟩

/-- A table holds the versions of an operation once. -/
theorem nodup_versions_of_build {table : OperationTable}
    (h : (build d root base).collect.1 = .ok table) {fragments : List (String × Fields)}
    (hfragments : Entries.get? k table = some fragments) : (Entries.keys fragments).Nodup := by
  have honce : ∀ e ∈ table, (Entries.keys e.2).Nodup := by
    refine build_induction (P := fun t => ∀ e ∈ t, (Entries.keys e.2).Nodup)
      (fun e he => by cases he) (fun t key version content ht _ e he => ?_) h
    rcases Entries.mem_put he with rfl | he
    · refine Entries.nodup_keys_put version content ?_
      cases hkey : Entries.get? key t with
      | none => exact List.nodup_nil
      | some old => exact ht (key, old) (Entries.mem_of_get? hkey)
    · exact ht e he
  exact honce (k, fragments) (Entries.mem_of_get? hfragments)

/-- An operation of a tree has the versions of its files. -/
theorem mem_versions_of_build {table : OperationTable} (hd : d.Sound) (hroot : root.IsProper)
    (hload : Fragment.OperationsLoad d root base)
    (h : (build d root base).collect.1 = .ok table) {fragments : List (String × Fields)}
    (hfragments : Entries.get? k table = some fragments) :
    v ∈ Entries.keys fragments ↔ Fragment.filesOf d root base k v ≠ [] := by
  have hreadable := readable_files hd hroot hload
  obtain rfl : _ = table := Except.ok.inj ((build_eq hreadable).symm.trans h)
  have hlookup (content : Fields) :
      ((files d root base).foldl (addFile d root base) []).lookup k v = some content ↔ _ :=
    lookup_foldl hreadable [] k v
  simp only [lookup, hfragments, Option.bind_some, origin?_files hd hroot] at hlookup
  constructor
  · intro hv hnil
    obtain ⟨content, hcontent⟩ := Entries.exists_get?_of_mem_keys hv
    rcases (hlookup content).mp hcontent with ⟨p, hp, -⟩ | ⟨-, hnone⟩
    · rw [hnil] at hp
      cases hp
    · cases hnone
  · intro hne
    obtain ⟨p, hp⟩ := List.getLast?_isSome.mpr hne |> Option.isSome_iff_exists.mp
    have hmem := Fragment.mem_filesOf.mp (List.mem_of_getLast? hp)
    obtain ⟨content, hcontent⟩ := hload p hmem.1 (Place.isOperation_of_operation hmem.2.1)
    refine Entries.mem_keys_of_get? ((hlookup content).mpr (.inl ⟨p, hp, ?_⟩))
    rw [Fragment.ofText_render_of_mem hd hroot hmem.1]
    exact hcontent

/-- An operation that resolves in a tree does so to what is in a file that counts. -/
theorem resolve_build_eq {table : OperationTable} (hd : d.Sound) (hroot : root.IsProper)
    (hload : Fragment.OperationsLoad d root base)
    (h : (build d root base).collect.1 = .ok table) {version : Option String} {p : FilePath}
    (hp : (Fragment.filesOf d root base k (versionOrDraft version)).getLast?.or
      (Fragment.filesOf d root base k draft).getLast? = some p) :
    ∃ content, Fragment.read d p = .ok content ∧ table.resolve k version = .ok content := by
  have horigin : resolvedOrigin? root base k (files d root base) version = some p := by
    rw [resolvedOrigin?, origin?_files hd hroot, origin?_files hd hroot]
    exact hp
  obtain ⟨hmem, hkind⟩ := mem_files_iff.mp (resolvedOrigin?_mem horigin)
  obtain ⟨content, hcontent⟩ := hload p hmem hkind
  refine ⟨content, hcontent, (resolve_build_iff (readable_files hd hroot hload) h).mpr
    ⟨p, horigin, ?_⟩⟩
  rw [Fragment.ofText_render_of_mem hd hroot hmem]
  exact hcontent

/-- Without a file for the version and without a draft an operation does not resolve. -/
theorem resolve_build_eq_error {table : OperationTable} (hd : d.Sound) (hroot : root.IsProper)
    (hload : Fragment.OperationsLoad d root base)
    (h : (build d root base).collect.1 = .ok table) {version : Option String}
    (hnone : (Fragment.filesOf d root base k (versionOrDraft version)).getLast?.or
      (Fragment.filesOf d root base k draft).getLast? = none) :
    ∃ fault, table.resolve k version = .error fault := by
  cases hresolve : table.resolve k version with
  | error fault => exact ⟨fault, rfl⟩
  | ok content =>
    obtain ⟨p, hp, -⟩ := (resolve_build_iff (readable_files hd hroot hload) h).mp hresolve
    rw [resolvedOrigin?, origin?_files hd hroot, origin?_files hd hroot, hnone] at hp
    cases hp

end OperationTable

open OperationTable

section Catalog

variable {c : Catalog} {rootText base : String} {draftOnly : Bool}
  {exclusions : Option (List String)} {d : Disk} {table : OperationTable}

/-- What a catalog that was just made answers is what the table of the tree resolves to. -/
theorem Catalog.freshAnswer_of_table
    (hc : c = Catalog.make (FilePath.ofText rootText) base draftOnly exclusions)
    (htable : (build d c.root c.base).collect.1 = .ok table) (k : OperationKey)
    (version : Option String) :
    c.freshAnswer d (.resolve (.inr k) version) = (table.resolve k version).map Answer.fields := by
  have hforget : c.forget = c := by rw [hc]; rfl
  rw [c.freshAnswer_resolve hforget, Catalog.readTable, htable]
  rfl

/-- What is in the last file that counts is the answer. -/
theorem Catalog.freshAnswer_of_last
    (hc : c = Catalog.make (FilePath.ofText rootText) base draftOnly exclusions) (hd : d.Sound)
    (hload : Fragment.OperationsLoad d c.root c.base) {k : OperationKey} {version : Option String}
    {p : FilePath}
    (hp : (Fragment.filesOf d c.root c.base k (versionOrDraft version)).getLast?.or
      (Fragment.filesOf d c.root c.base k draft).getLast? = some p) :
    ∃ content, Fragment.read d p = .ok content ∧
      c.freshAnswer d (.resolve (.inr k) version) = .ok (.fields content) := by
  have hroot : c.root.IsProper := by rw [hc]; exact FilePath.isProper_ofText rootText
  obtain ⟨table, htable, -⟩ := exists_build (readable_files hd hroot hload)
  obtain ⟨content, hcontent, hresolve⟩ := resolve_build_eq hd hroot hload htable hp
  exact ⟨content, hcontent, by rw [freshAnswer_of_table hc htable, hresolve]; rfl⟩

end Catalog

/-- An operation of a tree whose operations load resolves to what is in the last file that is the
operation in the version, or else in the last one that is its draft. Without either the fault is that
the version is unknown, if the tree has the operation, and else that the operation is. Both list the
operations of the tree, each once, by path and then by method. -/
theorem Catalog.resolve_of_tree {c : Catalog} {rootText base : String} {draftOnly : Bool}
    {exclusions : Option (List String)}
    (hc : c = Catalog.make (FilePath.ofText rootText) base draftOnly exclusions) {d : Disk}
    (hd : d.Sound) (hload : Fragment.OperationsLoad d c.root c.base) (k : OperationKey)
    (version : Option String) :
    let files := Fragment.filesOf d c.root c.base k
    let v := versionOrDraft version
    let last? := (files v).getLast?.or (files draft).getLast?
    let answer := c.freshAnswer d (.resolve (.inr k) version)
    ∃ operations : List OperationKey, operations.Pairwise OperationKey.Precedes ∧
      (∀ l, l ∈ operations ↔
        ∃ p ∈ Fragment.discover d c.root, (Place.ofPath c.root p c.base).operation = some l) ∧
      (∀ p, last? = some p → ∃ content, Fragment.read d p = .ok content ∧
        answer = .ok (.fields content)) ∧
      (last? = none → k ∉ operations →
        answer = .error (.unknownOperation k.slug v (operations.map (·.slug)))) ∧
      (last? = none → k ∈ operations →
        ∃ defined : List String, defined.Pairwise (· < ·) ∧ (∀ w, w ∈ defined ↔ files w ≠ []) ∧
          answer = .error (.unknownVersion k.slug v defined (operations.map (·.slug)))) := by
  intro files v last? answer
  have hroot : c.root.IsProper := by rw [hc]; exact FilePath.isProper_ofText rootText
  obtain ⟨table, htable, hof⟩ := exists_build (readable_files hd hroot hload)
  have hanswer : answer = (table.resolve k version).map Answer.fields :=
    Catalog.freshAnswer_of_table hc htable k version
  refine ⟨table.operations, pairwise_precedes hof.nodup_operations,
    fun l => mem_operations.trans (mem_keys_build hd hroot hload htable),
    fun p hp => Catalog.freshAnswer_of_last hc hd hload hp, fun _ hk => ?_, fun hnone hk => ?_⟩
  · rw [mem_operations] at hk
    rw [hanswer, resolve, Entries.get?_eq_none_iff.mpr hk]
    rfl
  · obtain ⟨fragments, hfragments⟩ := Entries.exists_get?_of_mem_keys (mem_operations.mp hk)
    obtain ⟨fault, hfault⟩ := resolve_build_eq_error hd hroot hload htable hnone
    refine ⟨(Entries.keys fragments).mergeSort (· ≤ ·),
      pairwise_lt_mergeSort (nodup_versions_of_build htable hfragments), fun w => ?_, ?_⟩
    · rw [List.mem_mergeSort]
      exact mem_versions_of_build hd hroot hload htable hfragments
    · rw [hanswer]
      rw [resolve, hfragments] at hfault ⊢
      simp only at hfault ⊢
      split at hfault
      · cases hfault
      · rfl

/-! ## A tree with two drafts of one operation -/

/-- A tree in which one operation has two drafts and a dated version, and another no draft. -/
def twoDrafts : Disk :=
  ⟨["w"],
    [(["w", "gadgets"], .directory),
      (["w", "gadgets", "get"], .directory),
      (["w", "gadgets", "get", "1.yml"], .file "\x7b\x7d".toUTF8),
      (["w", "widgets"], .directory),
      (["w", "widgets", "get.yml"], .file "id: A\n".toUTF8),
      (["w", "widgets", "get"], .directory),
      (["w", "widgets", "get", "1.yml"], .file "\x7b\x7d".toUTF8),
      (["w", "widgets", "get", "draft.yml"], .file "id: B\n".toUTF8)]⟩

theorem sound_twoDrafts : twoDrafts.Sound := by
  refine ⟨by decide, by decide, ?_, ?_⟩
  · simp only [twoDrafts, List.forall_mem_cons]
    exact ⟨rfl, rfl, rfl, rfl, rfl, rfl, rfl, rfl, fun _ h => by cases h⟩
  · have hbelow : ∀ e ∈ twoDrafts.entries, ¬ e.1 <+: twoDrafts.home := by decide
    exact fun location content h => hbelow (location, .file content) h

theorem discover_twoDrafts : Fragment.discover twoDrafts releasesCatalog.root =
    [⟨.relative, ["gadgets", "get", "1.yml"]⟩, ⟨.relative, ["widgets", "get.yml"]⟩,
     ⟨.relative, ["widgets", "get", "1.yml"]⟩, ⟨.relative, ["widgets", "get", "draft.yml"]⟩] :=
  Fragment.discover_eq_of_pairwise rfl rfl (by decide)

theorem read_twoDrafts :
    Fragment.read twoDrafts ⟨.relative, ["gadgets", "get", "1.yml"]⟩ = .ok [] ∧
      Fragment.read twoDrafts ⟨.relative, ["widgets", "get.yml"]⟩ = .ok [(.str "id", .str "A")] ∧
      Fragment.read twoDrafts ⟨.relative, ["widgets", "get", "1.yml"]⟩ = .ok [] ∧
      Fragment.read twoDrafts ⟨.relative, ["widgets", "get", "draft.yml"]⟩ =
        .ok [(.str "id", .str "B")] :=
  ⟨Fragment.read_of_braces rfl,
    Fragment.read_of_text "id: A\n" rfl (Fragment.decode_toUTF8 rfl) (by decide +kernel),
    Fragment.read_of_braces rfl,
    Fragment.read_of_text "id: B\n" rfl (Fragment.decode_toUTF8 rfl) (by decide +kernel)⟩

theorem operationsLoad_twoDrafts :
    Fragment.OperationsLoad twoDrafts releasesCatalog.root releasesCatalog.base := by
  obtain ⟨hgadgets, hdraft, hdated, hother⟩ := read_twoDrafts
  intro p hp _
  rw [discover_twoDrafts] at hp
  simp only [List.mem_cons, List.not_mem_nil, or_false] at hp
  rcases hp with rfl | rfl | rfl | rfl
  · exact ⟨_, hgadgets⟩
  · exact ⟨_, hdraft⟩
  · exact ⟨_, hdated⟩
  · exact ⟨_, hother⟩

theorem filesOf_twoDrafts (k : OperationKey) (v : String) :
    Fragment.filesOf twoDrafts releasesCatalog.root releasesCatalog.base k v =
      (([⟨.relative, ["gadgets", "get", "1.yml"]⟩, ⟨.relative, ["widgets", "get.yml"]⟩,
        ⟨.relative, ["widgets", "get", "1.yml"]⟩,
        ⟨.relative, ["widgets", "get", "draft.yml"]⟩] : List FilePath).filter fun p =>
          (Place.ofPath releasesCatalog.root p releasesCatalog.base).operation = some k &&
            versionOrDraft (Place.ofPath releasesCatalog.root p releasesCatalog.base).version = v) := by
  rw [Fragment.filesOf, discover_twoDrafts]

/-- Which operation in which version each of the files is. -/
theorem places_twoDrafts :
    (Fragment.discover twoDrafts releasesCatalog.root).map (fun p =>
        let place := Place.ofPath releasesCatalog.root p releasesCatalog.base
        (place.operation, versionOrDraft place.version)) =
      [(some ⟨"get", "/api/gadgets"⟩, "1"), (some ⟨"get", "/api/widgets"⟩, "draft"),
        (some ⟨"get", "/api/widgets"⟩, "1"), (some ⟨"get", "/api/widgets"⟩, "draft")] := by
  rw [discover_twoDrafts]
  decide

/-- The dated version resolves to its file and any other to the last of the two drafts. Without a
draft the other versions are unknown, and an operation without files is unknown itself. -/
theorem resolve_of_tree_twoDrafts :
    let answer (method path : String) (version : Option String) :=
      releasesCatalog.freshAnswer twoDrafts (.resolve (.inr ⟨method, path⟩) version)
    answer "get" "/api/widgets" (some "1") = .ok (.fields []) ∧
      answer "get" "/api/widgets" (some "2") = .ok (.fields [(.str "id", .str "B")]) ∧
      answer "get" "/api/gadgets" none = .error (.unknownVersion "/api/gadgets/get" "draft" ["1"]
        ["/api/gadgets/get", "/api/widgets/get"]) ∧
      answer "put" "/api/widgets" (some "") = .error (.unknownOperation "/api/widgets/put" "draft"
        ["/api/gadgets/get", "/api/widgets/get"]) := by
  intro answer
  have hc : releasesCatalog = Catalog.make (FilePath.ofText ".") "/api" := rfl
  have hresolve := Catalog.resolve_of_tree hc sound_twoDrafts operationsLoad_twoDrafts
  obtain ⟨-, -, hdated, hother⟩ := read_twoDrafts
  -- the operations are those of the files, and their order leaves no choice
  have hknown {operations : List OperationKey} (h : operations.Pairwise OperationKey.Precedes)
      (hmem : ∀ l, l ∈ operations ↔ ∃ p ∈ Fragment.discover twoDrafts releasesCatalog.root,
        (Place.ofPath releasesCatalog.root p releasesCatalog.base).operation = some l) :
      operations = [⟨"get", "/api/gadgets"⟩, ⟨"get", "/api/widgets"⟩] := by
    refine h.eq_of_mem_iff (List.pairwise_pair.mpr (.inl (by decide))) fun l => ?_
    have hplaces : some l ∈ (_ : List (Option OperationKey × String)).map Prod.fst ↔ _ :=
      iff_of_eq (congrArg (some l ∈ List.map Prod.fst ·) places_twoDrafts)
    rw [List.map_map, List.mem_map] at hplaces
    rw [hmem]
    exact hplaces.trans (by simp)
  refine ⟨?_, ?_, ?_, ?_⟩
  · obtain ⟨-, -, -, hfound, -⟩ := hresolve ⟨"get", "/api/widgets"⟩ (some "1")
    obtain ⟨content, hcontent, hanswer⟩ := hfound ⟨.relative, ["widgets", "get", "1.yml"]⟩
      (by rw [filesOf_twoDrafts, filesOf_twoDrafts]; decide)
    rw [← Except.ok.inj (hdated.symm.trans hcontent)] at hanswer
    exact hanswer
  · obtain ⟨-, -, -, hfound, -⟩ := hresolve ⟨"get", "/api/widgets"⟩ (some "2")
    obtain ⟨content, hcontent, hanswer⟩ := hfound ⟨.relative, ["widgets", "get", "draft.yml"]⟩
      (by rw [filesOf_twoDrafts, filesOf_twoDrafts]; decide)
    rw [← Except.ok.inj (hother.symm.trans hcontent)] at hanswer
    exact hanswer
  · obtain ⟨operations, hsorted, hmem, -, -, hversion⟩ := hresolve ⟨"get", "/api/gadgets"⟩ none
    rw [hknown hsorted hmem] at hversion
    obtain ⟨defined, hdefined, hiff, hanswer⟩ :=
      hversion (by rw [filesOf_twoDrafts, filesOf_twoDrafts]; decide) (by decide)
    have hone : defined = ["1"] := by
      refine hdefined.eq_of_mem_iff (List.pairwise_singleton _ _) fun w => ?_
      rw [hiff, Fragment.filesOf_ne_nil_iff]
      have hplaces := iff_of_eq (congrArg ((some (⟨"get", "/api/gadgets"⟩ : OperationKey), w) ∈ ·)
        places_twoDrafts)
      rw [List.mem_map] at hplaces
      simpa using hplaces
    rw [hone] at hanswer
    exact hanswer
  · obtain ⟨operations, hsorted, hmem, -, hoperation, -⟩ :=
      hresolve ⟨"put", "/api/widgets"⟩ (some "")
    rw [hknown hsorted hmem] at hoperation
    exact hoperation (by rw [filesOf_twoDrafts, filesOf_twoDrafts]; decide) (by decide)

end ApiTree
