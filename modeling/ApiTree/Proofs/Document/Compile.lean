import ApiTree.Proofs.Document.Static
import ApiTree.Proofs.Fragment.Transform
import ApiTree.Proofs.Reference.Merge

/-!
# Expanding each file or the whole

A compiled document is merged from files each of which has its shorthand names expanded first. The
same files can be merged as they are and the names expanded last. The two documents agree as long as
no file puts a name where a mapping was, or a mapping where a name was.
-/

set_option autoImplicit false

namespace ApiTree

open Value Reference

/-! ## Loading -/

/-- Loading a file gives what it holds with what its place says, whatever the log. -/
theorem Fragment.fst_exec_load (disk : Disk) (root : FilePath) (base path : String)
    (lines : List LogLine) :
    (exec (Fragment.load disk root base path) lines).1 =
      (Fragment.read disk (FilePath.ofText path)).map fun content =>
        let place := Place.ofPath root (FilePath.ofText path) base
        ⟨path, content, place.kind, place.component, place.operation, place.version⟩ := by
  rw [Fragment.load, Fragment.readLogged]
  cases Fragment.read disk (FilePath.ofText path) with
  | ok content => rfl
  | error fault => cases fault <;> rfl

namespace Document

section

variable (disk : Disk) (root : FilePath) (base : String)

/-! ## Merging before and after expansion -/

/-- What a file contributes before its names are expanded. -/
def unexpandedContribution (path : String) : Except Fault Fields := do
  (← (Fragment.load disk root base path).collect.1).unexpanded.mapError .failed

/-- What a file contributes to the document, without the log. -/
def expandedContribution (path : String) : Except Fault Fields := do
  (expandEntries [] (← unexpandedContribution disk root base path)).mapError .failed

/-- What the files contribute, merged in their order. -/
def mergeEach (contribution : String → Except Fault Fields) (paths : List String) :
    Except Fault Fields :=
  paths.foldlM (fun document path => do return mergeEntries document (← contribution path)) []

/-- What the files contribute before their names are expanded, merged. -/
def mergeUnexpanded (paths : List String) : Except Fault Fields :=
  mergeEach (unexpandedContribution disk root base) paths

/-- The document of the files if the names are expanded in what they are merged to. -/
def expandedLast (paths : List String) : Except Fault Fields := do
  let document ← mergeUnexpanded disk root base paths
  withoutNotes <$> (expandEntries [] document).mapError .failed

theorem fst_exec_lift {α : Type} (r : Except Failure α) (lines : List LogLine) :
    (exec (Logged.lift r) lines).1 = r.mapError .failed := by
  cases r <;> rfl

theorem fst_exec_contribution (path : String) (lines : List LogLine) :
    (exec (contribution disk root base path) lines).1 =
      expandedContribution disk root base path := by
  have hload (t : List LogLine) : (exec (Fragment.load disk root base path) t).1 =
      (Fragment.load disk root base path).collect.1 := by
    rw [collect_eq_exec, Fragment.fst_exec_load, Fragment.fst_exec_load]
  rw [contribution]
  refine (fst_exec_bind rfl fun _ t =>
    fst_exec_bind (hload t) fun f t => fst_exec_lift f.transform t).trans ?_
  rw [expandedContribution, unexpandedContribution]
  -- a fragment that cannot be made a part of the document fails in both ways
  cases (Fragment.load disk root base path).collect.1 with
  | error fault => rfl
  | ok f =>
    change (f.unexpanded >>= expandEntries []).mapError Fault.failed =
      f.unexpanded.mapError Fault.failed >>= fun data =>
        (expandEntries [] data).mapError Fault.failed
    cases f.unexpanded <;> rfl

theorem collect_mergeFiles (paths : List String) :
    (mergeFiles disk root base paths).collect.1 =
      mergeEach (expandedContribution disk root base) paths :=
  fst_exec_foldlM (fun _ path lines =>
    fst_exec_bind (fst_exec_contribution disk root base path lines) fun _ _ => rfl) paths [] []

end

/-! ## Notes -/

theorem withoutNotes_cons (e : Value × Value) (entries : Fields) :
    withoutNotes (e :: entries) =
      if Text.startsWith e.1.text "_" then withoutNotes entries
      else e :: withoutNotes entries := by
  rw [withoutNotes, List.filter_cons]
  cases Text.startsWith e.1.text "_" <;> rfl

theorem get?_withoutNotes {k : Value} (hk : Text.startsWith k.text "_" = false)
    (entries : Fields) : Entries.get? k (withoutNotes entries) = Entries.get? k entries := by
  induction entries with
  | nil => rfl
  | cons e entries ih =>
    rw [withoutNotes_cons, Entries.get?]
    by_cases hkey : e.1 = k
    · rw [if_pos hkey, hkey, hk, if_neg Bool.false_ne_true, Entries.get?, if_pos hkey]
    · rw [if_neg hkey, ← ih]
      split
      · rfl
      · rw [Entries.get?, if_neg hkey]

theorem withoutNotes_put (k v : Value) (entries : Fields) :
    withoutNotes (Entries.put k v entries) =
      if Text.startsWith k.text "_" then withoutNotes entries
      else Entries.put k v (withoutNotes entries) := by
  induction entries with
  | nil => exact withoutNotes_cons (k, v) []
  | cons e entries ih =>
    rw [Entries.put, withoutNotes_cons]
    by_cases hkey : e.1 = k
    · subst hkey
      rw [if_pos rfl, withoutNotes_cons]
      split
      · rfl
      · rw [Entries.put, if_pos rfl]
    · rw [if_neg hkey, withoutNotes_cons, ih]
      -- the entry before the key is kept or left out on both sides
      by_cases he : Text.startsWith e.1.text "_" = true
      · rw [if_pos he, if_pos he]
      · rw [if_neg he, if_neg he, Entries.put, if_neg hkey]
        split <;> rfl

theorem withoutNotes_mergeEntries (base upper : Fields) :
    withoutNotes (mergeEntries base upper) =
      mergeEntries (withoutNotes base) (withoutNotes upper) := by
  induction upper generalizing base with
  | nil => rfl
  | cons e upper ih =>
    rw [mergeEntries, ih, withoutNotes_put, withoutNotes_cons]
    cases hk : Text.startsWith e.1.text "_" with
    | true => rw [if_pos rfl, if_pos rfl]
    | false =>
      rw [if_neg Bool.false_ne_true, if_neg Bool.false_ne_true, mergeEntries,
        get?_withoutNotes hk]

theorem withoutNotes_mapTextsOfEntries (f : List String → String → Value) (path : List String)
    (entries : Fields) :
    withoutNotes (mapTextsOfEntries f path entries) =
      mapTextsOfEntries f path (withoutNotes entries) := by
  induction entries with
  | nil => rfl
  | cons e entries ih =>
    rw [mapTextsOfEntries, withoutNotes_cons, withoutNotes_cons, ih]
    split
    · rfl
    · rw [mapTextsOfEntries]

theorem keysOnce_withoutNotes {entries : Fields} (h : KeysOnce (.map entries)) :
    KeysOnce (.map (withoutNotes entries)) := h.sublist List.filter_sublist

/-! ## Files that clash -/

section

variable (disk : Disk) (root : FilePath) (base : String)

/-- A file puts a name where the files before it have put a mapping, or a mapping where they have
put a name, its notes and theirs aside. -/
def Clashes (before : List String) (path : String) : Prop :=
  ∃ document data, mergeUnexpanded disk root base before = .ok document ∧
    unexpandedContribution disk root base path = .ok data ∧
    Clash [] (.map (withoutNotes document)) (.map (withoutNotes data))

/-- None of the files clashes with those before it. -/
def ClashFree (paths : List String) : Prop :=
  ∀ before path after, paths = before ++ path :: after → ¬ Clashes disk root base before path

end

section

variable {disk : Disk} {root : FilePath} {base : String} {before : List String} {path : String}

theorem ClashFree.of_concat (h : ClashFree disk root base (before ++ [path])) :
    ClashFree disk root base before ∧ ¬ Clashes disk root base before path := by
  refine ⟨fun first p after hbefore => h first p (after ++ [path]) ?_, h before path [] rfl⟩
  rw [hbefore, List.append_assoc, List.cons_append]

theorem mergeEach_concat (contribution : String → Except Fault Fields) (before : List String)
    (path : String) : mergeEach contribution (before ++ [path]) =
      mergeEach contribution before >>= fun merged =>
        contribution path >>= fun data => pure (mergeEntries merged data) := by
  rw [mergeEach, List.foldlM_append]
  simp only [List.foldlM_cons, List.foldlM_nil, bind_pure]
  rfl

theorem mergeEach_concat_eq_ok {contribution : String → Except Fault Fields}
    (before : List String) (path : String) {document : Fields} :
    mergeEach contribution (before ++ [path]) = .ok document ↔
      ∃ merged data, mergeEach contribution before = .ok merged ∧ contribution path = .ok data ∧
        document = mergeEntries merged data := by
  rw [mergeEach_concat]
  cases mergeEach contribution before with
  | error fault => simp [bind, Except.bind]
  | ok merged =>
    cases contribution path with
    | error fault => simp [bind, Except.bind]
    | ok data => simp [bind, Except.bind, pure, Except.pure, eq_comm]

/-- What files are merged to depends on what each of them contributes. -/
theorem mergeEach_congr {contribution other : String → Except Fault Fields} {paths : List String}
    (h : ∀ path ∈ paths, other path = contribution path) :
    mergeEach other paths = mergeEach contribution paths := by
  induction paths using List.reverseRecOn with
  | nil => rfl
  | append_singleton before path ih =>
    rw [List.forall_mem_append, List.forall_mem_singleton] at h
    rw [mergeEach_concat, mergeEach_concat, ih h.1, h.2]

/-- A file contributes what its names are expanded to. -/
theorem expandedContribution_eq_ok {data : Fields} :
    expandedContribution disk root base path = .ok data ↔
      ∃ plain, unexpandedContribution disk root base path = .ok plain ∧
        expandEntries [] plain = .ok data := by
  rw [expandedContribution]
  cases unexpandedContribution disk root base path with
  | error fault => simp [bind, Except.bind]
  | ok plain =>
    refine mapError_eq_ok.trans ⟨fun h => ⟨plain, rfl, h⟩, ?_⟩
    rintro ⟨plain', hplain, h⟩
    rw [Except.ok.inj hplain]
    exact h

theorem unexpandedContribution_eq_ok {data : Fields} :
    unexpandedContribution disk root base path = .ok data ↔
      ∃ content, Fragment.read disk (FilePath.ofText path) = .ok content ∧
        let place := Place.ofPath root (FilePath.ofText path) base
        Fragment.unexpanded
          ⟨path, content, place.kind, place.component, place.operation, place.version⟩ =
            .ok data := by
  rw [unexpandedContribution, collect_eq_exec, Fragment.fst_exec_load]
  cases Fragment.read disk (FilePath.ofText path) with
  | error fault => simp [bind, Except.bind, Except.map]
  | ok content =>
    refine mapError_eq_ok.trans ⟨fun h => ⟨content, rfl, h⟩, ?_⟩
    rintro ⟨content', hcontent, h⟩
    rw [Except.ok.inj hcontent]
    exact h

theorem keysOnce_unexpandedContribution {data : Fields}
    (h : unexpandedContribution disk root base path = .ok data) : KeysOnce (.map data) := by
  obtain ⟨content, hread, hdata⟩ := unexpandedContribution_eq_ok.mp h
  exact Fragment.keysOnce_unexpanded hdata (Fragment.keysOnce_read hread)

/-- Files that can be expanded one by one can be expanded as a whole. -/
theorem exists_mergeUnexpanded {paths : List String} {document : Fields}
    (h : mergeEach (expandedContribution disk root base) paths = .ok document) :
    ∃ whole, mergeUnexpanded disk root base paths = .ok whole ∧ Expandable [] (.map whole) := by
  induction paths using List.reverseRecOn generalizing document with
  | nil => exact ⟨[], rfl, fun _ ht => by cases ht⟩
  | append_singleton before path ih =>
    obtain ⟨merged, data, hmerged, hdata, -⟩ := (mergeEach_concat_eq_ok _ _).mp h
    obtain ⟨whole, hwhole, hbefore⟩ := ih hmerged
    obtain ⟨plain, hplain, hexpand⟩ := expandedContribution_eq_ok.mp hdata
    obtain ⟨hpath, -⟩ := expandEntries_eq_ok_iff.mp hexpand
    exact ⟨mergeEntries whole plain,
      (mergeEach_concat_eq_ok _ _).mpr ⟨whole, plain, hwhole, hplain, rfl⟩, hbefore.merge hpath⟩

theorem expandable_withoutNotes {entries : Fields} (h : Expandable [] (.map entries)) :
    Expandable [] (.map (withoutNotes entries)) := by
  intro t ht
  obtain ⟨e, he, hte⟩ := mem_textsOfEntries.mp ht
  exact h t (mem_textsOfEntries.mpr ⟨e, List.mem_of_mem_filter he, hte⟩)

/-- What the files are merged to, expanded before or after, agrees but for the notes. -/
def Agrees (disk : Disk) (root : FilePath) (base : String) (paths : List String) : Prop :=
  ∃ document whole, mergeEach (expandedContribution disk root base) paths = .ok document ∧
    mergeUnexpanded disk root base paths = .ok whole ∧
    Agree (.map (withoutNotes document)) (expanded [] (.map (withoutNotes whole)))

/-- One more file keeps the agreement exactly if it does not clash with those before it. -/
theorem agrees_concat_iff {document : Fields}
    (hdocument : mergeEach (expandedContribution disk root base) (before ++ [path]) = .ok document)
    (hbefore : Agrees disk root base before) :
    Agrees disk root base (before ++ [path]) ↔ ¬ Clashes disk root base before path := by
  obtain ⟨merged, whole, hmerged, hwhole, hagree⟩ := hbefore
  obtain ⟨merged', data, hmerged', hdata, rfl⟩ := (mergeEach_concat_eq_ok _ _).mp hdocument
  obtain rfl := Except.ok.inj (hmerged.symm.trans hmerged')
  obtain ⟨plain, hplain, hexpand⟩ := expandedContribution_eq_ok.mp hdata
  obtain ⟨hpath, rfl⟩ := expandEntries_eq_ok_iff.mp hexpand
  have hconcat : mergeUnexpanded disk root base (before ++ [path]) =
      .ok (mergeEntries whole plain) :=
    (mergeEach_concat_eq_ok _ _).mpr ⟨whole, plain, hwhole, hplain, rfl⟩
  have hexpandable : Expandable [] (.map (withoutNotes whole)) := by
    obtain ⟨whole', hwhole', h⟩ := exists_mergeUnexpanded hmerged
    obtain rfl := Except.ok.inj (hwhole.symm.trans hwhole')
    exact expandable_withoutNotes h
  -- the parts before the file agree, so what is put on them does
  have hmerge : Agree (.map (withoutNotes (mergeEntries merged
        (mapTextsOfEntries replacement [] plain))))
      (merge (some (expanded [] (.map (withoutNotes whole))))
        (expanded [] (.map (withoutNotes plain)))) := by
    rw [withoutNotes_mergeEntries, withoutNotes_mapTextsOfEntries]
    exact hagree.merge (expanded [] (.map (withoutNotes plain)))
  have hiff := agree_expanded_merge_iff
    (keysOnce_withoutNotes (keysOnce_unexpandedContribution hplain)) hexpandable
    (expandable_withoutNotes hpath)
  have hclash : Clashes disk root base before path ↔
      Clash [] (.map (withoutNotes whole)) (.map (withoutNotes plain)) := by
    constructor
    · rintro ⟨whole', plain', hwhole', hplain', hclash⟩
      obtain rfl := Except.ok.inj (hwhole.symm.trans hwhole')
      obtain rfl := Except.ok.inj (hplain.symm.trans hplain')
      exact hclash
    · intro hclash
      exact ⟨whole, plain, hwhole, hplain, hclash⟩
  rw [hclash, ← hiff]
  have hwithout : merge (some (.map (withoutNotes whole))) (.map (withoutNotes plain)) =
      .map (withoutNotes (mergeEntries whole plain)) := by
    rw [withoutNotes_mergeEntries]
    rfl
  rw [hwithout]
  constructor
  · rintro ⟨document', whole', hdocument', hwhole', hagrees⟩
    obtain rfl := Except.ok.inj (hdocument.symm.trans hdocument')
    obtain rfl := Except.ok.inj (hconcat.symm.trans hwhole')
    exact hagrees.symm.trans hmerge
  · intro hagrees
    exact ⟨_, _, hdocument, hconcat, hmerge.trans hagrees.symm⟩

/-- Files of which none clashes with those before it agree. -/
theorem agrees_of_clashFree {paths : List String} {document : Fields}
    (hdocument : mergeEach (expandedContribution disk root base) paths = .ok document)
    (hfree : ClashFree disk root base paths) : Agrees disk root base paths := by
  induction paths using List.reverseRecOn generalizing document with
  | nil => exact ⟨[], [], rfl, rfl, .same _⟩
  | append_singleton before path ih =>
    obtain ⟨merged, data, hmerged, -, -⟩ := (mergeEach_concat_eq_ok _ _).mp hdocument
    obtain ⟨hbefore, hpath⟩ := hfree.of_concat
    exact (agrees_concat_iff hdocument (ih hmerged hbefore)).mpr hpath

/-- The names of files that can be expanded one by one can be expanded last. -/
theorem expandedLast_eq_ok {paths : List String} {document whole : Fields}
    (hdocument : mergeEach (expandedContribution disk root base) paths = .ok document)
    (hwhole : mergeUnexpanded disk root base paths = .ok whole) :
    expandedLast disk root base paths =
      .ok (mapTextsOfEntries replacement [] (withoutNotes whole)) := by
  obtain ⟨whole', hwhole', hexpandable⟩ := exists_mergeUnexpanded hdocument
  obtain rfl := Except.ok.inj (hwhole.symm.trans hwhole')
  have hexpand := expandEntries_eq_ok_iff.mpr ⟨hexpandable, rfl⟩
  rw [expandedLast, hwhole, ← withoutNotes_mapTextsOfEntries]
  change withoutNotes <$> (expandEntries [] whole).mapError Fault.failed = _
  rw [hexpand]
  rfl

/-- The document of files is what they are merged to without the notes. -/
theorem compile_eq_ok {exclusions paths : List String} {compilation : Compilation} :
    (compile disk root base exclusions paths).collect.1 = .ok compilation ↔
      ∃ document, mergeEach (expandedContribution disk root base) paths = .ok document ∧
        compilation = ⟨withoutNotes document,
          validate (.map (completed (withoutNotes document))) exclusions⟩ := by
  rw [collect_compile, collect_mergeFiles]
  cases mergeEach (expandedContribution disk root base) paths with
  | error fault => simp [Except.map]
  | ok document =>
    refine ⟨fun h => ⟨document, rfl, (Except.ok.inj h).symm⟩, ?_⟩
    rintro ⟨document', hdocument, rfl⟩
    rw [← Except.ok.inj hdocument]
    rfl

/-- Where files are compiled to a document, their names can be expanded last as well. The two
documents agree if no file clashes with those before it, and differ if the last file is the only one
that does. -/
theorem compile_expandedLast (exclusions paths : List String) (compilation : Compilation)
    (h : (compile disk root base exclusions paths).collect.1 = .ok compilation) :
    ∃ last, expandedLast disk root base paths = .ok last ∧
      (ClashFree disk root base paths → Agree (.map compilation.document) (.map last)) ∧
      ∀ before path, paths = before ++ [path] → ClashFree disk root base before →
        Clashes disk root base before path → ¬ Agree (.map compilation.document) (.map last) := by
  obtain ⟨document, hdocument, rfl⟩ := compile_eq_ok.mp h
  obtain ⟨whole, hwhole, -⟩ := exists_mergeUnexpanded hdocument
  refine ⟨_, expandedLast_eq_ok hdocument hwhole, fun hfree => ?_,
    fun before path hpaths hfree hclash hagree => ?_⟩
  · obtain ⟨document', whole', hdocument', hwhole', hagree⟩ := agrees_of_clashFree hdocument hfree
    obtain rfl := Except.ok.inj (hdocument.symm.trans hdocument')
    obtain rfl := Except.ok.inj (hwhole.symm.trans hwhole')
    exact hagree
  · subst hpaths
    obtain ⟨merged, data, hmerged, -, -⟩ := (mergeEach_concat_eq_ok _ _).mp hdocument
    exact (agrees_concat_iff hdocument (agrees_of_clashFree hmerged hfree)).mp
      ⟨document, whole, hdocument, hwhole, hagree⟩ hclash

end

/-! ## A schema that is a name in one file and a mapping in another -/

/-- A tree of schemas: the files `a.yml` and `b.yml` say what `Foo` is by names, and `c.yml`
describes it. -/
def threeSchemas : Disk :=
  ⟨["w"],
    [(["w", "schemas"], .directory),
      (["w", "schemas", "a.yml"], .file "Foo: Bar\n".toUTF8),
      (["w", "schemas", "b.yml"], .file "Foo: Baz\n".toUTF8),
      (["w", "schemas", "c.yml"], .file "Foo:\n  type: object\n".toUTF8)]⟩

/-- A document in which the schema `Foo` is the given one. -/
def fooDocument (schema : Value) : Fields :=
  [(.str "components", .single "schemas" (.single "Foo" schema))]

/-- The root of the tree is the working directory. -/
def top : FilePath := ⟨.relative, []⟩

theorem read_threeSchemas :
    Fragment.read threeSchemas (FilePath.ofText "schemas/a.yml") =
        .ok [(.str "Foo", .str "Bar")] ∧
      Fragment.read threeSchemas (FilePath.ofText "schemas/b.yml") =
        .ok [(.str "Foo", .str "Baz")] ∧
      Fragment.read threeSchemas (FilePath.ofText "schemas/c.yml") =
        .ok [(.str "Foo", .single "type" (.str "object"))] := by
  refine ⟨?_, ?_, ?_⟩
  · exact Fragment.read_of_text "Foo: Bar\n" rfl (Fragment.decode_toUTF8 rfl) (by decide +kernel)
  · exact Fragment.read_of_text "Foo: Baz\n" rfl (Fragment.decode_toUTF8 rfl) (by decide +kernel)
  · exact Fragment.read_of_text "Foo:\n  type: object\n" rfl (Fragment.decode_toUTF8 rfl)
      (by decide +kernel)

/-- What the three files contribute. -/
theorem unexpandedContribution_threeSchemas :
    unexpandedContribution threeSchemas top "/api" "schemas/a.yml" =
        .ok (fooDocument (.str "Bar")) ∧
      unexpandedContribution threeSchemas top "/api" "schemas/b.yml" =
        .ok (fooDocument (.str "Baz")) ∧
      unexpandedContribution threeSchemas top "/api" "schemas/c.yml" =
        .ok (fooDocument (.single "type" (.str "object"))) := by
  obtain ⟨ha, hb, hc⟩ := read_threeSchemas
  refine ⟨?_, ?_, ?_⟩
  · exact unexpandedContribution_eq_ok.mpr ⟨_, ha, rfl⟩
  · exact unexpandedContribution_eq_ok.mpr ⟨_, hb, rfl⟩
  · exact unexpandedContribution_eq_ok.mpr ⟨_, hc, rfl⟩

theorem mergeEach_pair {contribution : String → Except Fault Fields} {p q : String}
    {first second : Fields} (hp : contribution p = .ok first) (hq : contribution q = .ok second) :
    mergeEach contribution [p, q] = .ok (mergeEntries (mergeEntries [] first) second) :=
  (mergeEach_concat_eq_ok [p] q).mpr ⟨_, second,
    (mergeEach_concat_eq_ok [] p).mpr ⟨[], first, rfl, hp, rfl⟩, hq, rfl⟩

/-- A name on top of a name is no clash. -/
theorem clashFree_names :
    ClashFree threeSchemas top "/api" ["schemas/a.yml", "schemas/b.yml"] := by
  rintro before path after hpaths ⟨document, data, hdocument, hdata, hclash⟩
  obtain ⟨ha, hb, -⟩ := unexpandedContribution_threeSchemas
  match before with
  | [] =>
    obtain rfl := Except.ok.inj hdocument
    obtain ⟨k, v, w, hv, -, -⟩ := clash_map_iff.mp hclash
    cases hv
  | [first] =>
    obtain ⟨rfl, hrest⟩ := List.cons.inj hpaths
    obtain ⟨rfl, -⟩ := List.cons.inj hrest
    obtain ⟨merged, plain, hmerged, hplain, rfl⟩ :=
      (mergeEach_concat_eq_ok [] _).mp hdocument
    obtain rfl := Except.ok.inj hmerged
    obtain rfl := Except.ok.inj (ha.symm.trans hplain)
    obtain rfl := Except.ok.inj (hb.symm.trans hdata)
    change Clash [] (.single "components" (.single "schemas" (.single "Foo" (.str "Bar"))))
      (.single "components" (.single "schemas" (.single "Foo" (.str "Baz")))) at hclash
    rw [clash_single_iff, clash_single_iff, clash_single_iff] at hclash
    cases hclash
  | _ :: _ :: rest => simp at hpaths

/-- Of two names for one schema the last counts in either order. -/
theorem compile_expandedLast_names :
    ∃ compilation last,
      (compile threeSchemas top "/api" [] ["schemas/a.yml", "schemas/b.yml"]).collect.1 =
        .ok compilation ∧
      compilation.document = fooDocument (.reference "#/components/schemas/Baz") ∧
      expandedLast threeSchemas top "/api" ["schemas/a.yml", "schemas/b.yml"] = .ok last ∧
      Agree (.map compilation.document) (.map last) := by
  obtain ⟨ha, hb, -⟩ := unexpandedContribution_threeSchemas
  have hmerged := mergeEach_pair (expandedContribution_eq_ok.mpr ⟨_, ha, rfl⟩)
    (expandedContribution_eq_ok.mpr ⟨_, hb, rfl⟩)
  have hcompiled : (compile threeSchemas top "/api" []
      ["schemas/a.yml", "schemas/b.yml"]).collect.1 = .ok _ :=
    compile_eq_ok.mpr ⟨_, hmerged, rfl⟩
  obtain ⟨last, hlast, hagree, -⟩ := compile_expandedLast _ _ _ hcompiled
  refine ⟨_, last, hcompiled, rfl, hlast, hagree clashFree_names⟩

/-- A description on top of a name leaves the reference beside it, unless names are expanded
last. -/
theorem compile_keeps_reference :
    ∃ compilation last,
      (compile threeSchemas top "/api" [] ["schemas/a.yml", "schemas/c.yml"]).collect.1 =
        .ok compilation ∧
      compilation.document = fooDocument (.map
        [(.str "$ref", .str "#/components/schemas/Bar"), (.str "type", .str "object")]) ∧
      expandedLast threeSchemas top "/api" ["schemas/a.yml", "schemas/c.yml"] = .ok last ∧
      last = fooDocument (.single "type" (.str "object")) ∧
      ¬ Agree (.map compilation.document) (.map last) := by
  obtain ⟨ha, -, hc⟩ := unexpandedContribution_threeSchemas
  have hmerged := mergeEach_pair (expandedContribution_eq_ok.mpr ⟨_, ha, rfl⟩)
    (expandedContribution_eq_ok.mpr ⟨_, hc, rfl⟩)
  have hlast := expandedLast_eq_ok hmerged (mergeEach_pair ha hc)
  refine ⟨_, _, compile_eq_ok.mpr ⟨_, hmerged, rfl⟩, rfl, hlast, rfl,
    fun hagree => ?_⟩
  change Agree (.single "components" (.single "schemas" (.single "Foo" (.map
      [(.str "$ref", .str "#/components/schemas/Bar"), (.str "type", .str "object")]))))
    (.single "components" (.single "schemas" (.single "Foo" (.single "type" (.str "object")))))
    at hagree
  rw [agree_single_iff, agree_single_iff, agree_single_iff, single, agree_map_iff] at hagree
  -- the reference is left beside the description in one of the two only
  exact absurd ((hagree.1 (.str "$ref")).mp List.mem_cons_self) (by decide)

end Document
end ApiTree
