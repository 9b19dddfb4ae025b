import ApiTree.Proofs.Document.Loaded
import ApiTree.Proofs.Document.Order

/-!
# Notes of the authors

Entries whose keys start with an underscore are notes. They are left out at the top of a document
only. So the notes of a file that becomes a part of the document as it is have no consequence, while
the entries of an operation and of components stand further down and keep their notes
(`compile_of_sameBesidesNotes`).
-/

set_option autoImplicit false

namespace ApiTree

open Value Reference

/-! ## Notes are no places -/

namespace Reference

/-- The path that leads to the schema of a component starts with the word for components. -/
theorem head?_of_isComponentPlace {key : String} (h : isComponentPlace key = true) :
    key.toList.head? = some 'c' := by
  obtain ⟨cs, hcs, hlead⟩ := List.any_eq_true.mp h
  have hhead : cs.head? = some 'c' := by
    obtain ⟨kind, name, -, content, composition, hpieces, -⟩ := (leadToComponent_iff _).mp hlead
    rcases Text.head?_of_splitWhere hpieces with hnil | hhead
    · cases hnil
    · exact hhead.symm
  -- a newline at the very end does not matter for the first character
  rw [readings] at hcs
  split at hcs
  · rcases List.mem_cons.mp hcs with rfl | hcs
    · exact hhead
    · rw [List.mem_singleton.mp hcs, List.head?_dropLast] at hhead
      split at hhead
      · exact hhead
      · cases hhead
  · rwa [List.mem_singleton.mp hcs] at hhead

theorem not_spellsPlace_of_note {e : Value × Value} (h : Text.startsWith e.1.text "_" = true) :
    ¬ SpellsPlace e := by
  rintro ⟨-, hplace, -⟩
  obtain ⟨rest, hrest⟩ := List.isPrefixOf_iff_prefix.mp h
  have hhead := head?_of_isComponentPlace hplace
  rw [← hrest] at hhead
  exact absurd hhead (by simp)

/-- At the top of a document the notes can be left out before the names are expanded. -/
theorem map_withoutNotes_expandEntries (entries : Fields) :
    (expandEntries [] entries).map Document.withoutNotes =
      expandEntries [] (Document.withoutNotes entries) := by
  have hexpandable : Expandable [] (.map (Document.withoutNotes entries)) ↔
      Expandable [] (.map entries) := by
    rw [expandable_top_iff, expandable_top_iff]
    refine ⟨fun h e he => ?_, fun h e he => h e (List.mem_of_mem_filter he)⟩
    by_cases hnote : Text.startsWith e.1.text "_" = true
    · exact not_spellsPlace_of_note hnote
    · exact h e (List.mem_filter.mpr ⟨he, by simpa using hnote⟩)
  by_cases h : Expandable [] (.map entries)
  · rw [expandEntries_eq_ok_iff.mpr ⟨h, rfl⟩, expandEntries_eq_ok_iff.mpr ⟨hexpandable.mpr h, rfl⟩,
      ← Document.withoutNotes_mapTextsOfEntries]
    rfl
  · rw [expandEntries_eq_error_iff.mpr ⟨rfl, h⟩,
      expandEntries_eq_error_iff.mpr ⟨rfl, hexpandable.not.mpr h⟩]
    rfl

end Reference

/-! ## Where the entries of a file stand -/

/-- The keys under which the entries of a file stand in the document. -/
def Place.prefixKeys (place : Place) : List String :=
  match place.operation with
  | some key => ["paths", key.path, key.method]
  | none =>
    match place.kind, place.component with
    | .component, some kind => ["components", kind.render]
    | _, _ => []

/-- No file stands below a note. -/
theorem Place.prefixKeys_cases (place : Place) : place.prefixKeys = [] ∨
    ∃ first rest, place.prefixKeys = first :: rest ∧ Text.startsWith first "_" = false := by
  rw [Place.prefixKeys]
  split
  · exact .inr ⟨_, _, rfl, by decide⟩
  · split
    · exact .inr ⟨_, _, rfl, by decide⟩
    · exact .inl rfl

namespace Document

/-! ## Files that differ in notes -/

/-- What files are merged to is without notes what the files contribute without notes, merged. -/
theorem map_withoutNotes_mergeEach (contribution : String → Except Fault Fields)
    (paths : List String) :
    (mergeEach contribution paths).map withoutNotes =
      mergeEach (fun path => (contribution path).map withoutNotes) paths := by
  induction paths using List.reverseRecOn with
  | nil => rfl
  | append_singleton before path ih =>
    rw [mergeEach_concat, mergeEach_concat, ← ih]
    cases mergeEach contribution before with
    | error fault => rfl
    | ok merged =>
      cases contribution path with
      | error fault => rfl
      | ok data => exact congrArg Except.ok (withoutNotes_mergeEntries merged data)

/-- The file of both trees becomes a part of the document as it is and holds the same but for notes,
or it holds the same. -/
def SameBesidesNotes (disk disk' : Disk) (root : FilePath) (base path : String) : Prop :=
  let place := Place.ofPath root (FilePath.ofText path) base
  ∃ content content', Fragment.read disk (FilePath.ofText path) = .ok content ∧
    Fragment.read disk' (FilePath.ofText path) = .ok content' ∧
    withoutNotes content' = withoutNotes content ∧ (place.prefixKeys ≠ [] → content' = content)

section

variable {disk disk' : Disk} {root : FilePath} {base path : String}

theorem map_mapError {α β : Type} (r : Except Failure α) (f : α → β) :
    (r.mapError Fault.failed).map f = (r.map f).mapError Fault.failed := by
  cases r <;> rfl

theorem SameBesidesNotes.map_expandedContribution
    (h : SameBesidesNotes disk disk' root base path) :
    (expandedContribution disk' root base path).map withoutNotes =
      (expandedContribution disk root base path).map withoutNotes := by
  obtain ⟨content, content', hread, hread', hnotes, heq⟩ := h
  rw [expandedContribution_of_read hread, expandedContribution_of_read hread']
  have hplain {kind : FileKind} (hkind : kind = .static ∨ kind = .other)
      (hplace : Place.ofPath root (FilePath.ofText path) base = { kind }) :
      ((Fragment.ofContent path (Place.ofPath root (FilePath.ofText path) base)
        content').transform.mapError Fault.failed).map withoutNotes =
      ((Fragment.ofContent path (Place.ofPath root (FilePath.ofText path) base)
        content).transform.mapError Fault.failed).map withoutNotes := by
    rw [Fragment.transform_of_plain hkind hplace, Fragment.transform_of_plain hkind hplace,
      map_mapError, map_mapError, map_withoutNotes_expandEntries, map_withoutNotes_expandEntries,
      hnotes]
  rcases Place.ofParts_cases base (Place.parts root (FilePath.ofText path)) with
    ⟨key, hkey, -⟩ | ⟨kind, hplace⟩ | hplace | hplace
  · rw [heq (by rw [Place.ofPath, Place.prefixKeys, hkey]; exact List.cons_ne_nil _ _)]
  · rw [heq (by rw [Place.ofPath, hplace]; exact List.cons_ne_nil _ _)]
  · exact hplain (.inl rfl) hplace
  · exact hplain (.inr rfl) hplace

/-- Files that are the same besides notes are compiled to the same document. -/
theorem compile_congr_notes {paths : List String}
    (h : ∀ path ∈ paths, SameBesidesNotes disk disk' root base path) (exclusions : List String) :
    (compile disk' root base exclusions paths).collect.1 =
      (compile disk root base exclusions paths).collect.1 := by
  have hmerged : (mergeEach (expandedContribution disk' root base) paths).map withoutNotes =
      (mergeEach (expandedContribution disk root base) paths).map withoutNotes := by
    rw [map_withoutNotes_mergeEach, map_withoutNotes_mergeEach]
    exact mergeEach_congr fun path hpath => (h path hpath).map_expandedContribution
  rw [collect_compile, collect_compile, collect_mergeFiles, collect_mergeFiles]
  have hcompiled (r : Except Fault Fields) :
      (r.map fun document => (⟨withoutNotes document,
        validate (.map (completed (withoutNotes document))) exclusions⟩ : Compilation)) =
      (r.map withoutNotes).map fun document =>
        ⟨document, validate (.map (completed document)) exclusions⟩ := by
    cases r <;> rfl
  rw [hcompiled, hcompiled, hmerged]

end

end Document

/-! ## Notes that stay -/

namespace Fragment

theorem at?_wrapped (source : String) (place : Place) (content data : Fields) :
    (Value.map (wrapped (ofContent source place content) data)).at? place.prefixKeys =
      some (.map data) := by
  obtain ⟨kind, component, operation, version⟩ := place
  cases operation with
  | some key =>
    change (Value.single "paths" (.single key.path (.single key.method (.map data)))).at?
      ["paths", key.path, key.method] = _
    rw [at?_single, at?_single, at?_single]
    rfl
  | none =>
    cases kind with
    | component =>
      cases component with
      | some kind =>
        change (Value.single "components" (.single kind.render (.map data))).at?
          ["components", kind.render] = _
        rw [at?_single, at?_single]
        rfl
      | none => rfl
    | _ => rfl

/-- An operation keeps its keys, but for the one of its identifier. -/
theorem mem_keys_withOperation {f : Fragment} {data : Fields} {k : Value}
    (hk : k ∈ Entries.keys data) (hid : k ≠ .str "id") :
    k ∈ Entries.keys (withOperation f data) := by
  have hidentified : k ∈ Entries.keys (identified data) := by
    unfold identified
    split
    · split
      · exact hk
      · obtain ⟨v, hv⟩ := Entries.exists_get?_of_mem_keys hk
        rw [Fields.put, Entries.mem_keys_put]
        refine .inr (Entries.mem_keys_of_get? (v := v) ?_)
        rw [Fields.erase, Entries.get?_erase_of_ne hid.symm, hv]
    · exact hk
  rw [withOperation_eq]
  split
  · unfold withNamedSchemas
    split
    · exact Entries.mem_keys_put.mpr (.inr hidentified)
    · exact Entries.mem_keys_put.mpr (.inr hidentified)
    · exact hidentified
  · exact hk

/-- What a fragment becomes has every key of the fragment at its place, but for the identifier of an
operation. -/
theorem exists_at?_transform {source : String} {place : Place} {content data : Fields} {key : String}
    (h : (ofContent source place content).transform = .ok data)
    (hkey : .str key ∈ Entries.keys content) (hid : key ≠ "id") :
    ∃ v, (Value.map data).at? (place.prefixKeys ++ [key]) = some v := by
  obtain ⟨plain, hplain, hexpand⟩ := bind_eq_ok.mp h
  obtain ⟨nested, hnested, rfl⟩ := map_eq_ok.mp hplain
  obtain ⟨-, rfl⟩ := expandEntries_eq_ok_iff.mp hexpand
  have hmem : .str key ∈ Entries.keys (withOperation (ofContent source place content) nested) := by
    refine mem_keys_withOperation ?_ (by simpa using hid)
    rw [keys_withContent hnested]
    exact hkey
  obtain ⟨v, hv⟩ := Entries.exists_get?_of_mem_keys hmem
  have hat : (Value.map (wrapped (ofContent source place content)
      (withOperation (ofContent source place content) nested))).at? (place.prefixKeys ++ [key]) =
        some v := by
    rw [Value.at?_append, at?_wrapped, Option.bind_some, Value.at?, Value.member?, hv]
    rfl
  exact ⟨_, at?_mapTexts replacement hat []⟩

end Fragment

namespace Document

variable {disk : Disk} {root : FilePath} {base : String}

theorem at?_withoutNotes {entries : Fields} {key : String} {place : List String}
    (h : Text.startsWith key "_" = false) : (Value.map (withoutNotes entries)).at? (key :: place) =
      (Value.map entries).at? (key :: place) := by
  have hkey : Text.startsWith (Value.str key).text "_" = false := h
  rw [at?, at?, member?, member?, get?_withoutNotes hkey]

/-- The notes of the last file stay in the document if the file is an operation or components. -/
theorem exists_at?_of_note {exclusions before : List String} {path note : String}
    {content : Fields} {c : Compilation}
    (hread : Fragment.read disk (FilePath.ofText path) = .ok content)
    (hnote : .str note ∈ Entries.keys content) (hstart : Text.startsWith note "_" = true)
    (hplace : (Place.ofPath root (FilePath.ofText path) base).prefixKeys ≠ [])
    (hc : (compile disk root base exclusions (before ++ [path])).collect.1 = .ok c) :
    ∃ v, (Value.map c.document).at?
      ((Place.ofPath root (FilePath.ofText path) base).prefixKeys ++ [note]) = some v := by
  obtain ⟨document, hdocument, rfl⟩ := compile_eq_ok.mp hc
  obtain ⟨merged, data, -, hdata, rfl⟩ := (mergeEach_concat_eq_ok _ _).mp hdocument
  have honce := keysOnce_expandedContribution hdata
  rw [expandedContribution_of_read hread, mapError_eq_ok] at hdata
  have hid : note ≠ "id" := by
    rintro rfl
    exact absurd hstart (by decide)
  obtain ⟨v, hv⟩ := Fragment.exists_at?_transform hdata hnote hid
  obtain ⟨first, rest, hkeys, hfirst⟩ :=
    (Place.prefixKeys_cases (Place.ofPath root (FilePath.ofText path) base)).resolve_left hplace
  have hmerge := at?_merge (some (.map merged)) (honce.leadsOnce hv)
  rw [hv] at hmerge
  rw [hkeys, List.cons_append] at hmerge ⊢
  rw [at?_withoutNotes hfirst]
  exact ⟨_, hmerge⟩

/-- Notes can be added, changed and left out in files that become a part of the document as they
are: the document stays the same, and what is wrong with it. The notes of an operation and of
components stay in the document; those of the last file stand there at the place of the file. -/
theorem compile_of_sameBesidesNotes (disk : Disk) (root : FilePath) (base : String)
    (exclusions paths : List String) :
    (∀ disk', (∀ path ∈ paths, SameBesidesNotes disk disk' root base path) →
      (compile disk' root base exclusions paths).collect.1 =
        (compile disk root base exclusions paths).collect.1) ∧
    ∀ before path content note c, paths = before ++ [path] →
      Fragment.read disk (FilePath.ofText path) = .ok content →
      .str note ∈ Entries.keys content → Text.startsWith note "_" = true →
      (Place.ofPath root (FilePath.ofText path) base).prefixKeys ≠ [] →
      (compile disk root base exclusions paths).collect.1 = .ok c →
        ∃ v, (Value.map c.document).at?
          ((Place.ofPath root (FilePath.ofText path) base).prefixKeys ++ [note]) = some v := by
  refine ⟨fun disk' h => compile_congr_notes h exclusions, ?_⟩
  rintro before path content note c rfl hread hnote hstart hplace hc
  exact exists_at?_of_note hread hnote hstart hplace hc

/-! ## Notes of components -/

/-- A tree with a file of its own and one of schemas, of the given texts. -/
def notesTree (common schemas : String) : Disk :=
  ⟨["w"],
    [(["w", "common.yml"], .file common.toUTF8),
      (["w", "schemas"], .directory),
      (["w", "schemas", "a.yml"], .file schemas.toUTF8)]⟩

theorem read_notesTree :
    Fragment.read (notesTree "_x: 1\na: 2\n" "_x: 1\n") (FilePath.ofText "common.yml") =
        .ok [(.str "_x", .int 1), (.str "a", .int 2)] ∧
      Fragment.read (notesTree "a: 2\n" "_x: 1\n") (FilePath.ofText "common.yml") =
        .ok [(.str "a", .int 2)] ∧
      (∀ common, Fragment.read (notesTree common "_x: 1\n") (FilePath.ofText "schemas/a.yml") =
        .ok [(.str "_x", .int 1)]) ∧
      ∀ common, Fragment.read (notesTree common "\x7b\x7d") (FilePath.ofText "schemas/a.yml") =
        .ok [] := by
  refine ⟨?_, ?_, fun common => ?_, fun common => ?_⟩
  · exact Fragment.read_of_text "_x: 1\na: 2\n" rfl (Fragment.decode_toUTF8 rfl)
      (by decide +kernel)
  · exact Fragment.read_of_text "a: 2\n" rfl (Fragment.decode_toUTF8 rfl) (by decide +kernel)
  · exact Fragment.read_of_text "_x: 1\n" rfl (Fragment.decode_toUTF8 rfl) (by decide +kernel)
  · exact Fragment.read_of_braces rfl

theorem place_notesTree :
    Place.ofPath top (FilePath.ofText "common.yml") "/api" = { kind := .other } ∧
      Place.ofPath top (FilePath.ofText "schemas/a.yml") "/api" =
        { kind := .component, component := some .schemas } :=
  ⟨rfl, rfl⟩

/-- What the file of schemas contributes, with a note and without. -/
theorem expandedContribution_notesTree (common : String) :
    expandedContribution (notesTree common "_x: 1\n") top "/api" "schemas/a.yml" =
        .ok [(.str "components", .single "schemas" (.single "_x" (.int 1)))] ∧
      expandedContribution (notesTree common "\x7b\x7d") top "/api" "schemas/a.yml" =
        .ok [(.str "components", .single "schemas" (.map []))] := by
  obtain ⟨-, -, hnoted, hbare⟩ := read_notesTree
  rw [expandedContribution_of_read (hnoted common), expandedContribution_of_read (hbare common),
    place_notesTree.2]
  exact ⟨rfl, rfl⟩

/-- The note of the file of its own is of no consequence, and the one of the schemas stays. -/
theorem compile_of_sameBesidesNotes_common :
    (∀ path ∈ ["common.yml", "schemas/a.yml"], SameBesidesNotes
        (notesTree "_x: 1\na: 2\n" "_x: 1\n") (notesTree "a: 2\n" "_x: 1\n") top "/api" path) ∧
      (compile (notesTree "a: 2\n" "_x: 1\n") top "/api" []
          ["common.yml", "schemas/a.yml"]).collect.1 =
        (compile (notesTree "_x: 1\na: 2\n" "_x: 1\n") top "/api" []
          ["common.yml", "schemas/a.yml"]).collect.1 ∧
      ∃ c v, (compile (notesTree "_x: 1\na: 2\n" "_x: 1\n") top "/api" []
          ["common.yml", "schemas/a.yml"]).collect.1 = .ok c ∧
        (Value.map c.document).at? ["components", "schemas", "_x"] = some v := by
  obtain ⟨hcommon, hcommon', hschemas, -⟩ := read_notesTree
  obtain ⟨hplace, hplace'⟩ := place_notesTree
  have hsame : ∀ path ∈ ["common.yml", "schemas/a.yml"], SameBesidesNotes
      (notesTree "_x: 1\na: 2\n" "_x: 1\n") (notesTree "a: 2\n" "_x: 1\n") top "/api" path := by
    simp only [List.forall_mem_cons, List.not_mem_nil, false_implies, implies_true, and_true]
    refine ⟨⟨_, _, hcommon, hcommon', by decide, fun h => ?_⟩,
      ⟨_, _, hschemas _, hschemas _, rfl, fun _ => rfl⟩⟩
    rw [hplace] at h
    exact absurd rfl h
  obtain ⟨hequal, hstays⟩ := compile_of_sameBesidesNotes
    (notesTree "_x: 1\na: 2\n" "_x: 1\n") top "/api" [] ["common.yml", "schemas/a.yml"]
  have hfirst : expandedContribution (notesTree "_x: 1\na: 2\n" "_x: 1\n") top "/api"
      "common.yml" = .ok [(.str "_x", .int 1), (.str "a", .int 2)] := by
    rw [expandedContribution_of_read hcommon, hplace]
    rfl
  have hcompiled : (compile (notesTree "_x: 1\na: 2\n" "_x: 1\n") top "/api" []
      ["common.yml", "schemas/a.yml"]).collect.1 = .ok _ := compile_eq_ok.mpr
    ⟨_, mergeEach_pair hfirst (expandedContribution_notesTree _).1, rfl⟩
  obtain ⟨v, hv⟩ := hstays ["common.yml"] "schemas/a.yml" _ "_x" _ rfl (hschemas _)
    (List.mem_cons_self ..) (by decide) (by rw [hplace']; exact List.cons_ne_nil _ _) hcompiled
  rw [hplace'] at hv
  exact ⟨hsame, hequal _ hsame, _, v, hcompiled, hv⟩

theorem compile_singleton {path : String} {data : Fields}
    (h : expandedContribution disk root base path = .ok data) (exclusions : List String) :
    (compile disk root base exclusions [path]).collect.1 =
      .ok ⟨withoutNotes (mergeEntries [] data),
        validate (.map (completed (withoutNotes (mergeEntries [] data)))) exclusions⟩ :=
  compile_eq_ok.mpr ⟨_, (mergeEach_concat_eq_ok [] path).mpr ⟨[], data, rfl, h, rfl⟩, rfl⟩

/-- A note that is added to a file of components changes the document. -/
theorem compile_notesTree_ne :
    Fragment.read (notesTree "a: 2\n" "\x7b\x7d") (FilePath.ofText "schemas/a.yml") = .ok [] ∧
      Fragment.read (notesTree "a: 2\n" "_x: 1\n") (FilePath.ofText "schemas/a.yml") =
        .ok [(.str "_x", .int 1)] ∧
      ∃ c c', (compile (notesTree "a: 2\n" "\x7b\x7d") top "/api" []
          ["schemas/a.yml"]).collect.1 = .ok c ∧
        (compile (notesTree "a: 2\n" "_x: 1\n") top "/api" [] ["schemas/a.yml"]).collect.1 =
          .ok c' ∧ c'.document ≠ c.document := by
  obtain ⟨-, -, hread, hread'⟩ := read_notesTree
  obtain ⟨hnoted, hbare⟩ := expandedContribution_notesTree "a: 2\n"
  exact ⟨hread' _, hread _, _, _, compile_singleton hbare [], compile_singleton hnoted [],
    by decide⟩

end Document
end ApiTree
