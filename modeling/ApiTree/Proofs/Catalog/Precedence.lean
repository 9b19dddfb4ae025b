import ApiTree.Proofs.Catalog.StaticFiles
import ApiTree.Proofs.Document.Notes

/-!
# Which of the static files counts

The static files of a version are merged one after another, the index files first and the others
after them, each by path. Of several files that say what stands at a place the last one counts, as
far as no later one says that there is something else on the way (`at?_mergeEach`). So what is said
in a file that is named after the version counts more than what shared index files say, unless the
file is an index file itself: then a shared file with a later path counts more
(`own_static_takes_precedence`).
-/

set_option autoImplicit false

namespace ApiTree

/-! ## Saying what stands at a place -/

namespace Value

/-- The value says what stands at the place: it holds a value there, or on the way one that is no
mapping. -/
def settles (v : Value) : List String → Bool
  | [] => true
  | key :: place => !v.isMap || (v.member? key).any fun w => w.settles place

variable {place : List String}

theorem leadsOnce_of_not_settles {v : Value} (h : KeysOnce v) (hnot : v.settles place = false) :
    LeadsOnce v place ∧ v.at? place = none := by
  induction place generalizing v with
  | nil => cases hnot
  | cons key place ih =>
    rw [settles, Bool.or_eq_false_iff] at hnot
    cases v with
    | map entries =>
      have honce : ∃ own, Value.map entries = .map own ∧ (Entries.keys own).Nodup :=
        ⟨entries, rfl, h.nodup⟩
      cases hkey : (Value.map entries).member? key with
      | none =>
        refine ⟨⟨honce, fun w hw => ?_⟩, ?_⟩
        · rw [hkey] at hw
          cases hw
        · rw [at?, hkey]
          rfl
      | some w =>
        rw [hkey] at hnot
        obtain ⟨hleads, hnone⟩ := ih (h.of_get? hkey) hnot.2
        refine ⟨⟨honce, fun u hu => ?_⟩, ?_⟩
        · obtain rfl := Option.some.inj (hkey.symm.trans hu)
          exact hleads
        · rw [at?, hkey]
          exact hnone
    | _ => cases hnot.1

/-- What does not say what stands at a place leaves there what was there. -/
theorem at?_merge_of_not_settles (base : Option Value) {upper : Value} (h : KeysOnce upper)
    (hnot : upper.settles place = false) :
    (merge base upper).at? place = base.bind (·.at? place) := by
  obtain ⟨hleads, hnone⟩ := leadsOnce_of_not_settles h hnot
  rw [at?_merge base hleads, hnone]

/-- A value that is no mapping replaces what was there. -/
theorem at?_merge_of_leaf (base : Option Value) {upper value : Value} (h : KeysOnce upper)
    (hvalue : upper.at? place = some value) (hleaf : value.isMap = false) :
    (merge base upper).at? place = some value := by
  rw [at?_merge base (h.leadsOnce hvalue), hvalue]
  exact congrArg some (merge_leaf hleaf _)

end Value

open Value

/-! ## Files that are merged one after another -/

namespace Document

section

variable {contribution : String → Except Fault Fields}
  (honce : ∀ path data, contribution path = .ok data → KeysOnce (.map data))

include honce

theorem keysOnce_mergeEach {paths : List String} {document : Fields}
    (h : mergeEach contribution paths = .ok document) : KeysOnce (.map document) := by
  induction paths using List.reverseRecOn generalizing document with
  | nil =>
    obtain rfl := Except.ok.inj h
    exact keysOnce_nil
  | append_singleton before path ih =>
    obtain ⟨merged, data, hmerged, hdata, rfl⟩ := (mergeEach_concat_eq_ok _ _).mp h
    exact keysOnce_mergeEntries (ih hmerged) (honce path data hdata)

/-- What a file says counts, if the files after it do not say what stands there. -/
theorem at?_mergeEach {path : String} {data : Fields} (hpath : contribution path = .ok data)
    {place : List String} {value : Value} (hvalue : (Value.map data).at? place = some value)
    (hleaf : value.isMap = false) {before after : List String}
    (hafter : ∀ other ∈ after, ∀ data, contribution other = .ok data →
      (Value.map data).settles place = false) {document : Fields}
    (h : mergeEach contribution (before ++ path :: after) = .ok document) :
    (Value.map document).at? place = some value := by
  induction after using List.reverseRecOn generalizing document with
  | nil =>
    obtain ⟨merged, own, -, hown, rfl⟩ := (mergeEach_concat_eq_ok _ _).mp h
    obtain rfl := Except.ok.inj (hpath.symm.trans hown)
    exact at?_merge_of_leaf (some (.map merged)) (honce path data hpath) hvalue hleaf
  | append_singleton after last ih =>
    rw [List.forall_mem_append, List.forall_mem_singleton] at hafter
    have hassoc : before ++ path :: (after ++ [last]) = (before ++ path :: after) ++ [last] := by
      rw [List.append_assoc, List.cons_append]
    rw [hassoc] at h
    obtain ⟨merged, other, hmerged, hother, rfl⟩ := (mergeEach_concat_eq_ok _ _).mp h
    have hkept := at?_merge_of_not_settles (some (.map merged)) (honce last other hother)
      (hafter.2 other hother)
    exact hkept.trans (ih hafter.1 hmerged)

end

end Document

/-! ## The order of static files -/

namespace StaticPart

variable {d : Disk} {root p q : FilePath} {v : String}

theorem before_iff : before root p q = true ↔
    (Place.isIndexFile root p = true ∧ Place.isIndexFile root q = false) ∨
      Place.isIndexFile root p = Place.isIndexFile root q ∧ p.render ≤ q.render := by
  rw [before]
  cases Place.isIndexFile root p <;> cases Place.isIndexFile root q <;> simp

theorem pairwise_files (d : Disk) (root : FilePath) (v : String) :
    (files d root v).Pairwise fun p q => before root p q = true := by
  rw [files]
  refine List.pairwise_mergeSort (fun p q r hpq hqr => ?_) (fun p q => ?_) _
  · rw [before_iff] at hpq hqr ⊢
    rcases hpq with ⟨hp, hq⟩ | ⟨hpq, hle⟩
    · rcases hqr with ⟨hq', -⟩ | ⟨hqr, -⟩
      · rw [hq] at hq'
        cases hq'
      · exact .inl ⟨hp, hqr ▸ hq⟩
    · rcases hqr with ⟨hq, hr⟩ | ⟨hqr, hle'⟩
      · exact .inl ⟨hpq.trans hq, hr⟩
      · exact .inr ⟨hpq.trans hqr, String.le_trans hle hle'⟩
  · rw [Bool.or_eq_true, before_iff, before_iff]
    have hle := String.le_total p.render q.render
    cases Place.isIndexFile root p <;> cases Place.isIndexFile root q <;> simp [hle]

/-- Only index files stand before an index file, and only by their paths. -/
theorem of_before_index (h : before root p q = true) (hq : Place.isIndexFile root q = true) :
    Place.isIndexFile root p = true ∧ p.render ≤ q.render := by
  rcases before_iff.mp h with ⟨-, hq'⟩ | ⟨hsame, hle⟩
  · rw [hq] at hq'
    cases hq'
  · exact ⟨hsame.trans hq, hle⟩

/-- A static file of a version that is not named after it is an index file. -/
theorem isIndexFile_of_mem_files (hdated : v ≠ draft) (hq : q ∈ files d root v) (hne : q.stem ≠ v) :
    Place.isIndexFile root q = true := by
  have hbelongs := (mem_files.mp hq).2.2
  rw [belongs, if_neg hdated, beq_eq_false_iff_ne.mpr hne, Bool.false_or, Bool.and_eq_true]
    at hbelongs
  exact hbelongs.1

/-- A static file that is named after a version holds a value that is no mapping at a place, which is
not below a note, and no other static file of this name says what stands there. -/
structure Owns (d : Disk) (root : FilePath) (base v : String) (p : FilePath) (place : List String)
    (value : Value) : Prop where
  listed : p ∈ Fragment.discover d root
  static : Place.isOperationFile root p = false
  named : p.stem = v
  holds : ∃ data, Document.Contributes d root base p.render data ∧
    (Value.map data).at? place = some value
  leaf : value.isMap = false
  heeded : ∀ key ∈ place.head?, Text.startsWith key "_" = false
  alone : ∀ q ∈ files d root v, q.stem = v → q ≠ p → ∀ data,
    Document.Contributes d root base q.render data → (Value.map data).settles place = false

/-- The file is an index file, and a shared one with a later path says what stands at the place. -/
def Overridden (d : Disk) (root : FilePath) (base v : String) (p : FilePath)
    (place : List String) : Prop :=
  Place.isIndexFile root p = true ∧ ∃ q ∈ files d root v, q.stem ≠ v ∧ p.render ≤ q.render ∧
    ∃ data, Document.Contributes d root base q.render data ∧ (Value.map data).settles place = true

theorem Owns.mem_files {base : String} {place : List String} {value : Value}
    (h : Owns d root base v p place value) (hdated : v ≠ draft) : p ∈ files d root v :=
  StaticPart.mem_files.mpr ⟨h.listed, h.static, belongs_own h.named hdated⟩

end StaticPart

open StaticPart

/-- A document that is merged from static files holds what the file with the last word says. -/
theorem StaticPart.Owns.at?_mergeEach {d : Disk} {root : FilePath} {base v : String}
    {p : FilePath} {place : List String} {value : Value}
    (h : Owns d root base v p place value) (hdated : v ≠ draft)
    (hnot : ¬ Overridden d root base v p place) {document : Fields}
    (hdocument : Document.mergeEach (Document.expandedContribution d root base)
      ((files d root v).map (·.render)) = .ok document) :
    (Value.map document).at? place = some value := by
  obtain ⟨data, hdata, hvalue⟩ := h.holds
  -- what is listed after the last place of the file are other files
  obtain ⟨after, before, hsplit, hlast⟩ :=
    List.eq_append_cons_of_mem (List.mem_reverse.mpr (h.mem_files hdated))
  have hfiles : files d root v = before.reverse ++ p :: after.reverse := by
    rw [← List.reverse_reverse (files d root v), hsplit, List.reverse_append, List.reverse_cons,
      List.append_assoc, List.singleton_append]
  have hsorted := pairwise_files d root v
  rw [hfiles, List.pairwise_append, List.pairwise_cons] at hsorted
  rw [hfiles, List.map_append, List.map_cons] at hdocument
  have honce (path : String) (data : Fields)
      (hpath : Document.expandedContribution d root base path = .ok data) : KeysOnce (.map data) :=
    Document.keysOnce_expandedContribution hpath
  apply Document.at?_mergeEach honce (Document.contributes_iff.mp hdata) hvalue h.leaf _ hdocument
  intro path hpath other hother
  obtain ⟨q, hq, rfl⟩ := List.mem_map.mp hpath
  have hmem : q ∈ files d root v := by
    rw [hfiles]
    exact List.mem_append_right _ (List.mem_cons_of_mem p hq)
  have hcontributes := Document.contributes_iff.mpr hother
  by_cases hstem : q.stem = v
  · have hne : q ≠ p := by
      rintro rfl
      exact hlast (List.mem_reverse.mp hq)
    exact h.alone q hmem hstem hne other hcontributes
  · rw [Bool.eq_false_iff]
    intro hsettles
    have hindex := isIndexFile_of_mem_files hdated hmem hstem
    obtain ⟨hp, hle⟩ := of_before_index (hsorted.2.1.1 q hq) hindex
    exact hnot ⟨hp, q, hmem, hstem, hle, other, hcontributes, hsettles⟩

/-- A tree with three static files of a version: one in an index folder, a shared one beside it, and
one elsewhere. -/
def indexed : Disk :=
  ⟨["w"],
    [(["w", "index"], .directory),
      (["w", "index", "20210301.yml"], .file "info:\n  title: Own\n".toUTF8),
      (["w", "index", "shared.yml"], .file "info:\n  title: T\n  summary: S\n".toUTF8),
      (["w", "open_api"], .directory),
      (["w", "open_api", "20210301.yml"], .file "info:\n  summary: Own\n".toUTF8),
      (["w", "widgets"], .directory),
      (["w", "widgets", "get"], .directory),
      (["w", "widgets", "get", "20210301.yml"], .file "\x7b\x7d".toUTF8)]⟩

namespace Indexed

/-- The file of the version in the index folder. -/
def own : FilePath := ⟨.relative, ["index", "20210301.yml"]⟩

/-- The shared file in the index folder. -/
def shared : FilePath := ⟨.relative, ["index", "shared.yml"]⟩

/-- The file of the version in another folder. -/
def elsewhere : FilePath := ⟨.relative, ["open_api", "20210301.yml"]⟩

/-- What the entry of the API holds in a file. -/
def info (entries : Fields) : Fields := [("info", .map entries)]

theorem discover_eq : Fragment.discover indexed releasesCatalog.root =
    [own, shared, elsewhere, ⟨.relative, ["widgets", "get", "20210301.yml"]⟩] :=
  Fragment.discover_eq_of_pairwise rfl rfl (by decide)

theorem files_eq : files indexed releasesCatalog.root "20210301" = [own, shared, elsewhere] := by
  rw [files, discover_eq]
  exact List.mergeSort_of_pairwise (by decide)

theorem read_eq :
    Fragment.read indexed (FilePath.ofText own.render) = .ok (info [("title", .str "Own")]) ∧
    Fragment.read indexed (FilePath.ofText shared.render) =
      .ok (info [("title", .str "T"), ("summary", .str "S")]) ∧
    Fragment.read indexed (FilePath.ofText elsewhere.render) =
      .ok (info [("summary", .str "Own")]) := by
  refine ⟨?_, ?_, ?_⟩
  · exact Fragment.read_of_text "info:\n  title: Own\n" rfl (Fragment.decode_toUTF8 rfl)
      (by decide +kernel)
  · exact Fragment.read_of_text "info:\n  title: T\n  summary: S\n" rfl
      (Fragment.decode_toUTF8 rfl) (by decide +kernel)
  · exact Fragment.read_of_text "info:\n  summary: Own\n" rfl (Fragment.decode_toUTF8 rfl)
      (by decide +kernel)

theorem contributes :
    Document.Contributes indexed releasesCatalog.root releasesCatalog.base own.render
      (info [("title", .str "Own")]) ∧
    Document.Contributes indexed releasesCatalog.root releasesCatalog.base shared.render
      (info [("title", .str "T"), ("summary", .str "S")]) ∧
    Document.Contributes indexed releasesCatalog.root releasesCatalog.base elsewhere.render
      (info [("summary", .str "Own")]) := by
  obtain ⟨hown, hshared, helsewhere⟩ := read_eq
  simp only [Document.contributes_iff, Document.expandedContribution_eq_ok,
    Document.unexpandedContribution_eq_ok]
  exact ⟨⟨_, ⟨_, hown, rfl⟩, rfl⟩, ⟨_, ⟨_, hshared, rfl⟩, rfl⟩, ⟨_, ⟨_, helsewhere, rfl⟩, rfl⟩⟩

theorem readable_files :
    Fragment.Readable indexed (files indexed releasesCatalog.root "20210301") := by
  obtain ⟨hown, hshared, helsewhere⟩ := read_eq
  rw [files_eq]
  simp only [Fragment.Readable, List.forall_mem_cons, List.not_mem_nil, false_implies,
    implies_true, and_true]
  exact ⟨⟨_, hown⟩, ⟨_, hshared⟩, ⟨_, helsewhere⟩⟩

theorem readStatic_eq : releasesCatalog.readStatic indexed "20210301" = .ok (info
    [("version", .str "20210301"), ("title", .str "T"), ("summary", .str "Own")]) := by
  obtain ⟨hown, hshared, helsewhere⟩ := contributes
  rw [Document.contributes_iff] at hown hshared helsewhere
  rw [releasesCatalog.readStatic_eq, Document.collect_mergeFiles, files_eq, Document.mergeEach]
  simp only [List.map_cons, List.map_nil, List.foldlM_cons, hown, hshared, helsewhere]
  rfl

/-- What one of the two files of the version says, the other does not. -/
theorem owns {p q : FilePath} {data other : Fields} {place : List String} {value : Value}
    (hfiles : p = own ∧ q = elsewhere ∨ p = elsewhere ∧ q = own)
    (hdata : Document.Contributes indexed releasesCatalog.root releasesCatalog.base p.render data)
    (hother : Document.Contributes indexed releasesCatalog.root releasesCatalog.base q.render other)
    (hvalue : (Value.map data).at? place = some value) (hleaf : value.isMap = false)
    (hheeded : ∀ key ∈ place.head?, Text.startsWith key "_" = false)
    (halone : (Value.map other).settles place = false) :
    Owns indexed releasesCatalog.root releasesCatalog.base "20210301" p place value := by
  have hp : p ∈ Fragment.discover indexed releasesCatalog.root ∧
      Place.isOperationFile releasesCatalog.root p = false ∧ p.stem = "20210301" := by
    rw [discover_eq]
    rcases hfiles with ⟨rfl, -⟩ | ⟨rfl, -⟩
    · decide
    · decide
  refine ⟨hp.1, hp.2.1, hp.2.2, ⟨data, hdata, hvalue⟩, hleaf, hheeded, ?_⟩
  intro r hr hstem hne data' hdata'
  -- besides the file there is one of this name, which is the other
  have hrq : r = q := by
    rw [files_eq] at hr
    simp only [List.mem_cons, List.not_mem_nil, or_false] at hr
    rcases hr with rfl | rfl | rfl
    · rcases hfiles with ⟨rfl, -⟩ | ⟨-, rfl⟩
      · exact absurd rfl hne
      · rfl
    · exact absurd hstem (by decide)
    · rcases hfiles with ⟨-, rfl⟩ | ⟨rfl, -⟩
      · rfl
      · exact absurd rfl hne
  rw [hrq] at hdata'
  rwa [Except.ok.inj (hdata'.symm.trans hother)]

end Indexed

open Indexed

end ApiTree
