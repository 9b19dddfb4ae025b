import ApiTree.Proofs.Document.Compile
import ApiTree.Proofs.Fragment.Hereditary

/-!
# Files that hold mappings

Files that hold mappings are compiled to a document unless one of them is spoiled, and then
compilation ends with the failure of the first one that is (`compile_of_loaded`). The document is
refused only where every violation is told, and its messages can be written if the integers of the
files can be.
-/

set_option autoImplicit false

namespace ApiTree

open Value Fragment

namespace Document

section

variable (disk : Disk) (root : FilePath) (base : String)

/-- The file holds a mapping that can be written out. -/
def Loads (path : String) : Prop :=
  ∃ content, read disk (FilePath.ofText path) = .ok content ∧ (Value.map content).hasLiteral = true

/-- The file holds a mapping that cannot become a part of the document, and why. -/
def IsSpoiled (path : String) (failure : Failure) : Prop :=
  ∃ content, read disk (FilePath.ofText path) = .ok content ∧
    Spoils (Place.ofPath root (FilePath.ofText path) base) content failure

end

section

variable {disk : Disk} {root : FilePath} {base path : String}

/-- A file contributes what its fragment becomes. -/
theorem expandedContribution_of_read {content : Fields}
    (h : read disk (FilePath.ofText path) = .ok content) :
    expandedContribution disk root base path =
      (ofContent path (Place.ofPath root (FilePath.ofText path) base) content).transform.mapError
        .failed := by
  rw [expandedContribution, unexpandedContribution, collect_eq_exec, fst_exec_load, h, transform]
  change (unexpanded (ofContent path _ content)).mapError Fault.failed >>= _ = _
  cases (ofContent path (Place.ofPath root (FilePath.ofText path) base) content).unexpanded <;> rfl

/-- A file that can be read fails to contribute exactly if it is spoiled. -/
theorem expandedContribution_eq_error_iff_of_read {content : Fields}
    (hread : read disk (FilePath.ofText path) = .ok content) {fault : Fault} :
    expandedContribution disk root base path = .error fault ↔
      ∃ failure, IsSpoiled disk root base path failure ∧ fault = .failed failure := by
  rw [expandedContribution_of_read hread, mapError_eq_error, Place.ofPath]
  refine exists_congr fun failure => and_congr ?_ eq_comm
  rw [transform_eq_error_iff]
  constructor
  · exact fun hspoils => ⟨content, hread, hspoils⟩
  · rintro ⟨content', hread', hspoils⟩
    rwa [Except.ok.inj (hread.symm.trans hread')]

theorem succeeds_expandedContribution_iff_of_read {content : Fields}
    (hread : read disk (FilePath.ofText path) = .ok content) :
    Succeeds (expandedContribution disk root base path) ↔
      ∀ failure, ¬ IsSpoiled disk root base path failure := by
  have herror (fault : Fault) : expandedContribution disk root base path = .error fault ↔
      ∃ failure, IsSpoiled disk root base path failure ∧ fault = .failed failure :=
    expandedContribution_eq_error_iff_of_read hread
  cases hresult : expandedContribution disk root base path with
  | ok data =>
    refine iff_of_true ⟨data, rfl⟩ fun failure hspoiled => ?_
    rw [(herror _).mpr ⟨failure, hspoiled, rfl⟩] at hresult
    cases hresult
  | error fault =>
    obtain ⟨failure, hspoiled, -⟩ := (herror fault).mp hresult
    exact iff_of_false (not_succeeds_error fault) fun hnone => hnone failure hspoiled

theorem expandedContribution_eq_error_iff (h : Loads disk path) {fault : Fault} :
    expandedContribution disk root base path = .error fault ↔
      ∃ failure, IsSpoiled disk root base path failure ∧ fault = .failed failure := by
  obtain ⟨content, hread, -⟩ := h
  exact expandedContribution_eq_error_iff_of_read hread

theorem succeeds_expandedContribution_iff (h : Loads disk path) :
    Succeeds (expandedContribution disk root base path) ↔
      ∀ failure, ¬ IsSpoiled disk root base path failure := by
  obtain ⟨content, hread, -⟩ := h
  exact succeeds_expandedContribution_iff_of_read hread

/-- Whatever is told of values by their parts is handed down by files to what they are merged to. -/
theorem hereditary_mergeEach {P : Value → Prop} (hP : Hereditary P) {paths : List String}
    (hload : ∀ path ∈ paths, ∃ content, read disk (FilePath.ofText path) = .ok content ∧
      P (.map content)) {document : Fields}
    (h : mergeEach (expandedContribution disk root base) paths = .ok document) :
    P (.map document) := by
  induction paths using List.reverseRecOn generalizing document with
  | nil =>
    obtain rfl := Except.ok.inj h
    exact hP.nil
  | append_singleton before path ih =>
    rw [List.forall_mem_append, List.forall_mem_singleton] at hload
    obtain ⟨hbefore, content, hread, hcontent⟩ := hload
    obtain ⟨merged, data, hmerged, hdata, rfl⟩ := (mergeEach_concat_eq_ok _ _).mp h
    rw [expandedContribution_of_read hread, mapError_eq_ok] at hdata
    exact hP.mergeEntries _ (ih hbefore hmerged) (hP.transform hdata hcontent)

theorem hereditary_completed {P : Value → Prop} (hP : Hereditary P) {document : Fields}
    (h : P (.map document)) : P (.map (completed (withoutNotes document))) := by
  have hnotes : P (.map (withoutNotes document)) :=
    hP.of_subset h fun e he => List.mem_of_mem_filter he
  exact hP.mergeEntries _ (hP.single hP.nil)
    (hP.mergeEntries _ hnotes (hP.single (hP.single (hP.str _))))

/-- A document is refused exactly if something is wrong with it, and then all of it is told. -/
theorem Compilation.valid_cases (c : Compilation) :
    c.violations = [] ∧ c.valid = .ok c.document ∨
      c.violations ≠ [] ∧ c.valid = .error (.violations c.violations) := by
  rw [valid]
  cases c.violations with
  | nil => exact .inl ⟨rfl, rfl⟩
  | cons v vs => exact .inr ⟨nofun, rfl⟩

theorem mem_validate {document : Value} {exclusions : List String} {v : Violation}
    (h : v ∈ violations document) :
    v.message ∈ exclusions ∨ v.message ∈ validate document exclusions := by
  rw [or_iff_not_imp_left]
  intro hexcluded
  refine List.mem_filter.mpr ⟨List.mem_map_of_mem h, ?_⟩
  simpa using hexcluded

/-- A document is compiled exactly from what files can be merged to. -/
theorem succeeds_compile_iff {exclusions paths : List String} :
    Succeeds (compile disk root base exclusions paths).collect.1 ↔
      Succeeds (mergeEach (expandedContribution disk root base) paths) := by
  rw [collect_compile, collect_mergeFiles, succeeds_map]

theorem compile_eq_error_iff {exclusions paths : List String} {fault : Fault} :
    (compile disk root base exclusions paths).collect.1 = .error fault ↔
      mergeEach (expandedContribution disk root base) paths = .error fault := by
  rw [collect_compile, collect_mergeFiles, map_eq_error]

theorem succeeds_mergeEach_iff {contribution : String → Except Fault Fields} {paths : List String} :
    Succeeds (mergeEach contribution paths) ↔ ∀ path ∈ paths, Succeeds (contribution path) := by
  have hround : ∀ path ∈ paths, ∀ document : Fields,
      Succeeds (do return mergeEntries document (← contribution path)) ↔
        Succeeds (contribution path) :=
    fun _ _ _ => succeeds_bind_of_forall fun _ => succeeds_pure _
  exact succeeds_foldlM hround []

theorem mergeEach_eq_error_iff {contribution : String → Except Fault Fields} {paths : List String}
    {fault : Fault} : mergeEach contribution paths = .error fault ↔
      ∃ before path after, paths = before ++ path :: after ∧
        (∀ p ∈ before, Succeeds (contribution p)) ∧ contribution path = .error fault :=
  foldlM_eq_error_iff

/-- Files that hold mappings are compiled to a document exactly if none of them is spoiled; otherwise
the failure of the first spoiled one is the result. What is wrong with the document is told, each
violation that is not excluded, and the document is refused for nothing else. All of it can be
written out, so that the messages can. -/
theorem compile_of_loaded (exclusions paths : List String)
    (hload : ∀ path ∈ paths, Loads disk path) :
    let compiled := (compile disk root base exclusions paths).collect.1
    ((∃ c, compiled = .ok c) ↔ ∀ path ∈ paths, ∀ failure, ¬ IsSpoiled disk root base path failure) ∧
    (∀ fault, compiled = .error fault ↔ ∃ before path after failure,
      paths = before ++ path :: after ∧
        (∀ p ∈ before, ∀ other, ¬ IsSpoiled disk root base p other) ∧
        IsSpoiled disk root base path failure ∧ fault = .failed failure) ∧
    ∀ c, compiled = .ok c →
      (c.violations = [] ∧ c.valid = .ok c.document ∨
        c.violations ≠ [] ∧ c.valid = .error (.violations c.violations)) ∧
      (∀ v ∈ violations (.map (completed c.document)),
        v.message ∈ exclusions ∨ v.message ∈ c.violations) ∧
      (Value.map (completed c.document)).hasLiteral = true := by
  intro compiled
  refine ⟨?_, fun fault => ?_, fun c hc => ⟨c.valid_cases, ?_⟩⟩
  · refine succeeds_compile_iff.trans (succeeds_mergeEach_iff.trans ?_)
    exact forall₂_congr fun path hpath => succeeds_expandedContribution_iff (hload path hpath)
  · rw [compile_eq_error_iff, mergeEach_eq_error_iff]
    constructor
    · rintro ⟨before, path, after, rfl, hbefore, hpath⟩
      rw [List.forall_mem_append, List.forall_mem_cons] at hload
      obtain ⟨failure, hspoiled, rfl⟩ := (expandedContribution_eq_error_iff hload.2.1).mp hpath
      exact ⟨before, path, after, failure, rfl, fun p hp =>
        (succeeds_expandedContribution_iff (hload.1 p hp)).mp (hbefore p hp), hspoiled, rfl⟩
    · rintro ⟨before, path, after, failure, rfl, hbefore, hspoiled, rfl⟩
      rw [List.forall_mem_append, List.forall_mem_cons] at hload
      exact ⟨before, path, after, rfl, fun p hp =>
        (succeeds_expandedContribution_iff (hload.1 p hp)).mpr (hbefore p hp),
        (expandedContribution_eq_error_iff hload.2.1).mpr ⟨failure, hspoiled, rfl⟩⟩
  · obtain ⟨document, hdocument, rfl⟩ := compile_eq_ok.mp hc
    exact ⟨fun v hv => mem_validate hv, hereditary_completed hereditary_hasLiteral
      (hereditary_mergeEach hereditary_hasLiteral hload hdocument)⟩

end

/-! ## An entry with a flat schema beside content that is no mapping -/

theorem place_schemas : Place.ofPath top (FilePath.ofText "schemas/a.yml") "/api" =
      { kind := .component, component := some .schemas } ∧
    Place.ofPath top (FilePath.ofText "schemas/c.yml") "/api" =
      { kind := .component, component := some .schemas } :=
  ⟨rfl, rfl⟩

/-- Two files of schemas of which none has a flat schema are compiled. -/
theorem compile_of_loaded_names :
    (∀ path ∈ ["schemas/a.yml", "schemas/c.yml"], Loads threeSchemas path) ∧
      ∃ c, (compile threeSchemas top "/api" [] ["schemas/a.yml", "schemas/c.yml"]).collect.1 =
        .ok c := by
  obtain ⟨ha, -, hc⟩ := read_threeSchemas
  obtain ⟨hplace, hplace'⟩ := place_schemas
  have hload : ∀ path ∈ ["schemas/a.yml", "schemas/c.yml"], Loads threeSchemas path := by
    simp only [List.forall_mem_cons, List.not_mem_nil, false_implies, implies_true, and_true]
    exact ⟨⟨_, ha, by decide⟩, ⟨_, hc, by decide⟩⟩
  refine ⟨hload, (compile_of_loaded [] _ hload).1.mpr fun path hpath failure => ?_⟩
  rintro ⟨content, hread, hspoils⟩
  simp only [List.mem_cons, List.not_mem_nil, or_false] at hpath
  rcases hpath with rfl | rfl
  · rw [hplace, Except.ok.inj (hread.symm.trans ha)] at hspoils
    obtain ⟨e, he, entry, hentry, -⟩ := hspoils.exists_crowded
    rw [List.mem_singleton.mp he] at hentry
    cases hentry
  · rw [hplace', Except.ok.inj (hread.symm.trans hc)] at hspoils
    obtain ⟨e, he, entry, hentry, hcrowded⟩ := hspoils.exists_crowded
    rw [List.mem_singleton.mp he] at hentry
    rw [← Value.map.inj hentry] at hcrowded
    exact absurd hcrowded (by decide)

/-- A tree with a response that has a flat schema beside content that is no mapping. -/
def crowdedTree : Disk :=
  ⟨["w"],
    [(["w", "responses"], .directory),
      (["w", "responses", "a.yml"], .file "Foo:\n  schema: Bar\n  content: 5\n".toUTF8)]⟩

/-- Files that hold mappings can end compilation without a message. -/
theorem compile_crowdedTree :
    Loads crowdedTree "responses/a.yml" ∧
      (compile crowdedTree top "/api" [] ["responses/a.yml"]).collect.1 =
        .error (.failed .noMember) := by
  have hread : read crowdedTree (FilePath.ofText "responses/a.yml") =
      .ok [(.str "Foo", .map [(.str "schema", .str "Bar"), (.str "content", .int 5)])] :=
    read_of_text "Foo:\n  schema: Bar\n  content: 5\n" rfl (decode_toUTF8 rfl)
      (by decide +kernel)
  have hplace : Place.ofPath top (FilePath.ofText "responses/a.yml") "/api" =
      { kind := .component, component := some .responses } := rfl
  have hcontribution : expandedContribution crowdedTree top "/api" "responses/a.yml" =
      .error (.failed .noMember) := by
    rw [expandedContribution_of_read hread, hplace]
    rfl
  refine ⟨⟨_, hread, by decide +kernel⟩, compile_eq_error_iff.mpr (mergeEach_eq_error_iff.mpr ?_)⟩
  exact ⟨[], _, [], rfl, nofun, hcontribution⟩

end Document
end ApiTree
