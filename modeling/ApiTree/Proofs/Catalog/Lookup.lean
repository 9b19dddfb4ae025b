import ApiTree.Proofs.Catalog.Versions
import ApiTree.Proofs.Entries

/-!
# Tables that differ in one version

A table is read by looking up an operation and a version. `Adds k v` relates two tables that answer
alike for every version but `v`, where the second also has the operation `k`. The relation is kept
by whatever is added to both tables, and it is all that other versions see: they resolve to the same
fragments, and the operations are the same ones but for a new `k`.
-/

set_option autoImplicit false

namespace ApiTree.OperationTable

variable {table table' : OperationTable} {k : OperationKey} {v : String}

/-! ## Looking up -/

/-- The fragment of an operation for a version, if the table has one. -/
def lookup (table : OperationTable) (k : OperationKey) (version : String) : Option Fields :=
  (Entries.get? k table).bind (Entries.get? version)

theorem lookup_add (k l : OperationKey) (v w : String) (content : Fields) :
    (table.add k v content).lookup l w =
      if k = l ∧ v = w then some content else table.lookup l w := by
  rw [lookup, lookup, add, Entries.get?_put]
  by_cases hkl : k = l
  · subst hkl
    rw [if_pos rfl, Option.bind_some, Entries.get?_put]
    simp only [true_and]
    -- an operation that is new to the table has no other version
    cases Entries.get? k table with
    | none => rfl
    | some fragments => rfl
  · simp only [hkl, if_false, false_and]

/-- An operation resolves to its fragment for the version, or else to its draft. -/
theorem resolve_eq_ok_iff {version : Option String} {content : Fields} :
    table.resolve k version = .ok content ↔
      (table.lookup k (versionOrDraft version)).or (table.lookup k draft) = some content := by
  rw [resolve, lookup, lookup]
  cases Entries.get? k table with
  | none => simp
  | some fragments =>
    simp only [Option.bind_some]
    split
    · next h => rw [h, Except.ok.injEq, Option.some.injEq]
    · next h => simp [h]

/-- An operation that does not resolve is told. -/
theorem exists_report_of_resolve {version : Option String} {fault : Fault}
    (h : table.resolve k version = .error fault) : ∃ report, fault.report? = some report := by
  rw [resolve] at h
  split at h
  · rw [← Except.error.inj h]
    exact ⟨_, rfl⟩
  · split at h
    · cases h
    · rw [← Except.error.inj h]
      exact ⟨_, rfl⟩

/-- The versions of a table that holds each operation once. -/
theorem mem_datedVersions_iff (h : (Entries.keys table).Nodup) {w : String} :
    w ∈ table.datedVersions ↔ w ≠ draft ∧ ∃ k content, table.lookup k w = some content := by
  rw [mem_datedVersions]
  refine and_congr_right fun _ => ⟨?_, ?_⟩
  · rintro ⟨⟨k, fragments⟩, hmem, hw⟩
    obtain ⟨content, hcontent⟩ := Entries.exists_get?_of_mem_keys hw
    refine ⟨k, content, ?_⟩
    rw [lookup, Entries.get?_of_mem h hmem]
    exact hcontent
  · rintro ⟨k, content, hlookup⟩
    obtain ⟨fragments, hfragments, hcontent⟩ := Option.bind_eq_some_iff.mp hlookup
    exact ⟨(k, fragments), Entries.mem_of_get? hfragments, Entries.mem_keys_of_get? hcontent⟩

/-! ## The order of operations -/

theorem before_iff {k l : OperationKey} :
    before k l = true ↔ k.path < l.path ∨ k.path = l.path ∧ k.method ≤ l.method := by
  simp [before]

theorem before_antisymm {k l : OperationKey} (h : before k l = true) (h' : before l k = true) :
    k = l := by
  rw [before_iff] at h h'
  obtain ⟨method, path⟩ := k
  obtain ⟨method', path'⟩ := l
  rcases h with hlt | ⟨heq, hle⟩ <;> rcases h' with hlt' | ⟨heq', hle'⟩
  · exact absurd hlt' (lt_asymm hlt)
  · exact absurd heq' hlt.ne'
  · exact absurd heq hlt'.ne'
  · rw [OperationKey.mk.injEq]
    exact ⟨le_antisymm hle hle', heq⟩

theorem pairwise_operations (table : OperationTable) :
    table.operations.Pairwise fun k l => before k l = true := by
  refine List.pairwise_mergeSort (fun k l m hkl hlm => ?_) (fun k l => ?_) _
  · rw [before_iff] at hkl hlm ⊢
    rcases hkl with hlt | ⟨heq, hle⟩ <;> rcases hlm with hlt' | ⟨heq', hle'⟩
    · exact .inl (hlt.trans hlt')
    · exact .inl (heq' ▸ hlt)
    · exact .inl (heq ▸ hlt')
    · exact .inr ⟨heq.trans heq', hle.trans hle'⟩
  · rw [Bool.or_eq_true, before_iff, before_iff]
    rcases lt_trichotomy k.path l.path with hlt | heq | hlt
    · exact .inl (.inl hlt)
    · rcases le_total k.method l.method with hle | hle
      · exact .inl (.inr ⟨heq, hle⟩)
      · exact .inr (.inr ⟨heq.symm, hle⟩)
    · exact .inr (.inl hlt)

/-! ## One version more -/

/-- The tables hold each operation once. They have the same fragments for the versions but `v`, and
the same operations but for `k`, which the second has. -/
structure Adds (k : OperationKey) (v : String) (table table' : OperationTable) : Prop where
  once : (Entries.keys table).Nodup
  once' : (Entries.keys table').Nodup
  keys : ∀ l, l ∈ Entries.keys table' ↔ l = k ∨ l ∈ Entries.keys table
  lookup : ∀ l w, w ≠ v → table'.lookup l w = table.lookup l w

/-- A table with a fragment for a version. -/
theorem adds_add (h : (Entries.keys table).Nodup) (k : OperationKey) (v : String)
    (content : Fields) : Adds k v table (table.add k v content) := by
  refine ⟨h, Entries.nodup_keys_put _ _ h, fun l => Entries.mem_keys_put, fun l w hw => ?_⟩
  rw [lookup_add, if_neg fun hboth => hw hboth.2.symm]

/-- What is added to both tables makes no difference. -/
theorem Adds.add (h : Adds k v table table') (l : OperationKey) (w : String) (content : Fields) :
    Adds k v (table.add l w content) (table'.add l w content) := by
  refine ⟨Entries.nodup_keys_put _ _ h.once, Entries.nodup_keys_put _ _ h.once', fun m => ?_,
    fun m u hu => ?_⟩
  · rw [OperationTable.add, OperationTable.add, Entries.mem_keys_put, Entries.mem_keys_put, h.keys]
    exact or_left_comm
  · rw [lookup_add, lookup_add, h.lookup m u hu]

/-- An operation resolves for the other versions to what it did, unless the draft is the version. -/
theorem Adds.resolve_eq_ok_iff (h : Adds k v table table') (hv : v ≠ draft) {l : OperationKey}
    {version : Option String} (hversion : versionOrDraft version ≠ v) {content : Fields} :
    table'.resolve l version = .ok content ↔ table.resolve l version = .ok content := by
  rw [OperationTable.resolve_eq_ok_iff, OperationTable.resolve_eq_ok_iff, h.lookup l _ hversion,
    h.lookup l _ (Ne.symm hv)]

/-- The other versions are those that were there. -/
theorem Adds.versions (h : Adds k v table table') :
    table'.versions.filter (· ≠ v) = table.versions.filter (· ≠ v) := by
  have hdated : table'.datedVersions.filter (· ≠ v) = table.datedVersions.filter (· ≠ v) := by
    refine List.Pairwise.eq_of_mem_iff (table'.pairwise_datedVersions.filter _)
      (table.pairwise_datedVersions.filter _) fun w => ?_
    simp only [List.mem_filter, mem_datedVersions_iff h.once, mem_datedVersions_iff h.once',
      decide_eq_true_eq]
    refine and_congr_left fun hw => and_congr_right fun _ => exists_congr fun l => ?_
    rw [h.lookup l w hw]
  rw [OperationTable.versions, OperationTable.versions, List.filter_append, List.filter_append,
    hdated]

/-- The operations are those that were there, with the added one among them if it is new. -/
theorem Adds.operations (h : Adds k v table table') :
    table'.operations = table.operations ∨
      k ∉ Entries.keys table ∧ ∃ before after, table.operations = before ++ after ∧
        table'.operations = before ++ k :: after := by
  have hperm := List.mergeSort_perm (Entries.keys table) before
  have hperm' := List.mergeSort_perm (Entries.keys table') before
  by_cases hk : k ∈ Entries.keys table
  · have hsame : (Entries.keys table').Perm (Entries.keys table) :=
      (List.perm_ext_iff_of_nodup h.once' h.once).mpr fun l => by
        rw [h.keys]
        exact or_iff_right_of_imp fun hl => hl ▸ hk
    exact .inl (((hperm'.trans hsame).trans hperm.symm).eq_of_pairwise
      (fun l m _ _ => before_antisymm) (pairwise_operations table') (pairwise_operations table))
  · have hmore : (Entries.keys table').Perm (k :: Entries.keys table) :=
      (List.perm_ext_iff_of_nodup h.once' (List.nodup_cons.mpr ⟨hk, h.once⟩)).mpr fun l => by
        rw [h.keys, List.mem_cons]
    exact .inr ⟨hk, exists_split_of_perm (fun l _ m _ => before_antisymm)
      (pairwise_operations table) (pairwise_operations table')
      ((hperm'.trans hmore).trans (hperm.symm.cons k))⟩

end ApiTree.OperationTable
